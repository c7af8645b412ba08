import PromTree.Expr.Printer
import PromTree.Matching.Codec
import PromTree.Sample.QueryState
import PromTree.Server.Api

namespace PromTree

abbrev Reply := Except ApiError QueryResult

structure BinaryPlan where
  op : BinaryOp
  matching : Option VectorMatching
  returnBool : Bool
  lhs : String
  rhs : String

inductive Explanation where
  | scalars (lhs rhs result : Float)
  | vectorScalar (scalar : Float) (scalarLeft : Bool) (rows : List ScalarRow)
  | vectors (table : MatchTable)

inductive ExplainError where
  | incomplete
  | notBinary
  | missingMatching
  | unexpectedResult (side : Side) (got : ValueType)
  | setOperator (op : BinaryOp)
  | api (error : ApiError)
  deriving DecidableEq

namespace ExplainError

def typeText : ValueType → String
  | .none => "None"
  | .vector => "Vector"
  | .scalar => "Scalar"
  | .matrix => "Matrix"
  | .string => "String"

def message : ExplainError → String
  | .incomplete => "expression contains unfinished nodes"
  | .notBinary => "not a binary expression"
  | .missingMatching => "vector-to-vector operation without vector matching"
  | .unexpectedResult side got =>
    side.name ++ " operand returned a " ++ typeText got ++ " result, expected " ++
      typeText .vector
  | .setOperator op => op.elementwiseMessage
  | .api error => error.message

def status : ExplainError → Nat
  | .incomplete | .notBinary | .missingMatching => 400
  | .api .aborted => 503
  | .unexpectedResult .. | .setOperator _ | .api _ => 502

end ExplainError

namespace BinaryPlan

def ofExpr (e : Expr) : Except ExplainError BinaryPlan :=
  match e.stripParens with
  | .binary op matching returnBool lhs rhs =>
    if e.isSubmittable then .ok ⟨op, matching, returnBool, lhs.text, rhs.text⟩
    else .error .incomplete
  | _ => .error .notBinary

def explainScalars (p : BinaryPlan) (l r : Float) : Except ExplainError Explanation :=
  match p.op.onScalars? l r with
  | some result => .ok (.scalars l r result)
  | none => .error (.setOperator p.op)

def explainVectorScalar (p : BinaryPlan) (vector : List Sample) (scalar : Float)
    (scalarLeft : Bool) : Except ExplainError Explanation :=
  match ScalarRow.ofVector? p.op p.returnBool vector scalar scalarLeft with
  | some rows => .ok (.vectorScalar scalar scalarLeft rows)
  | none => .error (.setOperator p.op)

def explainVectors (p : BinaryPlan) (lhs rhs : List Sample) (limits : MatchLimits) :
    Except ExplainError Explanation :=
  match p.matching with
  | some matching => .ok (.vectors (MatchTable.compute p.op matching p.returnBool lhs rhs limits))
  | none => .error .missingMatching

def explain (p : BinaryPlan) (limits : MatchLimits) :
    QueryResult → QueryResult → Except ExplainError Explanation
  | .scalar l, .scalar r => p.explainScalars l.value r.value
  | .vector v, .scalar s => p.explainVectorScalar v s.value false
  | .scalar s, .vector v => p.explainVectorScalar v s.value true
  | .vector l, .vector r => p.explainVectors l r limits
  | .vector _, r | .scalar _, r => .error (.unexpectedResult .right r.valueType)
  | l, _ => .error (.unexpectedResult .left l.valueType)

end BinaryPlan

namespace Explanation

def ofExpr {m : Type → Type} [Monad m] (ask : String → m Reply) (limits : MatchLimits) (e : Expr) :
    m (Except ExplainError Explanation) :=
  match BinaryPlan.ofExpr e with
  | .error error => pure (.error error)
  | .ok plan => do
    let lhs ← ask plan.lhs
    let rhs ← ask plan.rhs
    pure (match lhs, rhs with
      | .ok l, .ok r => plan.explain limits l r
      | .error error, _ | .ok _, .error error => .error (.api error))

def toJson : Explanation → Json
  | .scalars lhs rhs result =>
    .ofFields [("kind", .string "scalarScalar"), ("lhs", .ofFloat lhs), ("rhs", .ofFloat rhs),
      ("result", .ofFloat result)]
  | .vectorScalar scalar scalarLeft rows =>
    .ofFields [("kind", .string "vectorScalar"), ("scalar", .ofFloat scalar),
      ("scalarLeft", .bool scalarLeft), ("rows", .ofList ScalarRow.toJson rows)]
  | .vectors table => .ofFields (("kind", .string "vectorVector") :: table.toFields)

end Explanation

namespace QueryState

def ofReply? (queryTime : UInt64) : Reply → Option QueryState
  | .ok result => some (.success (.ofResult result queryTime))
  | Except.error .aborted => none
  | Except.error e => some (.error e.message)

def ofExpr? {m : Type → Type} [Monad m] (ask : String → m Reply) (queryTime : UInt64) (e : Expr) :
    m (Option QueryState) :=
  if e.isSubmittable then ofReply? queryTime <$> ask e.text else pure (some .incomplete)

end QueryState

end PromTree
