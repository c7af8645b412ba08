import PromTree.Expr.Basic
import PromTree.Query.Span

namespace PromTree

inductive QueryError where
  | malformed
  | unsupported (feature : String)
  | unrepresentableSpan
  deriving DecidableEq

abbrev Parsed := Except QueryError

namespace QueryError

def unsupportedMessage (feature : String) : String := "unsupported expression: " ++ feature

end QueryError

inductive AggregatorWord where
  | known (op : Aggregator)
  | limitk
  | limitRatio
  deriving DecidableEq

namespace AggregatorWord

def paramType? : AggregatorWord → Option ValueType
  | .known .countValues => some .string
  | .known op => if op.hasParam then some .scalar else none
  | .limitk | .limitRatio => some .scalar

def tokenNumber : AggregatorWord → Nat
  | .limitk => 57
  | .limitRatio => 58
  | .known _ => 0

end AggregatorWord

inductive EvalTime where
  | fixed (milliseconds : Int64)
  | rangeEnd (which : RangeEnd)
  deriving DecidableEq

structure SignedSpan where
  negative : Bool
  span : Span
  deriving DecidableEq

structure Modifiers where
  offset : Option SignedSpan
  time : Option EvalTime
  deriving DecidableEq

def Modifiers.absent : Modifiers := ⟨none, none⟩

/-- A selector as written: the name before the braces, the matchers in them, and whether the word
`or` divides them. -/
structure Pattern where
  name : Option String
  matchers : List LabelMatcher
  hasAlternatives : Bool
  deriving DecidableEq

structure GroupClause where
  side : Cardinality
  labels : List String
  deriving DecidableEq

structure OperatorClauses where
  returnBool : Bool
  matching : Option (Bool × List String)
  group : Option GroupClause
  deriving DecidableEq

inductive Term where
  | number (value : Binary64)
  | string (value : String)
  | selector (pattern : Pattern) (modifiers : Modifiers)
  | matrix (pattern : Pattern) (range : Span) (modifiers : Modifiers)
  | subquery (body : Term) (range : Span) (step : Option Span) (modifiers : Modifiers)
  | paren (body : Term)
  | minus (body : Term)
  | binary (op : BinaryOp) (clauses : OperatorClauses) (lhs rhs : Term)
  | call (name : String) (args : List Term)
  | aggregate (op : AggregatorWord) (grouping : Option Grouping) (args : List Term)

namespace Term

def negated : Term → Term
  | .number x => .number x.neg
  | t => .minus t

mutual

def foldSigns : Term → Term
  | .subquery body range step modifiers => .subquery body.foldSigns range step modifiers
  | .paren body => .paren body.foldSigns
  | .minus body => body.foldSigns.negated
  | .binary op clauses lhs rhs => .binary op clauses lhs.foldSigns rhs.foldSigns
  | .call name args => .call name (foldAllSigns args)
  | .aggregate op grouping args => .aggregate op grouping (foldAllSigns args)
  | t => t

def foldAllSigns : List Term → List Term
  | [] => []
  | t :: ts => t.foldSigns :: foldAllSigns ts

end

end Term

end PromTree
