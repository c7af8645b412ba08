import PromTree.Expr.Functions
import PromTree.Query.Term
import PromTree.Regex.Matcher

namespace PromTree

namespace Signature

def callable : List Signature :=
  all.filter (fun f => f.name != "mad_over_time") ++ [
    ⟨"histogram_avg", [.vector], 0, .vector⟩,
    ⟨"histogram_stddev", [.vector], 0, .vector⟩,
    ⟨"histogram_stdvar", [.vector], 0, .vector⟩,
    ⟨"double_exponential_smoothing", [.matrix, .scalar, .scalar], 0, .vector⟩,
    ⟨"sort_by_label", [.vector, .string, .string], -1, .vector⟩,
    ⟨"sort_by_label_desc", [.vector, .string, .string], -1, .vector⟩]

def callable? (name : String) : Option Signature := callable.find? fun f => f.name = name

def admitsCount (f : Signature) (count : Nat) : Bool :=
  let declared := f.argTypes.length
  if f.variadic = 0 then count == declared
  else if f.variadic < 0 then declared - 1 ≤ count
  else declared - 1 ≤ count && count ≤ declared - 1 + f.variadic.toInt.toNat

def admitsTypes (f : Signature) : List ValueType → Bool :=
  go f.argTypes
where
  go : List ValueType → List ValueType → Bool
    | _, [] => true
    | [], _ :: _ => false
    | [last], t :: ts => t == last && go [last] ts
    | declared :: more, t :: ts => t == declared && go more ts

end Signature

namespace LabelMatcher

def isUsable (m : LabelMatcher) : Bool :=
  match m.matchType with
  | .equal | .notEqual => true
  | .regexp | .notRegexp => (Regex.ofMatcher? m.value).isSome

def matchesEmpty (m : LabelMatcher) : Bool :=
  match m.matchType with
  | .equal => m.value == ""
  | .notEqual => m.value != ""
  | .regexp => (Regex.ofMatcher? m.value).any Regex.matchesEmpty
  | .notRegexp => !(Regex.ofMatcher? m.value).any Regex.matchesEmpty

end LabelMatcher

namespace Pattern

def isUsable (p : Pattern) : Bool :=
  p.matchers.all LabelMatcher.isUsable &&
    match p.name with
    | some _ => p.matchers.all fun m => m.name != "__name__"
    | none => p.matchers.any fun m => !m.matchesEmpty

end Pattern

namespace Term

def type : Term → ValueType
  | .number _ => .scalar
  | .string _ => .string
  | .selector .. | .aggregate .. => .vector
  | .matrix .. | .subquery .. => .matrix
  | .paren body | .minus body => body.type
  | .binary _ _ lhs rhs => if lhs.type = .scalar ∧ rhs.type = .scalar then .scalar else .vector
  | .call name _ => ((Signature.callable? name).map Signature.returnType).getD .none

/-- Whether a number lies where a function is defined on scalars too. -/
def isExempt (name : String) : List Term → Bool
  | .number x :: _ =>
    if name = "exp" then !x.isFinite
    else if ["ln", "log2", "log10"].contains name then
      !x.isFinite || x.value?.any (· ≤ 0)
    else false
  | _ => false

def admitsOperands (op : BinaryOp) (clauses : OperatorClauses) (lhs rhs : ValueType) : Bool :=
  let isOperand (t : ValueType) : Bool := t == .scalar || t == .vector
  let scalars := lhs == .scalar && rhs == .scalar
  let vectors := lhs == .vector && rhs == .vector
  let labels := clauses.matching.elim [] Prod.snd
  let taken := clauses.group.elim [] GroupClause.labels
  let isOn := clauses.matching.any Prod.fst
  isOperand lhs && isOperand rhs &&
    (!clauses.returnBool || op.isComparison) &&
    (!(scalars && op.isComparison) || clauses.returnBool) &&
    (!op.isSetOperator || (vectors && clauses.group.isNone)) &&
    (!isOn || !labels.any taken.contains) &&
    (vectors || labels.isEmpty)

def admitsArguments (op : AggregatorWord) (types : List ValueType) : Bool :=
  match op.paramType? with
  | none => types == [.vector]
  | some param => types == [param, .vector]

mutual

def isWellTyped : Term → Bool
  | .number _ | .string _ => true
  | .selector pattern _ | .matrix pattern _ _ => pattern.isUsable
  | .subquery body _ _ _ => body.type == .vector && body.isWellTyped
  | .paren body => body.isWellTyped
  | .minus body => (body.type == .scalar || body.type == .vector) && body.isWellTyped
  | .binary op clauses lhs rhs =>
    admitsOperands op clauses lhs.type rhs.type && lhs.isWellTyped && rhs.isWellTyped
  | .call name args =>
    match Signature.callable? name with
    | some f =>
      f.admitsCount args.length && (isExempt name args || f.admitsTypes (args.map type)) &&
        allWellTyped args
    | none => false
  | .aggregate op _ args => admitsArguments op (args.map type) && allWellTyped args

def allWellTyped : List Term → Bool
  | [] => true
  | t :: ts => t.isWellTyped && allWellTyped ts

end

end Term

end PromTree
