import PromTree.Expr.Operators
import PromTree.Sample.Basic

namespace PromTree

namespace Binary64

def remainder (x y : Binary64) : Binary64 :=
  match x, y with
  | .nan, _ | _, .nan | .infinite _, _ => .nan
  | x, .infinite _ => x
  | .finite negative m e, .finite _ n f =>
    let divisor := scaled n f
    if n = 0 then .nan
    else
      let value := scaled m e
      .ofRat negative (value - divisor * (value / divisor).floor)

end Binary64

structure Outcome where
  value : Float
  keep : Bool

namespace BinaryOp

/-- An operator on two values; set operators have none. A comparison gives its left operand. -/
def elementwise? : BinaryOp → Option (Float → Float → Outcome)
  | .add => some fun l r => ⟨l + r, true⟩
  | .sub => some fun l r => ⟨l - r, true⟩
  | .mul => some fun l r => ⟨l * r, true⟩
  | .div => some fun l r => ⟨l / r, true⟩
  | .mod => some fun l r => ⟨(Binary64.remainder (.ofFloat l) (.ofFloat r)).toFloat, true⟩
  | .pow => some fun l r => ⟨l.pow r, true⟩
  | .atan2 => some fun l r => ⟨l.atan2 r, true⟩
  | .eql => some fun l r => ⟨l, l == r⟩
  | .neq => some fun l r => ⟨l, l != r⟩
  | .gtr => some fun l r => ⟨l, decide (r < l)⟩
  | .lss => some fun l r => ⟨l, decide (l < r)⟩
  | .gte => some fun l r => ⟨l, decide (r ≤ l)⟩
  | .lte => some fun l r => ⟨l, decide (l ≤ r)⟩
  | .and | .or | .unless => none

def truthValue (b : Bool) : Float := if b then 1 else 0

def onScalars? (op : BinaryOp) (l r : Float) : Option Float := do
  let f ← op.elementwise?
  some (if op.isComparison then truthValue (f l r).keep else (f l r).value)

def elementwiseMessage : BinaryOp → String
  | .and => "set operator And has no element-wise semantics"
  | .or => "set operator Or has no element-wise semantics"
  | .unless => "set operator Unless has no element-wise semantics"
  | _ => ""

def dropsName (op : BinaryOp) (returnBool : Bool) : Bool :=
  returnBool || !(op.isComparison || op.isSetOperator)

end BinaryOp

structure ScalarRow where
  input : Sample
  output : Sample
  kept : Bool
  deriving DecidableEq

namespace ScalarRow

def compute (f : Float → Float → Outcome) (op : BinaryOp) (returnBool : Bool) (scalar : Float)
    (scalarLeft : Bool) (s : Sample) : ScalarRow :=
  let v := s.point.value
  let outcome := if scalarLeft then f scalar v else f v scalar
  let value := if op.isComparison && scalarLeft then v else outcome.value
  let labels := if op.dropsName returnBool then s.labels.erase metricName else s.labels
  if returnBool then
    ⟨s, ⟨labels, .ofValue s.point.timestamp (BinaryOp.truthValue outcome.keep)⟩, true⟩
  else ⟨s, ⟨labels, .ofValue s.point.timestamp value⟩, outcome.keep⟩

def ofVector? (op : BinaryOp) (returnBool : Bool) (vector : List Sample) (scalar : Float)
    (scalarLeft : Bool) : Option (List ScalarRow) :=
  match op.elementwise? with
  | some f => some (vector.map (compute f op returnBool scalar scalarLeft))
  | none => if vector.isEmpty then some [] else none

end ScalarRow

end PromTree
