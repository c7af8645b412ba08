import PromTree.Decimal.Fixed
import PromTree.Duration
import PromTree.Expr.Basic
import PromTree.Text.Blank

namespace PromTree

def escapeChar (c : Char) : List Char :=
  if c = '\\' then ['\\', '\\']
  else if c = '"' then ['\\', '"']
  else if c = '\n' then ['\\', 'n']
  else [c]

def escapeString (s : String) : String := String.ofList (s.toList.flatMap escapeChar)

def quoteString (s : String) : String := "\"" ++ escapeString s ++ "\""

def placeholderMark : String := "…"

structure Layout where
  pretty : Bool
  stripTrivialParens : Bool
  deriving DecidableEq

namespace Layout

def canonical : Layout := ⟨false, false⟩

def indented : Layout := ⟨true, false⟩

def indent (l : Layout) (level : Nat) : String :=
  if l.pretty then String.ofList (List.replicate (2 * level) ' ') else ""

def parenthesize (l : Layout) (level : Nat) (inner : String) : String :=
  if l.pretty then l.indent level ++ "(\n" ++ inner ++ "\n" ++ l.indent level ++ ")"
  else "(" ++ inner ++ ")"

def operand (l : Layout) (level : Nat) (wrapped : Bool) (render : Nat → String) : String :=
  if wrapped then l.parenthesize level (render (level + 1)) else render level

def wrap (l : Layout) (level : Nat) (head : String) (args : List String) : String :=
  if l.pretty then
    if args.isEmpty then l.indent level ++ head ++ "()"
    else l.indent level ++ head ++ "(\n" ++ String.intercalate ",\n" args ++ "\n" ++
      l.indent level ++ ")"
  else head ++ "(" ++ String.intercalate ", " args ++ ")"

end Layout

namespace LabelMatcher

def text (m : LabelMatcher) : String := m.name ++ m.matchType.symbol ++ quoteString m.value

end LabelMatcher

namespace TimeShift

def timestampText (ms : Int64) : String :=
  let seconds := (Binary64.ofInt ms.toInt).value?.getD 0 / 1000
  match Binary64.ofRat (decide (ms.toInt < 0)) seconds.abs with
  | .finite negative m e =>
    (if negative then "-" else "") ++ String.ofList (Decimal.fixed 3 (Binary64.scaled m e))
  | _ => ""

def offsetText (offset : Int64) : String :=
  if 0 < offset.toInt then " offset " ++ Duration.text offset.toInt.natAbs
  else if offset.toInt < 0 then " offset -" ++ Duration.text offset.toInt.natAbs
  else ""

def text (s : TimeShift) : String :=
  let fixed := match s.timestamp, s.rangeEnd with
    | some ms, _ => " @ " ++ timestampText ms
    | none, some .start => " @ start()"
    | none, some .finish => " @ end()"
    | none, none => ""
  fixed ++ offsetText s.offset

end TimeShift

namespace Selector

def repeatsName (s : Selector) (m : LabelMatcher) : Bool :=
  m.name == "__name__" && m.value == s.name && s.name != ""

def text (s : Selector) : String :=
  let matchers := (s.matchers.filter fun m => !s.repeatsName m).map LabelMatcher.text
  if matchers.isEmpty && s.name != "" then s.name
  else s.name ++ "\x7b" ++ String.intercalate "," matchers ++ "\x7d"

end Selector

namespace VectorMatching

def isGrouped (m : VectorMatching) : Bool :=
  m.cardinality == .manyToOne || m.cardinality == .oneToMany

def text (m : VectorMatching) : String :=
  let labels :=
    if m.on || !m.labels.isEmpty || m.isGrouped then
      (if m.on then " on(" else " ignoring(") ++ String.intercalate ", " m.labels ++ ")"
    else ""
  let group := match m.cardinality with
    | .manyToOne => " group_left(" ++ String.intercalate ", " m.included ++ ")"
    | .oneToMany => " group_right(" ++ String.intercalate ", " m.included ++ ")"
    | .oneToOne | .manyToMany => ""
  labels ++ group

end VectorMatching

namespace Grouping

def text (g : Grouping) : String :=
  if g.without then " without(" ++ String.intercalate ", " g.labels ++ ") "
  else if g.labels.isEmpty then ""
  else " by(" ++ String.intercalate ", " g.labels ++ ") "

end Grouping

def operatorText (op : BinaryOp) (matching : Option VectorMatching) (returnBool : Bool) : String :=
  op.symbol ++ (if returnBool then " bool" else "") ++ (matching.elim "" VectorMatching.text)

namespace Shape

def isLeaf : Shape → Bool
  | .vectorSelector .. | .matrixSelector .. | .number .. | .string .. => true
  | _ => false

/-- Whether an operand with this outermost shape needs parentheses beside the operator. -/
def needsParens (child : Shape) (parent : BinaryOp) (isRight : Bool) : Bool :=
  match child with
  | .binary op .. =>
    op.precedence < parent.precedence ||
      (op.precedence == parent.precedence && isRight != parent.isRightAssociative)
  | .unary _ => !isRight && parent == .pow
  | _ => false

def needsParensAfterSign : Shape → Bool
  | .binary op .. => op.precedence < BinaryOp.pow.precedence
  | _ => false

def needsParensInSubquery : Shape → Bool
  | .binary .. | .unary .. => true
  | _ => false

end Shape

namespace Expr

mutual

def render (l : Layout) (level : Nat) : Expr → String
  | .aggregation op grouping none body =>
    l.wrap level (op.name ++ grouping.text) [body.render l (level + 1)]
  | .aggregation op grouping (some param) body =>
    l.wrap level (op.name ++ grouping.text) [param.render l (level + 1), body.render l (level + 1)]
  | .binary op matching returnBool lhs rhs =>
    let operator := operatorText op matching returnBool
    let left := l.operand (level + 1) (lhs.shape.needsParens op false) fun n => lhs.render l n
    let right := l.operand (level + 1) (rhs.shape.needsParens op true) fun n => rhs.render l n
    if l.pretty then left ++ "\n" ++ l.indent level ++ operator ++ "\n" ++ right
    else left ++ " " ++ operator ++ " " ++ right
  | .call func args => l.wrap level func.name (renderAll l (level + 1) args)
  | .matrixSelector selector range =>
    l.indent level ++ selector.text ++ "[" ++ Duration.text range.toNat ++ "]" ++
      selector.shift.text
  | .subquery window body =>
    l.operand level body.shape.needsParensInSubquery (fun n => body.render l n) ++ "[" ++
      Duration.text window.range.toNat ++ ":" ++
      (if window.step = 0 then "" else Duration.text window.step.toNat) ++ "]" ++
      window.shift.text
  | .number text => l.indent level ++ text
  | .string value => l.indent level ++ quoteString value
  | .paren body =>
    if l.stripTrivialParens && body.shape.isLeaf then body.render l level
    else l.parenthesize level (body.render l (level + 1))
  | .unary sign body =>
    l.indent level ++ sign.symbol ++
      dropLeadingBlanks (l.operand level body.shape.needsParensAfterSign fun n => body.render l n)
  | .vectorSelector selector => l.indent level ++ selector.text ++ selector.shift.text
  | .placeholder _ => l.indent level ++ placeholderMark

def renderAll (l : Layout) (level : Nat) : List Expr → List String
  | [] => []
  | e :: es => e.render l level :: renderAll l level es

end

def text (e : Expr) : String := e.render .canonical 0

def prettyText (e : Expr) : String := e.render .indented 0

def isSubmittable (e : Expr) : Bool := !e.containsPlaceholder

end Expr

end PromTree
