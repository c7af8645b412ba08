import PromTree.Proofs.Expr.Parentheses
import PromTree.Proofs.Query.Durations

namespace PromTree

theorem ofNat_natAbs {n : Int64} (h : 0 ≤ n.toInt) : Int64.ofNat n.toInt.natAbs = n := by
  have habs : (n.toInt.natAbs : Int) = n.toInt := Int.natAbs_of_nonneg h
  rw [← Int64.ofInt_eq_ofNat, habs, Int64.ofInt_toInt]

theorem neg_ofNat_natAbs {n : Int64} (h : n.toInt < 0) : -Int64.ofNat n.toInt.natAbs = n := by
  have habs : (n.toInt.natAbs : Int) = -n.toInt := Int.ofNat_natAbs_of_nonpos h.le
  rw [← Int64.ofInt_eq_ofNat, habs, Int64.ofInt_neg, Int64.ofInt_toInt, Int64.neg_neg]

namespace TimeShift

def signedOffset? (s : TimeShift) : Option SignedSpan :=
  if 0 < s.offset.toInt then some ⟨false, .ofMilliseconds s.offset.toInt.natAbs⟩
  else if s.offset.toInt < 0 then some ⟨true, .ofMilliseconds s.offset.toInt.natAbs⟩
  else none

def evalTime? (s : TimeShift) : Option EvalTime :=
  match s.timestamp, s.rangeEnd with
  | some ms, _ => some (.fixed ms)
  | none, some e => some (.rangeEnd e)
  | none, none => none

def modifiers (s : TimeShift) : Modifiers := ⟨s.signedOffset?, s.evalTime?⟩

end TimeShift

namespace Selector

def statedMatchers (s : Selector) : List LabelMatcher := s.matchers.filter (!s.repeatsName ·)

def pattern (s : Selector) : Pattern :=
  ⟨if s.name = "" then none else some s.name, s.statedMatchers, false⟩

end Selector

namespace VectorMatching

def statesLabels (m : VectorMatching) : Bool := m.on || !m.labels.isEmpty || m.isGrouped

def labelClause? (m : VectorMatching) : Option (Bool × List String) :=
  if m.statesLabels then some (m.on, m.labels) else none

def groupClause? (m : VectorMatching) : Option GroupClause :=
  if m.isGrouped then some ⟨m.cardinality, m.included⟩ else none

end VectorMatching

def OperatorClauses.ofMatching (returnBool : Bool) (matching : Option VectorMatching) :
    OperatorClauses :=
  ⟨returnBool, matching.bind VectorMatching.labelClause?, matching.bind VectorMatching.groupClause?⟩

def Grouping.stated? (g : Grouping) : Option Grouping :=
  if g.without || !g.labels.isEmpty then some g else none

def Window.statedStep? (w : Window) : Option Span :=
  if w.step = 0 then none else some (.ofMilliseconds w.step.toNat)

namespace Literal

def value? (text : String) : Option Binary64 :=
  (Token.ofChars? text.toList).bind Token.numeric?

end Literal

/-- The term of a shape and the terms of its children. A plus is not part of a term. -/
def Shape.term : Shape → List Term → Term
  | .aggregation op grouping, args => .aggregate (.known op) grouping.stated? args
  | .binary op matching returnBool, [lhs, rhs] =>
    .binary op (.ofMatching returnBool matching) lhs rhs
  | .call func, args => .call func.name args
  | .matrixSelector selector range, _ =>
    .matrix selector.pattern (.ofMilliseconds range.toNat) selector.shift.modifiers
  | .subquery window, [body] =>
    .subquery body (.ofMilliseconds window.range.toNat) window.statedStep? window.shift.modifiers
  | .number text, _ => .number ((Literal.value? text).getD .nan)
  | .paren, [body] => .paren body
  | .unary sign, [body] => .signed (sign == .minus) body
  | .string value, _ => .string value
  | .vectorSelector selector, _ => .selector selector.pattern selector.shift.modifiers
  | _, _ => .string placeholderMark

def Expr.term (e : Expr) : Term := e.fold Shape.term

theorem Expr.term_eq (e : Expr) : e.term = e.shape.term (e.children.map term) := fold_eq _ e

namespace Term

mutual

def withoutParens : Term → Term
  | .subquery body range step modifiers => .subquery body.withoutParens range step modifiers
  | .paren body => body.withoutParens
  | .minus body => .minus body.withoutParens
  | .binary op clauses lhs rhs => .binary op clauses lhs.withoutParens rhs.withoutParens
  | .call name args => .call name (withoutParensAll args)
  | .aggregate op grouping args => .aggregate op grouping (withoutParensAll args)
  | t => t

def withoutParensAll : List Term → List Term
  | [] => []
  | t :: ts => t.withoutParens :: withoutParensAll ts

end

theorem withoutParensAll_eq (ts : List Term) : withoutParensAll ts = ts.map withoutParens := by
  induction ts with
  | nil => rfl
  | cons t ts ih => rw [withoutParensAll, ih, List.map_cons]

end Term

namespace Expr

theorem withoutParens_term_inParensIf (e : Expr) (wrapped : Bool) :
    (e.inParensIf wrapped).term.withoutParens = e.term.withoutParens := by
  cases wrapped
  · rfl
  · rw [inParensIf, if_pos rfl, term_eq]
    simp only [shape, children, List.map_cons, List.map_nil, Shape.term, Term.withoutParens]

theorem withoutParens_term_parenthesized (e : Expr) :
    e.parenthesized.term.withoutParens = e.term.withoutParens := by
  induction e with
  | node e ih =>
    rw [term_eq, term_eq, shape_parenthesized]
    cases e with
    | aggregation op grouping param body =>
      cases param <;>
        simp_all [parenthesized, shape, children, Shape.term, Term.withoutParens,
          Term.withoutParensAll_eq]
    | call func args =>
      simp_all [parenthesized, parenthesizedAll_eq, shape, children, Shape.term,
        Term.withoutParens, Term.withoutParensAll_eq]
    | unary sign body =>
      have hbody := ih body (by simp [children])
      cases sign <;>
        simp [parenthesized, shape, children, Shape.term, Term.signed, Term.withoutParens,
          withoutParens_term_inParensIf, hbody]
    | binary | subquery | paren =>
      simp_all [parenthesized, shape, children, Shape.term, Term.withoutParens,
        withoutParens_term_inParensIf]
    | placeholder => simp only [shape, Shape.term]
    | _ => rfl

end Expr

end PromTree
