import PromTree.Proofs.Expr.Text

namespace PromTree

namespace Shape

def Groups : Shape → List Shape → Prop
  | .binary op .., [lhs, rhs] => lhs.needsParens op false = false ∧ rhs.needsParens op true = false
  | .subquery _, [body] => body.needsParensInSubquery = false
  | .unary _, [body] => body.needsParensAfterSign = false
  | _, _ => True

end Shape

namespace Expr

def inParensIf (wrapped : Bool) (e : Expr) : Expr := if wrapped then .paren e else e

mutual

def parenthesized : Expr → Expr
  | .aggregation op grouping none body => .aggregation op grouping none body.parenthesized
  | .aggregation op grouping (some param) body =>
    .aggregation op grouping (some param.parenthesized) body.parenthesized
  | .binary op matching returnBool lhs rhs =>
    .binary op matching returnBool
      (lhs.parenthesized.inParensIf (lhs.shape.needsParens op false))
      (rhs.parenthesized.inParensIf (rhs.shape.needsParens op true))
  | .call func args => .call func (parenthesizedAll args)
  | .subquery window body =>
    .subquery window (body.parenthesized.inParensIf body.shape.needsParensInSubquery)
  | .paren body => .paren body.parenthesized
  | .unary sign body =>
    .unary sign (body.parenthesized.inParensIf body.shape.needsParensAfterSign)
  | .placeholder children => .placeholder (parenthesizedAll children)
  | e => e

def parenthesizedAll : List Expr → List Expr
  | [] => []
  | e :: es => e.parenthesized :: parenthesizedAll es

end

theorem parenthesizedAll_eq (es : List Expr) : parenthesizedAll es = es.map parenthesized := by
  induction es with
  | nil => rfl
  | cons e es ih => rw [parenthesizedAll, ih, List.map_cons]

@[simp]
theorem shape_parenthesized (e : Expr) : e.parenthesized.shape = e.shape := by
  cases e with
  | aggregation op grouping param body => cases param <;> simp [parenthesized, shape]
  | _ => simp [parenthesized, shape]

theorem text_inParensIf (e : Expr) (wrapped : Bool) :
    (e.inParensIf wrapped).text = parenthesizedIf wrapped e.text := by
  cases wrapped
  · rfl
  · exact text_paren e

inductive IsGrouped : Expr → Prop where
  | node (e : Expr) (own : e.shape.Groups (e.children.map shape))
    (children : ∀ c ∈ e.children, IsGrouped c) : IsGrouped e

namespace IsGrouped

theorem own {e : Expr} (h : e.IsGrouped) : e.shape.Groups (e.children.map shape) := by
  cases h with
  | node _ own _ => exact own

theorem of_mem {e c : Expr} (h : e.IsGrouped) (hc : c ∈ e.children) : c.IsGrouped := by
  cases h with
  | node _ _ children => exact children c hc

theorem inParensIf {e : Expr} (h : e.IsGrouped) (wrapped : Bool) :
    (e.inParensIf wrapped).IsGrouped := by
  cases wrapped
  · exact h
  · exact .node _ trivial fun c hc => by simpa [(List.mem_singleton.mp hc)] using h

end IsGrouped

theorem isGrouped_binary {op : BinaryOp} {matching : Option VectorMatching} {returnBool : Bool}
    {lhs rhs : Expr} : (binary op matching returnBool lhs rhs).IsGrouped ↔
      (lhs.shape.needsParens op false = false ∧ rhs.shape.needsParens op true = false) ∧
        lhs.IsGrouped ∧ rhs.IsGrouped := by
  constructor
  · exact fun h => ⟨h.own, h.of_mem (by simp [children]), h.of_mem (by simp [children])⟩
  · rintro ⟨own, hl, hr⟩
    exact .node _ own (by simp [children, hl, hr])

theorem isGrouped_subquery {window : Window} {body : Expr} : (subquery window body).IsGrouped ↔
    body.shape.needsParensInSubquery = false ∧ body.IsGrouped := by
  constructor
  · exact fun h => ⟨h.own, h.of_mem (by simp [children])⟩
  · rintro ⟨own, h⟩
    exact .node _ own (by simp [children, h])

theorem isGrouped_unary {sign : Sign} {body : Expr} : (unary sign body).IsGrouped ↔
    body.shape.needsParensAfterSign = false ∧ body.IsGrouped := by
  constructor
  · exact fun h => ⟨h.own, h.of_mem (by simp [children])⟩
  · rintro ⟨own, h⟩
    exact .node _ own (by simp [children, h])

theorem needsParens_inParensIf (e : Expr) (op : BinaryOp) (isRight : Bool) :
    (e.parenthesized.inParensIf (e.shape.needsParens op isRight)).shape.needsParens op isRight =
      false := by
  cases h : e.shape.needsParens op isRight
  · rwa [inParensIf, if_neg Bool.false_ne_true, shape_parenthesized]
  · rfl

theorem needsParensInSubquery_inParensIf (e : Expr) :
    (e.parenthesized.inParensIf e.shape.needsParensInSubquery).shape.needsParensInSubquery =
      false := by
  cases h : e.shape.needsParensInSubquery
  · rwa [inParensIf, if_neg Bool.false_ne_true, shape_parenthesized]
  · rfl

theorem needsParensAfterSign_inParensIf (e : Expr) :
    (e.parenthesized.inParensIf e.shape.needsParensAfterSign).shape.needsParensAfterSign =
      false := by
  cases h : e.shape.needsParensAfterSign
  · rwa [inParensIf, if_neg Bool.false_ne_true, shape_parenthesized]
  · rfl

theorem isGrouped_parenthesized (e : Expr) : e.parenthesized.IsGrouped := by
  induction e with
  | node e ih =>
    cases e with
    | aggregation op grouping param body =>
      cases param <;> exact .node _ trivial (by simpa [parenthesized, children] using ih)
    | binary op matching returnBool lhs rhs =>
      have hl := (ih lhs (by simp [children])).inParensIf (lhs.shape.needsParens op false)
      have hr := (ih rhs (by simp [children])).inParensIf (rhs.shape.needsParens op true)
      rw [parenthesized]
      exact isGrouped_binary.mpr
        ⟨⟨needsParens_inParensIf .., needsParens_inParensIf ..⟩, hl, hr⟩
    | subquery window body =>
      have hbody := (ih body (by simp [children])).inParensIf body.shape.needsParensInSubquery
      rw [parenthesized]
      exact isGrouped_subquery.mpr ⟨needsParensInSubquery_inParensIf body, hbody⟩
    | unary sign body =>
      have hbody := (ih body (by simp [children])).inParensIf body.shape.needsParensAfterSign
      rw [parenthesized]
      exact isGrouped_unary.mpr ⟨needsParensAfterSign_inParensIf body, hbody⟩
    | call | placeholder =>
      exact .node _ trivial (by simpa [parenthesized, parenthesizedAll_eq, children] using ih)
    | paren => exact .node _ trivial (by simpa [parenthesized, children] using ih)
    | _ => exact .node _ trivial (by simp [parenthesized, children])

theorem text_parenthesized (e : Expr) : e.parenthesized.text = e.text := by
  induction e with
  | node e ih =>
    cases e with
    | aggregation op grouping param body =>
      cases param <;> simp_all [parenthesized, text_aggregation, children]
    | binary op matching returnBool lhs rhs =>
      have hl := ih lhs (by simp [children])
      have hr := ih rhs (by simp [children])
      simp only [parenthesized, text_binary, needsParens_inParensIf, text_inParensIf, hl, hr]
      rfl
    | subquery window body =>
      have hbody := ih body (by simp [children])
      simp only [parenthesized, text_subquery, needsParensInSubquery_inParensIf, text_inParensIf,
        hbody]
      rfl
    | unary sign body =>
      have hbody := ih body (by simp [children])
      simp only [parenthesized, text_unary, needsParensAfterSign_inParensIf, text_inParensIf, hbody]
      rfl
    | call func args =>
      have hargs : (args.map parenthesized).map text = args.map text := by
        rw [List.map_map]
        exact List.map_congr_left ih
      simp only [parenthesized, text_call, parenthesizedAll_eq, hargs]
    | paren body => simp_all [parenthesized, text_paren, children]
    | placeholder => simp only [parenthesized, text, render]
    | _ => simp only [parenthesized]

end Expr

end PromTree
