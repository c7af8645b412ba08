import PromTree.Expr.Printer
import PromTree.Proofs.Expr.Positions

namespace PromTree

def parenthesizedIf (wrapped : Bool) (text : String) : String :=
  if wrapped then "(" ++ text ++ ")" else text

namespace Layout

@[simp]
theorem pretty_canonical : canonical.pretty = false := rfl

@[simp]
theorem stripTrivialParens_canonical : canonical.stripTrivialParens = false := rfl

@[simp]
theorem indent_canonical (level : Nat) : canonical.indent level = "" := rfl

@[simp]
theorem wrap_canonical (level : Nat) (head : String) (args : List String) :
    canonical.wrap level head args = head ++ "(" ++ String.intercalate ", " args ++ ")" := rfl

@[simp]
theorem parenthesize_canonical (level : Nat) (inner : String) :
    canonical.parenthesize level inner = "(" ++ inner ++ ")" := rfl

end Layout

namespace Expr

attribute [local simp] render

theorem renderAll_eq (l : Layout) (level : Nat) (es : List Expr) :
    renderAll l level es = es.map fun e => e.render l level := by
  induction es with
  | nil => rfl
  | cons e es ih => rw [renderAll, ih, List.map_cons]

theorem render_canonical (e : Expr) (level : Nat) : e.render .canonical level = e.text := by
  have operand (c : Expr) (h : ∀ n m, c.render .canonical n = c.render .canonical m)
      (level : Nat) (wrapped : Bool) : Layout.canonical.operand level wrapped
        (fun n => c.render .canonical n) = parenthesizedIf wrapped (c.render .canonical 0) := by
    simp only [Layout.operand, h _ 0, Layout.parenthesize_canonical, parenthesizedIf]
  suffices h : ∀ n m, e.render .canonical n = e.render .canonical m from h level 0
  induction e with
  | node e ih =>
    intro n m
    cases e with
    | aggregation op grouping param body =>
      cases param with
      | none =>
        have hbody := ih body (by simp [children])
        simp only [render, Layout.wrap_canonical, hbody _ 0]
      | some param =>
        have hparam := ih param (by simp [children])
        have hbody := ih body (by simp [children])
        simp only [render, Layout.wrap_canonical, hparam _ 0, hbody _ 0]
    | binary op matching returnBool lhs rhs =>
      simp only [render, operand lhs (ih lhs (by simp [children])),
        operand rhs (ih rhs (by simp [children])), Layout.pretty_canonical, Bool.false_eq_true,
        ↓reduceIte]
    | call func args =>
      have hargs (n m : Nat) : args.map (fun c => c.render .canonical n) =
          args.map fun c => c.render .canonical m := List.map_congr_left fun c hc => ih c hc n m
      simp only [render, Layout.wrap_canonical, renderAll_eq, hargs _ 0]
    | subquery window body => simp only [render, operand body (ih body (by simp [children]))]
    | unary sign body =>
      simp only [render, operand body (ih body (by simp [children])), Layout.indent_canonical]
    | paren body =>
      have hbody := ih body (by simp [children])
      simp only [render, hbody _ 0, Layout.stripTrivialParens_canonical, Bool.false_and,
        Layout.parenthesize_canonical]
    | _ => rfl

theorem operand_canonical (e : Expr) (level : Nat) (wrapped : Bool) :
    Layout.canonical.operand level wrapped (fun n => e.render .canonical n) =
      parenthesizedIf wrapped e.text := by
  simp only [Layout.operand, render_canonical, Layout.parenthesize_canonical, parenthesizedIf]

theorem text_aggregation (op : Aggregator) (grouping : Grouping) (param : Option Expr)
    (body : Expr) : (aggregation op grouping param body).text = op.name ++ grouping.text ++ "(" ++
      String.intercalate ", " ((param.toList ++ [body]).map text) ++ ")" := by
  cases param <;> rw [text] <;> simp [render_canonical]

theorem text_binary (op : BinaryOp) (matching : Option VectorMatching) (returnBool : Bool)
    (lhs rhs : Expr) : (binary op matching returnBool lhs rhs).text =
      parenthesizedIf (lhs.shape.needsParens op false) lhs.text ++ " " ++
        operatorText op matching returnBool ++ " " ++
        parenthesizedIf (rhs.shape.needsParens op true) rhs.text := by
  rw [text]
  simp [operand_canonical]

theorem text_call (func : Signature) (args : List Expr) : (call func args).text =
    func.name ++ "(" ++ String.intercalate ", " (args.map text) ++ ")" := by
  rw [text]
  simp [renderAll_eq, render_canonical]

theorem text_subquery (window : Window) (body : Expr) : (subquery window body).text =
    parenthesizedIf body.shape.needsParensInSubquery body.text ++ "[" ++
      Duration.text window.range.toNat ++ ":" ++
      (if window.step = 0 then "" else Duration.text window.step.toNat) ++ "]" ++
      window.shift.text := by
  rw [text]
  simp [operand_canonical]

theorem text_paren (body : Expr) : (paren body).text = "(" ++ body.text ++ ")" := by
  rw [text]
  simp [render_canonical]

theorem text_unary (sign : Sign) (body : Expr) : (unary sign body).text =
    sign.symbol ++
      dropLeadingBlanks (parenthesizedIf body.shape.needsParensAfterSign body.text) := by
  rw [text]
  simp [operand_canonical]

theorem text_matrixSelector (selector : Selector) (range : UInt64) :
    (matrixSelector selector range).text =
      selector.text ++ "[" ++ Duration.text range.toNat ++ "]" ++ selector.shift.text := by
  rw [text]
  simp

theorem text_vectorSelector (selector : Selector) :
    (vectorSelector selector).text = selector.text ++ selector.shift.text := by
  rw [text]
  simp

end Expr

end PromTree
