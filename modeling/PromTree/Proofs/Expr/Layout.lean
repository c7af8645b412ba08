import PromTree.Proofs.Expr.Text

namespace PromTree

def withoutBlanks (s : String) : String := String.ofList (s.toList.filter (!isBlank ·))

theorem withoutBlanks_space : withoutBlanks " " = "" := by decide

theorem withoutBlanks_newline : withoutBlanks "\n" = "" := by decide

theorem withoutBlanks_append (s t : String) :
    withoutBlanks (s ++ t) = withoutBlanks s ++ withoutBlanks t := by
  simp [withoutBlanks, String.ofList_append]

theorem withoutBlanks_intercalate (separator : String) (texts : List String) :
    withoutBlanks (String.intercalate separator texts) =
      String.intercalate (withoutBlanks separator) (texts.map withoutBlanks) := by
  induction texts with
  | nil => rfl
  | cons s texts ih =>
    cases texts with
    | nil => simp
    | cons t texts =>
      simp only [List.map_cons, String.intercalate_cons_cons, withoutBlanks_append] at ih ⊢
      rw [ih]

theorem withoutBlanks_dropLeadingBlanks (s : String) :
    withoutBlanks (dropLeadingBlanks s) = withoutBlanks s := by
  have hfilter (cs : List Char) : (cs.dropWhile isBlank).filter (!isBlank ·) =
      cs.filter (!isBlank ·) := by
    induction cs with
    | nil => rfl
    | cons c cs ih =>
      by_cases hc : isBlank c
      · simpa [hc] using ih
      · simp [hc]
  simp [withoutBlanks, dropLeadingBlanks, hfilter]

namespace Layout

theorem withoutBlanks_indent (l : Layout) (level : Nat) : withoutBlanks (l.indent level) = "" := by
  have hspaces : (List.replicate (2 * level) ' ').filter (!isBlank ·) = [] :=
    List.filter_eq_nil_iff.mpr fun c hc => by
      rw [List.eq_of_mem_replicate hc]
      decide
  rw [indent]
  split_ifs
  · simp [withoutBlanks, hspaces]
  · rfl

theorem withoutBlanks_parenthesize (l : Layout) (level : Nat) (inner : String) :
    withoutBlanks (l.parenthesize level inner) =
      withoutBlanks "(" ++ withoutBlanks inner ++ withoutBlanks ")" := by
  have hopen : withoutBlanks "(\n" = withoutBlanks "(" := by decide
  rw [parenthesize]
  split_ifs
  · simp only [withoutBlanks_append, withoutBlanks_indent, hopen, withoutBlanks_newline,
      String.empty_append, String.append_empty]
  · simp only [withoutBlanks_append]

theorem withoutBlanks_wrap (l : Layout) (level : Nat) (head : String) (args : List String) :
    withoutBlanks (l.wrap level head args) =
      withoutBlanks head ++ withoutBlanks "(" ++
        String.intercalate "," (args.map withoutBlanks) ++ withoutBlanks ")" := by
  have hopen : withoutBlanks "(\n" = withoutBlanks "(" := by decide
  have hseparators : withoutBlanks ",\n" = "," ∧ withoutBlanks ", " = "," := by decide
  have hnone : withoutBlanks "()" = withoutBlanks "(" ++ withoutBlanks ")" := by decide
  rw [wrap]
  -- indented without arguments, indented, and on one line
  split_ifs with hpretty hargs
  · rw [List.isEmpty_iff.mp hargs]
    simp [withoutBlanks_append, withoutBlanks_indent, hnone, String.append_assoc]
  · simp only [withoutBlanks_append, withoutBlanks_indent, withoutBlanks_intercalate, hopen,
      withoutBlanks_newline, hseparators, String.empty_append, String.append_empty]
  · simp only [withoutBlanks_append, withoutBlanks_intercalate, hseparators]

theorem withoutBlanks_operand (l l' : Layout) {render render' : Nat → String}
    (h : ∀ n n', withoutBlanks (render n) = withoutBlanks (render' n')) (level level' : Nat)
    (wrapped : Bool) : withoutBlanks (l.operand level wrapped render) =
      withoutBlanks (l'.operand level' wrapped render') := by
  rw [operand, operand]
  split_ifs
  · rw [withoutBlanks_parenthesize, withoutBlanks_parenthesize, h (level + 1) (level' + 1)]
  · exact h level level'

end Layout

namespace Expr

/-- The indented text and the text on one line differ in blanks alone, at any two levels and whether
or not trivial parentheses are left out. -/
theorem withoutBlanks_render_pretty (e : Expr) (strip : Bool) (level level' : Nat) :
    withoutBlanks (e.render ⟨true, strip⟩ level) =
      withoutBlanks (e.render ⟨false, strip⟩ level') := by
  induction e generalizing level level' with
  | node e ih =>
    have hoperand (c : Expr) (hc : c ∈ e.children) :=
      Layout.withoutBlanks_operand ⟨true, strip⟩ ⟨false, strip⟩ (ih c hc)
    cases e with
    | aggregation op grouping param body =>
      have hbody := ih body (by simp [children]) (level + 1) (level' + 1)
      cases param with
      | none => simp only [render, Layout.withoutBlanks_wrap, List.map_cons, List.map_nil, hbody]
      | some param =>
        have hparam := ih param (by simp [children]) (level + 1) (level' + 1)
        simp only [render, Layout.withoutBlanks_wrap, List.map_cons, List.map_nil, hbody, hparam]
    | binary op matching returnBool lhs rhs =>
      have hleft := hoperand lhs (by simp [children]) (level + 1) (level' + 1)
      have hright := hoperand rhs (by simp [children]) (level + 1) (level' + 1)
      simp only [render, ↓reduceIte, Bool.false_eq_true, withoutBlanks_append, hleft, hright,
        Layout.withoutBlanks_indent, withoutBlanks_newline, withoutBlanks_space,
        String.append_empty]
    | call func args =>
      have hargs : (args.map fun c => c.render ⟨true, strip⟩ (level + 1)).map withoutBlanks =
          (args.map fun c => c.render ⟨false, strip⟩ (level' + 1)).map withoutBlanks := by
        rw [List.map_map, List.map_map]
        exact List.map_congr_left fun c hc => ih c hc (level + 1) (level' + 1)
      simp only [render, renderAll_eq, Layout.withoutBlanks_wrap, hargs]
    | subquery window body =>
      have hbody := hoperand body (by simp [children]) level level'
      simp only [render, withoutBlanks_append, hbody]
    | unary sign body =>
      have hbody := hoperand body (by simp [children]) level level'
      simp only [render, withoutBlanks_append, withoutBlanks_dropLeadingBlanks,
        Layout.withoutBlanks_indent, hbody]
    | paren body =>
      have hbody := ih body (by simp [children])
      simp only [render]
      split_ifs
      · exact hbody level level'
      · rw [Layout.withoutBlanks_parenthesize, Layout.withoutBlanks_parenthesize,
          hbody (level + 1) (level' + 1)]
    | _ => simp only [render, withoutBlanks_append, Layout.withoutBlanks_indent]

end Expr

end PromTree
