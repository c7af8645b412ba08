import PromTree.Explanation
import PromTree.Proofs.Decimal.Text
import PromTree.Proofs.Expr.Text

namespace PromTree

def Marked (s : String) : Prop := placeholderMark.toList <:+: s.toList

theorem marked_iff {s : String} : Marked s ↔ '…' ∈ s.toList := List.singleton_infix_iff _ _

instance (s : String) : Decidable (Marked s) := decidable_of_iff _ marked_iff.symm

theorem marked_placeholderMark : Marked placeholderMark := List.infix_rfl

@[simp]
theorem marked_append {s t : String} : Marked (s ++ t) ↔ Marked s ∨ Marked t := by
  simp [marked_iff]

theorem marked_ofList {cs : List Char} : Marked (String.ofList cs) ↔ '…' ∈ cs := by
  rw [marked_iff, String.toList_ofList]

theorem marked_intercalate {separator : String} (hs : ¬Marked separator) (texts : List String) :
    Marked (String.intercalate separator texts) ↔ ∃ t ∈ texts, Marked t := by
  induction texts with
  | nil => simp [marked_iff]
  | cons s texts ih =>
    cases texts with
    | nil => simp
    | cons t texts =>
      rw [String.intercalate_cons_cons, marked_append, marked_append, ih, List.exists_mem_cons_iff]
      simp [hs]

@[simp]
theorem marked_dropLeadingBlanks {s : String} : Marked (dropLeadingBlanks s) ↔ Marked s := by
  have hmark : ¬isBlank '…' := by decide
  rw [dropLeadingBlanks, marked_ofList, marked_iff]
  induction s.toList with
  | nil => rfl
  | cons c cs ih =>
    by_cases hc : isBlank c
    · have hne : '…' ≠ c := fun h => hmark (h ▸ hc)
      rw [List.dropWhile_cons_of_pos hc, List.mem_cons, or_iff_right hne]
      exact ih
    · rw [List.dropWhile_cons_of_neg hc]

@[simp]
theorem marked_quoteString {s : String} : Marked (quoteString s) ↔ Marked s := by
  have hescape (c : Char) : '…' ∈ escapeChar c ↔ c = '…' := by
    rw [escapeChar]
    split_ifs with hbackslash hquote hnewline
    · simp [hbackslash]
    · simp [hquote]
    · simp [hnewline]
    · simp [eq_comm]
  have hquote : ¬Marked "\"" := by decide
  rw [quoteString, marked_append, marked_append, or_iff_left hquote, or_iff_right hquote,
    escapeString, marked_ofList, List.mem_flatMap, marked_iff]
  simp [hescape]

namespace Layout

@[simp]
theorem not_marked_indent (l : Layout) (level : Nat) : ¬Marked (l.indent level) := by
  rw [indent]
  split_ifs
  · simp [marked_ofList]
  · decide

@[simp]
theorem marked_parenthesize (l : Layout) (level : Nat) {inner : String} :
    Marked (l.parenthesize level inner) ↔ Marked inner := by
  rw [parenthesize]
  split_ifs <;> simp +decide

theorem marked_operand {l : Layout} {level : Nat} {wrapped : Bool} {render : Nat → String}
    {P : Prop} (h : ∀ n, Marked (render n) ↔ P) : Marked (l.operand level wrapped render) ↔ P := by
  rw [operand]
  split_ifs
  · rw [marked_parenthesize, h]
  · exact h level

theorem marked_wrap (l : Layout) (level : Nat) (head : String) (args : List String) :
    Marked (l.wrap level head args) ↔ Marked head ∨ ∃ s ∈ args, Marked s := by
  rw [wrap]
  split_ifs with hpretty hargs
  · rw [List.isEmpty_iff.mp hargs]
    simp +decide
  · simp +decide [marked_intercalate]
  · simp +decide [marked_intercalate]

end Layout

@[simp]
theorem Aggregator.not_marked_name (op : Aggregator) : ¬Marked op.name := by
  cases op <;> decide

@[simp]
theorem BinaryOp.not_marked_symbol (op : BinaryOp) : ¬Marked op.symbol := by
  cases op <;> decide

@[simp]
theorem Sign.not_marked_symbol (sign : Sign) : ¬Marked sign.symbol := by
  cases sign <;> decide

@[simp]
theorem MatchType.not_marked_symbol (type : MatchType) : ¬Marked type.symbol := by
  cases type <;> decide

theorem not_mem_of_isDigit {cs : List Char} (h : ∀ c ∈ cs, c.isDigit) : '…' ∉ cs :=
  fun hmark => absurd (h _ hmark) (by decide)

theorem not_mem_toDigits (n : Nat) : '…' ∉ Nat.toDigits 10 n :=
  not_mem_of_isDigit fun _ h => Nat.isDigit_of_mem_toDigits (by decide) (by decide) h

@[simp]
theorem Duration.not_marked_text (ms : Nat) : ¬Marked (Duration.text ms) := by
  have hsymbol (u : TimeUnit) : '…' ∉ u.symbol := by cases u <;> decide
  rw [text, marked_ofList, chars]
  split_ifs
  · decide
  · simp [Component.chars, not_mem_toDigits, hsymbol]

namespace TimeShift

theorem not_mem_fixed (places : Nat) (x : Rat) : '…' ∉ Decimal.fixed places x := by
  obtain ⟨whole, fraction, hfixed, -, hdigits, -⟩ :=
    Decimal.exists_withPlaces places (Nat.toDigits_ne_nil (n := roundHalfEven (x * 10 ^ places)))
      fun _ h => Nat.isDigit_of_mem_toDigits (b := 10) (by decide) (by decide) h
  have hmark := not_mem_of_isDigit hdigits
  rw [List.mem_append, not_or] at hmark
  rw [Decimal.fixed, hfixed, Decimal.pointed]
  split_ifs
  · exact hmark.1
  · simp [hmark]

theorem not_marked_timestampText (ms : Int64) : ¬Marked (timestampText ms) := by
  rw [timestampText]
  split
  · rw [marked_append, marked_ofList, or_iff_left (not_mem_fixed _ _)]
    split_ifs <;> decide
  · decide

@[simp]
theorem not_marked_text (s : TimeShift) : ¬Marked s.text := by
  have hoffset : ¬Marked (offsetText s.offset) := by
    rw [offsetText]
    split_ifs <;> simp +decide
  rw [text, marked_append, or_iff_left hoffset]
  split <;> simp +decide [not_marked_timestampText]

end TimeShift

def Selector.strings (s : Selector) : List String :=
  s.name :: s.matchers.flatMap fun m => [m.name, m.value]

def Shape.strings : Shape → List String
  | .aggregation _ grouping => grouping.labels
  | .binary _ matching _ => matching.elim [] fun m => m.labels ++ m.included
  | .call func => [func.name]
  | .matrixSelector selector _ | .vectorSelector selector => selector.strings
  | .number text | .string text => [text]
  | .subquery _ | .paren | .unary _ | .placeholder => []

def Shape.wording : Shape → String
  | .aggregation op grouping => op.name ++ grouping.text
  | .binary op matching returnBool => operatorText op matching returnBool
  | .call func => func.name
  | .matrixSelector selector _ | .vectorSelector selector => selector.text
  | .number text => text
  | .string value => quoteString value
  | .unary sign => sign.symbol
  | .subquery _ | .paren => ""
  | .placeholder => placeholderMark

theorem Grouping.marked_text {g : Grouping} : Marked g.text ↔ ∃ l ∈ g.labels, Marked l := by
  rw [text]
  split_ifs with hwithout hlabels
  · simp +decide [marked_intercalate]
  · simp +decide [List.isEmpty_iff.mp hlabels]
  · simp +decide [marked_intercalate]

theorem VectorMatching.exists_marked_of_text {m : VectorMatching} (h : Marked m.text) :
    ∃ l ∈ m.labels ++ m.included, Marked l := by
  simp only [List.mem_append, or_and_right, exists_or]
  rw [text, marked_append] at h
  refine h.imp (fun hlabels => ?_) fun hgroup => ?_
  · split_ifs at hlabels
    · simpa +decide [marked_intercalate] using hlabels
    · simpa +decide [marked_intercalate] using hlabels
    · exact absurd hlabels (by decide)
  · split at hgroup
    · simpa +decide [marked_intercalate] using hgroup
    · simpa +decide [marked_intercalate] using hgroup
    · exact absurd hgroup (by decide)
    · exact absurd hgroup (by decide)

theorem LabelMatcher.marked_text {m : LabelMatcher} :
    Marked m.text ↔ Marked m.name ∨ Marked m.value := by
  simp [text]

theorem Selector.exists_marked_of_matcher {s : Selector} {m : LabelMatcher} (hm : m ∈ s.matchers)
    (h : Marked m.text) : ∃ t ∈ s.strings, Marked t := by
  have hstrings (t : String) (ht : t ∈ [m.name, m.value]) : t ∈ s.strings :=
    .tail _ (List.mem_flatMap.mpr ⟨m, hm, ht⟩)
  rcases LabelMatcher.marked_text.mp h with hname | hvalue
  · exact ⟨m.name, hstrings _ (by simp), hname⟩
  · exact ⟨m.value, hstrings _ (by simp), hvalue⟩

theorem Selector.exists_marked_of_text {s : Selector} (h : Marked s.text) :
    ∃ t ∈ s.strings, Marked t := by
  rw [text] at h
  split_ifs at h
  · exact ⟨s.name, .head _, h⟩
  · rw [marked_append, marked_append, marked_append, marked_intercalate (by decide)] at h
    rcases h with ((hname | hopen) | hinner) | hclose
    · exact ⟨s.name, .head _, hname⟩
    · exact absurd hopen (by decide)
    · obtain ⟨_, ht, hmark⟩ := hinner
      obtain ⟨m, hm, rfl⟩ := List.mem_map.mp ht
      exact exists_marked_of_matcher (List.mem_of_mem_filter hm) hmark
    · exact absurd hclose (by decide)

theorem Shape.marked_wording {s : Shape} (h : Marked s.wording) :
    s = .placeholder ∨ ∃ text ∈ s.strings, Marked text := by
  cases s with
  | aggregation op grouping =>
    exact .inr (by simpa [wording, strings, Grouping.marked_text] using h)
  | binary op matching returnBool =>
    have hbool : ¬Marked (if returnBool then " bool" else "") := by split_ifs <;> decide
    cases matching with
    | none => simp +decide [wording, operatorText, hbool] at h
    | some m =>
      exact .inr (VectorMatching.exists_marked_of_text
        (by simpa [wording, operatorText, hbool] using h))
  | matrixSelector | vectorSelector => exact .inr (Selector.exists_marked_of_text h)
  | call | number => exact .inr ⟨_, List.mem_singleton_self _, h⟩
  | string value => exact .inr ⟨value, List.mem_singleton_self _, marked_quoteString.mp h⟩
  | unary sign => exact absurd h (Sign.not_marked_symbol sign)
  | subquery | paren => exact absurd h (show ¬Marked "" by decide)
  | placeholder => exact .inl rfl

namespace Expr

variable {P Q : Shape → Prop} {e : Expr}

def Somewhere (P : Shape → Prop) (e : Expr) : Prop :=
  ∃ path c, e.subterm? path = some c ∧ P c.shape

theorem somewhere_iff : e.Somewhere P ↔ P e.shape ∨ ∃ c ∈ e.children, c.Somewhere P := by
  constructor
  · rintro ⟨path, d, hd, hown⟩
    cases path with
    | nil => exact .inl (Option.some.inj hd ▸ hown)
    | cons i path =>
      obtain ⟨c, hc, hrest⟩ := Option.bind_eq_some_iff.mp hd
      exact .inr ⟨c, List.mem_of_getElem? hc, path, d, hrest, hown⟩
  · rintro (hown | ⟨c, hc, path, d, hd, hbelow⟩)
    · exact ⟨[], e, rfl, hown⟩
    · obtain ⟨i, hi⟩ := List.mem_iff_getElem?.mp hc
      exact ⟨i :: path, d, by rw [subterm?, hi, Option.bind_some, hd], hbelow⟩

theorem Somewhere.imp (h : e.Somewhere P) (hpq : ∀ s, P s → Q s) : e.Somewhere Q := by
  obtain ⟨path, c, hc, hown⟩ := h
  exact ⟨path, c, hc, hpq _ hown⟩

theorem somewhere_or : e.Somewhere (fun s => P s ∨ Q s) ↔ e.Somewhere P ∨ e.Somewhere Q := by
  simp only [Somewhere, and_or_left, exists_or]

def HasGap (e : Expr) : Prop := e.Somewhere (· = .placeholder)

theorem containsPlaceholder_iff : e.containsPlaceholder ↔ e.HasGap := by
  induction e with
  | node e ih =>
    have hown : e.shape.isPlaceholder ↔ e.shape = .placeholder := by
      cases e <;> simp [shape, Shape.isPlaceholder]
    rw [HasGap, somewhere_iff, ← hown, containsPlaceholder_eq, Bool.or_eq_true, List.any_eq_true]
    exact or_congr_right (exists_congr fun c => and_congr_right fun hc => ih c hc)

def ShowsMark (e : Expr) : Prop := e.Somewhere fun s => Marked s.wording

theorem showsMark_iff :
    e.ShowsMark ↔ Marked e.shape.wording ∨ ∃ c ∈ e.children, c.ShowsMark := somewhere_iff

theorem marked_render_iff (e : Expr) (l : Layout) (level : Nat) :
    Marked (e.render l level) ↔ e.ShowsMark := by
  induction e generalizing level with
  | node e ih =>
    have hoperand (c : Expr) (hc : c ∈ e.children) (level : Nat) (wrapped : Bool) :
        Marked (l.operand level wrapped fun n => c.render l n) ↔ c.ShowsMark :=
      Layout.marked_operand (ih c hc)
    rw [showsMark_iff]
    cases e with
    | aggregation op grouping param body =>
      have hbody := ih body (by simp [children])
      cases param with
      | none => simp [render, Layout.marked_wrap, shape, Shape.wording, children, hbody]
      | some param =>
        have hparam := ih param (by simp [children])
        simp [render, Layout.marked_wrap, shape, Shape.wording, children, hparam, hbody]
    | binary op matching returnBool lhs rhs =>
      have hleft := hoperand lhs (by simp [children])
      have hright := hoperand rhs (by simp [children])
      simp only [render, shape, Shape.wording, children]
      split_ifs <;> simp +decide [hleft, hright, or_left_comm, or_assoc]
    | call func args =>
      simp only [render, renderAll_eq, Layout.marked_wrap, shape, Shape.wording, children,
        List.mem_map, exists_exists_and_eq_and]
      exact or_congr_right (exists_congr fun c => and_congr_right fun hc => ih c hc _)
    | subquery window body =>
      have hbody := hoperand body (by simp [children])
      have hstep : ¬Marked (if window.step = 0 then "" else Duration.text window.step.toNat) := by
        split_ifs <;> simp +decide
      simp +decide [render, shape, Shape.wording, children, hbody, hstep]
    | paren body =>
      have hbody := ih body (by simp [children])
      simp only [render]
      split_ifs <;> simp +decide [shape, Shape.wording, children, hbody]
    | unary sign body =>
      have hbody := hoperand body (by simp [children])
      simp [render, shape, Shape.wording, children, hbody]
    -- What lies below a placeholder is not in the text, but the placeholder itself has the mark.
    | _ => simp +decide [render, shape, Shape.wording, children]

/-- What becomes of an expression with a gap: the text has the mark, which it otherwise does not have
unless one of the strings has it, and neither an explanation nor the state of a query comes from
asking for anything. -/
structure TellsGaps (e : Expr) : Prop where
  submittable : e.isSubmittable ↔ ¬e.HasGap
  marked (l : Layout) (h : e.HasGap) : Marked (e.render l 0)
  gap (l : Layout) (hstrings : ¬e.Somewhere fun s => ∃ text ∈ s.strings, Marked text)
    (h : Marked (e.render l 0)) : e.HasGap
  explanation (h : e.HasGap) : ∃ error ∈ [ExplainError.incomplete, .notBinary],
    ∀ {m : Type → Type} [Monad m] (ask : String → m Reply) (limits : MatchLimits),
      Explanation.ofExpr ask limits e = pure (.error error)
  state (h : e.HasGap) {m : Type → Type} [Monad m] (ask : String → m Reply) (queryTime : UInt64) :
    QueryState.ofExpr? ask queryTime e = pure (some .incomplete)

theorem isSubmittable_iff : e.isSubmittable ↔ ¬e.HasGap := by
  rw [← containsPlaceholder_iff, isSubmittable, Bool.not_eq_true', Bool.not_eq_true]

theorem exists_error_of_hasGap (h : e.HasGap) :
    ∃ error ∈ [ExplainError.incomplete, .notBinary], BinaryPlan.ofExpr e = .error error := by
  have hsubmittable : ¬e.isSubmittable := fun hs => isSubmittable_iff.mp hs h
  rw [BinaryPlan.ofExpr]
  split
  · exact ⟨.incomplete, .head _, if_neg hsubmittable⟩
  · exact ⟨.notBinary, .tail _ (.head _), rfl⟩

theorem tellsGaps (e : Expr) : e.TellsGaps where
  submittable := isSubmittable_iff
  marked l h := by
    rw [marked_render_iff]
    refine h.imp fun s hs => ?_
    rw [hs]
    exact marked_placeholderMark
  gap l hstrings h := by
    rw [marked_render_iff] at h
    have hcause := somewhere_or.mp (h.imp fun s => Shape.marked_wording)
    exact hcause.resolve_right hstrings
  explanation h := by
    obtain ⟨error, hmem, herror⟩ := exists_error_of_hasGap h
    refine ⟨error, hmem, fun ask limits => ?_⟩
    rw [Explanation.ofExpr, herror]
  state h m _ ask queryTime := if_neg fun hs => isSubmittable_iff.mp hs h

/-- A string with the mark looks like a gap. -/
example : Marked (text (.string "…")) ∧ ¬(string "…").containsPlaceholder := by decide +kernel

end Expr

end PromTree
