import PromTree.Proofs.Expr.Reading
import PromTree.Proofs.Query.Numbers
import PromTree.Proofs.Query.Plain

/-!
Numbers that are written with a sign. The grammar has no such literals: a sign before a number is an
operator of its own, which binds looser than a power. So a negative literal keeps its meaning in the
text of an expression unless it is the base of a power.
-/

namespace PromTree

namespace Literal

def signed? (text : String) : Option (Sign × String) :=
  match text.toList with
  | '-' :: cs => some (.minus, String.ofList cs)
  | '+' :: cs => some (.plus, String.ofList cs)
  | _ => none

def unsigned (text : String) : String := (signed? text).elim text Prod.snd

def signedValue? (text : String) : Option Binary64 :=
  (value? (unsigned text)).map fun x =>
    if (signed? text).any (·.1 == .minus) then x.neg else x

theorem text_eq_of_signed? {text unsigned : String} {sign : Sign}
    (h : signed? text = some (sign, unsigned)) : text = sign.symbol ++ unsigned := by
  rw [signed?] at h
  split at h
  · rename_i cs hcs
    obtain ⟨rfl, rfl⟩ := Prod.mk.inj (Option.some.inj h)
    exact String.toList_inj.mp (by rw [hcs, String.toList_append, String.toList_ofList]; rfl)
  · rename_i cs hcs
    obtain ⟨rfl, rfl⟩ := Prod.mk.inj (Option.some.inj h)
    exact String.toList_inj.mp (by rw [hcs, String.toList_append, String.toList_ofList]; rfl)
  · contradiction

theorem value?_chars {m : ℕ} {e : ℤ} (h : (Binary64.finite false m e).IsCanonical) :
    value? (String.ofList (SampleValue.chars (.finite false m e))) = some (.finite false m e) := by
  rw [value?, String.toList_ofList, Token.ofChars?_chars h]
  rfl

theorem signed?_text_nonneg (m : ℕ) (e : ℤ) :
    signed? (SampleValue.text (.finite false m e)) = none := by
  obtain ⟨c, cs, hcs, hc⟩ := (Decimal.shortest m e).exists_cons_positional
  simp only [signed?, SampleValue.text, String.toList_ofList, SampleValue.chars, hcs]
  split
  · rename_i heq
    exact absurd ((List.cons.inj heq).1 ▸ hc) (by decide)
  · rename_i heq
    exact absurd ((List.cons.inj heq).1 ▸ hc) (by decide)
  · rfl

theorem signedValue?_text {x : Binary64} (h : x.IsCanonical) :
    signedValue? (SampleValue.text x) = some x := by
  cases x with
  | nan => decide +kernel
  | infinite negative => cases negative <;> decide +kernel
  | finite negative m e =>
    have hvalue := value?_chars (m := m) (e := e) h
    cases negative with
    | true =>
      have hsigned : signed? (SampleValue.text (.finite true m e)) =
          some (.minus, String.ofList (SampleValue.chars (.finite false m e))) := by
        simp only [signed?, SampleValue.text, String.toList_ofList, SampleValue.chars]
      simp only [signedValue?, unsigned, hsigned, Option.elim_some, hvalue]
      rfl
    | false =>
      simp only [signedValue?, unsigned, signed?_text_nonneg, Option.elim_none]
      rw [SampleValue.text, hvalue]
      rfl

end Literal

namespace Expr

abbrev Everywhere (P : Expr → Prop) (e : Expr) : Prop := Hereditarily children P e

theorem everywhere_iff {P : Expr → Prop} (e : Expr) :
    e.Everywhere P ↔ P e ∧ ∀ c ∈ e.children, c.Everywhere P := Hereditarily.iff_below

def writtenSign? (strip : Bool) : Expr → Option (Sign × String)
  | .number text => Literal.signed? text
  | .paren (.number text) => if strip then Literal.signed? text else none
  | _ => none

def baseSign? (strip : Bool) (op : BinaryOp) (lhs : Expr) : Option (Sign × String) :=
  if op = .pow then lhs.writtenSign? strip else none

mutual

/-- The same expression with each sign of a literal in the place where the text puts it, and without
the parentheses that the text leaves out. -/
def spelled (strip : Bool) : Expr → Expr
  | .aggregation op grouping none body => .aggregation op grouping none (body.spelled strip)
  | .aggregation op grouping (some param) body =>
    .aggregation op grouping (some (param.spelled strip)) (body.spelled strip)
  | .binary op matching returnBool lhs rhs =>
    match lhs.baseSign? strip op with
    | some (sign, base) =>
      .unary sign (.binary op matching returnBool (.number base) (rhs.spelled strip))
    | none => .binary op matching returnBool (lhs.spelled strip) (rhs.spelled strip)
  | .call func args => .call func (spelledAll strip args)
  | .subquery window body => .subquery window (body.spelled strip)
  | .number text =>
    match Literal.signed? text with
    | some (sign, unsigned) => .unary sign (.number unsigned)
    | none => .number text
  | .paren body =>
    if strip && body.shape.isLeaf then body.spelled strip else .paren (body.spelled strip)
  | .unary sign body => .unary sign (body.spelled strip)
  | .placeholder children => .placeholder (spelledAll strip children)
  | e => e

def spelledAll (strip : Bool) : List Expr → List Expr
  | [] => []
  | e :: es => e.spelled strip :: spelledAll strip es

end

theorem spelledAll_eq (strip : Bool) (es : List Expr) :
    spelledAll strip es = es.map (spelled strip) := by
  induction es with
  | nil => rfl
  | cons e es ih => rw [spelledAll, ih, List.map_cons]

theorem baseSign?_eq_some_iff {strip : Bool} {op : BinaryOp} {lhs : Expr}
    {signed : Sign × String} :
    lhs.baseSign? strip op = some signed ↔ op = .pow ∧ lhs.writtenSign? strip = some signed := by
  simp [baseSign?]

theorem spelled_binary_cases (strip : Bool) (op : BinaryOp) (matching : Option VectorMatching)
    (returnBool : Bool) (lhs rhs : Expr) :
    (∃ sign base, op = .pow ∧ lhs.writtenSign? strip = some (sign, base) ∧
      (binary op matching returnBool lhs rhs).spelled strip =
        .unary sign (.binary op matching returnBool (.number base) (rhs.spelled strip))) ∨
    (op = .pow → lhs.writtenSign? strip = none) ∧
      (binary op matching returnBool lhs rhs).spelled strip =
        .binary op matching returnBool (lhs.spelled strip) (rhs.spelled strip) := by
  cases hbase : lhs.baseSign? strip op with
  | none =>
    refine .inr ⟨fun hop => ?_, by rw [spelled, hbase]⟩
    rwa [baseSign?, if_pos hop] at hbase
  | some signed =>
    obtain ⟨sign, base⟩ := signed
    obtain ⟨hop, hsign⟩ := baseSign?_eq_some_iff.mp hbase
    exact .inl ⟨sign, base, hop, hsign, by rw [spelled, hbase]⟩

end Expr

namespace Shape

def unsigned : Shape → Shape
  | .number text => .number (Literal.unsigned text)
  | s => s

def IsSignedReadable (s : Shape) : Prop := s.unsigned.IsReadable

instance (s : Shape) : Decidable s.IsSignedReadable :=
  inferInstanceAs (Decidable s.unsigned.IsReadable)

end Shape

namespace Expr

def IsSignedReadable (e : Expr) : Prop :=
  e.fold (fun s readable => decide s.IsSignedReadable && readable.all id) = true

instance (e : Expr) : Decidable e.IsSignedReadable := inferInstanceAs (Decidable (_ = _))

variable {strip : Bool} {e : Expr}

theorem isSignedReadable_iff (e : Expr) :
    e.IsSignedReadable ↔ e.shape.IsSignedReadable ∧ ∀ c ∈ e.children, c.IsSignedReadable := by
  rw [IsSignedReadable, fold_eq]
  simp [IsSignedReadable]

theorem isReadable_number {text : String} :
    (number text).IsReadable ↔ (Literal.value? text).isSome :=
  (isReadable_iff _).trans (and_iff_left nofun)

theorem isSignedReadable_number {text : String} :
    (number text).IsSignedReadable ↔ (Literal.value? (Literal.unsigned text)).isSome :=
  (isSignedReadable_iff _).trans (and_iff_left nofun)

theorem isReadable_unary {sign : Sign} : (unary sign e).IsReadable ↔ e.IsReadable := by
  rw [isReadable_iff]
  simp [shape, children, Shape.IsReadable]

theorem exists_number_of_writtenSign? {sign : Sign} {unsigned : String}
    (h : e.writtenSign? strip = some (sign, unsigned)) :
    ∃ text, Literal.signed? text = some (sign, unsigned) ∧
      (e = .number text ∨ strip = true ∧ e = .paren (.number text)) := by
  revert h
  fun_cases writtenSign? strip e with
  | case1 text => exact fun h => ⟨text, h, .inl rfl⟩
  | case2 text hstrip => exact fun h => ⟨text, h, .inr ⟨hstrip, rfl⟩⟩
  | case3 | case4 => exact nofun

theorem spelled_of_writtenSign? {sign : Sign} {unsigned : String}
    (h : e.writtenSign? strip = some (sign, unsigned)) :
    e.spelled strip = .unary sign (.number unsigned) := by
  obtain ⟨text, hsigned, rfl | ⟨rfl, rfl⟩⟩ := exists_number_of_writtenSign? h
  · rw [spelled, hsigned]
  · rw [spelled, if_pos (by rfl), spelled, hsigned]

theorem isReadable_of_writtenSign? (h : e.IsSignedReadable) {sign : Sign} {unsigned : String}
    (hsign : e.writtenSign? strip = some (sign, unsigned)) : (number unsigned).IsReadable := by
  obtain ⟨text, hsigned, he⟩ := exists_number_of_writtenSign? hsign
  have hnumber : (number text).IsSignedReadable := by
    rcases he with rfl | ⟨-, rfl⟩
    · exact h
    · exact ((isSignedReadable_iff _).mp h).2 _ List.mem_cons_self
  rw [isSignedReadable_number, Literal.unsigned, hsigned] at hnumber
  exact isReadable_number.mpr hnumber

theorem isReadable_spelled (strip : Bool) (h : e.IsSignedReadable) :
    (e.spelled strip).IsReadable := by
  induction e with
  | node e ih =>
    obtain ⟨hown, hchildren⟩ := e.isSignedReadable_iff.mp h
    replace ih (c : Expr) (hc : c ∈ e.children) := ih c hc (hchildren c hc)
    cases e with
    | aggregation op grouping param body =>
      refine (isReadable_iff _).mpr ?_
      cases param with
      | none => exact ⟨hown, by simpa [spelled, children] using ih⟩
      | some param => exact ⟨hown, by simpa [spelled, children] using ih⟩
    | binary op matching returnBool lhs rhs =>
      have hlhs := ih lhs (by simp [children])
      have hrhs := ih rhs (by simp [children])
      obtain ⟨sign, base, -, hsign, heq⟩ | ⟨-, heq⟩ :=
        spelled_binary_cases strip op matching returnBool lhs rhs
      · have hnumber := isReadable_of_writtenSign? (hchildren lhs (by simp [children])) hsign
        rw [heq, isReadable_unary]
        exact (isReadable_iff _).mpr ⟨hown, by simpa [children] using ⟨hnumber, hrhs⟩⟩
      · rw [heq]
        exact (isReadable_iff _).mpr ⟨hown, by simpa [children] using ⟨hlhs, hrhs⟩⟩
    | call func args =>
      refine (isReadable_iff _).mpr ⟨hown, ?_⟩
      simpa [spelled, spelledAll_eq, children] using ih
    | subquery window body =>
      exact (isReadable_iff _).mpr ⟨hown, by simpa [spelled, children] using ih⟩
    | number text =>
      rw [isSignedReadable_number, Literal.unsigned] at h
      rw [spelled]
      split
      · rename_i sign unsigned hsigned
        rw [hsigned] at h
        exact isReadable_unary.mpr (isReadable_number.mpr h)
      · rename_i hsigned
        rw [hsigned] at h
        exact isReadable_number.mpr h
    | paren body =>
      have hbody := ih body (by simp [children])
      rw [spelled]
      split
      · exact hbody
      · exact (isReadable_iff _).mpr ⟨trivial, by simpa [children] using hbody⟩
    | unary sign body => exact isReadable_unary.mpr (ih body (by simp [children]))
    | placeholder => contradiction
    | _ => exact (isReadable_iff _).mpr ⟨hown, List.forall_mem_nil _⟩

theorem wraps_spelled (wraps : Shape → Bool) (hparen : wraps .paren = false)
    (hleaf : ∀ s : Shape, s.isLeaf → wraps s = false)
    (hpow : ∀ sign matching returnBool,
      wraps (.unary sign) = wraps (.binary .pow matching returnBool))
    (hliteral : e.writtenSign? strip ≠ none → ∀ sign, wraps (.unary sign) = false) :
    wraps (e.spelled strip).shape = wraps e.shape := by
  cases e with
  | aggregation op grouping param body => cases param <;> simp [spelled, shape]
  | binary op matching returnBool lhs rhs =>
    obtain ⟨sign, base, rfl, -, heq⟩ | ⟨-, heq⟩ :=
      spelled_binary_cases strip op matching returnBool lhs rhs
    · rw [heq]
      exact hpow sign matching returnBool
    · rw [heq]
      rfl
  | number text =>
    rw [spelled]
    split
    · rename_i sign unsigned hsigned
      rw [hleaf (number text).shape rfl]
      exact hliteral (by simp [writtenSign?, hsigned]) sign
    · rfl
  | paren body =>
    rw [spelled, shape]
    split
    · rename_i hstrip
      rw [Bool.and_eq_true] at hstrip
      rw [hparen]
      cases body with
      | number text =>
        rw [spelled]
        split
        · rename_i sign unsigned hsigned
          exact hliteral (by simp [writtenSign?, hstrip.1, hsigned]) sign
        · exact hleaf _ rfl
      | _ => simp_all [spelled, shape, Shape.isLeaf]
    · rfl
  | _ => simp [spelled, shape]

theorem needsParens_spelled {op : BinaryOp} {isRight : Bool}
    (h : op = .pow → isRight = false → e.writtenSign? strip = none) :
    (e.spelled strip).shape.needsParens op isRight = e.shape.needsParens op isRight := by
  refine wraps_spelled (fun s => s.needsParens op isRight) rfl ?_ ?_ ?_
  · intro s hs
    cases s <;> first | rfl | contradiction
  · intro sign matching returnBool
    cases op <;> cases isRight <;> rfl
  · intro hsign sign
    rw [Shape.needsParens]
    cases isRight with
    | true => rfl
    | false => simpa using fun hop => hsign (h hop rfl)

theorem needsParensAfterSign_spelled (e : Expr) :
    (e.spelled strip).shape.needsParensAfterSign = e.shape.needsParensAfterSign :=
  wraps_spelled _ rfl (fun s hs => by cases s <;> first | rfl | contradiction) (fun _ _ _ => rfl)
    fun _ _ => rfl

theorem needsParensInSubquery_spelled (h : e.writtenSign? strip = none) :
    (e.spelled strip).shape.needsParensInSubquery = e.shape.needsParensInSubquery :=
  wraps_spelled _ rfl (fun s hs => by cases s <;> first | rfl | contradiction) (fun _ _ _ => rfl)
    fun hsign => absurd h hsign

def HasSignedWindow (strip : Bool) : Expr → Prop
  | .subquery _ body => body.writtenSign? strip ≠ none
  | _ => False

theorem text_unary_of_isReadable (h : e.IsReadable) (sign : Sign) : (unary sign e).text =
    sign.symbol ++ parenthesizedIf e.shape.needsParensAfterSign e.text := by
  have hvisible := dropLeadingBlanks_text (isReadable_inParensIf h e.shape.needsParensAfterSign)
  rw [text_unary, ← text_inParensIf, hvisible]

theorem text_spelled_binary {op : BinaryOp} {matching : Option VectorMatching} {returnBool : Bool}
    {lhs rhs : Expr} (h : (binary op matching returnBool lhs rhs).IsSignedReadable) :
    ((binary op matching returnBool lhs rhs).spelled strip).text =
      parenthesizedIf (lhs.shape.needsParens op false) (lhs.spelled strip).text ++ " " ++
        operatorText op matching returnBool ++ " " ++
        parenthesizedIf (rhs.shape.needsParens op true) (rhs.spelled strip).text := by
  have hright : (rhs.spelled strip).shape.needsParens op true = rhs.shape.needsParens op true :=
    needsParens_spelled fun _ h => absurd h (by decide)
  obtain ⟨sign, base, rfl, hsign, heq⟩ | ⟨hnone, heq⟩ :=
    spelled_binary_cases strip op matching returnBool lhs rhs
  · have hbare : lhs.shape.needsParens .pow false = false := by
      obtain ⟨text, -, rfl | ⟨-, rfl⟩⟩ := exists_number_of_writtenSign? hsign <;> rfl
    have hlhs : lhs.IsSignedReadable := ((isSignedReadable_iff _).mp h).2 lhs (by simp [children])
    have hbase := isReadable_of_writtenSign? hlhs hsign
    have hpower := isReadable_spelled strip h
    rw [heq, isReadable_unary] at hpower
    rw [heq, hbare, spelled_of_writtenSign? hsign, text_unary_of_isReadable hpower,
      text_unary_of_isReadable hbase, text_binary, hright]
    simp [parenthesizedIf, shape, Shape.needsParens, Shape.needsParensAfterSign,
      String.append_assoc]
  · have hleft : (lhs.spelled strip).shape.needsParens op false =
        lhs.shape.needsParens op false := needsParens_spelled fun hop _ => hnone hop
    rw [heq, text_binary, hleft, hright]

theorem render_eq_text_spelled (hr : e.IsSignedReadable)
    (h : e.Everywhere (¬ HasSignedWindow strip ·)) (level : Nat) :
    e.render ⟨false, strip⟩ level = (e.spelled strip).text := by
  induction e generalizing level with
  | node e ih =>
    obtain ⟨hown, hbelow⟩ := e.everywhere_iff.mp h
    have hreadable := ((isSignedReadable_iff e).mp hr).2
    have hrender (c : Expr) (hc : c ∈ e.children) (level : Nat) :
        c.render ⟨false, strip⟩ level = (c.spelled strip).text :=
      ih c hc (hreadable c hc) (hbelow c hc) level
    have hoperand (c : Expr) (hc : c ∈ e.children) (level : Nat) (wrapped : Bool) :
        Layout.operand ⟨false, strip⟩ level wrapped (fun n => c.render ⟨false, strip⟩ n) =
          parenthesizedIf wrapped (c.spelled strip).text := by
      simp only [Layout.operand, hrender c hc, Layout.parenthesize, parenthesizedIf,
        Bool.false_eq_true, ↓reduceIte]
    cases e with
    | aggregation op grouping param body =>
      have hbody := hrender body (by simp [children])
      cases param with
      | none => simp [render, spelled, text_aggregation, Layout.wrap, hbody]
      | some param =>
        have hparam := hrender param (by simp [children])
        simp [render, spelled, text_aggregation, Layout.wrap, hbody, hparam]
    | binary op matching returnBool lhs rhs =>
      have hlhs := hoperand lhs (by simp [children])
      have hrhs := hoperand rhs (by simp [children])
      simp only [render, hlhs, hrhs, Bool.false_eq_true, ↓reduceIte, text_spelled_binary hr]
    | call func args =>
      have hargs : args.map (fun c => c.render ⟨false, strip⟩ (level + 1)) =
          (args.map (spelled strip)).map text := by
        rw [List.map_map]
        exact List.map_congr_left fun c hc => hrender c hc _
      simp [render, spelled, text_call, Layout.wrap, renderAll_eq, spelledAll_eq, hargs]
    | subquery window body =>
      have hwrap := needsParensInSubquery_spelled (not_ne_iff.mp hown)
      simp only [render, hoperand body (by simp [children]), spelled, text_subquery, hwrap]
    | number text =>
      have hsigned := isReadable_spelled strip hr
      rw [spelled] at hsigned ⊢
      split
      · rename_i sign unsigned htext
        rw [htext, isReadable_unary] at hsigned
        rw [text_unary_of_isReadable hsigned]
        exact Literal.text_eq_of_signed? htext
      · rfl
    | paren body =>
      have hbody := hrender body (by simp [children])
      rw [render, spelled]
      split
      · exact hbody level
      · rw [text_paren, hbody]
        rfl
    | unary sign body =>
      simp only [render, hoperand body (by simp [children]), spelled, text_unary,
        needsParensAfterSign_spelled]
      rfl
    | _ => simp only [spelled, text, render]; rfl

end Expr

def Shape.signedTerm : Shape → List Term → Term
  | .number text, _ => .number ((Literal.signedValue? text).getD .nan)
  | s, args => s.term args

namespace Expr

variable {strip : Bool} {e : Expr}

def signedTerm (e : Expr) : Term := e.fold Shape.signedTerm

theorem signedTerm_eq (e : Expr) : e.signedTerm = e.shape.signedTerm (e.children.map signedTerm) :=
  fold_eq _ e

/-- A power whose base is a negative literal without parentheses in the text. -/
def IsNegativePower (strip : Bool) : Expr → Prop
  | .binary op _ _ lhs _ => ∃ base, lhs.baseSign? strip op = some (.minus, base)
  | _ => False

theorem plain_term_spelled_number (text : String) :
    ((number text).spelled strip).term.plain = (number text).signedTerm.plain := by
  rw [spelled, signedTerm_eq]
  simp only [shape, Shape.signedTerm, Literal.signedValue?, Literal.unsigned]
  split
  · rename_i sign unsigned hsigned
    rw [hsigned]
    cases sign <;> cases hvalue : Literal.value? unsigned <;>
      simp [term_eq, shape, children, Shape.term, hvalue, Term.negated, Binary64.neg]
  · rename_i hsigned
    simp [hsigned, term_eq, shape, Shape.term]

theorem plain_term_spelled_of_writtenSign? {sign : Sign} {unsigned : String}
    (h : e.writtenSign? strip = some (sign, unsigned)) :
    (e.spelled strip).term.plain = e.signedTerm.plain := by
  obtain ⟨text, hsigned, rfl | ⟨rfl, rfl⟩⟩ := exists_number_of_writtenSign? h
  · exact plain_term_spelled_number text
  · rw [spelled, if_pos (by rfl), plain_term_spelled_number text]
    rfl

theorem plain_term_spelled_binary_iff {op : BinaryOp} {matching : Option VectorMatching}
    {returnBool : Bool} {lhs rhs : Expr} :
    ((binary op matching returnBool lhs rhs).spelled strip).term.plain =
        (binary op matching returnBool lhs rhs).signedTerm.plain ↔
      ¬IsNegativePower strip (binary op matching returnBool lhs rhs) ∧
        (lhs.spelled strip).term.plain = lhs.signedTerm.plain ∧
        (rhs.spelled strip).term.plain = rhs.signedTerm.plain := by
  rw [signedTerm_eq]
  obtain ⟨sign, base, rfl, hsign, heq⟩ | ⟨hnone, heq⟩ :=
    spelled_binary_cases strip op matching returnBool lhs rhs
  · have hlhs := plain_term_spelled_of_writtenSign? hsign
    rw [spelled_of_writtenSign? hsign] at hlhs ⊢
    cases sign with
    -- a minus before the power makes a negative term of it
    | minus =>
      simp [heq, term_eq (unary ..), term_eq (binary ..), shape, children, Shape.term,
        Shape.signedTerm, Term.negated, IsNegativePower, baseSign?, hsign]
    | plus =>
      simp [heq, term_eq (unary ..), term_eq (binary ..), shape, children, Shape.term,
        Shape.signedTerm, ← hlhs, IsNegativePower, baseSign?, hsign]
  · have hpower : ¬IsNegativePower strip (binary op matching returnBool lhs rhs) := by
      rintro ⟨base, hbase⟩
      obtain ⟨hop, hsign⟩ := baseSign?_eq_some_iff.mp hbase
      simp [hnone hop] at hsign
    simp [heq, term_eq (binary ..), shape, children, Shape.term, Shape.signedTerm, hpower]

theorem plain_term_spelled_iff (h : e.IsSignedReadable) :
    (e.spelled strip).term.plain = e.signedTerm.plain ↔
      e.Everywhere (¬IsNegativePower strip ·) := by
  induction e with
  | node e ih =>
    obtain ⟨hown, hchildren⟩ := e.isSignedReadable_iff.mp h
    replace ih (c : Expr) (hc : c ∈ e.children) := ih c hc (hchildren c hc)
    rw [everywhere_iff]
    cases e with
    | aggregation op grouping param body =>
      have hbody := ih body (by simp [children])
      rw [signedTerm_eq]
      cases param with
      | none =>
        simp [spelled, term_eq (aggregation ..), shape, children, Shape.term, Shape.signedTerm,
          hbody, IsNegativePower]
      | some param =>
        have hparam := ih param (by simp [children])
        simp [spelled, term_eq (aggregation ..), shape, children, Shape.term, Shape.signedTerm,
          hparam, hbody, IsNegativePower]
    | binary op matching returnBool lhs rhs =>
      have hlhs := ih lhs (by simp [children])
      have hrhs := ih rhs (by simp [children])
      rw [plain_term_spelled_binary_iff, hlhs, hrhs]
      simp [children]
    | call func args =>
      rw [signedTerm_eq]
      simp [spelled, term_eq (call ..), shape, children, Shape.term, Shape.signedTerm,
        spelledAll_eq, IsNegativePower]
      exact forall₂_congr ih
    | subquery window body =>
      have hbody := ih body (by simp [children])
      rw [signedTerm_eq]
      simp [spelled, term_eq (subquery ..), shape, children, Shape.term, Shape.signedTerm, hbody,
        IsNegativePower]
    | number text => simp [plain_term_spelled_number, children, IsNegativePower]
    | paren body =>
      have hbody := ih body (by simp [children])
      have hplain : ((paren body).spelled strip).term.plain = (body.spelled strip).term.plain := by
        rw [spelled]
        split <;> rfl
      rw [hplain, signedTerm_eq]
      simp [shape, children, Shape.term, Shape.signedTerm, hbody, IsNegativePower]
    | unary sign body =>
      have hbody := ih body (by simp [children])
      rw [signedTerm_eq]
      cases sign <;>
        simp [spelled, term_eq (unary ..), shape, children, Shape.term, Shape.signedTerm, hbody,
          Term.negated_injective.eq_iff, IsNegativePower]
    | placeholder => contradiction
    | _ => exact iff_of_true rfl ⟨not_false, List.forall_mem_nil _⟩

theorem exists_read_render (strip : Bool) (h : e.IsSignedReadable)
    (hw : e.Everywhere (¬HasSignedWindow strip ·)) :
    ∃ t, Query.read (e.render ⟨false, strip⟩ 0) = .ok t ∧
      (t.plain = e.signedTerm.plain ↔ e.Everywhere (¬IsNegativePower strip ·)) := by
  have hread := read_text (isReadable_spelled strip h)
  refine ⟨(e.spelled strip).parenthesized.term, render_eq_text_spelled h hw 0 ▸ hread, ?_⟩
  rw [Term.plain, withoutParens_term_parenthesized]
  exact plain_term_spelled_iff h

end Expr

end PromTree
