import PromTree.Proofs.Decimal.Shortest
import PromTree.Proofs.Decimal.Text
import PromTree.Proofs.Query.Scanning

namespace PromTree

open Decimal (pointed)

variable {whole fraction : List Char}

theorem Decimal.span_pointed {p : Char → Bool} (hp : ∀ c, c.isDigit → p c) (hpoint : p '.' = false)
    (h : ∀ c ∈ whole, c.isDigit) : (pointed whole fraction).span p =
      (whole, if fraction = [] then [] else '.' :: fraction) := by
  rw [pointed]
  split_ifs
  · simpa using (Avoids.nil p).span_eq fun c hc => hp c (h c hc)
  · exact (Avoids.cons.mpr hpoint).span_eq fun c hc => hp c (h c hc)

theorem span_digits {cs : List Char} (h : ∀ c ∈ cs, c.isDigit) :
    cs.span Char.isDigit = (cs, []) := by
  simpa using (Avoids.nil Char.isDigit).span_eq h

theorem SampleValue.decimal?_pointed (hne : whole ≠ []) (h : ∀ c ∈ whole ++ fraction, c.isDigit) :
    decimal? (pointed whole fraction) = some (.ofParts whole fraction 0) := by
  obtain ⟨hwhole, hfraction⟩ := List.forall_mem_append.mp h
  simp only [decimal?, digits, Decimal.span_pointed (fun _ => id) rfl hwhole]
  by_cases hnil : fraction = []
  · simp only [hnil, hne, ↓reduceIte, false_and, exponent?, Option.map_some]
  · simp only [hnil, hne, ↓reduceIte, false_and, span_digits hfraction, exponent?, Option.map_some]

theorem Span.read?_digits (hne : whole ≠ []) (h : ∀ c ∈ whole, c.isDigit) : read? whole = none := by
  have hnone (u : Duration.TimeUnit) : u.group? whole = none := by
    rw [Duration.TimeUnit.group?, span_digits h]
    cases u <;> exact if_neg fun hg => absurd hg.2 Bool.false_ne_true
  have hcaptures (units : List Duration.TimeUnit) : Duration.captures? units whole = none := by
    induction units with
    | nil => exact if_neg hne
    | cons u units ih =>
      rw [Duration.captures?, hnone, ih]
      rfl
  rw [read?, hcaptures]
  rfl

namespace Literal

theorem spanDecimal_pointed (h : ∀ c ∈ whole ++ fraction, c.isDigit) :
    spanDecimal (pointed whole fraction) = (pointed whole fraction, []) := by
  obtain ⟨hwhole, hfraction⟩ := List.forall_mem_append.mp h
  simp only [spanDecimal, Decimal.span_pointed (fun _ => id) rfl hwhole]
  by_cases hnil : fraction = []
  · simp only [hnil, ↓reduceIte, spanFraction, spanExponent, pointed, List.append_nil]
  · simp only [hnil, ↓reduceIte, spanFraction, span_digits hfraction, spanExponent, pointed,
      List.append_nil]

theorem pointed_ne {d : Char} (hdigit : d.isDigit = false) (hpoint : d ≠ '.')
    (h : ∀ c ∈ whole ++ fraction, c.isDigit) (c : Char) (cs : List Char) :
    pointed whole fraction ≠ c :: d :: cs := by
  intro heq
  have hmem : d ∈ pointed whole fraction := heq ▸ by simp
  have hall : d ∈ whole ++ fraction := by
    rw [pointed] at hmem
    split_ifs at hmem
    · exact List.mem_append_left _ hmem
    · simpa [hpoint] using hmem
  rw [h d hall] at hdigit
  contradiction

theorem number?_pointed (hne : whole ≠ []) (h : ∀ c ∈ whole ++ fraction, c.isDigit)
    (hzero : fraction = [] → whole.head? ≠ some '0') : number? (pointed whole fraction) =
      some (.ofScientific false (Decimal.ofParts whole fraction 0).digits
        (Decimal.ofParts whole fraction 0).exponent) := by
  have hdecimal := SampleValue.decimal?_pointed hne h
  rw [number?.eq_def, hdecimal]
  split
  · rename_i heq
    exact absurd heq (pointed_ne rfl (by decide) h _ _)
  · rename_i heq
    exact absurd heq (pointed_ne rfl (by decide) h _ _)
  · rename_i heq
    -- A text that begins with zero has a point, and so is no octal number.
    have hfraction : fraction ≠ [] := fun hnil => hzero hnil (by
      rw [pointed, if_pos hnil] at heq
      rw [heq, List.head?_cons])
    rw [if_neg fun hall => ?_]
    · rfl
    · have hpoint := List.all_eq_true.mp hall '.' (by simp [pointed, hfraction])
      contradiction
  · rfl

end Literal

theorem Token.number?_pointed (hne : whole ≠ []) (h : ∀ c ∈ whole ++ fraction, c.isDigit)
    (hzero : fraction = [] → whole.head? ≠ some '0') : number? (pointed whole fraction) =
      some (.number (.ofScientific false (Decimal.ofParts whole fraction 0).digits
        (Decimal.ofParts whole fraction 0).exponent), []) := by
  obtain ⟨hwhole, hfraction⟩ := List.forall_mem_append.mp h
  have hword (c : Char) (hc : c.isDigit) : Literal.isWordChar c := by
    simp [Literal.isWordChar, Char.isAlphanum, hc]
  have hspan : Literal.spanNumber (pointed whole fraction) = (pointed whole fraction, []) := by
    rw [spanNumber_eq (Literal.pointed_ne rfl (by decide) h _)
      (Literal.pointed_ne rfl (by decide) h _), Literal.spanDecimal_pointed h]
  simp only [number?, Decimal.span_pointed hword rfl hwhole, Span.read?_digits hne hwhole, hspan,
    Literal.number?_pointed hne h hzero]
  rfl

theorem Token.ofChars?_pointed (hne : whole ≠ []) (h : ∀ c ∈ whole ++ fraction, c.isDigit)
    (hzero : fraction = [] → whole.head? ≠ some '0') : ofChars? (pointed whole fraction) =
      some (.number (.ofScientific false (Decimal.ofParts whole fraction 0).digits
        (Decimal.ofParts whole fraction 0).exponent)) := by
  have hnumber := number?_pointed hne h hzero
  obtain ⟨c, cs, hcs, hdigit⟩ := Decimal.exists_cons_pointed hne h
  rw [hcs] at hnumber ⊢
  have houtside := outside?_number (by rw [hdigit]; rfl) hnumber (.nil _)
  rw [List.append_nil] at houtside
  rw [ofChars?, houtside]

theorem Token.ofChars?_chars {m : ℕ} {e : ℤ} (hc : (Binary64.finite false m e).IsCanonical) :
    ofChars? (SampleValue.chars (.finite false m e)) = some (.number (.finite false m e)) := by
  by_cases hm : m = 0
  · subst hm
    obtain rfl : e = Binary64.minExponent := hc.2.2.2.resolve_left (by decide)
    exact congrArg (some ∘ number) (Binary64.ofRat_zero false)
  · obtain ⟨whole, fraction, htext, hne, hdigits, hvalue, hzero⟩ :=
      (Decimal.shortest m e).exists_positional
    have hcontains := Decimal.contains_shortest hm hc
    have hhead : fraction = [] → whole.head? ≠ some '0' := fun hnil hhead =>
      Binary64.digits_ne_zero_of_contains hm hcontains (hzero hnil hhead)
    have hexponent : (Decimal.ofParts whole fraction 0).exponent ≤ 400 := by
      change (0 : ℤ) - fraction.length ≤ 400
      omega
    rw [SampleValue.chars, htext, ofChars?_pointed hne hdigits hhead,
      Binary64.ofScientific_eq hm hc (hvalue ▸ hcontains) hexponent]

namespace Binary64

def IsWritten (x : Binary64) : Prop := x.IsCanonical ∧ x.isNegative = false

theorem isWritten_ofRat {x : ℚ} (hx : 0 ≤ x) : (ofRat false x).IsWritten :=
  ⟨isCanonical_ofRat false hx, isNegative_ofRat false x⟩

end Binary64

theorem Literal.isWritten_of_number? {cs : List Char} {x : Binary64} (h : number? cs = some x) :
    x.IsWritten := by
  have hwhole {base : ℕ} {cs : List Char} (h : whole? base cs = some x) : x.IsWritten := by
    obtain ⟨n, -, h⟩ := Option.bind_eq_some_iff.mp h
    split at h
    · exact Option.some.inj h ▸ Binary64.isWritten_ofRat n.cast_nonneg
    · contradiction
  have hdecimal {cs : List Char} (h : (SampleValue.decimal? cs).map (fun d =>
      Binary64.ofScientific false d.digits d.exponent) = some x) : x.IsWritten := by
    obtain ⟨d, -, h⟩ := Option.map_eq_some_iff.mp h
    exact h ▸ ⟨Binary64.isCanonical_ofScientific false d.digits d.exponent,
      Binary64.isNegative_ofScientific false d.digits d.exponent⟩
  rw [number?.eq_def] at h
  split at h
  · exact hwhole h
  · exact hwhole h
  · split at h
    · exact hwhole h
    · exact hdecimal h
  · exact hdecimal h

theorem Span.isWritten_seconds (s : Span) : s.seconds.IsWritten := by
  refine Binary64.isWritten_ofRat (add_nonneg ?_ ?_)
  · exact Binary64.getD_value?_nonneg _
  · exact Binary64.getD_value?_nonneg _

end PromTree
