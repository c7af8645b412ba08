import PromTree.Proofs.Duration.Grammar

namespace PromTree

namespace Duration

variable {ms : Nat} {cs : List Component}

theorem total_split (ms : Nat) {units : List TimeUnit} (h : units.getLast? = some .millisecond) :
    total (split ms units) = ms := by
  induction units generalizing ms with
  | nil => contradiction
  | cons u units ih =>
    have hdivide : total (⟨ms / u.milliseconds, u⟩ :: split (ms % u.milliseconds) units) =
        ms / u.milliseconds * u.milliseconds + total (split (ms % u.milliseconds) units) := rfl
    cases units with
    | nil =>
      obtain rfl : u = .millisecond := Option.some.inj h
      simp only [TimeUnit.milliseconds, split, TimeUnit.isExact, Bool.false_and, Bool.false_or,
        Nat.div_one, beq_iff_eq]
      split
      · rename_i hzero
        exact hzero.symm
      · simp [total, Component.milliseconds, TimeUnit.milliseconds]
    | cons v units =>
      rw [List.getLast?_cons_cons] at h
      rw [split]
      split
      · exact ih ms h
      · rw [hdivide, ih _ h, Nat.div_add_mod']

theorem units_split (ms : Nat) (units : List TimeUnit) :
    ((split ms units).map Component.unit).Sublist units := by
  induction units generalizing ms with
  | nil => exact .slnil
  | cons u units ih =>
    rw [split]
    split
    · exact (ih _).cons u
    · exact (ih _).cons_cons u

theorem flatMap_chars_eq_parts (cs : List Component) :
    cs.flatMap Component.chars = (cs.map Part.ofComponent).flatMap Part.chars := by
  rw [List.flatMap_map]
  rfl

theorem captures?_chars (h : (cs.map Component.unit).Sublist TimeUnit.all) :
    captures? TimeUnit.all (cs.flatMap Component.chars) =
      some ((cs.map Part.ofComponent).map Part.capture) := by
  rw [flatMap_chars_eq_parts]
  apply captures?_all_eq_some_iff.mpr
  exact ⟨_, rfl, by rwa [List.map_map], rfl⟩

theorem map_component_captures (cs : List Component) :
    ((cs.map Part.ofComponent).map Part.capture).map Capture.component = cs := by
  simp [Function.comp_def, Part.component_capture, Part.component_ofComponent]

end Duration

namespace Span

variable {ms : Nat}

def ofMilliseconds (ms : Nat) : Span := ⟨ms * 1000000⟩

@[simp]
theorem milliseconds_ofMilliseconds (ms : Nat) : (ofMilliseconds ms).milliseconds = ms :=
  Nat.mul_div_cancel ms (by decide)

/-- A duration that comes to something and whose counts fit 32 bits. -/
def IsPrintable (ms : Nat) : Prop :=
  ms ≠ 0 ∧ ∀ c ∈ Duration.split ms Duration.TimeUnit.all, c.count < UInt32.size

instance (ms : Nat) : Decidable (IsPrintable ms) := inferInstanceAs (Decidable (_ ∧ _))

theorem read?_chars (h : IsPrintable ms) :
    read? (Duration.chars ms) = some (ofMilliseconds ms) := by
  have hchars : Duration.chars ms =
      (Duration.split ms Duration.TimeUnit.all).flatMap Duration.Component.chars := by
    rw [Duration.chars, if_neg h.1]
  have hspan : ofComponents (Duration.split ms Duration.TimeUnit.all) = ofMilliseconds ms := by
    rw [ofComponents, ofMilliseconds, List.filter_eq_self.mpr fun c hc => decide_eq_true (h.2 c hc),
      Duration.total_split ms rfl]
  rw [read?, hchars, Duration.captures?_chars (Duration.units_split _ _), Option.bind_eq_bind,
    Option.bind_some, Duration.map_component_captures, hspan]
  exact if_pos (Nat.mul_ne_zero h.1 (by decide))

end Span

namespace Token

theorem isWordChar_of_mem_chars {ms : Nat} {c : Char} (h : c ∈ Duration.chars ms) :
    Literal.isWordChar c := by
  have hsymbol (u : Duration.TimeUnit) : u.symbol.all Literal.isWordChar := by
    cases u <;> decide
  rw [Duration.chars] at h
  split at h
  · have hnone : ['0', 's'].all Literal.isWordChar := by decide
    exact List.all_eq_true.mp hnone c h
  · obtain ⟨d, -, hd⟩ := List.mem_flatMap.mp h
    rcases List.mem_append.mp hd with hd | hd
    · have hdigit := Nat.isDigit_of_mem_toDigits (by decide) (by decide) hd
      simp [Literal.isWordChar, Char.isAlphanum, hdigit]
    · exact List.all_eq_true.mp (hsymbol d.unit) c hd

theorem exists_cons_chars {ms : Nat} (h : Span.IsPrintable ms) :
    ∃ c cs, Duration.chars ms = c :: cs ∧ c.isDigit := by
  have htotal : Duration.total (Duration.split ms Duration.TimeUnit.all) = ms :=
    Duration.total_split ms rfl
  rw [Duration.chars, if_neg h.1]
  cases hsplit : Duration.split ms Duration.TimeUnit.all with
  | nil =>
    rw [hsplit] at htotal
    exact absurd htotal.symm h.1
  | cons d ds =>
    obtain ⟨c, cs, hc⟩ := List.exists_cons_of_ne_nil
      (Nat.toDigits_ne_nil (n := d.count) (b := 10))
    have hdigit := Nat.isDigit_of_mem_toDigits (b := 10) (n := d.count) (by decide) (by decide)
      (hc ▸ List.mem_cons_self)
    exact ⟨c, _, by rw [List.flatMap_cons, Duration.Component.chars, hc]; rfl, hdigit⟩

theorem number?_duration {ms : Nat} (h : Span.IsPrintable ms) :
    number? (Duration.chars ms) = some (.span (.ofMilliseconds ms), []) := by
  have hchars : ∀ c ∈ Duration.chars ms, Literal.isWordChar c := fun c => isWordChar_of_mem_chars
  have hspan := (Avoids.nil Literal.isWordChar).span_eq hchars
  rw [List.append_nil] at hspan
  simp only [number?, hspan, Span.read?_chars h]

end Token

end PromTree
