import Mathlib.Algebra.Order.Field.Rat
import Mathlib.Tactic.IntervalCases
import Mathlib.Tactic.Positivity
import PromTree.Decimal.Basic

namespace PromTree

theorem eq_zero_of_toDigits {n : ℕ} {cs : List Char} (h : Nat.toDigits 10 n = '0' :: cs) :
    n = 0 := by
  induction n using Nat.strong_induction_on generalizing cs with
  | _ n ih =>
    rcases lt_or_ge n 10 with hn | hn
    · rw [Nat.toDigits_of_lt_base hn] at h
      have hdigit := (List.cons.inj h).1
      interval_cases n <;> first | rfl | contradiction
    · obtain ⟨c, ds, hds⟩ := List.exists_cons_of_ne_nil
        (Nat.toDigits_ne_nil (n := n / 10) (b := 10))
      rw [Nat.toDigits_of_base_le (by decide) hn, hds, List.cons_append] at h
      have hrest := ih (n / 10) (by omega) (hds.trans (by rw [(List.cons.inj h).1]))
      omega

namespace Decimal

def pointed (whole fraction : List Char) : List Char :=
  if fraction = [] then whole else whole ++ '.' :: fraction

theorem exists_cons_pointed {whole fraction : List Char} (hne : whole ≠ [])
    (h : ∀ c ∈ whole ++ fraction, c.isDigit) :
    ∃ c cs, pointed whole fraction = c :: cs ∧ c.isDigit := by
  obtain ⟨c, cs, rfl⟩ := List.exists_cons_of_ne_nil hne
  rw [pointed]
  split_ifs
  · exact ⟨c, cs, rfl, h c (by simp)⟩
  · exact ⟨c, _, rfl, h c (by simp)⟩

theorem ofDigitChars_replicate_append (k : ℕ) (cs : List Char) :
    Nat.ofDigitChars 10 (List.replicate k '0' ++ cs) 0 = Nat.ofDigitChars 10 cs 0 := by
  rw [Nat.ofDigitChars_append, Nat.ofDigitChars_replicate_zero, Nat.mul_zero]

theorem exists_withPlaces {cs : List Char} (places : ℕ) (hne : cs ≠ [])
    (hcs : ∀ c ∈ cs, c.isDigit) :
    ∃ whole fraction, withPlaces cs places = pointed whole fraction ∧ whole ≠ [] ∧
      (∀ c ∈ whole ++ fraction, c.isDigit) ∧ fraction.length = places ∧
      Nat.ofDigitChars 10 (whole ++ fraction) 0 = Nat.ofDigitChars 10 cs 0 := by
  rw [withPlaces]
  split_ifs with hplaces
  · exact ⟨cs, [], rfl, hne, by simpa using hcs, hplaces.symm, by rw [List.append_nil]⟩
  · have hvalue := ofDigitChars_replicate_append (places + 1 - cs.length) cs
    have hdigits : ∀ c ∈ List.replicate (places + 1 - cs.length) '0' ++ cs, c.isDigit := by
      rintro c hc
      rcases List.mem_append.mp hc with hc | hc
      · exact List.eq_of_mem_replicate hc ▸ rfl
      · exact hcs c hc
    have hlength : places < (List.replicate (places + 1 - cs.length) '0' ++ cs).length := by
      rw [List.length_append, List.length_replicate]
      omega
    dsimp only
    generalize List.replicate (places + 1 - cs.length) '0' ++ cs = padded at *
    have hfraction : (padded.drop (padded.length - places)).length = places := by
      rw [List.length_drop]
      omega
    refine ⟨padded.take (padded.length - places), padded.drop (padded.length - places), ?_, ?_, ?_,
      hfraction, ?_⟩
    · exact (if_neg (List.ne_nil_of_length_pos (by omega))).symm
    · exact List.ne_nil_of_length_pos (by rw [List.length_take]; omega)
    · rwa [List.take_append_drop]
    · rwa [List.take_append_drop]

theorem exists_cons_withPlaces {cs : List Char} (places : ℕ) (hne : cs ≠ [])
    (hcs : ∀ c ∈ cs, c.isDigit) : ∃ d ds, withPlaces cs places = d :: ds ∧ d.isDigit := by
  obtain ⟨whole, fraction, htext, hwhole, hall, -⟩ := exists_withPlaces places hne hcs
  exact htext ▸ exists_cons_pointed hwhole hall

theorem exists_positional (d : Decimal) : ∃ whole fraction, d.positional = pointed whole fraction ∧
    whole ≠ [] ∧ (∀ c ∈ whole ++ fraction, c.isDigit) ∧
    (ofParts whole fraction 0).value = d.value ∧
    (fraction = [] → whole.head? = some '0' → d.digits = 0) := by
  have hne : Nat.toDigits 10 d.digits ≠ [] := Nat.toDigits_ne_nil
  have hdigits : ∀ c ∈ Nat.toDigits 10 d.digits, c.isDigit := fun c hc =>
    Nat.isDigit_of_mem_toDigits (by decide) (by decide) hc
  rw [positional]
  split_ifs with hexponent
  · refine ⟨_, [], rfl, by simp [hne], fun c hc => ?_, ?_, fun _ hhead => ?_⟩
    · rw [List.append_nil] at hc
      rcases List.mem_append.mp hc with hc | hc
      · exact hdigits c hc
      · exact List.eq_of_mem_replicate hc ▸ rfl
    · obtain ⟨k, hk⟩ := Int.eq_ofNat_of_zero_le hexponent
      rw [ofParts, value, value, hk, Int.toNat_natCast, List.append_nil, Nat.ofDigitChars_append,
        Nat.ofDigitChars_ten_toDigits, Nat.ofDigitChars_replicate_zero]
      push_cast
      rw [List.length_nil, Nat.cast_zero, sub_zero, zpow_zero, mul_one, zpow_natCast, mul_comm]
    · obtain ⟨c, cs, hcs⟩ := List.exists_cons_of_ne_nil hne
      rw [hcs] at hhead
      exact eq_zero_of_toDigits (hcs.trans (by rw [← Option.some.inj hhead]))
  · obtain ⟨whole, fraction, htext, hwhole, hall, hlength, hvalue⟩ :=
      exists_withPlaces (-d.exponent).toNat hne hdigits
    refine ⟨whole, fraction, htext, hwhole, hall, ?_, fun hnil => ?_⟩
    · have hplaces : (0 : ℤ) - fraction.length = d.exponent := by omega
      rw [ofParts, value, hvalue, Nat.ofDigitChars_ten_toDigits, hplaces, value]
    · rw [hnil, List.length_nil] at hlength
      omega

theorem exists_cons_positional (d : Decimal) : ∃ c cs, d.positional = c :: cs ∧ c.isDigit := by
  obtain ⟨whole, fraction, htext, hne, hdigits, -⟩ := d.exists_positional
  exact htext ▸ exists_cons_pointed hne hdigits

end Decimal

end PromTree
