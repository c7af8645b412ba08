import PromTree.Proofs.Expr.Tokens
import PromTree.Proofs.Query.Numbers

namespace PromTree

theorem rat_abs_eq (x : ℚ) : x.abs = |x| := by
  rw [Rat.abs]
  split_ifs with h
  · exact (abs_of_nonneg h).symm
  · exact (abs_of_neg (not_le.mp h)).symm

variable {n m : ℕ} {e : ℤ}

def Seconds.IsExact (n : ℕ) : Prop := n < 1000 * 2 ^ 42

instance (n : ℕ) : Decidable (Seconds.IsExact n) := inferInstanceAs (Decidable (_ < _))

namespace Seconds

structure Represents (m : ℕ) (e : ℤ) (n : ℕ) : Prop where
  exponent : e < 0
  near : |Binary64.scaled m e * 1000 - n| < 1 / 4

def digits (n : ℕ) : List Char := Decimal.withPlaces (Nat.toDigits 10 n) 3

theorem exists_represents (h : IsExact n) :
    ∃ m e, (∀ negative, Binary64.ofRat negative (n / 1000) = .finite negative m e) ∧
      Represents m e n := by
  have hlt : (n : ℚ) / 1000 < 2 ^ ((-11 : ℤ) + 53) := by
    have hpower : (2 : ℚ) ^ ((-11 : ℤ) + 53) = 2 ^ 42 := by norm_num
    rw [hpower, div_lt_iff₀ (by norm_num), mul_comm]
    exact_mod_cast (h : n < 1000 * 2 ^ 42)
  obtain ⟨m, e, hround, he, hnear⟩ := Binary64.exists_ofRat_near (by positivity) hlt (by decide)
    (by decide)
  have hunit : (2 : ℚ) ^ ((-11 : ℤ) - 1) = 1 / 4096 := by norm_num
  obtain ⟨hlow, hhigh⟩ := abs_le.mp (hnear.trans_eq hunit)
  exact ⟨m, e, hround, by omega, abs_lt.mpr ⟨by linarith, by linarith⟩⟩

theorem fixed_of_represents (h : Represents m e n) :
    Decimal.fixed 3 (Binary64.scaled m e) = digits n := by
  have hpower : (10 : ℚ) ^ 3 = 1000 := by norm_num
  have hround : roundHalfEven (Binary64.scaled m e * 10 ^ 3) = n :=
    roundHalfEven_eq_of_abs_lt (hpower ▸ h.near.trans (by norm_num))
  rw [Decimal.fixed, hround, digits]

theorem timeOf_of_represents (hn : IsExact n) (h : Represents m e n) (negative : Bool) :
    Token.timeOf (.finite negative m e) =
      .ok (if negative then -Int64.ofNat n else Int64.ofNat n) := by
  obtain ⟨hexponent, hnear⟩ := h
  rw [IsExact] at hn
  have hbounds := abs_lt.mp hnear
  have hpos : 0 ≤ Binary64.scaled m e * 1000 :=
    mul_nonneg (mul_nonneg m.cast_nonneg (zpow_pos two_pos e).le) (by norm_num)
  have hlt : Binary64.scaled m e * 1000 < 2 ^ ((-1 : ℤ) + 53) := by
    have hpower : (2 : ℚ) ^ ((-1 : ℤ) + 53) = 2 ^ 52 := by norm_num
    have hle : (n : ℚ) + 1 ≤ 2 ^ 52 := by exact_mod_cast (by omega : n + 1 ≤ 2 ^ 52)
    linarith
  obtain ⟨m', e', hround, -, hnear'⟩ := Binary64.exists_ofRat_near hpos hlt (by decide) (by decide)
  have hunit : (2 : ℚ) ^ ((-1 : ℤ) - 1) = 1 / 4 := by norm_num
  have hbounds' := abs_le.mp (hnear'.trans_eq hunit)
  have hcount : roundHalfUp (Binary64.scaled m' e') = n :=
    roundHalfUp_eq_of_abs_lt (abs_lt.mpr ⟨by linarith, by linarith⟩)
  have hsize : UInt64.size = 2 ^ 64 := rfl
  have hmin : min n (UInt64.size - 1) = n := min_eq_left (by omega)
  have hmax : e ≠ Binary64.maxExponent := by
    rw [Binary64.maxExponent]
    omega
  simp only [Token.timeOf, hmax, and_false, ↓reduceIte, hround, hcount, hmin]

theorem ofChars?_digits (n : ℕ) :
    Token.ofChars? (digits n) = some (.number (Binary64.ofRat false (n / 1000))) := by
  have hdigits : ∀ c ∈ Nat.toDigits 10 n, c.isDigit := fun _ hc =>
    Nat.isDigit_of_mem_toDigits (by decide) (by decide) hc
  obtain ⟨whole, fraction, htext, hne, hall, hlength, hvalue⟩ :=
    Decimal.exists_withPlaces 3 Nat.toDigits_ne_nil hdigits
  have hparts : Decimal.ofParts whole fraction 0 = ⟨n, -3⟩ := by
    rw [Decimal.ofParts, hvalue, Nat.ofDigitChars_ten_toDigits, hlength]
    rfl
  have hscientific : Binary64.ofScientific false n (-3) = Binary64.ofRat false (n / 1000) := by
    rw [Binary64.ofScientific]
    split_ifs with hzero hlow
    · simp [hzero, Binary64.ofRat_zero]
    · contradiction
    · omega
    · rw [zpow_neg]
      rfl
  rw [digits, htext, Token.ofChars?_pointed hne hall fun hnil => by simp [hnil] at hlength, hparts,
    hscientific]

end Seconds

namespace TimeShift

def IsExact (ms : Int64) : Prop := Seconds.IsExact ms.toInt.natAbs

instance (ms : Int64) : Decidable (IsExact ms) := inferInstanceAs (Decidable (Seconds.IsExact _))

variable {ms : Int64}

theorem timestampText_of_isExact (h : IsExact ms) : (timestampText ms).toList =
    if ms.toInt < 0 then '-' :: Seconds.digits ms.toInt.natAbs
    else Seconds.digits ms.toInt.natAbs := by
  obtain ⟨m, e, hround, hrep⟩ := Seconds.exists_represents h
  have hvalue : (Binary64.ofInt ms.toInt).value? = some (ms.toInt : ℚ) := by
    refine Binary64.value?_ofInt ?_
    have hleast : 2 * Binary64.leastNormal = 2 ^ 53 := rfl
    rw [IsExact, Seconds.IsExact] at h
    omega
  have habs : ((ms.toInt : ℚ) / 1000).abs = ms.toInt.natAbs / 1000 := by
    rw [rat_abs_eq, abs_div, Nat.cast_natAbs, Int.cast_abs]
    rfl
  simp only [timestampText, hvalue, Option.getD_some, habs, hround, Seconds.fixed_of_represents hrep,
    decide_eq_true_eq]
  split_ifs <;> simp [String.toList_append, String.toList_ofList]

theorem readsBack_of_isExact (h : IsExact ms) : ReadsBack ms := by
  obtain ⟨m, e, hround, hrep⟩ := Seconds.exists_represents h
  have hchars := Seconds.ofChars?_digits ms.toInt.natAbs
  have htext := timestampText_of_isExact h
  rw [hround] at hchars
  rw [ReadsBack, timestampTokens]
  split_ifs at htext with hneg
  · have htime := Seconds.timeOf_of_represents h hrep true
    rw [if_pos rfl, neg_ofNat_natAbs hneg] at htime
    simp only [htext, hchars, Option.toList_some, Token.evalTime, Token.numeric?, Binary64.neg,
      Bool.not_false, htime]
    rfl
  · have htime := Seconds.timeOf_of_represents h hrep false
    rw [if_neg Bool.false_ne_true, ofNat_natAbs (not_lt.mp hneg)] at htime
    obtain ⟨c, cs, hcs, hdigit⟩ : ∃ c cs, Seconds.digits ms.toInt.natAbs = c :: cs ∧ c.isDigit :=
      Decimal.exists_cons_withPlaces 3 Nat.toDigits_ne_nil fun _ hc =>
        Nat.isDigit_of_mem_toDigits (by decide) (by decide) hc
    split
    · rename_i hminus
      rw [htext, hcs] at hminus
      exact absurd ((List.cons.inj hminus).1 ▸ hdigit) (by decide)
    · simp only [htext, hchars, Option.toList_some, Token.evalTime, Token.numeric?, htime]
      rfl

end TimeShift

end PromTree
