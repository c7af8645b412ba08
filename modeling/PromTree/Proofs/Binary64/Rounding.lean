import Mathlib.Data.Rat.Floor
import Mathlib.Tactic.Linarith
import Mathlib.Tactic.Positivity
import Mathlib.Tactic.GCongr
import PromTree.Binary64.Rounding
import PromTree.Decimal.Shortest

namespace PromTree

theorem floor_eq {x : ℚ} {k : ℤ} (hlo : k ≤ x) (hhi : x < k + 1) : x.floor = k := by
  have hlt : x.floor < k + 1 := Rat.floor_lt_iff.mpr (by push_cast; exact hhi)
  exact le_antisymm (Int.lt_add_one_iff.mp hlt) (Rat.le_floor_iff.mpr hlo)

theorem roundHalfEven_eq {x : ℚ} {m : ℕ} (hlo : m - 1 / 2 ≤ x) (hhi : x ≤ m + 1 / 2)
    (htie : m % 2 = 0 ∨ m - 1 / 2 < x ∧ x < m + 1 / 2) : roundHalfEven x = m := by
  rw [roundHalfEven]
  -- the floor is the whole number itself or the one below it
  rcases le_or_gt (m : ℚ) x with hm | hm
  · have hfloor : x.floor = m := floor_eq (by exact_mod_cast hm) (by push_cast; linarith)
    simp only [hfloor, Int.toNat_natCast]
    split_ifs with h1 h2 h3
    · rfl
    · linarith
    · rfl
    · obtain h | h := htie
      · contradiction
      · linarith [h.2]
  · have hfloor : x.floor = m - 1 := floor_eq (by push_cast; linarith) (by push_cast; linarith)
    cases m with
    | zero =>
      have hneg : x.floor.toNat = 0 := by rw [hfloor]; rfl
      simp only [hneg, Nat.cast_zero, sub_zero] at *
      split_ifs with h1 h2 <;> linarith
    | succ n =>
      have hn : x.floor.toNat = n := by rw [hfloor]; simp
      simp only [hn]
      push_cast at *
      split_ifs with h1 h2 h3
      · linarith
      · rfl
      · obtain h | h := htie
        · omega
        · linarith [h.1]
      · rfl

theorem roundHalfEven_natCast (n : ℕ) : roundHalfEven n = n :=
  roundHalfEven_eq (by linarith) (by linarith) (.inr ⟨by linarith, by linarith⟩)

theorem roundHalfEven_eq_of_abs_lt {x : ℚ} {n : ℕ} (h : |x - n| < 1 / 2) : roundHalfEven x = n := by
  obtain ⟨hlo, hhi⟩ := abs_lt.mp h
  exact roundHalfEven_eq (by linarith) (by linarith) (.inr ⟨by linarith, by linarith⟩)

theorem roundHalfUp_eq_of_abs_lt {x : ℚ} {n : ℕ} (h : |x - n| < 1 / 2) : roundHalfUp x = n := by
  obtain ⟨hlo, hhi⟩ := abs_lt.mp h
  have hfloor : (x + 1 / 2).floor = n := floor_eq (by push_cast; linarith) (by push_cast; linarith)
  rw [roundHalfUp, hfloor, Int.toNat_natCast]

theorem abs_roundHalfEven_sub_le {x : ℚ} (hx : 0 ≤ x) : |roundHalfEven x - x| ≤ 1 / 2 := by
  have hfloor : ((x.floor.toNat : ℤ) : ℚ) = x.floor :=
    congrArg _ (Int.toNat_of_nonneg (Rat.le_floor_iff.mpr (by simpa using hx)))
  rw [Int.cast_natCast] at hfloor
  have hlow : (x.floor : ℚ) ≤ x := Rat.floor_le x
  have hhigh : x < x.floor + 1 := by exact_mod_cast Rat.lt_floor_add_one x
  rw [← hfloor] at hlow hhigh
  rw [roundHalfEven, abs_le]
  split_ifs <;> push_cast <;> constructor <;> linarith

theorem le_roundHalfEven {x : ℚ} {n : ℕ} (h : n ≤ x) : n ≤ roundHalfEven x := by
  have hfloor : (n : ℤ) ≤ x.floor := Rat.le_floor_iff.mpr (by exact_mod_cast h)
  rw [roundHalfEven]
  split_ifs <;> omega

theorem roundHalfEven_le {x : ℚ} {n : ℕ} (h : x ≤ n) : roundHalfEven x ≤ n := by
  rcases h.eq_or_lt with rfl | hlt
  · exact (roundHalfEven_natCast n).le
  · have hfloor : x.floor < n := Rat.floor_lt_iff.mpr (by exact_mod_cast hlt)
    rw [roundHalfEven]
    rcases n.eq_zero_or_pos with rfl | hn
    · have hzero : x.floor.toNat = 0 := by omega
      rw [Nat.cast_zero] at hlt
      simp only [hzero, Nat.cast_zero, sub_zero]
      rw [if_pos (by linarith)]
    · split_ifs <;> omega

namespace Binary64

theorem log2_bounds {x : ℚ} (hx : 0 < x) :
    (2 : ℚ) ^ ((Nat.log2 x.num.natAbs : ℤ) - Nat.log2 x.den - 1) < x ∧
      x < (2 : ℚ) ^ ((Nat.log2 x.num.natAbs : ℤ) - Nat.log2 x.den + 1) := by
  have hnum : 0 < x.num := Rat.num_pos.mpr hx
  have hxeq : x = (x.num.natAbs : ℚ) / x.den := by
    rw [Nat.cast_natAbs, abs_of_pos hnum]
    exact (Rat.num_div_den x).symm
  have hnlow := Nat.log2_self_le (n := x.num.natAbs) (by omega)
  have hnhigh := Nat.lt_log2_self (n := x.num.natAbs)
  have hdlow := Nat.log2_self_le x.den_ne_zero
  have hdhigh := Nat.lt_log2_self (n := x.den)
  generalize Nat.log2 x.num.natAbs = a at *
  generalize Nat.log2 x.den = b at *
  have hden : (0 : ℚ) < x.den := by exact_mod_cast x.den_pos
  -- numerator and denominator are each less than twice a power, which is all that is lost
  have hlow : (2 : ℚ) ^ ((a : ℤ) - b - 1) = 2 ^ a / 2 ^ (b + 1) := by
    rw [sub_sub, zpow_sub₀ two_ne_zero]
    norm_cast
  have hhigh : (2 : ℚ) ^ ((a : ℤ) - b + 1) = 2 ^ (a + 1) / 2 ^ b := by
    rw [sub_add_eq_add_sub, zpow_sub₀ two_ne_zero]
    norm_cast
  rw [hlow, hhigh]
  constructor
  · rw [hxeq]
    calc (2 : ℚ) ^ a / 2 ^ (b + 1) ≤ x.num.natAbs / 2 ^ (b + 1) := by gcongr; exact_mod_cast hnlow
      _ < x.num.natAbs / x.den := by gcongr; exact_mod_cast hdhigh
  · rw [hxeq]
    calc (x.num.natAbs : ℚ) / x.den < 2 ^ (a + 1) / x.den := by gcongr; exact_mod_cast hnhigh
      _ ≤ 2 ^ (a + 1) / 2 ^ b := by gcongr; exact_mod_cast hdlow

theorem exponentOf_spec {x : ℚ} (hx : 0 < x) : minExponent ≤ exponentOf x ∧
    x < (2 : ℚ) ^ (exponentOf x + 53) ∧
    (exponentOf x = minExponent ∨ (2 : ℚ) ^ (exponentOf x + 52) ≤ x) := by
  obtain ⟨hlow, hhigh⟩ := log2_bounds hx
  rw [exponentOf]
  generalize (Nat.log2 x.num.natAbs : ℤ) - Nat.log2 x.den = k at *
  obtain ⟨raw, hraw, hlt, hge⟩ : ∃ raw,
      (if x < (2 : ℚ) ^ (k - 53 + 53) then k - 53 else k - 53 + 1) = raw ∧
        x < (2 : ℚ) ^ (raw + 53) ∧ (2 : ℚ) ^ (raw + 52) ≤ x := by
    refine ⟨_, rfl, ?_⟩
    split_ifs with h
    · exact ⟨h, (congrArg ((2 : ℚ) ^ ·) (by ring)).trans_le hlow.le⟩
    · rw [sub_add_cancel, not_lt] at h
      exact ⟨hhigh.trans_eq (congrArg ((2 : ℚ) ^ ·) (by ring)),
        (congrArg ((2 : ℚ) ^ ·) (by ring)).trans_le h⟩
  rw [hraw]
  refine ⟨le_max_left _ _, hlt.trans_le (zpow_le_zpow_right₀ one_le_two (by omega)), ?_⟩
  rcases le_total raw minExponent with h | h
  · exact .inl (max_eq_left h)
  · rw [max_eq_right h]
    exact .inr hge

theorem exponentOf_eq {x : ℚ} {e : ℤ} (hx : 0 < x) (hmin : minExponent ≤ e)
    (hlt : x < (2 : ℚ) ^ (e + 53)) (hge : e = minExponent ∨ (2 : ℚ) ^ (e + 52) ≤ x) :
    exponentOf x = e := by
  obtain ⟨hmin', hlt', hge'⟩ := exponentOf_spec hx
  have hle {i j : ℤ} (hi : (2 : ℚ) ^ (i + 52) ≤ x) (hj : x < (2 : ℚ) ^ (j + 53)) : i ≤ j := by
    have hij := (zpow_lt_zpow_iff_right₀ one_lt_two).mp (hi.trans_lt hj)
    omega
  apply le_antisymm
  · rcases hge' with h | h
    · exact h ▸ hmin
    · exact hle h hlt
  · rcases hge with h | h
    · exact h ▸ hmin'
    · exact hle h hlt'

variable {negative : Bool} {m : ℕ} {e : ℤ} {x : ℚ}

theorem ofRat_of_lt (hexponent : exponentOf x = e) (hmantissa : roundHalfEven (x / 2 ^ e) = m)
    (hzero : m ≠ 0) (hlt : m < 2 * leastNormal) (hmax : e ≤ maxExponent) :
    ofRat negative x = finite negative m e := by
  simp only [ofRat, hexponent, hmantissa, hlt.ne, hzero, hmax.not_gt, ↓reduceIte]

theorem ofRat_of_carry (negative : Bool) (hexponent : exponentOf x = e)
    (hmantissa : roundHalfEven (x / 2 ^ e) = 2 * leastNormal) (hmax : e + 1 ≤ maxExponent) :
    ofRat negative x = finite negative leastNormal (e + 1) := by
  have hzero : leastNormal ≠ 0 := by decide
  simp only [ofRat, hexponent, hmantissa, hzero, hmax.not_gt, ↓reduceIte]

theorem ofRat_eq_of_near (hm : m ≠ 0) (hc : (finite negative m e).IsCanonical)
    (hlo : (m - 1 / 2) * (2 : ℚ) ^ e ≤ x) (hhi : x ≤ (m + 1 / 2) * (2 : ℚ) ^ e)
    (htie : m % 2 = 0 ∨ (m - 1 / 2) * (2 : ℚ) ^ e < x ∧ x < (m + 1 / 2) * (2 : ℚ) ^ e)
    (hnormal : e = minExponent ∨ (2 : ℚ) ^ (e + 52) ≤ x) :
    ofRat negative x = finite negative m e := by
  obtain ⟨hlt, hmin, hmax, -⟩ := hc
  have hunit : (0 : ℚ) < 2 ^ e := zpow_pos two_pos e
  have hone : (1 : ℚ) ≤ m := by exact_mod_cast Nat.one_le_iff_ne_zero.mpr hm
  have hx : 0 < x := lt_of_lt_of_le (by nlinarith) hlo
  have hexponent : exponentOf x = e := by
    refine exponentOf_eq hx hmin (hhi.trans_lt ?_) hnormal
    have hmantissa : (m : ℚ) + 1 ≤ 2 ^ 53 := by exact_mod_cast hlt
    rw [zpow_add₀ two_ne_zero, mul_comm]
    have : (2 : ℚ) ^ (53 : ℤ) = 2 ^ 53 := rfl
    rw [this]
    gcongr
    linarith
  refine ofRat_of_lt hexponent (roundHalfEven_eq ?_ ?_ ?_) hm hlt hmax
  · rwa [le_div_iff₀ hunit]
  · rwa [div_le_iff₀ hunit]
  · rwa [lt_div_iff₀ hunit, div_lt_iff₀ hunit]

theorem bounds_of_contains (hx : (Cell.around m e).contains x) :
    let below : ℚ := if m = leastNormal ∧ minExponent < e then 1 / 4 else 1 / 2
    (m - below) * (2 : ℚ) ^ e ≤ x ∧ x ≤ (m + 1 / 2) * (2 : ℚ) ^ e ∧
      (m % 2 = 0 ∨ (m - below) * (2 : ℚ) ^ e < x ∧ x < (m + 1 / 2) * (2 : ℚ) ^ e) := by
  have hhalf : (2 : ℚ) ^ (e - 1) = 2 ^ e / 2 := zpow_sub_one₀ two_ne_zero e
  intro below
  have hlower : (Cell.around m e).lower = (m - below) * (2 : ℚ) ^ e := by
    simp only [Cell.around, scaled, hhalf, below]
    split_ifs <;> ring
  have hupper : (Cell.around m e).upper = (m + 1 / 2) * (2 : ℚ) ^ e := by
    simp only [Cell.around, scaled, hhalf]
    ring
  rw [← hlower, ← hupper]
  rw [Cell.contains] at hx
  split at hx
  · rename_i hclosed
    obtain ⟨hlo, hhi⟩ := of_decide_eq_true hx
    exact ⟨hlo, hhi, .inl (of_decide_eq_true hclosed)⟩
  · obtain ⟨hlo, hhi⟩ := of_decide_eq_true hx
    exact ⟨hlo.le, hhi.le, .inr ⟨hlo, hhi⟩⟩

theorem cast_leastNormal : (leastNormal : ℚ) = 2 ^ 52 := by
  have hleast : leastNormal = 2 ^ 52 := rfl
  rw [hleast]
  norm_num

theorem ofRat_eq_of_below (hmin : minExponent < e) (hmax : e ≤ maxExponent)
    (hlo : (2 ^ 52 - 1 / 4) * (2 : ℚ) ^ e ≤ x) (hhi : x < 2 ^ 52 * (2 : ℚ) ^ e) :
    ofRat negative x = finite negative leastNormal e := by
  have hunit : (0 : ℚ) < 2 ^ (e - 1) := zpow_pos two_pos _
  have hhalf : (2 : ℚ) ^ e = 2 * 2 ^ (e - 1) := by
    rw [zpow_sub_one₀ two_ne_zero]
    ring
  have hpower (n : ℕ) : (2 : ℚ) ^ (e - 1 + n) = 2 ^ n * 2 ^ (e - 1) := by
    rw [zpow_add₀ two_ne_zero, mul_comm, zpow_natCast]
  rw [hhalf] at hlo hhi
  -- units are half as large below the power, and the mantissa is rounded up to the next one
  have hexponent : exponentOf x = e - 1 := by
    refine exponentOf_eq (lt_of_lt_of_le (by nlinarith) hlo) (by omega) ?_ (.inr ?_)
    · exact (by linarith : x < 2 ^ 53 * 2 ^ (e - 1)).trans_eq (hpower 53).symm
    · exact (hpower 52).trans_le (by nlinarith)
  have hmantissa : roundHalfEven (x / 2 ^ (e - 1)) = 2 * leastNormal := by
    refine roundHalfEven_eq ?_ ?_ (.inl rfl)
    · rw [le_div_iff₀ hunit, Nat.cast_mul, cast_leastNormal]
      push_cast
      linarith
    · rw [div_le_iff₀ hunit, Nat.cast_mul, cast_leastNormal]
      push_cast
      nlinarith
  have hcarry := ofRat_of_carry negative hexponent hmantissa (by omega)
  rwa [sub_add_cancel] at hcarry

theorem ofRat_eq (hm : m ≠ 0) (hc : (finite negative m e).IsCanonical)
    (hx : (Cell.around m e).contains x) : ofRat negative x = finite negative m e := by
  obtain ⟨hlo, hhi, htie⟩ := bounds_of_contains hx
  have hunit : (0 : ℚ) < 2 ^ e := zpow_pos two_pos e
  have hpower : (2 : ℚ) ^ (e + 52) = 2 ^ 52 * 2 ^ e := by
    rw [zpow_add₀ two_ne_zero, mul_comm]
    rfl
  split_ifs at hlo htie with hleast
  · obtain ⟨rfl, hmin⟩ := hleast
    rw [cast_leastNormal] at hlo
    rcases le_or_gt (2 ^ 52 * (2 : ℚ) ^ e) x with hge | hlt
    · refine ofRat_eq_of_near hm hc ?_ hhi (.inl rfl) (.inr (hpower.trans_le hge))
      rw [cast_leastNormal]
      nlinarith
    · exact ofRat_eq_of_below hmin hc.2.2.1 hlo hlt
  · refine ofRat_eq_of_near hm hc hlo hhi htie ?_
    rw [hpower, or_iff_not_imp_left]
    intro hmin
    have hlt : leastNormal < m := by
      refine lt_of_le_of_ne (hc.2.2.2.resolve_right hmin) fun heq => hleast ⟨heq.symm, ?_⟩
      exact lt_of_le_of_ne hc.2.1 (Ne.symm hmin)
    have hmantissa : (2 : ℚ) ^ 52 + 1 ≤ m := cast_leastNormal ▸ by exact_mod_cast hlt
    nlinarith

theorem le_of_contains (hm : m ≠ 0) (hx : (Cell.around m e).contains x) : 2 ^ (e - 1) ≤ x := by
  have hlo := (bounds_of_contains hx).1
  have hunit : (0 : ℚ) < 2 ^ e := zpow_pos two_pos e
  have hone : (1 : ℚ) ≤ m := by exact_mod_cast Nat.one_le_iff_ne_zero.mpr hm
  rw [zpow_sub_one₀ two_ne_zero]
  split_ifs at hlo <;> nlinarith

theorem zpow_neg_lt {a b : ℕ} (h : 2 ^ a < 10 ^ b) : (10 : ℚ) ^ (-b : ℤ) < 2 ^ (-a : ℤ) := by
  rw [zpow_neg, zpow_neg, zpow_natCast, zpow_natCast]
  exact inv_strictAnti₀ (by positivity) (by exact_mod_cast h)

theorem le_exponent_of_contains {d : Decimal} (hm : m ≠ 0) (hc : (finite negative m e).IsCanonical)
    (hx : (Cell.around m e).contains d.value) :
    -(400 + (Nat.log2 d.digits + 1 : ℕ) : ℤ) ≤ d.exponent := by
  by_contra! hlt
  have hbound : (d.digits : ℚ) ≤ 10 ^ (Nat.log2 d.digits + 1) := by
    have hlog : d.digits < 2 ^ (Nat.log2 d.digits + 1) := Nat.lt_log2_self
    have hpow : 2 ^ (Nat.log2 d.digits + 1) ≤ 10 ^ (Nat.log2 d.digits + 1) :=
      Nat.pow_le_pow_left (by decide) _
    exact_mod_cast (hlog.trans_le hpow).le
  have hsmall : d.value < (2 : ℚ) ^ (e - 1) := by
    calc d.value ≤ (10 : ℚ) ^ (Nat.log2 d.digits + 1) * 10 ^ d.exponent := by
          exact mul_le_mul_of_nonneg_right hbound (zpow_pos (by norm_num) _).le
      _ = 10 ^ ((Nat.log2 d.digits + 1 : ℕ) + d.exponent) := by
          rw [zpow_add₀ (by norm_num), zpow_natCast]
      _ ≤ 10 ^ (-(400 : ℕ) : ℤ) := zpow_le_zpow_right₀ (by norm_num) (by omega)
      _ < 2 ^ (-(1075 : ℕ) : ℤ) := zpow_neg_lt (by decide +kernel)
      _ ≤ 2 ^ (e - 1) := zpow_le_zpow_right₀ one_le_two (by
          have := hc.2.1
          rw [minExponent] at this
          omega)
  exact absurd (le_of_contains hm hx) hsmall.not_ge

theorem digits_ne_zero_of_contains {d : Decimal} (hm : m ≠ 0)
    (hx : (Cell.around m e).contains d.value) : d.digits ≠ 0 := by
  intro hzero
  have hpos : 0 < d.value := (zpow_pos two_pos _).trans_le (le_of_contains hm hx)
  rw [Decimal.value, hzero, Nat.cast_zero, zero_mul] at hpos
  exact lt_irrefl 0 hpos

theorem ofScientific_eq {d : Decimal} (hm : m ≠ 0) (hc : (finite negative m e).IsCanonical)
    (hx : (Cell.around m e).contains d.value) (hexponent : d.exponent ≤ 400) :
    ofScientific negative d.digits d.exponent = finite negative m e := by
  rw [ofScientific, if_neg (digits_ne_zero_of_contains hm hx), if_neg hexponent.not_gt,
    if_neg (le_exponent_of_contains hm hc hx).not_gt]
  exact ofRat_eq hm hc hx

theorem ofRat_zero (negative : Bool) : ofRat negative 0 = zero negative := by
  have hmantissa : roundHalfEven (0 / 2 ^ exponentOf 0) = 0 :=
    Nat.le_zero.mp (roundHalfEven_le (by simp))
  simp only [ofRat, hmantissa]
  rfl

theorem exponentOf_le {k : ℤ} (hx : 0 < x) (hlt : x < 2 ^ (k + 53)) (hk : minExponent ≤ k) :
    exponentOf x ≤ k := by
  obtain ⟨-, -, hmin | hge⟩ := exponentOf_spec hx
  · exact hmin ▸ hk
  · have hpower := (zpow_lt_zpow_iff_right₀ one_lt_two).mp (hge.trans_lt hlt)
    omega

theorem exists_ofRat (hmax : exponentOf x < maxExponent) :
    ∃ m e, (∀ negative, ofRat negative x = finite negative m e) ∧
      (e = minExponent ∨ e ≤ exponentOf x + 1) ∧
      scaled m e = roundHalfEven (x / 2 ^ exponentOf x) * 2 ^ exponentOf x := by
  simp only [ofRat]
  generalize roundHalfEven (x / 2 ^ exponentOf x) = n at *
  by_cases hcarry : n = 2 * leastNormal
  · have hnormal : leastNormal ≠ 0 := by decide
    have hexponent : ¬maxExponent < exponentOf x + 1 := by omega
    simp only [hcarry, ↓reduceIte, hnormal, hexponent]
    refine ⟨_, _, fun _ => rfl, .inr le_rfl, ?_⟩
    rw [scaled, zpow_add_one₀ two_ne_zero, Nat.cast_mul]
    ring
  · simp only [hcarry, ↓reduceIte, hmax.not_gt]
    split_ifs with hzero
    · exact ⟨_, _, fun _ => rfl, .inl rfl, by simp [scaled, hzero]⟩
    · exact ⟨_, _, fun _ => rfl, .inr (by omega), rfl⟩

theorem exists_ofRat_near {k : ℤ} (hx : 0 ≤ x) (hlt : x < 2 ^ (k + 53)) (hmin : minExponent ≤ k)
    (hmax : k < maxExponent) : ∃ m e, (∀ negative, ofRat negative x = finite negative m e) ∧
      e ≤ k + 1 ∧ |scaled m e - x| ≤ 2 ^ (k - 1) := by
  rcases hx.eq_or_lt with rfl | hx
  · exact ⟨0, minExponent, ofRat_zero, by omega, by simp [scaled, zpow_nonneg]⟩
  · have hle := exponentOf_le hx hlt hmin
    obtain ⟨m, e, hround, he, hscaled⟩ := exists_ofRat (hle.trans_lt hmax)
    have hunit : (0 : ℚ) < 2 ^ exponentOf x := zpow_pos two_pos _
    refine ⟨m, e, hround, by omega, ?_⟩
    calc |scaled m e - x|
        = |roundHalfEven (x / 2 ^ exponentOf x) - x / 2 ^ exponentOf x| * 2 ^ exponentOf x := by
          rw [hscaled, ← abs_of_pos hunit, ← abs_mul, abs_of_pos hunit, sub_mul,
            div_mul_cancel₀ _ hunit.ne']
      _ ≤ 1 / 2 * 2 ^ k := by
          gcongr
          · exact abs_roundHalfEven_sub_le (div_pos hx hunit).le
          · exact one_le_two
      _ = 2 ^ (k - 1) := by
          rw [zpow_sub_one₀ two_ne_zero]
          ring

theorem exists_ofRat_natCast {n : ℕ} (h : n < 2 * leastNormal) :
    ∃ m e, (∀ negative, ofRat negative n = finite negative m e) ∧ scaled m e = n := by
  rcases n.eq_zero_or_pos with rfl | hpos
  · exact ⟨0, minExponent, ofRat_zero, by simp [scaled]⟩
  · have hlt : (n : ℚ) < 2 ^ ((0 : ℤ) + 53) := by exact_mod_cast h
    have hle := exponentOf_le (Nat.cast_pos.mpr hpos) hlt (by decide)
    obtain ⟨m, e, hround, -, hscaled⟩ := exists_ofRat (x := n) (hle.trans_lt (by decide))
    obtain ⟨k, hk⟩ := Int.eq_ofNat_of_zero_le (neg_nonneg.mpr hle)
    have hwhole : (n : ℚ) / 2 ^ exponentOf n = (n * 2 ^ k : ℕ) := by
      rw [← neg_neg (exponentOf n), hk, zpow_neg, div_inv_eq_mul, zpow_natCast]
      push_cast
      rfl
    refine ⟨m, e, hround, ?_⟩
    rw [hscaled, hwhole, roundHalfEven_natCast, ← hwhole,
      div_mul_cancel₀ _ (zpow_ne_zero _ two_ne_zero)]

theorem value?_ofInt {n : ℤ} (h : n.natAbs < 2 * leastNormal) :
    (ofInt n).value? = some (n : ℚ) := by
  obtain ⟨m, e, hround, hscaled⟩ := exists_ofRat_natCast h
  rw [ofInt, hround]
  by_cases hn : n < 0
  · have habs : (n.natAbs : ℚ) = -n := by rw [Nat.cast_natAbs, abs_of_neg hn, Int.cast_neg]
    simp [hn, value?, hscaled, habs]
  · have habs : (n.natAbs : ℚ) = n := by rw [Nat.cast_natAbs, abs_of_nonneg (not_lt.mp hn)]
    simp [hn, value?, hscaled, habs]

theorem isCanonical_zero (negative : Bool) : (zero negative).IsCanonical :=
  ⟨by decide, le_rfl, by decide, .inr rfl⟩

theorem isCanonical_ofRat (negative : Bool) (hx : 0 ≤ x) : (ofRat negative x).IsCanonical := by
  rcases hx.eq_or_lt with rfl | hx
  · exact ofRat_zero negative ▸ isCanonical_zero negative
  · obtain ⟨hmin, hlt, hnormal⟩ := exponentOf_spec hx
    have hunit : (0 : ℚ) < 2 ^ exponentOf x := zpow_pos two_pos _
    have hpower (n : ℕ) : (2 : ℚ) ^ (exponentOf x + n) = 2 ^ n * 2 ^ exponentOf x := by
      rw [zpow_add₀ two_ne_zero, mul_comm, zpow_natCast]
    have hle : roundHalfEven (x / 2 ^ exponentOf x) ≤ 2 * leastNormal := by
      refine roundHalfEven_le ((div_le_iff₀ hunit).mpr (hlt.le.trans_eq ?_))
      rw [Nat.cast_mul, cast_leastNormal]
      exact (hpower 53).trans (by ring)
    have hge : exponentOf x = minExponent ∨ leastNormal ≤ roundHalfEven (x / 2 ^ exponentOf x) := by
      refine hnormal.imp_right fun h => le_roundHalfEven ((le_div_iff₀ hunit).mpr ?_)
      rw [cast_leastNormal]
      exact (hpower 52).symm.trans_le h
    simp only [ofRat]
    generalize roundHalfEven (x / 2 ^ exponentOf x) = n at *
    -- a mantissa that is rounded up to the next power goes to the next exponent
    by_cases hcarry : n = 2 * leastNormal
    · have hzero : leastNormal ≠ 0 := by decide
      simp only [hcarry, ↓reduceIte, hzero]
      split_ifs with hmax
      · trivial
      · exact ⟨by decide, by omega, not_lt.mp hmax, .inl le_rfl⟩
    · simp only [hcarry, ↓reduceIte]
      split_ifs with hzero hmax
      · exact isCanonical_zero negative
      · trivial
      · exact ⟨lt_of_le_of_ne hle hcarry, hmin, not_lt.mp hmax, hge.symm⟩

theorem isCanonical_ofScientific (negative : Bool) (digits : ℕ) (exponent : ℤ) :
    (ofScientific negative digits exponent).IsCanonical := by
  rw [ofScientific]
  split_ifs
  · exact isCanonical_zero negative
  · trivial
  · exact isCanonical_zero negative
  · exact isCanonical_ofRat negative (mul_nonneg (Nat.cast_nonneg _) (zpow_pos (by norm_num) _).le)

theorem isNegative_ofRat (negative : Bool) (x : ℚ) : (ofRat negative x).isNegative = negative := by
  simp only [ofRat]
  generalize (if roundHalfEven (x / 2 ^ exponentOf x) = 2 * leastNormal then _ else _) = p
  split_ifs <;> rfl

theorem isNegative_ofScientific (negative : Bool) (digits : ℕ) (exponent : ℤ) :
    (ofScientific negative digits exponent).isNegative = negative := by
  rw [ofScientific]
  split_ifs
  · rfl
  · rfl
  · rfl
  · exact isNegative_ofRat negative _

theorem isCanonical_neg {x : Binary64} (h : x.IsCanonical) : x.neg.IsCanonical := by
  cases x <;> exact h

theorem getD_value?_nonneg (x : ℚ) : 0 ≤ (ofRat false x).value?.getD 0 := by
  have hscaled (m : ℕ) (e : ℤ) : 0 ≤ scaled m e := mul_nonneg m.cast_nonneg (zpow_pos two_pos e).le
  simp only [ofRat]
  split_ifs <;> first | exact le_rfl | exact hscaled _ _

end Binary64

end PromTree
