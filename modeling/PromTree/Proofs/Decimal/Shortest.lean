import PromTree.Proofs.Binary64.Rounding

namespace PromTree

theorem zpow_ediv_le {s t : ℕ} (ht : 0 < t) (hle : 10 ^ s ≤ 2 ^ (t + 1)) (hge : 2 ^ t ≤ 10 ^ s)
    {b : ℤ} (hb : b ≤ t) : (10 : ℚ) ^ (b * s / t) ≤ 2 ^ (b + 1) := by
  have hten : (1 : ℚ) ≤ 10 := by norm_num
  have hle' : (10 : ℚ) ^ s ≤ 2 ^ (t + 1) := by exact_mod_cast hle
  have hge' : (2 : ℚ) ^ t ≤ 10 ^ s := by exact_mod_cast hge
  -- a negative multiple turns the comparison of the powers around
  have hscale : ((10 : ℚ) ^ s) ^ b ≤ 2 ^ ((b + 1) * t) := by
    obtain ⟨n, rfl | rfl⟩ := b.eq_nat_or_neg
    · calc ((10 : ℚ) ^ s) ^ (n : ℤ) ≤ (2 ^ (t + 1)) ^ n := by
            rw [zpow_natCast]
            exact pow_le_pow_left₀ (by positivity) hle' n
        _ = 2 ^ (((t : ℤ) + 1) * n) := by
            rw [← pow_mul, ← zpow_natCast]
            push_cast
            rfl
        _ ≤ 2 ^ (((n : ℤ) + 1) * t) := zpow_le_zpow_right₀ one_le_two (by linarith)
    · calc ((10 : ℚ) ^ s) ^ (-n : ℤ) ≤ ((2 ^ t) ^ n)⁻¹ := by
            rw [zpow_neg, zpow_natCast]
            gcongr
        _ = 2 ^ (-(t : ℤ) * n) := by
            rw [← pow_mul, ← zpow_natCast, ← zpow_neg]
            push_cast
            rw [neg_mul]
        _ ≤ 2 ^ ((-(n : ℤ) + 1) * t) := zpow_le_zpow_right₀ one_le_two (by linarith)
  -- multiplied by its divisor, the rounded quotient is at most what was divided
  have hroot : ((10 : ℚ) ^ (b * s / t)) ^ t ≤ (2 ^ (b + 1)) ^ t := by
    calc ((10 : ℚ) ^ (b * s / t)) ^ t = 10 ^ (b * s / t * t) := by rw [zpow_mul, zpow_natCast]
      _ ≤ 10 ^ (b * s) := zpow_le_zpow_right₀ hten (Int.ediv_mul_le _ (by omega))
      _ = (10 ^ s) ^ b := by rw [mul_comm, zpow_mul, zpow_natCast]
      _ ≤ 2 ^ ((b + 1) * t) := hscale
      _ = (2 ^ (b + 1)) ^ t := by rw [zpow_mul, zpow_natCast]
  exact (pow_le_pow_iff_left₀ (zpow_pos (by norm_num) _).le (zpow_pos two_pos _).le ht.ne').mp hroot

theorem ten_pow_le : 10 ^ 30103 ≤ 2 ^ (100000 + 1) := by decide +kernel

theorem two_pow_le : 2 ^ 100000 ≤ 10 ^ 30103 := by decide +kernel

namespace Cell

variable {c : Cell} {value : ℚ} {k : ℤ} {d : Decimal}

theorem contains_of_onGrid (h : c.onGrid value k = some d) : c.contains d.value := by
  simp only [onGrid] at h
  split at h
  · rename_i hbelow habove
    split_ifs at h
    · exact Option.some.inj h ▸ hbelow
    · exact Option.some.inj h ▸ habove
  · rename_i hbelow _
    exact Option.some.inj h ▸ hbelow
  · rename_i _ habove
    exact Option.some.inj h ▸ habove
  · contradiction

theorem exists_onGrid (hlower : c.lower < value) (hupper : value + 10 ^ k < c.upper)
    (hvalue : 0 ≤ value) : ∃ d, c.onGrid value k = some d := by
  have hunit : (0 : ℚ) < 10 ^ k := zpow_pos (by norm_num) k
  have hfloor : ((value / 10 ^ k).floor.toNat : ℤ) = (value / 10 ^ k).floor :=
    Int.toNat_of_nonneg (Rat.le_floor_iff.mpr (by simpa using div_nonneg hvalue hunit.le))
  -- the point above the value is enough, whether or not the one below it is in the cell too
  have habove : c.contains (((value / 10 ^ k).floor.toNat + 1 : ℕ) * (10 : ℚ) ^ k) := by
    have hle : ((value / 10 ^ k).floor.toNat : ℚ) * 10 ^ k ≤ value := by
      rw [← le_div_iff₀ hunit]
      exact_mod_cast hfloor ▸ Rat.floor_le _
    have hlt : value < (((value / 10 ^ k).floor.toNat : ℚ) + 1) * 10 ^ k := by
      rw [← div_lt_iff₀ hunit]
      exact_mod_cast hfloor ▸ Rat.lt_floor_add_one _
    rw [contains]
    push_cast
    split_ifs
    · exact decide_eq_true ⟨(hlower.trans hlt).le, by linarith⟩
    · exact decide_eq_true ⟨hlower.trans hlt, by linarith⟩
  simp only [onGrid, habove]
  cases c.contains ((value / 10 ^ k).floor.toNat * (10 : ℚ) ^ k) with
  | true =>
    dsimp only
    split_ifs
    · exact ⟨_, rfl⟩
    · exact ⟨_, rfl⟩
  | false => exact ⟨_, rfl⟩

end Cell

namespace Decimal

variable {m : ℕ} {e : ℤ}

theorem unit_lt_half (hm : m ≠ 0) (hc : (Binary64.finite false m e).IsCanonical) :
    (10 : ℚ) ^ (ceilingExponent (Binary64.scaled m e) - 19) < 2 ^ (e - 1) := by
  obtain ⟨hlt, -, hmax, -⟩ := hc
  have hunit : (0 : ℚ) < 2 ^ e := zpow_pos two_pos e
  have hpos : 0 < Binary64.scaled m e := mul_pos (Nat.cast_pos.mpr (Nat.pos_of_ne_zero hm)) hunit
  have hbound : Binary64.scaled m e < 2 ^ (e + 53) := by
    have hmantissa : (m : ℚ) < 2 ^ (53 : ℤ) := by exact_mod_cast hlt
    rw [zpow_add₀ two_ne_zero, mul_comm]
    exact mul_lt_mul_of_pos_right hmantissa hunit
  have hlow := (Binary64.log2_bounds hpos).1
  rw [ceilingExponent]
  generalize (Nat.log2 (Binary64.scaled m e).num.natAbs : ℤ) -
    Nat.log2 (Binary64.scaled m e).den = b at *
  have hbits : b - 1 < e + 53 := (zpow_lt_zpow_iff_right₀ one_lt_two).mp (hlow.trans hbound)
  have hle : b + 1 ≤ (100000 : ℕ) := by
    rw [Binary64.maxExponent] at hmax
    omega
  calc (10 : ℚ) ^ ((b + 1) * 30103 / 100000 + 1 - 19)
      = 10 ^ ((b + 1) * 30103 / 100000) / 10 ^ 18 := by
        rw [add_sub_assoc, zpow_add₀ (by norm_num), div_eq_mul_inv]
        rfl
    _ ≤ 2 ^ (b + 1 + 1) / 10 ^ 18 := by
        gcongr
        exact zpow_ediv_le (by decide) ten_pow_le two_pow_le hle
    _ ≤ 2 ^ (e - 1 + 56) / 10 ^ 18 := by
        refine div_le_div_of_nonneg_right ?_ (by positivity)
        exact zpow_le_zpow_right₀ one_le_two (by omega)
    _ = 2 ^ (e - 1) * (2 ^ 56 / 10 ^ 18) := by
        rw [zpow_add₀ two_ne_zero, mul_div_assoc]
        rfl
    _ < 2 ^ (e - 1) := mul_lt_of_lt_one_right (zpow_pos two_pos _) (by norm_num)

theorem contains_shortest (hm : m ≠ 0) (hc : (Binary64.finite false m e).IsCanonical) :
    (Cell.around m e).contains (shortest m e).value := by
  have hhalf : (0 : ℚ) < 2 ^ (e - 1) := zpow_pos two_pos _
  have hlast : ∃ d, (Cell.around m e).onGrid (Binary64.scaled m e)
      (ceilingExponent (Binary64.scaled m e) - (19 : ℕ)) = some d := by
    refine Cell.exists_onGrid ?_ ?_ ?_
    · simp only [Cell.around]
      split_ifs <;> linarith
    · simp only [Cell.around]
      exact add_lt_add_right (unit_lt_half hm hc) _
    · exact mul_nonneg (Nat.cast_nonneg _) (zpow_pos two_pos _).le
  rw [shortest]
  simp only [hm, ↓reduceIte]
  cases hfound : (List.range 20).findSome? fun i : ℕ => (Cell.around m e).onGrid
      (Binary64.scaled m e) (ceilingExponent (Binary64.scaled m e) - i) with
  | none =>
    obtain ⟨d, hd⟩ := hlast
    have hnone := List.findSome?_eq_none_iff.mp hfound 19 (by decide)
    rw [hd] at hnone
    contradiction
  | some d =>
    obtain ⟨i, -, hi⟩ := List.exists_of_findSome?_eq_some hfound
    exact Cell.contains_of_onGrid hi

end Decimal

end PromTree
