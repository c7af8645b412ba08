import PromTree.Text.Digits

namespace PromTree.Checked

def ofNat? (n : Nat) : Option UInt64 := if n < UInt64.size then some (UInt64.ofNat n) else none

def add? (a b : UInt64) : Option UInt64 := ofNat? (a.toNat + b.toNat)

def mul? (a b : UInt64) : Option UInt64 := ofNat? (a.toNat * b.toNat)

def ofDigits? (cs : List Char) : Option UInt64 :=
  cs.foldlM (fun n c => do add? (← mul? n 10) (UInt64.ofNat (Digits.value c))) 0

theorem ofNat?_eq_some_iff {n : Nat} {a : UInt64} : ofNat? n = some a ↔ n = a.toNat := by
  rw [ofNat?]
  constructor
  · intro h
    split at h
    · rename_i hn
      obtain rfl := Option.some.inj h
      exact (UInt64.toNat_ofNat_of_lt hn).symm
    · contradiction
  · rintro rfl
    rw [if_pos a.toNat_lt, UInt64.ofNat_toNat]

theorem ofNat?_toNat (a : UInt64) : ofNat? a.toNat = some a := ofNat?_eq_some_iff.mpr rfl

end PromTree.Checked
