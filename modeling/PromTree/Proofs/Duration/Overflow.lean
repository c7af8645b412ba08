import PromTree.Duration
import PromTree.Proofs.Query.Scanning

namespace PromTree

namespace Checked

variable {α : Type} {step? : UInt64 → α → Option UInt64} {step : Nat → α → Nat} {xs : List α}

theorem bind_ofNat? {f : UInt64 → Option UInt64} {g : Nat → Nat}
    (hf : ∀ a, f a = ofNat? (g a.toNat)) (hg : ∀ n, n ≤ g n) (n : Nat) :
    (ofNat? n).bind f = ofNat? (g n) := by
  by_cases h : n < UInt64.size
  · rw [ofNat?, if_pos h, Option.bind_some, hf, UInt64.toNat_ofNat_of_lt' h]
  · have hlarge : ¬g n < UInt64.size := fun hlt => h (Nat.lt_of_le_of_lt (hg n) hlt)
    rw [ofNat?, if_neg h, Option.bind_none, ofNat?, if_neg hlarge]

theorem le_foldl (hle : ∀ n x, n ≤ step n x) (xs : List α) (n : Nat) : n ≤ xs.foldl step n := by
  induction xs generalizing n with
  | nil => exact Nat.le_refl n
  | cons x xs ih => exact Nat.le_trans (hle n x) (ih _)

theorem foldlM_eq (hstep : ∀ a, ∀ x ∈ xs, step? a x = ofNat? (step a.toNat x))
    (hle : ∀ n x, n ≤ step n x) (a : UInt64) :
    xs.foldlM step? a = ofNat? (xs.foldl step a.toNat) := by
  induction xs generalizing a with
  | nil => exact (ofNat?_toNat a).symm
  | cons x xs ih =>
    rw [List.foldlM_cons, hstep a x List.mem_cons_self, Option.bind_eq_bind, List.foldl_cons]
    apply bind_ofNat? _ (le_foldl hle xs)
    exact ih fun b y hy => hstep b y (List.mem_cons_of_mem _ hy)

theorem value_of_isDigit {c : Char} (h : c.isDigit) :
    Digits.value c = c.toNat - '0'.toNat ∧ Digits.value c < 10 := by
  rw [Digits.value, if_pos h]
  rw [isDigit_iff] at h
  have hzero : '0'.toNat = 48 := rfl
  exact ⟨rfl, by omega⟩

theorem ofDigits?_eq {cs : List Char} (h : ∀ c ∈ cs, c.isDigit) :
    ofDigits? cs = ofNat? (Nat.ofDigitChars 10 cs 0) := by
  rw [ofDigits?, Nat.ofDigitChars_eq_foldl]
  refine foldlM_eq (fun n c hc => ?_) (fun n c => by omega) 0
  obtain ⟨hvalue, hlt⟩ := value_of_isDigit (h c hc)
  have hdigit : (UInt64.ofNat (Digits.value c)).toNat = Digits.value c :=
    UInt64.toNat_ofNat_of_lt' (Nat.lt_trans hlt (by decide))
  have hadd : ∀ a : UInt64, add? a (UInt64.ofNat (Digits.value c)) =
      ofNat? (a.toNat + (c.toNat - '0'.toNat)) := by
    intro a
    rw [add?, hdigit, hvalue]
  rw [mul?, Option.bind_eq_bind, bind_ofNat? hadd (fun n => Nat.le_add_right n _), Nat.mul_comm]
  rfl

end Checked

namespace Duration

open Checked (ofNat?)

theorem milliseconds_pos (u : TimeUnit) : 0 < u.milliseconds := by cases u <;> decide

theorem addTo?_eq {c : Capture} (h : ∀ d ∈ c.digits, d.isDigit) (total : UInt64) :
    c.addTo? total = ofNat? (total.toNat + c.component.milliseconds) := by
  have hunit : (UInt64.ofNat c.unit.milliseconds).toNat = c.unit.milliseconds :=
    UInt64.toNat_ofNat_of_lt' (by cases c.unit <;> decide)
  have hproduct : ∀ count : UInt64, Checked.mul? count (UInt64.ofNat c.unit.milliseconds) =
      ofNat? (count.toNat * c.unit.milliseconds) := by
    intro count
    rw [Checked.mul?, hunit]
  have hsum : ∀ ms : UInt64, Checked.add? total ms = ofNat? (total.toNat + ms.toNat) :=
    fun ms => rfl
  rw [Capture.addTo?, Checked.ofDigits?_eq h]
  simp only [Option.bind_eq_bind, ← Option.bind_assoc]
  rw [Checked.bind_ofNat? hproduct fun n => Nat.le_mul_of_pos_right n (milliseconds_pos _),
    Checked.bind_ofNat? hsum fun n => Nat.le_add_left n _]
  rfl

/-- The checks of each count, each product and each sum are one check of the whole sum. -/
theorem foldlM_addTo? {captures : List Capture} (h : ∀ c ∈ captures, ∀ d ∈ c.digits, d.isDigit) :
    captures.foldlM Capture.addTo? 0 =
      ofNat? (captures.map fun c => c.component.milliseconds).sum := by
  have hle (n : Nat) (c : Capture) : n ≤ n + c.component.milliseconds := Nat.le_add_right n _
  rw [List.sum_eq_foldl, List.foldl_map]
  refine Checked.foldlM_eq (fun a c hc => ?_) hle 0
  exact addTo?_eq (h c hc) a

end Duration

end PromTree
