import PromTree.Proofs.Query.Durations

namespace PromTree.Duration

def TimeUnit.cap? : TimeUnit → Option Nat
  | .hour => some 24
  | .minute | .second => some 60
  | .millisecond => some 1000
  | .year | .week | .day => none

structure Component.IsReduced (c : Component) : Prop where
  unit : c.unit ≠ .year ∧ c.unit ≠ .week
  count : c.count ≠ 0
  lt : ∀ cap, c.unit.cap? = some cap → c.count < cap

def IsDescending (cs : List Component) : Prop :=
  cs.Pairwise fun a b => b.unit.milliseconds < a.unit.milliseconds

structure IsWritten (ms : Nat) (cs : List Component) : Prop where
  total : total cs = ms
  zero : ms = 0 → cs = [⟨0, .second⟩]
  years : ms ≠ 0 → TimeUnit.year.milliseconds ∣ ms →
    cs = [⟨ms / TimeUnit.year.milliseconds, .year⟩]
  weeks : ¬TimeUnit.year.milliseconds ∣ ms → TimeUnit.week.milliseconds ∣ ms →
    cs = [⟨ms / TimeUnit.week.milliseconds, .week⟩]
  mixed : ¬TimeUnit.year.milliseconds ∣ ms → ¬TimeUnit.week.milliseconds ∣ ms →
    cs ≠ [] ∧ IsDescending cs ∧ ∀ c ∈ cs, c.IsReduced

def written (ms : Nat) : List Component :=
  if ms = 0 then [⟨0, .second⟩] else split ms TimeUnit.all

variable {ms : Nat} {u : TimeUnit} {units : List TimeUnit} {c : Component}

theorem split_zero (units : List TimeUnit) : split 0 units = [] := by
  induction units with
  | nil => rfl
  | cons u units ih => rw [split, Nat.zero_div, beq_self_eq_true, Bool.or_true, if_pos rfl, ih]

theorem split_of_dvd (h : u.milliseconds ∣ ms) (hms : ms ≠ 0) (units : List TimeUnit) :
    split ms (u :: units) = [⟨ms / u.milliseconds, u⟩] := by
  have hcount : ms / u.milliseconds ≠ 0 := fun hz => hms (Nat.eq_zero_of_dvd_of_div_eq_zero h hz)
  simp only [split, Nat.mod_eq_zero_of_dvd h, split_zero]
  simp [hcount]

theorem split_of_not_dvd (hu : u.isExact) (h : ¬u.milliseconds ∣ ms) (units : List TimeUnit) :
    split ms (u :: units) = split ms units := by
  have hrest : ms % u.milliseconds ≠ 0 := fun hz => h (Nat.dvd_of_mod_eq_zero hz)
  simp [split, hu, hrest]

theorem mem_split_cons (hu : u.isExact = false) : c ∈ split ms (u :: units) ↔
    c = ⟨ms / u.milliseconds, u⟩ ∧ c.count ≠ 0 ∨ c ∈ split (ms % u.milliseconds) units := by
  by_cases hcount : ms / u.milliseconds = 0
  · have hpos : 0 < u.milliseconds := by cases u <;> decide
    have hlt : ms < u.milliseconds := (Nat.div_eq_zero_iff_lt hpos).mp hcount
    have hskip : split ms (u :: units) = split ms units := by simp [split, hcount]
    rw [hskip, Nat.mod_eq_of_lt hlt]
    refine (or_iff_right ?_).symm
    rintro ⟨rfl, hc⟩
    exact hc hcount
  · simp only [split, hu, Bool.false_and, Bool.false_or, beq_iff_eq, hcount, ↓reduceIte,
      List.mem_cons]
    refine or_congr_left ⟨?_, And.left⟩
    rintro rfl
    exact ⟨rfl, hcount⟩

theorem isReduced_div {cap : Nat} (hu : u.cap? = some cap) (hms : ms < cap * u.milliseconds)
    (hcount : ms / u.milliseconds ≠ 0) : Component.IsReduced ⟨ms / u.milliseconds, u⟩ := by
  refine ⟨?_, hcount, fun cap' hcap => ?_⟩
  · constructor <;> rintro rfl <;> contradiction
  · obtain rfl := Option.some.inj (hu.symm.trans hcap)
    exact Nat.div_lt_of_lt_mul (Nat.mul_comm cap _ ▸ hms)

theorem isReduced_of_mem_split
    (h : c ∈ split ms [.day, .hour, .minute, .second, .millisecond]) : c.IsReduced := by
  rw [mem_split_cons rfl, mem_split_cons rfl, mem_split_cons rfl, mem_split_cons rfl,
    mem_split_cons rfl] at h
  rcases h with ⟨rfl, hc⟩ | ⟨rfl, hc⟩ | ⟨rfl, hc⟩ | ⟨rfl, hc⟩ | ⟨rfl, hc⟩ | h
  · exact ⟨⟨nofun, nofun⟩, hc, nofun⟩
  · exact isReduced_div rfl (Nat.mod_lt _ (by decide)) hc
  · exact isReduced_div rfl (Nat.mod_lt _ (by decide)) hc
  · exact isReduced_div rfl (Nat.mod_lt _ (by decide)) hc
  · exact isReduced_div rfl (Nat.mod_lt _ (by decide)) hc
  · exact absurd h List.not_mem_nil

theorem total_written (ms : Nat) : total (written ms) = ms := by
  rw [written]
  split <;> rename_i h
  · exact h.symm
  · exact total_split ms rfl

theorem written_ne_nil (ms : Nat) : written ms ≠ [] := by
  intro hnil
  have htotal := total_written ms
  rw [hnil] at htotal
  obtain rfl : 0 = ms := htotal
  contradiction

theorem units_written (ms : Nat) : ((written ms).map Component.unit).Sublist TimeUnit.all := by
  rw [written]
  split
  · exact List.singleton_sublist.mpr (by decide)
  · exact units_split ms TimeUnit.all

theorem isDescending_written (ms : Nat) : IsDescending (written ms) := by
  have hall : TimeUnit.all.Pairwise fun u v => v.milliseconds < u.milliseconds := by decide
  exact List.pairwise_map.mp (hall.sublist (units_written ms))

theorem isWritten_written (ms : Nat) : IsWritten ms (written ms) where
  total := total_written ms
  zero h := if_pos h
  years hms hyear := by
    rw [written, if_neg hms, TimeUnit.all, split_of_dvd hyear hms]
  weeks hyear hweek := by
    have hms : ms ≠ 0 := fun hz => hyear (hz ▸ Nat.dvd_zero _)
    rw [written, if_neg hms, TimeUnit.all, split_of_not_dvd rfl hyear, split_of_dvd hweek hms]
  mixed hyear hweek := by
    have hms : ms ≠ 0 := fun hz => hyear (hz ▸ Nat.dvd_zero _)
    refine ⟨written_ne_nil ms, isDescending_written ms, fun c hc => ?_⟩
    rw [written, if_neg hms, TimeUnit.all, split_of_not_dvd rfl hyear,
      split_of_not_dvd rfl hweek] at hc
    exact isReduced_of_mem_split hc

theorem chars_eq (ms : Nat) : chars ms = (written ms).flatMap Component.chars := by
  rw [chars, written]
  split <;> rfl

theorem captures?_text (ms : Nat) : captures? TimeUnit.all (text ms).toList =
    some (((written ms).map Part.ofComponent).map Part.capture) := by
  rw [text, String.toList_ofList, chars_eq]
  exact captures?_chars (units_written ms)

theorem text_injective {n m : Nat} (h : text n = text m) : n = m := by
  have hcaptures := captures?_text n
  rw [h, captures?_text, Option.some.injEq] at hcaptures
  have hwritten := congrArg (List.map Capture.component) hcaptures
  rw [map_component_captures, map_component_captures] at hwritten
  rw [← total_written n, ← hwritten, total_written]

theorem sum_parts (cs : List Component) :
    ((cs.map Part.ofComponent).map fun p => p.count * p.unit.milliseconds).sum = total cs := by
  have hpart (c : Component) :
      (Part.ofComponent c).count * (Part.ofComponent c).unit.milliseconds = c.milliseconds :=
    congrArg Component.milliseconds (Part.component_ofComponent c)
  rw [total, List.map_map, List.sum, List.foldr_map]
  simp only [Function.comp_apply, hpart]

/-- Each duration that fits 64 bits is read back from its text. -/
theorem parse_text (ms : UInt64) : parse (text ms.toNat) = .ok ms ∧
    ∃ cs, IsWritten ms.toNat cs ∧ text ms.toNat = String.ofList (cs.flatMap Component.chars) := by
  have htext : text ms.toNat =
      String.ofList (((written ms.toNat).map Part.ofComponent).flatMap Part.chars) := by
    rw [text, chars_eq, flatMap_chars_eq_parts]
  constructor
  · rw [htext, parse_ofList_parts, sum_parts, total_written]
    · rw [Ne, List.map_eq_nil_iff]
      exact written_ne_nil _
    · rw [List.map_map]
      exact units_written _
  · exact ⟨_, isWritten_written ms.toNat, by rw [text, chars_eq]⟩

end PromTree.Duration
