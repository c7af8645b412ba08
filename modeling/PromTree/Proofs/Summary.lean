import Mathlib.Algebra.Order.BigOperators.Group.List
import Mathlib.Data.Finset.Card
import Mathlib.Data.List.Sort
import Mathlib.Data.String.Basic
import PromTree.Proofs.SortedMap
import PromTree.Sample.Summary

namespace PromTree

namespace LabelExample

/-- The commoner value comes first, and of equally common ones the smaller. -/
def Precedes (a b : LabelExample) : Prop :=
  b.count < a.count ∨ a.count = b.count ∧ a.value < b.value

theorem Precedes.asymm {a b : LabelExample} (hab : a.Precedes b) : ¬b.Precedes a := by
  rintro (hba | ⟨hba, hlt'⟩)
  · rcases hab with hab | ⟨hab, -⟩
    · exact hab.asymm hba
    · exact hba.ne hab
  · rcases hab with hab | ⟨-, hlt⟩
    · exact hab.ne hba
    · exact hlt.asymm hlt'

instance : Std.Irrefl Precedes := ⟨fun _ h => h.asymm h⟩

instance : Std.Antisymm Precedes := ⟨fun _ _ hab hba => absurd hba hab.asymm⟩

end LabelExample

namespace Summary

def carriers (series : List Labels) (name value : String) : Nat :=
  series.countP fun labels => labels.find? name = some value

def valuesOf (series : List Labels) (name : String) : Finset String :=
  (series.filterMap fun labels => labels.find? name).toFinset

structure Ranking (series : List Labels) (name : String) (ranked : List LabelExample) : Prop where
  sorted : ranked.Pairwise LabelExample.Precedes
  complete : ∀ e, e ∈ ranked ↔
    e.value ∈ valuesOf series name ∧ e.count = carriers series name e.value

/-- What is said of a label: how many values it takes, and up to five of them. -/
structure Describes (s : Summary) (series : List Labels) (name : String) : Prop where
  cardinality : s.cardinalities.find? name = some (valuesOf series name).card
  examples : ∃ ranked, Ranking series name ranked ∧ s.examples.find? name = some (ranked.take 5)

structure Summarizes (s : Summary) (series : List Labels) : Prop where
  numSeries : s.numSeries = series.length
  described : ∀ name, (∃ labels ∈ series, labels.contains name) → s.Describes series name
  others : ∀ name, (¬∃ labels ∈ series, labels.contains name) →
    s.cardinalities.find? name = none ∧ s.examples.find? name = none

structure Tallies (t : Tally) (pairs : List (String × String)) : Prop where
  found : ∀ name, t.contains name ↔ ∃ value, (name, value) ∈ pairs
  counts : ∀ name counts, t.find? name = some counts → ∀ value count,
    counts.find? value = some count ↔ 0 < count ∧ pairs.count (name, value) = count

namespace Tallies

variable {t : Tally} {pairs : List (String × String)}

theorem empty : Tallies .empty [] where
  found := fun _ => iff_of_false Bool.false_ne_true fun ⟨_, h⟩ => List.not_mem_nil h
  counts := nofun

theorem countsOf (h : Tallies t pairs) (name value : String) (count : Nat) :
    ((t.find? name).getD .empty).find? value = some count ↔
      0 < count ∧ pairs.count (name, value) = count := by
  cases hfind : t.find? name with
  | some counts => exact h.counts name counts hfind value count
  | none =>
    have hnone : ¬∃ value, (name, value) ∈ pairs := by
      rw [← h.found, SortedMap.contains, hfind]
      exact Bool.false_ne_true
    have hzero : pairs.count (name, value) = 0 :=
      List.count_eq_zero_of_not_mem fun hmem => hnone ⟨value, hmem⟩
    rw [hzero]
    constructor
    · intro hcount
      contradiction
    · rintro ⟨hpos, he⟩
      exact absurd he hpos.ne

theorem countOf (h : Tallies t pairs) (name value : String) :
    (((t.find? name).getD .empty).find? value).getD 0 = pairs.count (name, value) := by
  cases hfind : ((t.find? name).getD .empty).find? value with
  | some count => exact ((h.countsOf name value count).mp hfind).2.symm
  | none =>
    by_contra hne
    have hsome := (h.countsOf name value _).mpr ⟨Nat.pos_of_ne_zero (Ne.symm hne), rfl⟩
    rw [hfind] at hsome
    contradiction

theorem add (h : Tallies t pairs) (name value : String) :
    Tallies (t.add name value) (pairs ++ [(name, value)]) where
  found := by
    intro name'
    rw [SortedMap.contains, Tally.add, SortedMap.find?_insert]
    by_cases hname : name' = name
    · simp [hname]
    · have hfound := h.found name'
      simpa [hname, SortedMap.contains] using hfound
  counts := by
    intro name' counts hcounts value' count
    rw [Tally.add, SortedMap.find?_insert] at hcounts
    by_cases hname : name' = name
    · subst hname
      rw [beq_self_eq_true, if_pos rfl, Option.some.injEq, h.countOf] at hcounts
      rw [← hcounts, SortedMap.find?_insert, List.count_append]
      by_cases hvalue : value' = value
      · subst hvalue
        simp
        omega
      · have hold := h.countsOf name' value' count
        simp [hvalue, hold, Ne.symm hvalue]
    · rw [beq_eq_false_iff_ne.mpr hname, if_neg Bool.false_ne_true] at hcounts
      have hold := h.counts name' counts hcounts value' count
      simp [hold, Ne.symm hname]

theorem foldl_add (h : Tallies t pairs) (added : List (String × String)) :
    Tallies (added.foldl (fun t l => t.add l.1 l.2) t) (pairs ++ added) := by
  induction added generalizing t pairs with
  | nil => rwa [List.append_nil]
  | cons pair added ih =>
    have hadded := ih (h.add pair.1 pair.2)
    rwa [List.append_assoc, List.singleton_append] at hadded

theorem ofSeries (series : List Labels) :
    Tallies (series.foldl Tally.addSeries .empty) (series.flatMap SortedMap.toList) := by
  have hall := empty.foldl_add (series.flatMap SortedMap.toList)
  rwa [List.nil_append, List.foldl_flatMap] at hall

end Tallies

variable {series series' : List Labels} {name value : String} {counts : SortedMap String Nat}

theorem count_toList (labels : Labels) (name value : String) :
    labels.toList.count (name, value) = if labels.find? name = some value then 1 else 0 := by
  have hnodup : labels.toList.Nodup := List.Nodup.of_map Prod.fst labels.nodup_keys
  rw [hnodup.count]
  exact if_congr (labels.find?_eq_some_iff name value).symm rfl rfl

theorem count_pairs (series : List Labels) (name value : String) :
    (series.flatMap SortedMap.toList).count (name, value) = carriers series name value := by
  induction series with
  | nil => rfl
  | cons labels series ih =>
    rw [List.flatMap_cons, List.count_append, count_toList, ih, carriers, carriers, List.countP_cons,
      Nat.add_comm]
    simp only [decide_eq_true_eq]

theorem mem_valuesOf :
    value ∈ valuesOf series name ↔ ∃ labels ∈ series, labels.find? name = some value := by
  rw [valuesOf, List.mem_toFinset, List.mem_filterMap]

theorem mem_valuesOf_iff : value ∈ valuesOf series name ↔ 0 < carriers series name value := by
  rw [mem_valuesOf, carriers, List.countP_pos_iff]
  simp

theorem exists_valuesOf_iff :
    (∃ value, value ∈ valuesOf series name) ↔ ∃ labels ∈ series, labels.contains name := by
  simp only [mem_valuesOf, SortedMap.contains, Option.isSome_iff_exists]
  constructor
  · rintro ⟨value, labels, hlabels, hvalue⟩
    exact ⟨labels, hlabels, value, hvalue⟩
  · rintro ⟨labels, hlabels, value, hvalue⟩
    exact ⟨value, labels, hlabels, hvalue⟩

def asCommon (a b : LabelExample) : Bool := decide (b.count ≤ a.count)

theorem precedes_mergeSort {examples : List LabelExample}
    (h : examples.Pairwise fun a b => a.value < b.value) :
    (examples.mergeSort asCommon).Pairwise LabelExample.Precedes := by
  have htrans (a b c : LabelExample) (hab : asCommon a b) (hbc : asCommon b c) : asCommon a c := by
    simp only [asCommon, decide_eq_true_eq] at hab hbc ⊢
    exact hbc.trans hab
  have htotal (a b : LabelExample) : asCommon a b || asCommon b a := by
    simpa [asCommon] using le_total b.count a.count
  induction examples with
  | nil => simp
  | cons a examples ih =>
    rw [List.pairwise_cons] at h
    obtain ⟨before, after, hall, hrest, hbefore⟩ := List.mergeSort_cons htrans htotal a examples
    have hcommon := List.pairwise_mergeSort htrans htotal (a :: examples)
    have hsorted := ih h.2
    have hmem {b : LabelExample} (hb : b ∈ after) : b ∈ examples :=
      List.mem_mergeSort.mp (hrest ▸ List.mem_append_right before hb)
    rw [hall] at hcommon ⊢
    rw [hrest, List.pairwise_append] at hsorted
    rw [List.pairwise_append, List.pairwise_cons] at hcommon ⊢
    obtain ⟨hsortedBefore, hsortedAfter, hacross⟩ := hsorted
    -- the value goes in front of those that are as common, all of which come later in order
    refine ⟨hsortedBefore, ⟨fun b hb => ?_, hsortedAfter⟩, fun b hb c hc => ?_⟩
    · have hle : b.count ≤ a.count := of_decide_eq_true (hcommon.2.1.1 b hb)
      exact hle.lt_or_eq.imp id fun he => ⟨he.symm, h.1 b (hmem hb)⟩
    · rcases List.mem_cons.mp hc with rfl | hc
      · have hless := hbefore b hb
        simp only [asCommon, Bool.not_eq_true', decide_eq_false_iff_not, not_le] at hless
        exact .inl hless
      · exact hacross b hb c hc

def ranked (counts : SortedMap String Nat) : List LabelExample :=
  (counts.toList.map fun e => LabelExample.mk e.1 e.2).mergeSort asCommon

theorem precedes_ranked (counts : SortedMap String Nat) :
    (ranked counts).Pairwise LabelExample.Precedes := by
  refine precedes_mergeSort (List.pairwise_map.mpr (counts.sorted.imp fun {a b} hab => ?_))
  exact compare_lt_iff_lt.mp hab

theorem mem_ranked {e : LabelExample} :
    e ∈ ranked counts ↔ counts.find? e.value = some e.count := by
  rw [ranked, List.mem_mergeSort, List.mem_map, SortedMap.find?_eq_some_iff]
  constructor
  · rintro ⟨pair, hpair, rfl⟩
    exact hpair
  · exact fun h => ⟨(e.value, e.count), h, rfl⟩

theorem ranking_ranked (h : ∀ value count,
    counts.find? value = some count ↔ 0 < count ∧ carriers series name value = count) :
    Ranking series name (ranked counts) where
  sorted := precedes_ranked counts
  complete := by
    intro e
    rw [mem_ranked, h, mem_valuesOf_iff, eq_comm (a := e.count)]
    exact and_congr_left fun he => by rw [he]

theorem size_counts (h : ∀ value count,
    counts.find? value = some count ↔ 0 < count ∧ carriers series name value = count) :
    counts.size = (valuesOf series name).card := by
  have hkeys : counts.keys.toFinset = valuesOf series name := by
    ext value
    rw [List.mem_toFinset, SortedMap.mem_keys_iff, SortedMap.contains, Option.isSome_iff_exists,
      mem_valuesOf_iff]
    simp [h]
  rw [← hkeys, List.toFinset_card_of_nodup counts.nodup_keys, SortedMap.keys, List.length_map]
  rfl

theorem contains_tally (series : List Labels) (name : String) :
    (series.foldl Tally.addSeries .empty).contains name ↔
      ∃ labels ∈ series, labels.contains name := by
  rw [(Tallies.ofSeries series).found, ← exists_valuesOf_iff]
  simp only [mem_valuesOf, List.mem_flatMap, SortedMap.find?_eq_some_iff]

theorem summarizes (series : List Labels) (queryTime : UInt64) :
    (ofSeries series queryTime).Summarizes series where
  numSeries := rfl
  described := by
    intro name hname
    rw [← contains_tally, SortedMap.contains, Option.isSome_iff_exists] at hname
    obtain ⟨counts, hcounts⟩ := hname
    have hcount := (Tallies.ofSeries series).counts name counts hcounts
    simp only [count_pairs] at hcount
    refine ⟨?_, ranked counts, ranking_ranked hcount, ?_⟩
    · rw [ofSeries, SortedMap.find?_mapValues, hcounts, Option.map_some, size_counts hcount]
    · rw [ofSeries, SortedMap.find?_mapValues, hcounts]
      rfl
  others := by
    intro name hname
    rw [← contains_tally, SortedMap.contains, Option.not_isSome_iff_eq_none] at hname
    simp only [ofSeries, SortedMap.find?_mapValues, hname, Option.map_none, and_self]

theorem carriers_perm (h : series.Perm series') (name value : String) :
    carriers series name value = carriers series' name value := h.countP_eq _

theorem valuesOf_perm (h : series.Perm series') (name : String) :
    valuesOf series name = valuesOf series' name :=
  List.toFinset_eq_of_perm _ _ (h.filterMap _)

theorem Ranking.unique {ranked ranked' : List LabelExample} (h : Ranking series name ranked)
    (h' : Ranking series' name ranked') (hp : series.Perm series') : ranked = ranked' := by
  refine h.sorted.eq_of_mem_iff h'.sorted fun e => ?_
  rw [h.complete, h'.complete, valuesOf_perm hp, carriers_perm hp]

theorem Summarizes.unique {s s' : Summary} (h : s.Summarizes series) (h' : s'.Summarizes series')
    (hp : series.Perm series') (htime : s.queryTime = s'.queryTime) : s = s' := by
  have hfound (name : String) : s.cardinalities.find? name = s'.cardinalities.find? name ∧
      s.examples.find? name = s'.examples.find? name := by
    by_cases hname : ∃ labels ∈ series, labels.contains name
    · have hname' : ∃ labels ∈ series', labels.contains name := by simpa [hp.mem_iff] using hname
      obtain ⟨ranked, hranked, hexamples⟩ := (h.described name hname).examples
      obtain ⟨ranked', hranked', hexamples'⟩ := (h'.described name hname').examples
      rw [(h.described name hname).cardinality, (h'.described name hname').cardinality,
        valuesOf_perm hp, hexamples, hexamples', hranked.unique hranked' hp]
      exact ⟨rfl, rfl⟩
    · have hname' : ¬∃ labels ∈ series', labels.contains name := by simpa [hp.mem_iff] using hname
      rw [(h.others name hname).1, (h.others name hname).2, (h'.others name hname').1,
        (h'.others name hname').2]
      exact ⟨rfl, rfl⟩
  have hnum : s.numSeries = s'.numSeries := by rw [h.numSeries, h'.numSeries, hp.length_eq]
  have hcardinalities : s.cardinalities = s'.cardinalities :=
    SortedMap.ext_find? fun name => (hfound name).1
  have hexamples : s.examples = s'.examples := SortedMap.ext_find? fun name => (hfound name).2
  cases s
  cases s'
  simp only at hnum htime hcardinalities hexamples
  rw [hnum, htime, hcardinalities, hexamples]

/-- A summary is exact, and the same for all orders of the label sets. -/
theorem summarizes_ofSeries (series : List Labels) (queryTime : UInt64) :
    (ofSeries series queryTime).Summarizes series ∧ ∀ series' : List Labels,
      series'.Perm series → ofSeries series' queryTime = ofSeries series queryTime :=
  ⟨summarizes series queryTime, fun series' hp =>
    (summarizes series' queryTime).unique (summarizes series queryTime) hp rfl⟩

end Summary

end PromTree
