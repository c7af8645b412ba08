import Mathlib.Data.List.Nodup
import Mathlib.Data.List.Sort
import PromTree.SortedMap

namespace PromTree

namespace SortedMap

variable {κ α : Type} [BEq κ] [LawfulBEq κ]

theorem lookup_cons_ne {k j : κ} (h : k ≠ j) (a : α) (entries : List (κ × α)) :
    ((j, a) :: entries).lookup k = entries.lookup k := by
  rw [List.lookup_cons, beq_eq_false_iff_ne.mpr h]

theorem lookup_eq_none_of_not_mem {entries : List (κ × α)} {k : κ}
    (h : k ∉ entries.map Prod.fst) : entries.lookup k = none := by
  rw [List.lookup_eq_none_iff]
  intro e he
  have hk : k ≠ e.1 := fun hk => h (hk ▸ List.mem_map_of_mem he)
  simpa using hk

theorem lookup_eq_some_iff_mem {entries : List (κ × α)} (h : (entries.map Prod.fst).Nodup)
    (k : κ) (a : α) : entries.lookup k = some a ↔ (k, a) ∈ entries := by
  induction entries with
  | nil => simp
  | cons e entries ih =>
    obtain ⟨j, b⟩ := e
    rw [List.map_cons, List.nodup_cons] at h
    by_cases hj : k = j
    · subst hj
      have hk : (k, a) ∉ entries := fun hm => h.1 (List.mem_map.mpr ⟨_, hm, rfl⟩)
      simp [hk, eq_comm]
    · rw [lookup_cons_ne hj, ih h.2]
      simp [hj]

variable [Ord κ]

theorem find?_erase (m : SortedMap κ α) (k k' : κ) :
    (m.erase k).find? k' = if k' == k then none else m.find? k' := by
  change (m.toList.filter fun e => e.1 != k).lookup k' = if k' == k then none else m.toList.lookup k'
  induction m.toList with
  | nil => simp
  | cons e entries ih =>
    obtain ⟨j, b⟩ := e
    by_cases hj : j = k
    · rw [List.filter_cons_of_neg (by simpa using hj), ih]
      by_cases h : k' = k
      · simp [h]
      · rw [lookup_cons_ne (hj ▸ h)]
    · rw [List.filter_cons_of_pos (by simpa using hj)]
      by_cases h : k' = j
      · subst h
        simp [hj]
      · rw [lookup_cons_ne h, lookup_cons_ne h, ih]

theorem find?_filter (m : SortedMap κ α) (p : κ → Bool) (k : κ) :
    (m.filter fun k _ => p k).find? k = if p k then m.find? k else none := by
  change (m.toList.filter fun e => p e.1).lookup k = if p k then m.toList.lookup k else none
  induction m.toList with
  | nil => simp
  | cons e entries ih =>
    obtain ⟨j, b⟩ := e
    by_cases hj : p j
    · rw [List.filter_cons_of_pos (by simpa using hj)]
      by_cases h : k = j
      · subst h
        simp [hj]
      · rw [lookup_cons_ne h, lookup_cons_ne h, ih]
    · rw [List.filter_cons_of_neg (by simpa using hj), ih]
      by_cases h : k = j
      · subst h
        simp [hj]
      · rw [lookup_cons_ne h]

theorem find?_modify (m : SortedMap κ α) (k k' : κ) (f : α → α) :
    (m.modify k f).find? k' = if k' == k then (m.find? k').map f else m.find? k' := by
  change (m.toList.map fun e => (e.1, if e.1 == k then f e.2 else e.2)).lookup k' =
    if k' == k then (m.toList.lookup k').map f else m.toList.lookup k'
  induction m.toList with
  | nil => simp
  | cons e entries ih =>
    obtain ⟨j, b⟩ := e
    rw [List.map_cons]
    by_cases h : k' = j
    · subst h
      cases k' == k <;> simp
    · rw [lookup_cons_ne h, lookup_cons_ne h, ih]

theorem find?_mapValues {β : Type} (m : SortedMap κ α) (f : α → β) (k : κ) :
    (m.mapValues f).find? k = (m.find? k).map f := by
  change (m.toList.map fun e => (e.1, f e.2)).lookup k = (m.toList.lookup k).map f
  induction m.toList with
  | nil => rfl
  | cons e entries ih =>
    obtain ⟨j, b⟩ := e
    by_cases h : k = j
    · simp [h]
    · rw [List.map_cons, lookup_cons_ne h, lookup_cons_ne h, ih]

variable [Std.LawfulEqOrd κ]

omit [BEq κ] [LawfulBEq κ] in
theorem nodup_keys (m : SortedMap κ α) : m.keys.Nodup := by
  apply List.pairwise_map.mpr
  refine m.sorted.imp fun {a b} hlt he => ?_
  rw [he, (Std.LawfulEqOrd.compare_eq_iff_eq (a := b.1)).mpr rfl] at hlt
  contradiction

theorem find?_eq_some_iff (m : SortedMap κ α) (k : κ) (a : α) :
    m.find? k = some a ↔ (k, a) ∈ m.toList :=
  lookup_eq_some_iff_mem m.nodup_keys k a

theorem mem_keys_iff (m : SortedMap κ α) (k : κ) : k ∈ m.keys ↔ m.contains k = true := by
  simp only [contains, Option.isSome_iff_exists, find?_eq_some_iff, keys, List.mem_map]
  constructor
  · rintro ⟨e, he, rfl⟩
    exact ⟨e.2, he⟩
  · rintro ⟨a, ha⟩
    exact ⟨(k, a), ha, rfl⟩

variable [Std.TransOrd κ]

theorem ext_find? {m n : SortedMap κ α} (h : ∀ k, m.find? k = n.find? k) : m = n := by
  have hmem (e : κ × α) : e ∈ m.toList ↔ e ∈ n.toList := by
    rw [← find?_eq_some_iff, ← find?_eq_some_iff, h]
  have : Std.Irrefl fun a b : κ × α => compare a.1 b.1 = .lt :=
    ⟨fun a => by simp [Std.ReflCmp.compare_self]⟩
  have : Std.Antisymm fun a b : κ × α => compare a.1 b.1 = .lt :=
    ⟨fun a b hab hba => absurd hba (by simp [Std.OrientedCmp.gt_of_lt hab])⟩
  exact SortedMap.ext (m.sorted.eq_of_mem_iff n.sorted hmem)

theorem find?_insert (m : SortedMap κ α) (k k' : κ) (a : α) :
    (m.insert k a).find? k' = if k' == k then some a else m.find? k' := by
  change (insertList k a m.toList).lookup k' = if k' == k then some a else m.toList.lookup k'
  induction m.toList with
  | nil => cases h : k' == k <;> simp [insertList, List.lookup_cons, h]
  | cons e entries ih =>
    obtain ⟨j, b⟩ := e
    rw [insertList]
    split
    · cases h : k' == k <;> simp [List.lookup_cons, h]
    · rename_i heq
      obtain rfl : k = j := Std.LawfulEqCmp.eq_of_compare heq
      cases h : k' == k <;> simp [List.lookup_cons, h]
    · rename_i hgt
      have hj : j ≠ k := by
        rintro rfl
        rw [Std.LawfulEqOrd.compare_eq_iff_eq.mpr rfl] at hgt
        contradiction
      by_cases h : k' = j
      · subst h
        simp [hj]
      · rw [lookup_cons_ne h, lookup_cons_ne h, ih]

theorem mem_keys_insert (m : SortedMap κ α) (k k' : κ) (a : α) :
    k' ∈ (m.insert k a).keys ↔ k' = k ∨ k' ∈ m.keys := by
  rw [mem_keys_iff, mem_keys_iff, contains, contains, find?_insert]
  by_cases h : k' = k <;> simp [h]

theorem mem_keys_ofList (entries : List (κ × α)) (k : κ) :
    k ∈ (ofList entries).keys ↔ k ∈ entries.map Prod.fst := by
  have hfoldl (m : SortedMap κ α) : k ∈ (entries.foldl (fun m e => m.insert e.1 e.2) m).keys ↔
      k ∈ entries.map Prod.fst ∨ k ∈ m.keys := by
    induction entries generalizing m with
    | nil => simp
    | cons e entries ih =>
      rw [List.foldl_cons, ih, mem_keys_insert, List.map_cons, List.mem_cons]
      tauto
  exact (hfoldl empty).trans (or_iff_left List.not_mem_nil)

theorem find?_foldl_insert {entries : List (κ × α)} (h : (entries.map Prod.fst).Nodup)
    (m : SortedMap κ α) (k : κ) :
    (entries.foldl (fun m e => m.insert e.1 e.2) m).find? k = (entries.lookup k).or (m.find? k) := by
  induction entries generalizing m with
  | nil => rfl
  | cons e entries ih =>
    obtain ⟨j, b⟩ := e
    rw [List.map_cons, List.nodup_cons] at h
    rw [List.foldl_cons, ih h.2, find?_insert]
    by_cases hj : k = j
    · subst hj
      simp [lookup_eq_none_of_not_mem h.1]
    · rw [lookup_cons_ne hj]
      simp [hj]

theorem find?_ofList {entries : List (κ × α)} (h : (entries.map Prod.fst).Nodup) (k : κ) :
    (ofList entries).find? k = entries.lookup k := by
  rw [ofList, find?_foldl_insert h]
  exact Option.or_none

theorem find?_union (m n : SortedMap κ α) (k : κ) :
    (m.union n).find? k = (n.find? k).or (m.find? k) :=
  find?_foldl_insert n.nodup_keys m k

end SortedMap

end PromTree
