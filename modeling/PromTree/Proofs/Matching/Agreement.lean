import Mathlib.Algebra.GroupWithZero.Nat
import Mathlib.Algebra.Order.BigOperators.Group.List
import Mathlib.Algebra.Order.Group.Nat
import PromTree.Proofs.Matching.Table

/-!
Samples that are matched on labels fall into one group when they agree on these labels, and then only,
unless the separator stands in values of both.
-/

namespace PromTree

namespace VectorMatching

def namedValues (m : VectorMatching) (labels : Labels) : List String :=
  (sortedNames m.labels).map fun n => (labels.find? n).getD ""

/-- A missing label counts as empty. -/
def Agree (m : VectorMatching) (a b : Labels) : Prop :=
  ∀ name ∈ m.labels, (a.find? name).getD "" = (b.find? name).getD ""

instance (m : VectorMatching) (a b : Labels) : Decidable (m.Agree a b) :=
  inferInstanceAs (Decidable (∀ name ∈ m.labels, (a.find? name).getD "" = (b.find? name).getD ""))

def LacksSeparator (m : VectorMatching) (labels : Labels) : Prop :=
  ∀ name ∈ m.labels, 'ÿ' ∉ ((labels.find? name).getD "").toList

instance (m : VectorMatching) (labels : Labels) : Decidable (m.LacksSeparator labels) :=
  inferInstanceAs (Decidable (∀ name ∈ m.labels, 'ÿ' ∉ ((labels.find? name).getD "").toList))

/-- What makes the key tell the values: there is but one label, or one of the two has no separator in
its values. -/
def Distinguishes (m : VectorMatching) (a b : Labels) : Prop :=
  (∀ name ∈ m.labels, ∀ name' ∈ m.labels, name = name') ∨ m.LacksSeparator a ∨ m.LacksSeparator b

variable {m : VectorMatching} {a b : Labels}

section Joining

variable {α : Type} [BEq α] [LawfulBEq α] {x : α} {parts parts' : List (List α)}

theorem count_intercalate (x : α) (h : parts ≠ []) :
    ([x].intercalate parts).count x + 1 = (parts.map (List.count x)).sum + parts.length := by
  induction parts with
  | nil => contradiction
  | cons part parts ih =>
    cases parts with
    | nil => simp
    | cons next parts =>
      have hrest := ih (List.cons_ne_nil _ _)
      rw [List.intercalate_cons_cons, List.count_append, List.count_append, List.map_cons,
        List.sum_cons, List.length_cons, List.count_singleton_self]
      omega

theorem eq_of_intercalate_eq (hlen : parts.length = parts'.length) (hx : ∀ part ∈ parts, x ∉ part)
    (h : [x].intercalate parts = [x].intercalate parts') : parts = parts' := by
  cases hp : parts with
  | nil =>
    rw [hp] at hlen
    exact (List.length_eq_zero_iff.mp hlen.symm).symm
  | cons part rest =>
    rw [← hp]
    have hne : parts ≠ [] := by simp [hp]
    have hne' : parts' ≠ [] := fun hnil => by simp [hnil, hp] at hlen
    -- the other parts are as many, which leaves no separator for them to have
    have hcount := count_intercalate x hne
    have hcount' := count_intercalate x hne'
    have hzero : (parts.map (List.count x)).sum = 0 :=
      List.sum_eq_zero fun n hn => by
        obtain ⟨part, hpart, rfl⟩ := List.mem_map.mp hn
        exact List.count_eq_zero_of_not_mem (hx part hpart)
    have hzero' : (parts'.map (List.count x)).sum = 0 := by
      rw [← h] at hcount'
      omega
    have hx' : ∀ part ∈ parts', x ∉ part := by
      intro part hpart
      have hle := List.le_sum_of_mem (List.mem_map_of_mem (f := List.count x) hpart)
      exact List.count_eq_zero.mp (by omega)
    rw [← List.splitOn_intercalate x hx hne, h, List.splitOn_intercalate x hx' hne']

end Joining

theorem mem_sortedNames {names : List String} {name : String} :
    name ∈ sortedNames names ↔ name ∈ names := by
  rw [sortedNames, SortedMap.mem_keys_ofList, List.map_map]
  simp

theorem key_eq_intercalate (hon : m.on) (labels : Labels) :
    m.key labels = separator.intercalate (m.namedValues labels) := by
  rw [key, if_pos hon, namedValues]

theorem namedValues_eq_iff : m.namedValues a = m.namedValues b ↔ m.Agree a b := by
  rw [namedValues, namedValues, List.map_inj_left]
  simp only [mem_sortedNames, Agree]

theorem key_eq_of_agree (hon : m.on) (h : m.Agree a b) : m.key a = m.key b := by
  rw [key_eq_intercalate hon, key_eq_intercalate hon, namedValues_eq_iff.mpr h]

theorem namedValues_eq_of_lacksSeparator (hon : m.on) (ha : m.LacksSeparator a)
    (h : m.key a = m.key b) : m.namedValues a = m.namedValues b := by
  rw [key_eq_intercalate hon, key_eq_intercalate hon, ← String.toList_inj,
    String.toList_intercalate, String.toList_intercalate] at h
  have hparts : (m.namedValues a).map String.toList = (m.namedValues b).map String.toList := by
    refine eq_of_intercalate_eq (x := 'ÿ') (by simp [namedValues]) (fun part hpart => ?_) h
    simp only [namedValues, List.map_map, List.mem_map, mem_sortedNames] at hpart
    obtain ⟨name, hname, rfl⟩ := hpart
    exact ha name hname
  exact List.map_injective_iff.mpr (fun s t hst => String.toList_inj.mp hst) hparts

theorem namedValues_eq_of_unique (hon : m.on)
    (hu : ∀ name ∈ m.labels, ∀ name' ∈ m.labels, name = name') (h : m.key a = m.key b) :
    m.namedValues a = m.namedValues b := by
  have hnodup : (sortedNames m.labels).Nodup := SortedMap.nodup_keys _
  rw [key_eq_intercalate hon, key_eq_intercalate hon] at h
  simp only [namedValues] at h ⊢
  match hn : sortedNames m.labels with
  | [] => rfl
  | [name] => simpa [hn] using h
  | name :: name' :: rest =>
    have hmem : name ∈ m.labels := mem_sortedNames.mp (by simp [hn])
    have hmem' : name' ∈ m.labels := mem_sortedNames.mp (by simp [hn])
    rw [hn, List.nodup_cons, hu name hmem name' hmem'] at hnodup
    exact absurd List.mem_cons_self hnodup.1

theorem key_eq_iff_agree (hon : m.on) (h : m.Distinguishes a b) :
    m.key a = m.key b ↔ m.Agree a b := by
  refine ⟨fun hkey => namedValues_eq_iff.mp ?_, key_eq_of_agree hon⟩
  rcases h with hu | ha | hb
  · exact namedValues_eq_of_unique hon hu hkey
  · exact namedValues_eq_of_lacksSeparator hon ha hkey
  · exact (namedValues_eq_of_lacksSeparator hon hb hkey.symm).symm

end VectorMatching

def MatchGroup.Has (g : MatchGroup) (s : Sample) : Prop := s ∈ g.lhs ∨ s ∈ g.rhs

instance (g : MatchGroup) (s : Sample) : Decidable (g.Has s) :=
  inferInstanceAs (Decidable (s ∈ g.lhs ∨ s ∈ g.rhs))

namespace MatchTable

variable {op : BinaryOp} {m : VectorMatching} {returnBool : Bool} {lhs rhs : List Sample}
  {s t : Sample}

theorem has_ofSamples {key : String} :
    (MatchGroup.ofSamples op m returnBool (m.withKey key lhs) (m.withKey key rhs)).Has s ↔
      (s ∈ lhs ∨ s ∈ rhs) ∧ m.key s.labels = key := by
  rw [or_and_right, ← VectorMatching.mem_withKey, ← VectorMatching.mem_withKey]
  rfl

theorem shared_group_iff_key_eq (hs : s ∈ lhs ∨ s ∈ rhs) (ht : t ∈ lhs ∨ t ∈ rhs) :
    (∃ g ∈ (compute op m returnBool lhs rhs .unlimited).groups, g.Has s ∧ g.Has t) ↔
      m.key s.labels = m.key t.labels := by
  simp only [compute_unlimited_eq, List.mem_map]
  constructor
  · rintro ⟨_, ⟨key, -, rfl⟩, hgs, hgt⟩
    exact (has_ofSamples.mp hgs).2.trans (has_ofSamples.mp hgt).2.symm
  · intro hkey
    have hmem : m.key s.labels ∈ m.keys (m.scanned lhs rhs) :=
      VectorMatching.mem_keys.mpr ⟨s, mem_scanned.mpr hs, rfl⟩
    exact ⟨_, ⟨m.key s.labels, hmem, rfl⟩, has_ofSamples.mpr ⟨hs, rfl⟩,
      has_ofSamples.mpr ⟨ht, hkey.symm⟩⟩

/-- Samples share a group when they agree on what they are matched on. -/
theorem shared_group_iff_agree (hon : m.on) (hs : s ∈ lhs ∨ s ∈ rhs) (ht : t ∈ lhs ∨ t ∈ rhs)
    (h : m.Distinguishes s.labels t.labels) :
    (∃ g ∈ (compute op m returnBool lhs rhs .unlimited).groups, g.Has s ∧ g.Has t) ↔
      m.Agree s.labels t.labels :=
  (shared_group_iff_key_eq hs ht).trans (VectorMatching.key_eq_iff_agree hon h)

def sampleOf (labels : List (String × String)) : Sample := ⟨.ofList labels, ⟨.zero false, "1"⟩⟩

theorem shared_group_iff_agree_missing :
    let m : VectorMatching := ⟨true, ["b", "a", "b"], .oneToOne, []⟩
    let s := sampleOf [("a", "x")]
    let t := sampleOf [("a", "x"), ("b", ""), ("c", "1")]
    m.on ∧ m.Distinguishes s.labels t.labels ∧ m.Agree s.labels t.labels ∧
      ((∃ g ∈ (compute .add m false [s] [t] .unlimited).groups, g.Has s ∧ g.Has t) ↔
        m.Agree s.labels t.labels) := by
  intro m s t
  have h : m.Distinguishes s.labels t.labels := .inr (.inl (by decide))
  refine ⟨rfl, h, by decide, ?_⟩
  exact shared_group_iff_agree rfl (.inl (by decide)) (.inr (by decide)) h

/-- Where both samples have a separator in their values, it may be taken for the one between the
values. -/
theorem shared_group_of_separators :
    let m : VectorMatching := ⟨true, ["a", "b"], .oneToOne, []⟩
    let s := sampleOf [("a", "xÿy"), ("b", "z")]
    let t := sampleOf [("a", "x"), ("b", "yÿz")]
    ¬m.Agree s.labels t.labels ∧ m.key s.labels = m.key t.labels ∧
      ∃ g ∈ (compute .add m false [s] [t] .unlimited).groups, g.Has s ∧ g.Has t := by
  intro m s t
  have hkey : m.key s.labels = m.key t.labels := by decide
  refine ⟨by decide, hkey, ?_⟩
  exact (shared_group_iff_key_eq (.inl (by decide)) (.inr (by decide))).mpr hkey

end MatchTable

end PromTree
