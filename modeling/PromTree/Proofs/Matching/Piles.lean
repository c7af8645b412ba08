import PromTree.Matching.Groups
import PromTree.Proofs.SortedMap

namespace PromTree

def atMost {α : Type} (limit : Option Nat) (as : List α) : List α := limit.elim as fun n => as.take n

section AtMost

variable {α : Type} {limit : Option Nat} {as : List α}

theorem atMost_of_belowLimit (h : belowLimit limit as.length) : atMost limit as = as := by
  cases limit with
  | none => rfl
  | some n =>
    have hlt : as.length < n := by simpa [belowLimit] using h
    exact List.take_of_length_le (Nat.le_of_lt hlt)

theorem belowLimit_length_atMost (limit : Option Nat) (as : List α) :
    belowLimit limit (atMost limit as).length = belowLimit limit as.length := by
  cases limit with
  | none => rfl
  | some n =>
    simp only [belowLimit, atMost, Option.all_some, Option.elim_some, List.length_take,
      decide_eq_decide]
    omega

theorem atMost_concat (limit : Option Nat) (as : List α) (a : α) :
    atMost limit (as ++ [a]) =
      if belowLimit limit as.length then atMost limit as ++ [a] else atMost limit as := by
  cases limit with
  | none => rfl
  | some n =>
    by_cases h : as.length < n
    · have hn : belowLimit (some n) as.length := by simpa [belowLimit] using h
      rw [if_pos hn, atMost_of_belowLimit hn]
      apply List.take_of_length_le
      rw [List.length_append]
      exact h
    · rw [if_neg (by simpa [belowLimit] using h)]
      exact List.take_append_of_le_length (Nat.le_of_not_lt h)

theorem mem_of_mem_atMost {a : α} (h : a ∈ atMost limit as) : a ∈ as := by
  cases limit with
  | none => exact h
  | some n => exact List.mem_of_mem_take h

end AtMost

theorem nodup_eraseDups {α : Type} [BEq α] [LawfulBEq α] (as : List α) : as.eraseDups.Nodup := by
  match as with
  | [] => exact .nil
  | a :: as =>
    have hlt : (as.filter fun b => !b == a).length < as.length + 1 :=
      Nat.lt_succ_of_le (List.length_filter_le _ _)
    rw [List.eraseDups_cons, List.nodup_cons, List.mem_eraseDups]
    exact ⟨by simp, nodup_eraseDups _⟩
termination_by as.length

theorem eraseDups_concat {α : Type} [BEq α] [LawfulBEq α] (as : List α) (a : α) :
    (as ++ [a]).eraseDups = if as.eraseDups.contains a then as.eraseDups else as.eraseDups ++ [a] := by
  rw [List.eraseDups_append]
  by_cases h : a ∈ as
  · simp [List.removeAll, h]
  · simp [List.removeAll, h, List.eraseDups_cons]

namespace VectorMatching

def withKey (m : VectorMatching) (key : String) (samples : List Sample) : List Sample :=
  samples.filter fun s => m.key s.labels == key

def keys (m : VectorMatching) (samples : List Sample) : List String :=
  (samples.map fun s => m.key s.labels).eraseDups

def labelsOf (m : VectorMatching) (samples : List Sample) : Labels :=
  samples.head?.elim .empty fun s => m.groupLabels s.labels

variable (m : VectorMatching) (key : String) (samples : List Sample) (s : Sample)

theorem withKey_append (samples' : List Sample) :
    m.withKey key (samples ++ samples') = m.withKey key samples ++ m.withKey key samples' :=
  List.filter_append _ _

theorem withKey_singleton :
    m.withKey key [s] = if m.key s.labels = key then [s] else [] := by
  by_cases h : m.key s.labels = key
  · simp [withKey, h]
  · simp [withKey, h]

variable {m key samples s}

theorem mem_withKey : s ∈ m.withKey key samples ↔ s ∈ samples ∧ m.key s.labels = key := by
  rw [withKey, List.mem_filter, beq_iff_eq]

theorem mem_keys : key ∈ m.keys samples ↔ ∃ s ∈ samples, m.key s.labels = key := by
  rw [keys, List.mem_eraseDups, List.mem_map]

theorem withKey_eq_nil_iff : m.withKey key samples = [] ↔ key ∉ m.keys samples := by
  rw [mem_keys, withKey, List.filter_eq_nil_iff]
  simp

theorem keys_concat (m : VectorMatching) (samples : List Sample) (s : Sample) :
    m.keys (samples ++ [s]) =
      if (m.keys samples).contains (m.key s.labels) then m.keys samples
      else m.keys samples ++ [m.key s.labels] := by
  rw [keys, List.map_append, List.map_singleton, eraseDups_concat]
  rfl

theorem flatMap_withKey_perm {keys : List String} (hn : keys.Nodup)
    (hk : ∀ s ∈ samples, m.key s.labels ∈ keys) :
    (keys.flatMap fun key => m.withKey key samples).Perm samples := by
  induction samples with
  | nil => exact List.Perm.of_eq (List.flatMap_eq_nil_iff.mpr fun _ _ => rfl)
  | cons s samples ih =>
    rw [List.forall_mem_cons] at hk
    obtain ⟨before, after, rfl⟩ := List.append_of_mem hk.1
    have hself : m.withKey (m.key s.labels) (s :: samples) =
        s :: m.withKey (m.key s.labels) samples := by
      rw [withKey, List.filter_cons_of_pos (by simp)]
      rfl
    have hother (keys : List String) (h : m.key s.labels ∉ keys) :
        (keys.flatMap fun key => m.withKey key (s :: samples)) =
          keys.flatMap fun key => m.withKey key samples := by
      refine List.flatMap_congr fun key hkey => ?_
      rw [withKey, List.filter_cons_of_neg]
      · rfl
      · simpa using (ne_of_mem_of_not_mem hkey h).symm
    obtain ⟨hbefore, hafter⟩ : m.key s.labels ∉ before ∧ m.key s.labels ∉ after := by
      have hn := List.nodup_middle.mp hn
      rw [List.nodup_cons, List.mem_append, not_or] at hn
      exact hn.1
    have ih := ih hk.2
    rw [List.flatMap_append, List.flatMap_cons] at ih ⊢
    rw [hself, hother before hbefore, hother after hafter, List.cons_append]
    exact List.perm_middle.trans (ih.cons s)

end VectorMatching

abbrev Casting := List (Pile.Role × Sample)

namespace Casting

def samples (c : Casting) : List Sample := c.map Prod.snd

def playing (c : Casting) (role : Pile.Role) : List Sample :=
  (c.filter fun t => t.1 = role).map Prod.snd

theorem samples_concat (c : Casting) (role : Pile.Role) (s : Sample) :
    samples (c ++ [(role, s)]) = c.samples ++ [s] := List.map_append

theorem playing_concat (c : Casting) (role role' : Pile.Role) (s : Sample) :
    playing (c ++ [(role, s)]) role' = c.playing role' ++ if role = role' then [s] else [] := by
  rw [playing, playing, List.filter_append, List.map_append]
  by_cases h : role = role'
  · simp [h]
  · simp [h]

theorem mem_samples_of_mem_playing {c : Casting} {role : Pile.Role} {s : Sample}
    (h : s ∈ c.playing role) : s ∈ c.samples := by
  obtain ⟨t, ht, rfl⟩ := List.mem_map.mp h
  exact List.mem_map_of_mem (List.mem_of_mem_filter ht)

end Casting

namespace Pile

def ofCasting (m : VectorMatching) (limit : Option Nat) (c : Casting) (key : String) : Pile where
  key
  labels := m.labelsOf (m.withKey key c.samples)
  many := atMost limit (m.withKey key (c.playing .many))
  manyCount := (m.withKey key (c.playing .many)).length
  one := atMost limit (m.withKey key (c.playing .one))
  oneCount := (m.withKey key (c.playing .one)).length

variable {m : VectorMatching} {limit : Option Nat} {c : Casting} {role : Role} {s : Sample}
  {key : String}

theorem ofCasting_concat_ne (h : m.key s.labels ≠ key) :
    ofCasting m limit (c ++ [(role, s)]) key = ofCasting m limit c key := by
  have hp (role' : Role) : m.withKey key (Casting.playing (c ++ [(role, s)]) role') =
      m.withKey key (c.playing role') := by
    rw [Casting.playing_concat, VectorMatching.withKey_append]
    split
    · rw [VectorMatching.withKey_singleton, if_neg h, List.append_nil]
    · exact List.append_nil _
  have hs : m.withKey key (Casting.samples (c ++ [(role, s)])) = m.withKey key c.samples := by
    rw [Casting.samples_concat, VectorMatching.withKey_append, VectorMatching.withKey_singleton,
      if_neg h, List.append_nil]
  simp only [ofCasting, hp, hs]

theorem ofCasting_concat_self :
    ofCasting m limit (c ++ [(role, s)]) (m.key s.labels) =
      { ofCasting m limit c (m.key s.labels) with
        labels := m.labelsOf (m.withKey (m.key s.labels) c.samples ++ [s]) }.add limit role s := by
  have hs : m.withKey (m.key s.labels) (Casting.samples (c ++ [(role, s)])) =
      m.withKey (m.key s.labels) c.samples ++ [s] := by
    rw [Casting.samples_concat, VectorMatching.withKey_append, VectorMatching.withKey_singleton,
      if_pos rfl]
  have hp (role' : Role) : m.withKey (m.key s.labels) (Casting.playing (c ++ [(role, s)]) role') =
      m.withKey (m.key s.labels) (c.playing role') ++ if role = role' then [s] else [] := by
    rw [Casting.playing_concat, VectorMatching.withKey_append]
    split
    · rw [VectorMatching.withKey_singleton, if_pos rfl]
    · rfl
  cases role with
  | many =>
    simp only [ofCasting, add, hp, hs, ↓reduceIte, reduceCtorEq, List.append_nil, atMost_concat,
      List.length_append, List.length_singleton]
    rfl
  | one =>
    simp only [ofCasting, add, hp, hs, ↓reduceIte, reduceCtorEq, List.append_nil, atMost_concat,
      List.length_append, List.length_singleton]
    rfl

theorem ofCasting_concat_old (h : m.key s.labels ∈ m.keys c.samples) :
    ofCasting m limit (c ++ [(role, s)]) (m.key s.labels) =
      (ofCasting m limit c (m.key s.labels)).add limit role s := by
  have hne : m.withKey (m.key s.labels) c.samples ≠ [] :=
    fun hnil => VectorMatching.withKey_eq_nil_iff.mp hnil h
  obtain ⟨t, rest, ht⟩ := List.exists_cons_of_ne_nil hne
  rw [ofCasting_concat_self, ht]
  simp only [ofCasting, ht]
  rfl

theorem ofCasting_concat_new (h : m.key s.labels ∉ m.keys c.samples) :
    ofCasting m limit (c ++ [(role, s)]) (m.key s.labels) =
      (new (m.key s.labels) (m.groupLabels s.labels)).add limit role s := by
  have hnil : m.withKey (m.key s.labels) c.samples = [] := VectorMatching.withKey_eq_nil_iff.mpr h
  have hp (role' : Role) : m.withKey (m.key s.labels) (c.playing role') = [] := by
    rw [List.eq_nil_iff_forall_not_mem] at hnil ⊢
    intro t ht
    obtain ⟨hm, hk⟩ := VectorMatching.mem_withKey.mp ht
    exact hnil t (VectorMatching.mem_withKey.mpr ⟨Casting.mem_samples_of_mem_playing hm, hk⟩)
  have hempty : atMost limit ([] : List Sample) = [] := by
    rw [List.eq_nil_iff_forall_not_mem]
    exact fun t ht => List.not_mem_nil (mem_of_mem_atMost ht)
  rw [ofCasting_concat_self, hnil]
  simp only [ofCasting, hp, hempty]
  rfl

end Pile

namespace Sorting

def ofCasting (m : VectorMatching) (limits : MatchLimits) (c : Casting) : Sorting where
  piles := (atMost limits.maxGroups (m.keys c.samples)).map (Pile.ofCasting m limits.maxSeries c)
  keys := m.keys c.samples

variable {m : VectorMatching} {limits : MatchLimits}

theorem map_ofCasting_of_not_mem {limit : Option Nat} {c : Casting} {role : Pile.Role} {s : Sample}
    {keys : List String} (h : m.key s.labels ∉ keys) :
    keys.map (Pile.ofCasting m limit (c ++ [(role, s)])) = keys.map (Pile.ofCasting m limit c) :=
  List.map_congr_left fun _ hkey =>
    Pile.ofCasting_concat_ne (ne_of_mem_of_not_mem hkey h).symm

theorem piles_concat (m : VectorMatching) (limits : MatchLimits) (c : Casting) (role : Pile.Role)
    (s : Sample) :
    (ofCasting m limits (c ++ [(role, s)])).piles =
      if m.key s.labels ∈ atMost limits.maxGroups (m.keys c.samples) then
        (ofCasting m limits c).piles.map fun p =>
          if p.key = m.key s.labels then p.add limits.maxSeries role s else p
      else if belowLimit limits.maxGroups (m.keys c.samples).length then
        (ofCasting m limits c).piles ++
          [(Pile.new (m.key s.labels) (m.groupLabels s.labels)).add limits.maxSeries role s]
      else (ofCasting m limits c).piles := by
  have hkeys := m.keys_concat c.samples s
  rw [← Casting.samples_concat c role] at hkeys
  by_cases hshown : m.key s.labels ∈ atMost limits.maxGroups (m.keys c.samples)
  · have hold := mem_of_mem_atMost hshown
    rw [if_pos hshown, ofCasting, hkeys, if_pos (List.contains_iff_mem.mpr hold), ofCasting,
      List.map_map]
    refine List.map_congr_left fun key _ => ?_
    by_cases hkey : key = m.key s.labels
    · subst hkey
      exact (Pile.ofCasting_concat_old hold).trans (if_pos rfl).symm
    · exact (Pile.ofCasting_concat_ne (Ne.symm hkey)).trans (if_neg hkey).symm
  · rw [if_neg hshown]
    by_cases hbelow : belowLimit limits.maxGroups (m.keys c.samples).length
    · -- all keys are shown, so this one is new
      have hnew := hshown
      rw [atMost_of_belowLimit hbelow] at hnew
      rw [if_pos hbelow, ofCasting, hkeys, if_neg (mt List.contains_iff_mem.mp hnew),
        atMost_concat, if_pos hbelow, List.map_append, map_ofCasting_of_not_mem hshown,
        List.map_singleton, Pile.ofCasting_concat_new hnew]
      rfl
    · have hsame : atMost limits.maxGroups (m.keys (Casting.samples (c ++ [(role, s)]))) =
          atMost limits.maxGroups (m.keys c.samples) := by
        rw [hkeys]
        split
        · rfl
        · rw [atMost_concat, if_neg hbelow]
      rw [if_neg hbelow, ofCasting, hsame, map_ofCasting_of_not_mem hshown]
      rfl

theorem add_ofCasting (c : Casting) (role : Pile.Role) (s : Sample) :
    (ofCasting m limits c).add m limits role s = ofCasting m limits (c ++ [(role, s)]) := by
  have hkeys := m.keys_concat c.samples s
  rw [← Casting.samples_concat c role] at hkeys
  have hany : (ofCasting m limits c).piles.any (·.key == m.key s.labels) ↔
      m.key s.labels ∈ atMost limits.maxGroups (m.keys c.samples) := by
    simp [ofCasting, Pile.ofCasting]
  have hbelow : belowLimit limits.maxGroups (ofCasting m limits c).piles.length =
      belowLimit limits.maxGroups (m.keys c.samples).length := by
    rw [ofCasting, List.length_map, belowLimit_length_atMost]
  have hpiles := piles_concat m limits c role s
  simp only [← hany, ← hbelow] at hpiles
  exact congrArg₂ Sorting.mk hpiles.symm hkeys.symm

theorem foldl_add_ofCasting (c rest : Casting) :
    rest.foldl (fun g t => g.add m limits t.1 t.2) (ofCasting m limits c) =
      ofCasting m limits (c ++ rest) := by
  induction rest generalizing c with
  | nil => rw [List.append_nil]; rfl
  | cons t rest ih =>
    rw [List.foldl_cons, add_ofCasting, ih, List.append_assoc]
    rfl

def cast (many one : List Sample) : Casting :=
  one.map (fun s => (.one, s)) ++ many.map fun s => (.many, s)

theorem samples_cast (many one : List Sample) : (cast many one).samples = one ++ many := by
  simp [cast, Casting.samples, Function.comp_def]

theorem playing_cast (many one : List Sample) :
    (cast many one).playing .many = many ∧ (cast many one).playing .one = one := by
  constructor
  · simp [cast, Casting.playing, List.filter_map, Function.comp_def]
  · simp [cast, Casting.playing, List.filter_map, Function.comp_def]

theorem ofSamples_eq (many one : List Sample) :
    ofSamples m limits many one = ofCasting m limits (cast many one) := by
  have hstart : start = ofCasting m limits [] := by
    rw [ofCasting]
    cases limits.maxGroups with
    | none => rfl
    | some n => cases n <;> rfl
  rw [ofSamples, hstart, cast, ← List.nil_append (_ ++ _), ← foldl_add_ofCasting, List.foldl_append,
    List.foldl_map, List.foldl_map]

end Sorting

end PromTree
