namespace PromTree

@[ext]
structure SortedMap (κ α : Type) [Ord κ] where
  toList : List (κ × α)
  sorted : toList.Pairwise fun a b => compare a.1 b.1 = .lt

namespace SortedMap

variable {κ α β : Type} [Ord κ]

instance [DecidableEq κ] [DecidableEq α] : DecidableEq (SortedMap κ α) := fun a b =>
  if h : a.toList = b.toList then isTrue (SortedMap.ext h) else isFalse fun e => h (e ▸ rfl)

def empty : SortedMap κ α := ⟨[], .nil⟩

instance : Inhabited (SortedMap κ α) := ⟨empty⟩

def size (m : SortedMap κ α) : Nat := m.toList.length

def keys (m : SortedMap κ α) : List κ := m.toList.map Prod.fst

def values (m : SortedMap κ α) : List α := m.toList.map Prod.snd

def insertList (k : κ) (a : α) : List (κ × α) → List (κ × α)
  | [] => [(k, a)]
  | (k', a') :: entries =>
    match compare k k' with
    | .lt => (k, a) :: (k', a') :: entries
    | .eq => (k, a) :: entries
    | .gt => (k', a') :: insertList k a entries

theorem mem_insertList {k : κ} {a : α} {entries : List (κ × α)} {e : κ × α}
    (h : e ∈ insertList k a entries) : e = (k, a) ∨ e ∈ entries := by
  induction entries with
  | nil => simpa [insertList] using h
  | cons e' entries ih =>
    simp only [insertList] at h
    split at h
    · simpa using h
    · simp only [List.mem_cons] at h ⊢
      exact h.imp_right .inr
    · simp only [List.mem_cons] at h ⊢
      rcases h with h | h
      · exact .inr (.inl h)
      · exact (ih h).imp_right .inr

variable [Std.TransOrd κ] [Std.LawfulEqOrd κ]

theorem insertList_sorted (k : κ) (a : α) {entries : List (κ × α)}
    (h : entries.Pairwise fun a b => compare a.1 b.1 = .lt) :
    (insertList k a entries).Pairwise fun a b => compare a.1 b.1 = .lt := by
  induction entries with
  | nil => simp [insertList]
  | cons e entries ih =>
    obtain ⟨k', a'⟩ := e
    rw [List.pairwise_cons] at h
    simp only [insertList]
    split
    · rename_i hlt
      refine List.pairwise_cons.2 ⟨fun e he => ?_, List.pairwise_cons.2 h⟩
      rcases List.mem_cons.1 he with rfl | he
      · exact hlt
      · exact Std.TransCmp.lt_trans hlt (h.1 e he)
    · rename_i heq
      have hk : k = k' := Std.LawfulEqCmp.eq_of_compare heq
      exact List.pairwise_cons.2 ⟨fun e he => hk ▸ h.1 e he, h.2⟩
    · rename_i hgt
      refine List.pairwise_cons.2 ⟨fun e he => ?_, ih h.2⟩
      rcases mem_insertList he with rfl | he
      · exact Std.OrientedCmp.lt_of_gt hgt
      · exact h.1 e he

def insert (m : SortedMap κ α) (k : κ) (a : α) : SortedMap κ α :=
  ⟨insertList k a m.toList, insertList_sorted k a m.sorted⟩

def ofList (entries : List (κ × α)) : SortedMap κ α :=
  entries.foldl (fun m e => m.insert e.1 e.2) empty

def union (m n : SortedMap κ α) : SortedMap κ α := n.toList.foldl (fun m e => m.insert e.1 e.2) m

omit [Std.TransOrd κ] [Std.LawfulEqOrd κ]

def filter (p : κ → α → Bool) (m : SortedMap κ α) : SortedMap κ α :=
  ⟨m.toList.filter fun e => p e.1 e.2, m.sorted.filter _⟩

def mapValues (f : α → β) (m : SortedMap κ α) : SortedMap κ β :=
  ⟨m.toList.map fun e => (e.1, f e.2), List.pairwise_map.2 m.sorted⟩

variable [BEq κ]

def find? (m : SortedMap κ α) (k : κ) : Option α := m.toList.lookup k

def contains (m : SortedMap κ α) (k : κ) : Bool := (m.find? k).isSome

def erase (m : SortedMap κ α) (k : κ) : SortedMap κ α := m.filter fun k' _ => k' != k

def modify (m : SortedMap κ α) (k : κ) (f : α → α) : SortedMap κ α :=
  ⟨m.toList.map fun e => (e.1, if e.1 == k then f e.2 else e.2), List.pairwise_map.2 m.sorted⟩

end SortedMap

end PromTree
