import PromTree.Json.Reader
import PromTree.Proofs.Json.Decoding

namespace PromTree.Json

variable {fields : List (String × Json)} {name : String} {j : Json}

def Ascending (fields : List (String × Json)) : Prop := fields.Pairwise fun a b => a.1 < b.1

inductive IsOrdered : Json → Prop where
  | null : IsOrdered .null
  | bool (b : Bool) : IsOrdered (.bool b)
  | number (n : JsonNumber) : IsOrdered (.number n)
  | string (s : String) : IsOrdered (.string s)
  | array {items : List Json} (items_ordered : ∀ j ∈ items, IsOrdered j) : IsOrdered (.array items)
  | object {fields : List (String × Json)} (ascending : Ascending fields)
    (fields_ordered : ∀ f ∈ fields, IsOrdered f.2) : IsOrdered (.object fields)

theorem isOrdered_object_iff :
    (object fields).IsOrdered ↔ Ascending fields ∧ ∀ f ∈ fields, f.2.IsOrdered :=
  ⟨fun | .object ha hf => ⟨ha, hf⟩, fun h => .object h.1 h.2⟩

theorem Ascending.nodup (h : Ascending fields) : (fields.map Prod.fst).Nodup :=
  List.pairwise_map.mpr (h.imp fun hlt => Std.ne_of_lt hlt)

theorem mem_insertField {f : String × Json} (h : f ∈ insertField name j fields) :
    f = (name, j) ∨ f ∈ fields := by
  fun_induction insertField name j fields with
  | case1 => exact .inl (List.mem_singleton.mp h)
  | case2 => exact List.mem_cons.mp h
  | case3 =>
    rcases List.mem_cons.mp h with h | h
    · exact .inl h
    · exact .inr (List.mem_cons_of_mem _ h)
  | case4 n v fields _ _ ih =>
    rcases List.mem_cons.mp h with rfl | h
    · exact .inr List.mem_cons_self
    · exact (ih h).imp id (List.mem_cons_of_mem _)

theorem ascending_insertField (name : String) (j : Json) (h : Ascending fields) :
    Ascending (insertField name j fields) := by
  fun_induction insertField name j fields with
  | case1 => exact List.pairwise_singleton _ _
  | case2 n v fields hlt =>
    refine List.Pairwise.cons (List.forall_mem_cons.mpr ⟨hlt, fun f hf => ?_⟩) h
    exact String.lt_trans hlt (List.rel_of_pairwise_cons h hf)
  | case3 v fields =>
    exact List.Pairwise.cons (fun f hf => List.rel_of_pairwise_cons h hf) h.of_cons
  | case4 n v fields hnlt hne ih =>
    refine List.Pairwise.cons (fun f hf => ?_) (ih h.of_cons)
    rcases mem_insertField hf with rfl | hf
    · exact Std.lt_of_le_of_ne (String.not_lt.mp hnlt) (Ne.symm hne)
    · exact List.rel_of_pairwise_cons h hf

theorem isOrdered_insertField (h : (object fields).IsOrdered) (hj : j.IsOrdered) (name : String) :
    (object (insertField name j fields)).IsOrdered := by
  rw [isOrdered_object_iff] at h ⊢
  refine ⟨ascending_insertField name j h.1, fun f hf => ?_⟩
  rcases mem_insertField hf with rfl | hf
  · exact hj
  · exact h.2 f hf

theorem isOrdered_map (f : String → Json → Json) (h : Ascending fields)
    (hf : ∀ e ∈ fields, (f e.1 e.2).IsOrdered) :
    (object (fields.map fun e => (e.1, f e.1 e.2))).IsOrdered := by
  rw [isOrdered_object_iff, List.forall_mem_map]
  exact ⟨List.pairwise_map.mpr h, hf⟩

theorem isOrdered_ofFields (h : ∀ f ∈ fields, f.2.IsOrdered) : (ofFields fields).IsOrdered := by
  have hfold (sorted : List (String × Json)) (hs : (object sorted).IsOrdered) :
      (object (fields.foldl (fun sorted f => insertField f.1 f.2 sorted) sorted)).IsOrdered := by
    induction fields generalizing sorted with
    | nil => exact hs
    | cons f fields ih =>
      rw [List.forall_mem_cons] at h
      exact ih h.2 _ (isOrdered_insertField hs h.1 f.1)
  exact hfold [] (isOrdered_object_iff.mpr ⟨.nil, nofun⟩)

theorem insertField_perm (h : name ∉ fields.map Prod.fst) :
    (insertField name j fields).Perm ((name, j) :: fields) := by
  fun_induction insertField name j fields with
  | case1 => exact .refl _
  | case2 => exact .refl _
  | case3 => exact absurd List.mem_cons_self h
  | case4 n v fields _ _ ih =>
    rw [List.map_cons, List.mem_cons, not_or] at h
    exact ((ih h.2).cons _).trans (.swap _ _ _)

theorem exists_ofFields_perm (h : (fields.map Prod.fst).Nodup) :
    ∃ sorted, ofFields fields = .object sorted ∧ sorted.Perm fields := by
  have hfold (sorted : List (String × Json)) (hs : ((fields ++ sorted).map Prod.fst).Nodup) :
      (fields.foldl (fun sorted f => insertField f.1 f.2 sorted) sorted).Perm
        (fields ++ sorted) := by
    clear h
    induction fields generalizing sorted with
    | nil => exact .refl _
    | cons f fields ih =>
      have hinsert : (insertField f.1 f.2 sorted).Perm (f :: sorted) := by
        refine insertField_perm fun hmem => ?_
        rw [List.cons_append, List.map_cons, List.nodup_cons, List.map_append,
          List.mem_append, not_or] at hs
        exact hs.1.2 hmem
      have hperm : (fields ++ insertField f.1 f.2 sorted).Perm (f :: (fields ++ sorted)) :=
        (hinsert.append_left fields).trans List.perm_middle
      exact (ih _ ((hperm.map Prod.fst).nodup_iff.mpr hs)).trans hperm
  refine ⟨_, rfl, ?_⟩
  simpa using hfold [] (by simpa using h)

namespace Reader

structure ReadsOrdered (fuel : Nat) : Prop where
  value {depth : Nat} {cs : List Char} {j : Json} {rest : List Char} :
    value? fuel depth cs = some (j, rest) → j.IsOrdered
  items {depth : Nat} {done : List Json} {cs : List Char} {j : Json} {rest : List Char} :
    (∀ d ∈ done, d.IsOrdered) → items? fuel depth done cs = some (j, rest) → j.IsOrdered
  fields {depth : Nat} {done : List (String × Json)} {cs : List Char} {j : Json}
    {rest : List Char} : (∀ f ∈ done, f.2.IsOrdered) →
    fields? fuel depth done cs = some (j, rest) → j.IsOrdered

variable {fuel depth : Nat} {cs rest : List Char}

theorem isOrdered_of_value? (ih : ReadsOrdered fuel)
    (h : value? (fuel + 1) depth cs = some (j, rest)) : j.IsOrdered := by
  unfold value? at h
  split at h
  · cases h
    exact .null
  · cases h
    exact .bool true
  · cases h
    exact .bool false
  · obtain ⟨s, -, h⟩ := Option.bind_eq_some_iff.mp h
    cases h
    exact .string s.1
  · split at h
    · contradiction
    · split at h
      · cases h
        exact .array (List.forall_mem_nil _)
      · exact ih.items (List.forall_mem_nil _) h
  · split at h
    · contradiction
    · split at h
      · cases h
        exact .object .nil (List.forall_mem_nil _)
      · exact ih.fields (List.forall_mem_nil _) h
  · obtain ⟨n, -, h⟩ := Option.bind_eq_some_iff.mp h
    cases h
    exact .number n.1

theorem isOrdered_of_items? {done : List Json} (ih : ReadsOrdered fuel)
    (hdone : ∀ d ∈ done, d.IsOrdered) (h : items? (fuel + 1) depth done cs = some (j, rest)) :
    j.IsOrdered := by
  unfold items? at h
  obtain ⟨⟨item, after⟩, hitem, h⟩ := Option.bind_eq_some_iff.mp h
  have hdone' : ∀ d ∈ item :: done, d.IsOrdered := List.forall_mem_cons.mpr ⟨ih.value hitem, hdone⟩
  dsimp only at h
  split at h
  · exact ih.items hdone' h
  · cases h
    exact .array fun d hd => hdone' d (List.mem_reverse.mp hd)
  · contradiction

theorem isOrdered_of_fields? {done : List (String × Json)} (ih : ReadsOrdered fuel)
    (hdone : ∀ f ∈ done, f.2.IsOrdered) (h : fields? (fuel + 1) depth done cs = some (j, rest)) :
    j.IsOrdered := by
  unfold fields? at h
  split at h
  · obtain ⟨⟨name, after⟩, -, h⟩ := Option.bind_eq_some_iff.mp h
    dsimp only at h
    split at h
    · obtain ⟨⟨value, after⟩, hread, h⟩ := Option.bind_eq_some_iff.mp h
      have hdone' : ∀ f ∈ (name, value) :: done, f.2.IsOrdered :=
        List.forall_mem_cons.mpr ⟨ih.value hread, hdone⟩
      dsimp only at h
      split at h
      · exact ih.fields hdone' h
      · cases h
        exact isOrdered_ofFields fun f hf => hdone' f (List.mem_reverse.mp hf)
      · contradiction
    · contradiction
  · contradiction

theorem readsOrdered (fuel : Nat) : ReadsOrdered fuel := by
  induction fuel with
  | zero => exact ⟨nofun, fun _ => nofun, fun _ => nofun⟩
  | succ fuel ih =>
    exact ⟨isOrdered_of_value? ih, isOrdered_of_items? ih, isOrdered_of_fields? ih⟩

end Reader

theorem isOrdered_of_parse? {text : String} (h : parse? text = some j) : j.IsOrdered := by
  obtain ⟨⟨value, rest⟩, hread, h⟩ := Option.bind_eq_some_iff.mp h
  dsimp only at h
  split at h
  · obtain rfl := Option.some.inj h
    exact (Reader.readsOrdered _).value hread
  · contradiction

end PromTree.Json
