import PromTree.Json.Decoding
import PromTree.Proofs.SortedMap

namespace PromTree.Json

variable {α : Type} {fields : List (String × Json)} {name : String} {j : Json}

theorem lookup_cons_eq_ite (n : String) (v : Json) (fields : List (String × Json)) (name : String) :
    ((n, v) :: fields).lookup name = if name = n then some v else fields.lookup name := by
  by_cases h : name = n
  · rw [if_pos h, List.lookup_cons, beq_iff_eq.mpr h]
  · rw [if_neg h, SortedMap.lookup_cons_ne h]

theorem lookup_insertField (name : String) (j : Json) (fields : List (String × Json))
    (other : String) :
    (insertField name j fields).lookup other =
      if other = name then some j else fields.lookup other := by
  induction fields with
  | nil => rw [insertField, lookup_cons_eq_ite]
  | cons f fields ih =>
    obtain ⟨n, v⟩ := f
    rw [insertField]
    split
    · rw [lookup_cons_eq_ite]
    · split
      · rename_i h
        rw [lookup_cons_eq_ite, lookup_cons_eq_ite, ← h]
        split <;> rfl
      · rename_i hne
        rw [lookup_cons_eq_ite, ih, lookup_cons_eq_ite]
        by_cases h : other = n
        · rw [if_pos h, if_pos h, if_neg fun he => hne (he.symm.trans h)]
        · rw [if_neg h, if_neg h]

theorem lookup_foldl_insertField (hn : (fields.map Prod.fst).Nodup) (sorted : List (String × Json))
    (name : String) :
    (fields.foldl (fun sorted f => insertField f.1 f.2 sorted) sorted).lookup name =
      (fields.lookup name).or (sorted.lookup name) := by
  induction fields generalizing sorted with
  | nil => rfl
  | cons f fields ih =>
    obtain ⟨n, v⟩ := f
    rw [List.map_cons, List.nodup_cons] at hn
    rw [List.foldl_cons, ih hn.2, lookup_insertField, lookup_cons_eq_ite]
    by_cases h : name = n
    · rw [h, SortedMap.lookup_eq_none_of_not_mem hn.1, if_pos rfl, if_pos rfl]
      rfl
    · rw [if_neg h, if_neg h]

theorem lookup_map (f : String → Json → Json) (fields : List (String × Json)) (name : String) :
    (fields.map fun e => (e.1, f e.1 e.2)).lookup name = (fields.lookup name).map (f name) := by
  induction fields with
  | nil => rfl
  | cons e fields ih =>
    obtain ⟨n, v⟩ := e
    rw [List.map_cons, lookup_cons_eq_ite, lookup_cons_eq_ite, ih]
    split
    · rename_i h
      rw [h, Option.map_some]
    · rfl

def Provides (sorted fields : List (String × Json)) : Prop :=
  ∀ f ∈ fields, sorted.lookup f.1 = some f.2

@[simp]
theorem provides_nil (sorted : List (String × Json)) : Provides sorted [] := nofun

@[simp]
theorem provides_cons {sorted : List (String × Json)} {f : String × Json} :
    Provides sorted (f :: fields) ↔ sorted.lookup f.1 = some f.2 ∧ Provides sorted fields :=
  List.forall_mem_cons

@[simp]
theorem provides_append {sorted fields' : List (String × Json)} :
    Provides sorted (fields ++ fields') ↔ Provides sorted fields ∧ Provides sorted fields' :=
  List.forall_mem_append

theorem exists_ofFields (hn : (fields.map Prod.fst).Nodup) :
    ∃ sorted, ofFields fields = .object sorted ∧ Provides sorted fields := by
  refine ⟨_, rfl, fun f hf => ?_⟩
  rw [lookup_foldl_insertField hn, (SortedMap.lookup_eq_some_iff_mem hn f.1 f.2).mpr hf]
  rfl

theorem bind_record?_ofFields {names : List String} {decode : List (String × Json) → Option α}
    {a : α} (hn : (fields.map Prod.fst).Nodup)
    (h : ∀ sorted, Provides sorted fields → decode sorted = some a) :
    (ofFields fields).record? names >>= decode = some a := by
  obtain ⟨sorted, hs, hp⟩ := exists_ofFields hn
  rw [hs, record?, Option.bind_eq_bind, Option.bind_some]
  exact h sorted hp

theorem getField_ofFields (hn : (fields.map Prod.fst).Nodup) {f : String × Json}
    (hf : f ∈ fields) : (ofFields fields).getField f.1 = f.2 := by
  obtain ⟨sorted, hs, hp⟩ := exists_ofFields hn
  rw [hs, getField, field, hp f hf, Option.getD_some]

theorem size_lt_of_lookup (h : fields.lookup name = some j) : j.size < (object fields).size := by
  rw [size, Nat.lt_succ_iff]
  induction fields with
  | nil => contradiction
  | cons f fields ih =>
    obtain ⟨n, v⟩ := f
    rw [List.lookup_cons] at h
    rw [sizeFields]
    split at h
    · obtain rfl := Option.some.inj h
      exact Nat.le_add_right _ _
    · exact Nat.le_trans (ih h) (Nat.le_add_left _ _)

theorem size_lt_of_mem {items : List Json} (h : j ∈ items) : j.size < (array items).size := by
  rw [size, Nat.lt_succ_iff]
  induction items with
  | nil => contradiction
  | cons i items ih =>
    rw [sizeItems]
    rcases List.mem_cons.mp h with rfl | h
    · exact Nat.le_add_right _ _
    · exact Nat.le_trans (ih h) (Nat.le_add_left _ _)

@[simp]
theorem string?_string (s : String) : (string s).string? = some s := rfl

@[simp]
theorem bool?_bool (b : Bool) : (bool b).bool? = some b := rfl

@[simp]
theorem uint64?_ofNat (n : UInt64) : (ofNat n.toNat).uint64? = some n := by
  have hn : ((n.toNat : Int)).toNat = n.toNat := Int.toNat_natCast _
  simp only [uint64?, ofNat, int?, Option.bind_eq_bind, Option.bind_some, hn]
  rw [if_pos ⟨Int.natCast_nonneg _, n.toNat_lt⟩, UInt64.ofNat_toNat]

theorem nat?_ofNat {n : Nat} (h : n < UInt64.size) : (ofNat n).nat? = some n := by
  have hn : (UInt64.ofNat n).toNat = n := UInt64.toNat_ofNat_of_lt h
  have hu := uint64?_ofNat (UInt64.ofNat n)
  rw [hn] at hu
  rw [nat?, hu, Option.map_some, hn]

@[simp]
theorem int64?_ofInt (n : Int64) : (ofInt n.toInt).int64? = some n := by
  simp only [int64?, ofInt, int?, Option.bind_eq_bind, Option.bind_some]
  rw [if_pos ⟨n.minValue_le_toInt, n.toInt_le⟩, Int64.ofInt_toInt]

@[simp]
theorem int32?_ofInt (n : Int32) : (ofInt n.toInt).int32? = some n := by
  simp only [int32?, ofInt, int?, Option.bind_eq_bind, Option.bind_some]
  rw [if_pos ⟨n.minValue_le_toInt, n.toInt_le⟩, Int32.ofInt_toInt]

theorem oneOf?_string {values : List α} {nameOf : α → String} {a : α}
    (h : values.find? (fun b => nameOf b = nameOf a) = some a) :
    oneOf? values nameOf (string (nameOf a)) = some a := by
  simpa [oneOf?, name?] using h

theorem keptOneOf?_string {values : List α} {nameOf : α → String} {a : α}
    (h : values.find? (fun b => nameOf b = nameOf a) = some a) :
    keptOneOf? values nameOf (string (nameOf a)) = some a := by
  simpa [keptOneOf?, keptName?, name?] using h

@[simp]
theorem tag?_string (tags : List String) (kept : Bool) (tag : String) :
    tag? tags kept (string tag) = some tag := rfl

theorem list?_ofList {encode : α → Json} {decode : Json → Option α} {items : List α}
    (h : ∀ a ∈ items, decode (encode a) = some a) :
    (ofList encode items).list? decode = some items := by
  rw [ofList, list?]
  induction items with
  | nil => rfl
  | cons a items ih =>
    rw [List.forall_mem_cons] at h
    rw [List.map_cons, List.mapM_cons, h.1, ih h.2]
    rfl

theorem forall₂_of_mapM {decode : Json → Option α} {items : List Json} {as : List α}
    (h : items.mapM decode = some as) : List.Forall₂ (fun j a => decode j = some a) items as := by
  induction items generalizing as with
  | nil =>
    obtain rfl := Option.some.inj h
    exact .nil
  | cons j items ih =>
    simp only [List.mapM_cons, Option.bind_eq_bind, Option.bind_eq_some_iff] at h
    obtain ⟨a, ha, rest, hrest, has⟩ := h
    obtain rfl := Option.some.inj has
    exact .cons ha (ih hrest)

@[simp]
theorem list?_ofStrings (items : List String) : (ofStrings items).list? string? = some items :=
  list?_ofList fun _ _ => rfl

theorem nullable_of_ne {decode : Json → Option α} (h : j ≠ .null) :
    nullable decode j = (decode j).map some := by
  cases j with
  | null => contradiction
  | _ => rfl

theorem ne_null {decode : Json → Option α} {a : α} (hnull : decode .null = none)
    (h : decode j = some a) : j ≠ .null := by
  rintro rfl
  rw [hnull] at h
  contradiction

theorem ofOption_eq_null {encode : α → Json} {decode : Json → Option α} {a? : Option α}
    (h : nullable decode .null = some a?) : ofOption encode a? = .null := by
  obtain rfl := Option.some.inj h
  rfl

theorem nullable_ofOption {encode : α → Json} (decode : Json → Option α) {a? : Option α}
    (h : ∀ a, a? = some a → encode a ≠ .null ∧ decode (encode a) = some a) :
    nullable decode (ofOption encode a?) = some a? := by
  cases a? with
  | none => rfl
  | some a =>
    obtain ⟨hne, ha⟩ := h a rfl
    rw [ofOption, nullable_of_ne hne, ha, Option.map_some]

end PromTree.Json
