import PromTree.Proofs.Expr.Decoding
import PromTree.Proofs.Json.Places
import PromTree.Session.Share

namespace PromTree

open Json (Step Place)

namespace SharedState

variable {fields : List (String × Json)} {name : String} {j part : Json} {s : Step} {place : Place}

def timedTypes : List String := ["vectorSelector", "matrixSelector", "subquery"]

def timeFields : List String := ["timestamp", "startOrEnd"]

/-- The places of the fixed times in a value: next to a type of expressions that may have them. -/
inductive HoldsTime (j : Json) : Place → Prop where
  | mk (above : Place) {type name : String}
    (typed : j.at? (above ++ [.field "type"]) = some (.string type)) (timed : type ∈ timedTypes)
    (name_mem : name ∈ timeFields) : HoldsTime j (above ++ [.field name])

theorem HoldsTime.below (h : HoldsTime part place) (hpart : j.step? s = some part) :
    HoldsTime j (s :: place) := by
  cases h with
  | mk above typed timed name_mem =>
    refine .mk (s :: above) ?_ timed name_mem
    rw [List.cons_append, Json.at?, hpart]
    exact typed

theorem clearTimesItems_eq_map (items : List Json) :
    clearTimesItems items = items.map clearTimes := by
  induction items with
  | nil => rfl
  | cons j items ih => rw [clearTimesItems, ih, List.map_cons]

theorem clearTimesFields_eq_map (fields : List (String × Json)) :
    clearTimesFields fields = fields.map fun f => (f.1, clearTimes f.2) := by
  induction fields with
  | nil => rfl
  | cons f fields ih => rw [clearTimesFields, ih, List.map_cons]

theorem lookup_clearTimesFields (fields : List (String × Json)) (name : String) :
    (clearTimesFields fields).lookup name = (fields.lookup name).map clearTimes := by
  rw [clearTimesFields_eq_map]
  exact Json.lookup_map (fun _ => clearTimes) fields name

theorem hasTime_iff : hasTime fields ↔
    ∃ type ∈ timedTypes, fields.lookup "type" = some (.string type) := by
  rw [hasTime]
  split
  · rename_i type htype
    simp [htype, timedTypes]
  · rename_i hne
    simp only [Bool.false_eq_true, false_iff, not_exists, not_and]
    exact fun type _ => hne type

theorem lookup_clearTime_of_hasTime (h : hasTime fields) (hname : name ∈ timeFields) :
    (clearTime fields).lookup name = some .null := by
  rw [clearTime, if_pos h, Json.lookup_insertField, Json.lookup_insertField]
  simp only [timeFields, List.mem_cons, List.not_mem_nil, or_false] at hname
  rcases hname with rfl | rfl <;> rfl

theorem lookup_clearTime (h : name ∈ timeFields → ¬hasTime fields) :
    (clearTime fields).lookup name = fields.lookup name := by
  rw [clearTime]
  split
  · rename_i htime
    have hname : name ∉ timeFields := fun hname => h hname htime
    simp only [timeFields, List.mem_cons, List.not_mem_nil, or_false, not_or] at hname
    rw [Json.lookup_insertField, Json.lookup_insertField, if_neg hname.1, if_neg hname.2]
  · rfl

theorem clearTimes_eq_string_iff {s : String} : clearTimes j = .string s ↔ j = .string s := by
  cases j <;> simp [clearTimes]

theorem clearTimes_eq_array_iff {items : List Json} : clearTimes j = .array items ↔
    ∃ items', j = .array items' ∧ items = items'.map clearTimes := by
  cases j <;> simp [clearTimes, clearTimesItems_eq_map, eq_comm]

theorem hasTime_clearTimesFields (fields : List (String × Json)) :
    hasTime (clearTimesFields fields) ↔ hasTime fields := by
  simp [hasTime_iff, lookup_clearTimesFields, clearTimes_eq_string_iff]

theorem head_clearTimes (j : Json) : (clearTimes j).head = j.head := by
  cases j with
  | array items => simp [clearTimes, clearTimesItems_eq_map, Json.head]
  | _ => simp [clearTimes, Json.head]

theorem holdsTime_singleton_iff : HoldsTime j [s] ↔
    ∃ fields, j = .object fields ∧ hasTime fields ∧ ∃ name ∈ timeFields, s = .field name := by
  constructor
  · intro h
    generalize hplace : [s] = place at h
    cases h with
    | mk above typed timed name_mem =>
      obtain ⟨rfl, hs⟩ := List.append_eq_singleton_iff.mp hplace.symm |>.resolve_right (by simp)
      rw [List.nil_append, Json.at?_singleton] at typed
      cases j with
      | object fields =>
        obtain rfl := List.singleton_inj.mp hs
        exact ⟨fields, rfl, hasTime_iff.mpr ⟨_, timed, typed⟩, _, name_mem, rfl⟩
      | _ => contradiction
  · rintro ⟨fields, rfl, htime, name, hname, rfl⟩
    obtain ⟨type, htimed, htype⟩ := hasTime_iff.mp htime
    exact .mk [] ((Json.at?_singleton _ _).trans htype) htimed hname

theorem step?_clearTimes_of_holdsTime (h : HoldsTime j [s]) :
    (clearTimes j).step? s = some .null := by
  obtain ⟨fields, rfl, htime, name, hname, rfl⟩ := holdsTime_singleton_iff.mp h
  exact lookup_clearTime_of_hasTime ((hasTime_clearTimesFields fields).mpr htime) hname

theorem step?_clearTimes (h : ¬HoldsTime j [s]) :
    (clearTimes j).step? s = (j.step? s).map clearTimes := by
  cases j with
  | object fields =>
    cases s with
    | item => rfl
    | field name =>
      simp only [clearTimes, Json.step?]
      rw [lookup_clearTime, lookup_clearTimesFields]
      intro hname htime
      rw [hasTime_clearTimesFields] at htime
      exact h (holdsTime_singleton_iff.mpr ⟨fields, rfl, htime, name, hname, rfl⟩)
  | array items =>
    cases s with
    | field => rfl
    | item => simp [clearTimes, clearTimesItems_eq_map, Json.step?]
  | _ => simp [clearTimes, Json.step?]

theorem at?_clearTimes (h : ∀ p, p <+: place → ¬HoldsTime j p) :
    (clearTimes j).at? place = (j.at? place).map clearTimes := by
  induction place generalizing j with
  | nil => rfl
  | cons s place ih =>
    have hs : ¬HoldsTime j [s] := h [s] ⟨place, rfl⟩
    rw [Json.at?, Json.at?, step?_clearTimes hs]
    cases hpart : j.step? s with
    | none => rfl
    | some part =>
      exact ih fun p hp hholds => h _ (List.cons_prefix_cons.mpr ⟨rfl, hp⟩) (hholds.below hpart)

theorem headAt?_clearTimes (h : ∀ p, p <+: place → ¬HoldsTime j p) :
    (clearTimes j).headAt? place = j.headAt? place := by
  rw [Json.headAt?, at?_clearTimes h, Option.map_map, Json.headAt?]
  exact congrFun (congrArg Option.map (funext head_clearTimes)) _

theorem exists_clearTimes_of_step? (h : (clearTimes j).step? s = some part) :
    ∃ part', part = clearTimes part' := by
  by_cases hs : HoldsTime j [s]
  · exact ⟨.null, Option.some.inj (h.symm.trans (step?_clearTimes_of_holdsTime hs))⟩
  · rw [step?_clearTimes hs] at h
    obtain ⟨part', -, rfl⟩ := Option.map_eq_some_iff.mp h
    exact ⟨part', rfl⟩

theorem at?_of_holdsTime_clearTimes (h : HoldsTime (clearTimes j) place) :
    (clearTimes j).at? place = some .null := by
  cases h with
  | mk above typed timed name_mem =>
    induction above generalizing j with
    | nil =>
      rw [List.nil_append, Json.at?_singleton] at typed ⊢
      cases j with
      | object fields =>
        apply lookup_clearTime_of_hasTime _ name_mem
        rw [clearTimes, Json.step?, lookup_clearTime fun h => absurd h (by decide)] at typed
        exact hasTime_iff.mpr ⟨_, timed, typed⟩
      | _ => contradiction
    | cons s above ih =>
      rw [List.cons_append, Json.at?] at typed ⊢
      obtain ⟨part, hpart, typed⟩ := Option.bind_eq_some_iff.mp typed
      obtain ⟨part, rfl⟩ := exists_clearTimes_of_step? hpart
      rw [hpart, Option.bind_some]
      exact ih typed

theorem isOrdered_clearTimes (h : j.IsOrdered) : (clearTimes j).IsOrdered := by
  induction h with
  | null => exact .null
  | bool b => exact .bool b
  | number n => exact .number n
  | string s => exact .string s
  | array _ ih =>
    rw [clearTimes, clearTimesItems_eq_map]
    apply Json.IsOrdered.array
    exact List.forall_mem_map.mpr ih
  | @object fields ascending _ ih =>
    have hfields : (Json.object (clearTimesFields fields)).IsOrdered := by
      rw [clearTimesFields_eq_map]
      exact Json.isOrdered_map (fun _ => clearTimes) ascending ih
    rw [clearTimes, clearTime]
    split
    · exact Json.isOrdered_insertField (Json.isOrdered_insertField hfields .null _) .null _
    · exact hfields

end SharedState

namespace Shape

def shift? : Shape → Option TimeShift
  | .vectorSelector s | .matrixSelector s _ => some s.shift
  | .subquery w => some w.shift
  | _ => none

def IsTimeless (s : Shape) : Prop :=
  ∀ shift, s.shift? = some shift → shift.timestamp = none ∧ shift.rangeEnd = none

theorem mem_timedTypes_of_shift? {s : Shape} {shift : TimeShift} (h : s.shift? = some shift) :
    s.typeName ∈ SharedState.timedTypes := by
  cases s with
  | vectorSelector | matrixSelector | subquery => simp [typeName, SharedState.timedTypes]
  | _ => contradiction

theorem mem_toFields_of_shift? {s : Shape} {shift : TimeShift} (h : s.shift? = some shift)
    {f : String × Json} (hf : f ∈ shift.toFields) : f ∈ s.toFields := by
  cases s with
  | vectorSelector | matrixSelector | subquery =>
    obtain rfl := Option.some.inj h
    simp [toFields, Selector.toFields, Window.toFields, hf]
  | _ => contradiction

end Shape

namespace Expr

open SharedState

def IsTimeless (e : Expr) : Prop := Hereditarily children (fun e => e.shape.IsTimeless) e

/-- All that can be read as an expression in a value is an object that gives its type by name. -/
inductive IsByName : Json → Prop where
  | object {fields : List (String × Json)}
    (typed : ∃ type, fields.lookup "type" = some (.string type))
    (nodes : ∀ name ∈ nodeFields, ∀ part, fields.lookup name = some part → part ≠ .null →
      IsByName part)
    (lists : ∀ name ∈ listFields, ∀ items, fields.lookup name = some (.array items) →
      ∀ part ∈ items, IsByName part) : IsByName (.object fields)

theorem toJson_injective : Function.Injective toJson := by
  intro e e' h
  have he := e.ofJson?_toJson
  rw [h, ofJson?_toJson] at he
  exact (Option.some.inj he).symm

theorem exists_object (e : Expr) : ∃ fields, e.toJson = .object fields :=
  ⟨_, e.toJson_eq⟩

theorem exists_readsChild {read? : Json → Option Expr} {fields : List (String × Json)} {e c : Expr}
    (h : e.ReadFrom read? fields) (hc : c ∈ e.children) :
    (∃ name ∈ nodeFields, read? (Json.field fields name) = some c) ∨
      ∃ name ∈ listFields, ∃ items, fields.lookup name = some (.array items) ∧
        ∃ item ∈ items, read? item = some c := by
  obtain ⟨object, hobject⟩ := c.exists_object
  obtain ⟨⟨name, part⟩, hmem, hpart⟩ := exists_childField hc
  cases h.child _ hmem with
  | noParam | noChildren => simp [hobject] at hpart
  | one _ hname c' hc' =>
    refine .inl ⟨name, hname, ?_⟩
    obtain heq | ⟨items, hitems, -⟩ := hpart
    · rwa [← toJson_injective heq]
    · obtain ⟨fields', hfields'⟩ := c'.exists_object
      simp [hfields'] at hitems
  | many _ hname items cs hitems hcs =>
    refine .inr ⟨name, hname, items, hitems, ?_⟩
    obtain heq | ⟨parts, hparts, hmem⟩ := hpart
    · simp [hobject] at heq
    · obtain rfl := Json.array.inj hparts
      rw [List.mem_map_of_injective toJson_injective] at hmem
      obtain ⟨i, hi, rfl⟩ := List.getElem_of_mem hmem
      have hi' : i < items.length := hcs.length_eq ▸ hi
      exact ⟨items[i], List.getElem_mem hi', hcs.get hi' hi⟩

theorem lookup_cleared {fields : List (String × Json)} {name : String}
    (hname : name ∈ nodeFields ++ listFields) :
    (clearTime (clearTimesFields fields)).lookup name = (fields.lookup name).map clearTimes := by
  have hnot : ∀ name ∈ nodeFields ++ listFields, name ∉ timeFields := by decide
  rw [lookup_clearTime fun htime => absurd htime (hnot name hname), lookup_clearTimesFields]

theorem own_isTimeless {read? : Json → Option Expr} {fields : List (String × Json)} {e : Expr}
    (h : e.ReadFrom read? (clearTime fields))
    (htype : fields.lookup "type" = some (.string e.typeName)) : e.shape.IsTimeless := by
  intro shift hshift
  have htime : hasTime fields :=
    hasTime_iff.mpr ⟨e.typeName, Shape.mem_timedTypes_of_shift? hshift, htype⟩
  have hown (f : String × Json) (hf : f ∈ shift.toFields) (hname : f.1 ∈ timeFields) :
      f.2 = .null := by
    apply h.own f (Shape.mem_toFields_of_shift? hshift hf)
    rw [Json.field, lookup_clearTime_of_hasTime htime hname, Option.getD_some]
  have htimestamp := hown _ (List.mem_cons_of_mem _ List.mem_cons_self) (by simp [timeFields])
  have hrangeEnd := hown _ (List.mem_cons_of_mem _ (List.mem_cons_of_mem _ List.mem_cons_self))
    (by simp [timeFields])
  constructor
  · cases hvalue : shift.timestamp with
    | none => rfl
    | some t => simp [hvalue, Json.ofOption, Json.ofInt] at htimestamp
  · cases hvalue : shift.rangeEnd with
    | none => rfl
    | some t => simp [hvalue, Json.ofOption] at hrangeEnd

theorem isTimeless_of_isByName {fuel : Nat} {kept : Bool} {j : Json} {e : Expr} (hj : IsByName j)
    (h : ofJsonWithin? fuel kept (clearTimes j) = some e) : e.IsTimeless := by
  induction hj generalizing fuel kept e with
  | @object fields typed nodes lists ihNodes ihLists =>
    cases fuel with
    | zero => contradiction
    | succ fuel =>
      obtain ⟨cleared, htag, hread⟩ := readFrom_of_ofJsonWithin? h
      obtain ⟨type', htype', heq⟩ := Option.bind_eq_some_iff.mp htag
      obtain ⟨rfl, rfl⟩ := Prod.mk.inj (Option.some.inj heq)
      obtain ⟨type, htype⟩ := typed
      have htypeCleared : (clearTime (clearTimesFields fields)).lookup "type" =
          some (.string type) := by
        rw [lookup_clearTime fun h => absurd h (by decide), lookup_clearTimesFields, htype]
        rfl
      rw [Json.field, htypeCleared, Option.getD_some, Json.tag?_string] at htype'
      obtain rfl := Option.some.inj htype'
      refine .node e (own_isTimeless hread ?_) fun c hc => ?_
      · rw [lookup_clearTimesFields, htype]
        rfl
      · rcases exists_readsChild hread hc with
          ⟨name, hname, hc⟩ | ⟨name, hname, items, hitems, item, hitem, hc⟩
        · rw [Json.field, lookup_cleared (List.mem_append_left _ hname)] at hc
          cases hpart : fields.lookup name with
          | none =>
            rw [hpart] at hc
            simp [ofJsonWithin?_null] at hc
          | some part =>
            rw [hpart, Option.map_some, Option.getD_some] at hc
            refine ihNodes name hname part hpart ?_ hc
            rintro rfl
            simp [clearTimes, ofJsonWithin?_null] at hc
        · rw [lookup_cleared (List.mem_append_right _ hname), Option.map_eq_some_iff] at hitems
          obtain ⟨part, hpart, heq⟩ := hitems
          obtain ⟨parts, rfl, rfl⟩ := clearTimes_eq_array_iff.mp heq
          obtain ⟨part, hmem, rfl⟩ := List.mem_map.mp hitem
          exact ihLists name hname parts hpart part hmem hc

end Expr

end PromTree
