import Mathlib.Data.List.Induction
import Mathlib.Data.List.Sort
import PromTree.Proofs.Json.Ordering

namespace PromTree.Json

inductive Step where
  | field (name : String)
  | item (index : Nat)
  deriving DecidableEq

abbrev Place := List Step

inductive Head where
  | null
  | bool (b : Bool)
  | number (n : JsonNumber)
  | string (s : String)
  | array (length : Nat)
  | object
  deriving DecidableEq

def head : Json → Head
  | .null => .null
  | .bool b => .bool b
  | .number n => .number n
  | .string s => .string s
  | .array items => .array items.length
  | .object _ => .object

def step? : Json → Step → Option Json
  | .object fields, .field name => fields.lookup name
  | .array items, .item index => items[index]?
  | _, _ => none

def at? : Json → Place → Option Json
  | j, [] => some j
  | j, s :: place => (j.step? s).bind fun part => part.at? place

def headAt? (j : Json) (place : Place) : Option Head := (j.at? place).map head

variable {j j' : Json} {place place' : Place}

theorem at?_append (j : Json) (place place' : Place) :
    j.at? (place ++ place') = (j.at? place).bind fun part => part.at? place' := by
  induction place generalizing j with
  | nil => rfl
  | cons s place ih =>
    rw [List.cons_append, at?, at?, Option.bind_assoc]
    exact congrArg _ (funext fun part => ih part)

theorem at?_singleton (j : Json) (s : Step) : j.at? [s] = j.step? s := by
  cases h : j.step? s <;> simp [at?, h]

theorem headAt?_cons (j : Json) (s : Step) (place : Place) :
    j.headAt? (s :: place) = (j.step? s).bind fun part => part.headAt? place := by
  rw [headAt?, at?, Option.map_bind]
  rfl

theorem exists_first {P : Place → Prop} (h : ∃ p, p <+: place ∧ P p) :
    ∃ p, p <+: place ∧ P p ∧ ∀ q, q <+: p → P q → q = p := by
  induction place using List.reverseRecOn with
  | nil =>
    obtain ⟨p, hp, hholds⟩ := h
    obtain rfl := List.prefix_nil.mp hp
    exact ⟨[], hp, hholds, fun q hq _ => List.prefix_nil.mp hq⟩
  | append_singleton place s ih =>
    by_cases hplace : ∃ p, p <+: place ∧ P p
    · obtain ⟨p, hp, hrest⟩ := ih hplace
      exact ⟨p, hp.trans (List.prefix_append _ _), hrest⟩
    · have hwhole (p : Place) (hp : p <+: place ++ [s]) (hholds : P p) : p = place ++ [s] :=
        (List.prefix_concat_iff.mp hp).resolve_right fun hp => hplace ⟨p, hp, hholds⟩
      obtain ⟨p, hp, hholds⟩ := h
      obtain rfl := hwhole p hp hholds
      exact ⟨_, hp, hholds, hwhole⟩

theorem headAt?_eq_string_iff {s : String} :
    j.headAt? place = some (.string s) ↔ j.at? place = some (.string s) := by
  have hhead (part : Json) : part.head = .string s ↔ part = .string s := by
    cases part <;> simp [head]
  rw [headAt?, Option.map_eq_some_iff]
  simp [hhead]

theorem getField_eq (j : Json) (name : String) :
    j.getField name = (j.step? (.field name)).getD .null := by
  cases j <;> rfl

theorem Ascending.ext {fields fields' : List (String × Json)} (h : Ascending fields)
    (h' : Ascending fields') (lookups : ∀ name, fields.lookup name = fields'.lookup name) :
    fields = fields' := by
  have hmem (f : String × Json) : f ∈ fields ↔ f ∈ fields' := by
    rw [← SortedMap.lookup_eq_some_iff_mem h.nodup f.1 f.2, lookups,
      SortedMap.lookup_eq_some_iff_mem h'.nodup]
  have : Std.Irrefl fun a b : String × Json => a.1 < b.1 := ⟨fun a => String.lt_irrefl a.1⟩
  have : Std.Antisymm fun a b : String × Json => a.1 < b.1 :=
    ⟨fun a b hab hba => absurd (String.lt_trans hab hba) (String.lt_irrefl _)⟩
  exact List.Pairwise.eq_of_mem_iff h h' hmem

theorem IsOrdered.ext (h : j.IsOrdered) (h' : j'.IsOrdered)
    (heads : ∀ place, j.headAt? place = j'.headAt? place) : j = j' := by
  have hhead := Option.some.inj (heads [])
  induction h generalizing j' with
  | null | bool | number | string => cases h' <;> simp_all [head]
  | array hitems ih =>
    cases h' with
    | @array items' hitems' =>
      refine congrArg _ (List.ext_getElem (Head.array.inj hhead) fun i hi hi' => ?_)
      have hparts (place : Place) := heads (.item i :: place)
      simp only [headAt?_cons, step?, List.getElem?_eq_getElem hi, List.getElem?_eq_getElem hi',
        Option.bind_some] at hparts
      exact ih _ (List.getElem_mem hi) (hitems' _ (List.getElem_mem hi')) hparts
        (Option.some.inj (hparts []))
    | _ => contradiction
  | @object fields ascending hfields ih =>
    cases h' with
    | @object fields' ascending' hfields' =>
      refine congrArg _ (ascending.ext ascending' fun name => ?_)
      have hparts (place : Place) := heads (.field name :: place)
      simp only [headAt?_cons, step?] at hparts
      cases hl : fields.lookup name with
      | none =>
        cases hl' : fields'.lookup name with
        | none => rfl
        | some part' => simpa [hl, hl', headAt?, at?] using hparts []
      | some part =>
        cases hl' : fields'.lookup name with
        | none => simpa [hl, hl', headAt?, at?] using hparts []
        | some part' =>
          simp only [hl, hl', Option.bind_some] at hparts
          have hmem := (SortedMap.lookup_eq_some_iff_mem ascending.nodup _ _).mp hl
          have hmem' := (SortedMap.lookup_eq_some_iff_mem ascending'.nodup _ _).mp hl'
          exact congrArg some (ih _ hmem (hfields' _ hmem') hparts (Option.some.inj (hparts [])))
    | _ => contradiction

end PromTree.Json
