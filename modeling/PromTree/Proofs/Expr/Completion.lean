import PromTree.Proofs.Expr.Decoding
import PromTree.Proofs.Json.Ordering

namespace PromTree

namespace Expr

def leftOutValue (name : String) : Json := if name = "children" then .array [] else .null

/-- The one value is a record, and the other an object with all of its fields and its type by name.
The same goes for the records of its children, which have been kept with it. -/
inductive Completes : Bool → Json → Json → Prop where
  | node {kept : Bool} {j : Json} {type : String} {fields written : List (String × Json)}
    {names : List String}
    (tagged : j.tagged? (Json.tag? Shape.typeNames kept) "type" Shape.fieldNames? =
      some (type, fields))
    (known : Shape.fieldNames? type = some names)
    (complete : (written.map Prod.fst).Perm ("type" :: names))
    (typed : written.lookup "type" = some (.string type))
    (leftOut : ∀ name ∈ names, Json.field fields name = .null →
      written.lookup name = some (leftOutValue name))
    (nodes : ∀ name ∈ nodeFields, ∀ part, Json.field fields name ≠ .null →
      written.lookup name = some part → Completes true (Json.field fields name) part)
    (lists : ∀ name ∈ listFields, ∀ items part, fields.lookup name = some (.array items) →
      written.lookup name = some part → ∃ parts, part = .array parts ∧ items.length = parts.length)
    (items : ∀ name ∈ listFields, ∀ items parts : List Json,
      fields.lookup name = some (.array items) → written.lookup name = some (.array parts) →
      ∀ f ∈ items.zip parts, Completes true f.1 f.2) :
    Completes kept j (.object written)

theorem disjoint_fields : nodeFields.Disjoint listFields := by
  simp [List.Disjoint, nodeFields, listFields]

namespace ReadsChild

variable {read? : Json → Option Expr} {fields : List (String × Json)} {name : String} {part : Json}

theorem eq_leftOutValue (h : ReadsChild read? fields (name, part)) (hnull : read? .null = none)
    (hleftOut : Json.field fields name = .null) : part = leftOutValue name := by
  cases h with
  | noParam | noChildren => rfl
  | one _ _ c hc =>
    rw [hleftOut, hnull] at hc
    contradiction
  | many _ _ items cs hitems =>
    rw [Json.field, hitems] at hleftOut
    contradiction

theorem exists_node (h : ReadsChild read? fields (name, part)) (hname : name ∈ nodeFields)
    (hpart : Json.field fields name ≠ .null) :
    ∃ c, part = c.toJson ∧ read? (Json.field fields name) = some c := by
  cases h with
  | noParam hleftOut => exact absurd hleftOut hpart
  | one _ _ c hc => exact ⟨c, rfl, hc⟩
  | noChildren => exact absurd hname (by decide)
  | many _ hname' => exact (disjoint_fields hname hname').elim

theorem exists_list {items : List Json} (h : ReadsChild read? fields (name, part))
    (hname : name ∈ listFields) (hitems : fields.lookup name = some (.array items)) :
    ∃ cs : List Expr, part = .array (cs.map toJson) ∧
      List.Forall₂ (fun j c => read? j = some c) items cs := by
  cases h with
  | many _ _ items' cs hitems' hcs =>
    obtain rfl := Json.array.inj (Option.some.inj (hitems.symm.trans hitems'))
    exact ⟨cs, rfl, hcs⟩
  | noChildren hnone =>
    rw [hnone] at hitems
    contradiction
  | noParam => exact absurd hname (by decide)
  | one _ hname' => exact (disjoint_fields hname' hname).elim

end ReadsChild

theorem fst_not_mem_of_mem_toFields {s : Shape} {f : String × Json} (h : f ∈ s.toFields) :
    f.1 ∉ nodeFields ++ listFields := by
  revert f
  cases s <;> simp [Shape.toFields, Selector.toFields, Window.toFields, TimeShift.toFields,
    nodeFields, listFields]

theorem exists_fieldNames? (e : Expr) : ∃ names, Shape.fieldNames? e.typeName = some names ∧
    ((e.shape.toFields ++ childFields e.shape (e.children.map toJson)).map Prod.fst).Perm
      names := by
  cases e with
  | aggregation op grouping param body =>
    refine ⟨_, rfl, ?_⟩
    cases param <;>
      simp only [shape, children, childFields, Shape.toFields, Option.toList, List.map_cons,
        List.map_nil, List.cons_append, List.nil_append] <;>
      decide
  | _ =>
    refine ⟨_, rfl, ?_⟩
    simp only [shape, children, childFields, Shape.toFields, Selector.toFields, Window.toFields,
      TimeShift.toFields, List.map_cons, List.map_nil, List.cons_append, List.nil_append]
    decide

theorem completes_of_ofJsonWithin? {fuel : Nat} {kept : Bool} {j : Json} {e : Expr}
    (h : ofJsonWithin? fuel kept j = some e) : Completes kept j e.toJson := by
  induction fuel generalizing kept j e with
  | zero => contradiction
  | succ fuel ih =>
    obtain ⟨fields, htag, hread⟩ := readFrom_of_ofJsonWithin? h
    obtain ⟨names, hknown, hnames⟩ := e.exists_fieldNames?
    obtain ⟨written, hwritten, hperm⟩ := Json.exists_ofFields_perm e.nodup_fields
    have hnodup : (written.map Prod.fst).Nodup := (hperm.map _).nodup_iff.mpr e.nodup_fields
    have hlookup (name : String) (part : Json) : written.lookup name = some part ↔
        (name, part) ∈ ("type", Json.string e.typeName) :: e.shape.toFields ++
          childFields e.shape (e.children.map toJson) :=
      (SortedMap.lookup_eq_some_iff_mem hnodup name part).trans hperm.mem_iff
    -- no field of the node's own has the name of one for children
    have hchild {name : String} {part : Json} (hname : name ∈ nodeFields ++ listFields)
        (hpart : written.lookup name = some part) :
        ReadsChild (ofJsonWithin? fuel true) fields (name, part) := by
      rw [hlookup, List.cons_append, List.mem_cons, List.mem_append] at hpart
      rcases hpart with htype | hown | hpart
      · rw [(Prod.mk.inj htype).1] at hname
        exact absurd hname (by decide)
      · exact absurd hname (fst_not_mem_of_mem_toFields hown)
      · exact hread.child _ hpart
    rw [toJson_eq, Shape.toJsonWith]
    refine hwritten ▸ .node htag hknown ?_ ?_ ?_ ?_ ?_ ?_
    · exact (hperm.map _).trans (hnames.cons "type")
    · exact (hlookup _ _).mpr List.mem_cons_self
    · intro name hname hleftOut
      obtain ⟨⟨name, part⟩, hpart, rfl⟩ := List.mem_map.mp (hnames.mem_iff.mpr hname)
      rw [hlookup, List.cons_append]
      suffices part = leftOutValue name from List.mem_cons_of_mem _ (this ▸ hpart)
      rcases List.mem_append.mp hpart with hown | hpart
      · have hne : name ≠ "children" := by
          rintro rfl
          exact fst_not_mem_of_mem_toFields hown (show "children" ∈ _ by decide)
        rw [leftOutValue, if_neg hne]
        exact hread.own _ hown hleftOut
      · exact (hread.child _ hpart).eq_leftOutValue (ofJsonWithin?_null fuel true) hleftOut
    · intro name hname part hpart hlook
      obtain ⟨c, rfl, hc⟩ := (hchild (List.mem_append_left _ hname) hlook).exists_node hname hpart
      exact ih hc
    · intro name hname items part hitems hlook
      obtain ⟨cs, rfl, hcs⟩ :=
        (hchild (List.mem_append_right _ hname) hlook).exists_list hname hitems
      exact ⟨_, rfl, by rw [List.length_map, hcs.length_eq]⟩
    · intro name hname items parts hitems hlook f hf
      obtain ⟨cs, hparts, hcs⟩ :=
        (hchild (List.mem_append_right _ hname) hlook).exists_list hname hitems
      obtain rfl := Json.array.inj hparts
      have hread := List.forall₂_map_right_iff.mpr (hcs.imp fun _ _ hc => ih hc)
      exact List.forall₂_zip hread hf

/-- Nothing is lost when an expression is written. It is written with all of its fields, also those
that have been left out in what it has been read from, and with the name of each type. -/
theorem toJson_lossless (e : Expr) :
    ofJson? e.toJson = some e ∧ ∀ j, ofJson? j = some e → Completes false j e.toJson :=
  ⟨e.ofJson?_toJson, fun _ h => completes_of_ofJsonWithin? h⟩

theorem toJson_lossless_leftOut :
    let selector : Json := .ofFields [("type", .ofNat 9), ("name", .string "up"),
      ("matchers", .array []), ("offset", .ofInt 0)]
    let j : Json := .array [.string "binaryExpr", .ofFields [("+", .ofFields [])], selector,
      .ofFields [("type", .ofNat 10)], .null, .bool false]
    let e : Expr :=
      .binary .add none false (.vectorSelector ⟨"up", [], .zero⟩) (.placeholder [])
    ofJson? j = some e ∧ Completes false j e.toJson := by
  intro selector j e
  have h : ofJson? j = some e := by rfl
  exact ⟨h, (toJson_lossless e).2 j h⟩

end Expr

end PromTree
