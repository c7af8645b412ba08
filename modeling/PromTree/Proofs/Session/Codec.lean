import PromTree.Proofs.Expr.Codec
import PromTree.Session.Share

namespace PromTree

theorem ServerSettings.ofJson?_toJson (s : ServerSettings) : ofJson? s.toJson = some s := by
  have haccess : Json.oneOf? Access.all Access.name (.string s.access.name) = some s.access :=
    Json.oneOf?_string (by cases s.access <;> decide)
  have hid := Json.nullable_ofOption Json.uint64?
    fun id (_ : s.datasourceId = some id) => ⟨Json.noConfusion, Json.uint64?_ofNat id⟩
  rw [ofJson?, toJson]
  refine Json.bind_record?_ofFields ?_ fun sorted hp => ?_
  · simp
  · simp_all [Json.field]

theorem Visualizer.ofJson?_toJson (v : Visualizer) : ofJson? v.toJson = some v := by
  have htab : Json.oneOf? VisualizerTab.all VisualizerTab.name (.string v.tab.name) = some v.tab :=
    Json.oneOf?_string (by cases v.tab <;> decide)
  have hend := Json.nullable_ofOption Json.int64?
    fun t (_ : v.endTime = some t) => ⟨Json.noConfusion, Json.int64?_ofInt t⟩
  have hresolution := Json.nullable_ofOption Json.uint64?
    fun r (_ : v.resolution = some r) => ⟨Json.noConfusion, Json.uint64?_ofNat r⟩
  rw [ofJson?, toJson]
  refine Json.bind_record?_ofFields ?_ fun sorted hp => ?_
  · simp
  · simp_all [Json.field]

theorem SharedPane.ofJson?_toJson (p : SharedPane) : ofJson? p.toJson = some p := by
  rw [ofJson?, toJson]
  refine Json.bind_record?_ofFields ?_ fun sorted hp => ?_
  · simp
  · simp_all [Json.field, p.expr.ofJson?_toJson]

/-- The indices are numbers that a machine counts with. -/
structure SharedSelection.Fits (s : SharedSelection) : Prop where
  pane : s.pane < UInt64.size
  position : s.position < UInt64.size

theorem SharedSelection.ofJson?_toJson {s : SharedSelection} (h : s.Fits) :
    ofJson? s.toJson = some s := by
  rw [ofJson?, toJson]
  refine Json.bind_record?_ofFields ?_ fun sorted hp => ?_
  · simp
  · simp_all [Json.field, Json.nat?_ofNat h.pane, Json.nat?_ofNat h.position]

namespace SharedState

variable {s : SharedState}

theorem ofJson?_toJson (h : ∀ selection, s.selection = some selection → selection.Fits) :
    ofJson? s.toJson = some s := by
  have hpanes := Json.list?_ofList fun p (_ : p ∈ s.panes) => p.ofJson?_toJson
  have hselection := Json.nullable_ofOption _ fun selection hs =>
    ⟨Json.noConfusion, SharedSelection.ofJson?_toJson (h selection hs)⟩
  rw [ofJson?, toJson]
  refine Json.bind_record?_ofFields ?_ fun sorted hp => ?_
  · simp
  · simp_all [Json.field, s.settings.ofJson?_toJson, s.visualizer.ofJson?_toJson]

theorem fields_of_ofJson?_object {fields : List (String × Json)}
    (h : ofJson? (.object fields) = some s) :
    (Json.field fields "queries").list? SharedPane.ofJson? = some s.panes ∧
      Json.nullable SharedSelection.ofJson? (Json.field fields "selectedNodeIdx") =
        some s.selection := by
  simp only [ofJson?, Json.record?, Option.bind_eq_bind, Option.bind_some,
    Option.bind_eq_some_iff] at h
  obtain ⟨version, -, settings, -, panes, hpanes, selection, hselection, visualizer, -, hs⟩ := h
  obtain rfl := Option.some.inj hs
  exact ⟨hpanes, hselection⟩

theorem upgrade_toJson (h : s.version = currentVersion) : upgrade s.toJson = .ok s.toJson := by
  have hversion : (s.toJson.getField "version").uint64? = some 3 := by
    have hfield : s.toJson.getField "version" = .ofNat s.version.toNat := by
      rw [toJson]
      exact Json.getField_ofFields (by simp) List.mem_cons_self
    rw [hfield]
    exact (Json.uint64?_ofNat s.version).trans (congrArg some h)
  simp [upgrade, hversion]

theorem exprError?_eq_none_iff : s.exprError? = none ↔ ∀ p ∈ s.panes, p.expr.IsValid := by
  rw [exprError?, List.findSome?_eq_none_iff]
  constructor
  · intro h p hp
    obtain ⟨i, hi⟩ := List.getElem?_of_mem hp
    exact Option.map_eq_none_iff.mp (h (p, i) (List.mem_zipIdx_iff_getElem?.mpr hi))
  · intro h p hp
    exact Option.map_eq_none_iff.mpr (h _ (List.fst_mem_of_mem_zipIdx hp))

theorem selectionError?_eq_none_iff : s.selectionError? = none ↔
    ∀ selection, s.selection = some selection →
      ∃ p, s.panes[selection.pane]? = some p ∧ selection.position < p.expr.size := by
  rw [selectionError?]
  cases s.selection with
  | none => simp
  | some selection => simp [Option.any_eq_true]

theorem ofJson_toJson (h : s.version = currentVersion) (hvalid : ∀ p ∈ s.panes, p.expr.IsValid)
    (hselection : ∀ selection, s.selection = some selection → selection.Fits ∧
      ∃ p, s.panes[selection.pane]? = some p ∧ selection.position < p.expr.size) :
    ofJson s.toJson = .ok s := by
  have hread := ofJson?_toJson fun selection hs => (hselection selection hs).1
  have hexpr := exprError?_eq_none_iff.mpr hvalid
  have herror := selectionError?_eq_none_iff.mpr fun selection hs => (hselection selection hs).2
  rw [ofJson, upgrade_toJson h]
  simp only [bind, Except.bind, hread, check, hexpr, herror, Option.or_none]

end SharedState

end PromTree
