import PromTree.Proofs.Session.Sharing
import PromTree.Proofs.Session.Upgrading

namespace PromTree

variable {text name : String} {j j' : Json} {state : SharedState} {selection : SharedSelection}

namespace SharedState

def namedSelection? (j : Json) : Option SharedSelection :=
  SharedSelection.ofJson? (j.getField "selectedNodeIdx")

theorem exists_version_of_upgrade (h : upgrade j = .ok j') :
    ∃ v, (j.getField "version").uint64? = some v := by
  unfold upgrade at h
  split at h
  · cases h
  all_goals exact ⟨_, ‹_›⟩

theorem getField_upgrade (h : upgrade j = .ok j') (hsettings : name ≠ "serverSettings")
    (hpanes : name ≠ "queries") : j'.getField name = j.getField name := by
  have hcleared (j : Json) : (clearPaneTimes j).getField name = j.getField name := by
    rw [Json.getField_eq, Json.getField_eq, step?_clearPaneTimes (by simpa using hpanes)]
  unfold upgrade at h
  split at h
  · cases h
  · unfold addSettings at h
    split at h
    · rename_i fields url _
      obtain rfl := Except.ok.inj h
      rw [hcleared, Json.getField_eq, step?_insertField, if_neg (by simpa using hsettings),
        ← Json.getField_eq]
    · cases h
  · obtain rfl := Except.ok.inj h
    exact hcleared j
  · obtain rfl := Except.ok.inj h
    rfl
  · cases h

theorem Tells.nullable_selection (h : Tells text j state) :
    Json.nullable SharedSelection.ofJson? (j.getField "selectedNodeIdx") =
      some state.selection := by
  obtain ⟨j', hupgrade, hread⟩ := h.read
  obtain ⟨v, hversion⟩ := exists_version_of_upgrade hupgrade
  rw [← getField_upgrade hupgrade (by decide) (by decide)] at hversion ⊢
  cases j' with
  | object fields => exact (fields_of_ofJson?_object hread).2
  | _ => contradiction

theorem Tells.namedSelection?_eq (h : Tells text j state) :
    namedSelection? j = state.selection := by
  have hread := h.nullable_selection
  by_cases hnull : j.getField "selectedNodeIdx" = .null
  · rw [hnull] at hread
    rw [namedSelection?, hnull, ← Option.some.inj hread]
    rfl
  · rw [Json.nullable_of_ne hnull, Option.map_eq_some_iff] at hread
    obtain ⟨selection, hselection, hs⟩ := hread
    rw [namedSelection?, hselection, hs]

theorem Tells.selection_eq_none_iff (h : Tells text j state) :
    state.selection = none ↔ j.getField "selectedNodeIdx" = .null := by
  have hread := h.nullable_selection
  constructor
  · intro hnone
    by_contra hnull
    rw [Json.nullable_of_ne hnull, hnone] at hread
    simp at hread
  · intro hnull
    rw [hnull] at hread
    exact (Option.some.inj hread).symm

end SharedState

namespace Session

structure SelectedAs (s : Session) (state : SharedState) (selection : SharedSelection)
    (ref : NodeRef) : Prop where
  pane : ref.pane = selection.pane
  shown : ∃ p, s.panes[selection.pane]? = some p ∧
    p.tree.orderedIds[selection.position]? = some ref.node
  expr : ∃ p path e, state.panes[selection.pane]? = some p ∧
    p.expr.orderedPositions[selection.position]? = some path ∧ p.expr.subterm? path = some e ∧
    s.exprAt? ref = some e

theorem exists_panesFrom {shared : List SharedPane} {i : Nat} {p : SharedPane}
    (hp : shared[i]? = some p) (next : NodeId) :
    ∃ first, (panesFrom next shared)[i]? =
      some ⟨p.text, p.stale, false, .ofExpr first p.expr⟩ := by
  induction shared generalizing next i with
  | nil => contradiction
  | cons q shared ih =>
    cases i with
    | zero =>
      obtain rfl := Option.some.inj hp
      exact ⟨next, rfl⟩
    | succ i => exact ih hp _

theorem exists_selectedAs (hvalid : ∀ p ∈ state.panes, p.expr.IsValid)
    (hselection : state.selection = some selection) (hwithin : ¬state.IsBeyond selection)
    (s : Session) : ∃ ref, (s.load state).selection = some ref ∧
      (s.load state).SelectedAs state selection ref := by
  obtain ⟨p, hp, hlt⟩ := SharedState.not_isBeyond_iff.mp hwithin
  have hne : state.panes ≠ [] := List.ne_nil_of_mem (List.mem_of_getElem? hp)
  have hpanes : (s.load state).panes = panesFrom s.nextId state.panes := by
    change panesFrom s.nextId (sharedPanes state) = _
    rw [sharedPanes, if_neg (by simpa using hne)]
  -- the nodes of the pane have some numbers or other, which are of no matter for their order
  obtain ⟨first, hpane⟩ := exists_panesFrom hp s.nextId
  rw [← hpanes] at hpane
  have hvalid := hvalid p (List.mem_of_getElem? hp)
  have hshows := Tree.shows_ofExpr hvalid first
  rw [← Tree.length_orderedIds_ofExpr first] at hlt
  have hid := List.getElem?_eq_getElem hlt
  obtain ⟨path, e, hpath, -, hsub, he⟩ := hshows.exists_shownAt hid
  rw [(NestedTree.WellShaped.number hvalid first).2] at hpath hsub
  refine ⟨⟨selection.pane, _⟩, ?_, rfl, ⟨_, hpane, hid⟩, p, path, e, hp, hpath, hsub, ?_⟩
  · change state.selection.bind (selectionIn? (s.load state).panes) = _
    rw [hselection, Option.bind_some, selectionIn?, hpane, Option.bind_eq_bind, Option.bind_some,
      hid]
    rfl
  · have hcontains := hshows.mem_orderedIds.mp (List.mem_of_getElem? hid)
    exact exprAt?_eq_some hpane hcontains he

end Session

namespace SharedState

structure SettlesSelection (text : String) : Prop where
  selected : ∀ j state, Json.parse? text = some j → parse text = .ok state → ∀ s : Session,
    ((s.dispatch (.load state)).selection = none ↔ j.getField "selectedNodeIdx" = .null) ∧
    Option.Rel ((s.dispatch (.load state)).SelectedAs state) (namedSelection? j)
      (s.dispatch (.load state)).selection
  refused : ∀ j state selection, Tells text j state → namedSelection? j = some selection →
    state.IsBeyond selection → ∃ error, parse text = .error error
  refused_iff : ∀ selection, parse text = .error (.invalidSelection selection) ↔
    ∃ j state, Tells text j state ∧ (∀ p ∈ state.panes, p.expr.IsValid) ∧
      namedSelection? j = some selection ∧ state.IsBeyond selection

theorem selected_of_check (hcheck : state.check = .ok state) (s : Session) :
    ((s.load state).selection = none ↔ state.selection = none) ∧
      Option.Rel ((s.load state).SelectedAs state) state.selection (s.load state).selection := by
  obtain ⟨-, hvalid, hwithin⟩ := check_eq_ok_iff.mp hcheck
  cases hselection : state.selection with
  | none =>
    have hnone : (s.load state).selection = none := by
      change state.selection.bind _ = none
      rw [hselection, Option.bind_none]
    rw [hnone]
    exact ⟨iff_of_true rfl rfl, .none⟩
  | some selection =>
    obtain ⟨ref, href, hselected⟩ :=
      Session.exists_selectedAs hvalid hselection (hwithin selection hselection) s
    rw [href]
    exact ⟨iff_of_false nofun nofun, .some hselected⟩

theorem Tells.exists_error (h : Tells text j state) (hselection : state.selection = some selection)
    (hbeyond : state.IsBeyond selection) : ∃ error, parse text = .error error := by
  rw [h.parse_eq]
  cases hcheck : state.check with
  | error error => exact ⟨error, rfl⟩
  | ok read => exact absurd hbeyond ((check_eq_ok_iff.mp hcheck).2.2 selection hselection)

theorem parse_eq_invalidSelection_iff : parse text = .error (.invalidSelection selection) ↔
    ∃ j state, Tells text j state ∧ (∀ p ∈ state.panes, p.expr.IsValid) ∧
      namedSelection? j = some selection ∧ state.IsBeyond selection := by
  constructor
  · intro herror
    rcases tells_or_error text with ⟨j, state, htells⟩ | ⟨error, hother, hne⟩
    · rw [htells.parse_eq, check_eq_invalidSelection_iff] at herror
      exact ⟨j, state, htells, htells.namedSelection?_eq ▸ herror⟩
    · exact absurd (Except.error.inj (hother.symm.trans herror)) (hne selection)
  · rintro ⟨j, state, htells, h⟩
    rw [htells.namedSelection?_eq] at h
    rw [htells.parse_eq, check_eq_invalidSelection_iff]
    exact h

/-- What bounds a selection is how many nodes are shown, so that one which is let through is found. -/
theorem settlesSelection (text : String) : SettlesSelection text ∧
    ∀ (e : Expr) (next : NodeId), e.size = (Tree.ofExpr next e).orderedIds.length := by
  refine ⟨⟨?_, ?_, ?_⟩, fun e next => (Tree.length_orderedIds_ofExpr next e).symm⟩
  · intro j state hj hparse s
    obtain ⟨⟨read, htells⟩, hcheck⟩ := exists_tells_of_parse hparse
    obtain rfl : read = j := Option.some.inj (htells.parsed.symm.trans hj)
    rw [← htells.selection_eq_none_iff, htells.namedSelection?_eq]
    exact selected_of_check hcheck s
  · intro j state selection htells hnamed hbeyond
    exact htells.exists_error (htells.namedSelection?_eq.symm.trans hnamed) hbeyond
  · intro selection
    exact parse_eq_invalidSelection_iff

set_option maxRecDepth 20000 in
theorem settlesSelection_operand :
    let text := "\x7b\"version\":3,\"serverSettings\":[\"\",\"direct\",null,false]," ++
      "\"queries\":[[\"\",false,\x7b\"type\":\"binaryExpr\",\"op\":\"+\"," ++
      "\"lhs\":\x7b\"type\":\"numberLiteral\",\"val\":\"1\"\x7d," ++
      "\"rhs\":\x7b\"type\":\"placeholder\",\"children\":[]\x7d," ++
      "\"matching\":null,\"bool\":false\x7d]],\"selectedNodeIdx\":[0,0]," ++
      "\"nodeVisualizer\":[\"table\",null,1,null,false]\x7d"
    let number : Json := .object [("type", .string "numberLiteral"), ("val", .string "1")]
    let gap : Json := .object [("children", .array []), ("type", .string "placeholder")]
    let operator : Json := .object [("bool", .bool false), ("lhs", number), ("matching", .null),
      ("op", .string "+"), ("rhs", gap), ("type", .string "binaryExpr")]
    let j : Json := .object [
      ("nodeVisualizer", .array [.string "table", .null, .ofNat 1, .null, .bool false]),
      ("queries", .array [.array [.string "", .bool false, operator]]),
      ("selectedNodeIdx", .array [.ofNat 0, .ofNat 0]),
      ("serverSettings", .array [.string "", .string "direct", .null, .bool false]),
      ("version", .ofNat 3)]
    let sum : Expr := .binary .add none false (.number "1") (.placeholder [])
    let state : SharedState :=
      ⟨3, .ofUrl "", [⟨"", false, sum⟩], some ⟨0, 0⟩, ⟨.table, none, 1, none, false⟩⟩
    let loaded := Session.start.dispatch (.load state)
    Json.parse? text = some j ∧ parse text = .ok state ∧
      ∃ ref, loaded.selection = some ref ∧ loaded.SelectedAs state ⟨0, 0⟩ ref := by
  intro text number gap operator j sum state loaded
  have hj : Json.parse? text = some j := by
    -- a text is taken apart more quickly in pieces
    simp only [text, Json.parse?, String.toList_append]
    cbv
  have hread : parse text = .ok state := by
    rw [parse, hj]
    dsimp only [j, number, gap, operator, state, sum]
    cbv
  obtain ⟨-, hselected⟩ := (settlesSelection text).1.selected j state hj hread .start
  have hnamed : namedSelection? j = some ⟨0, 0⟩ := rfl
  rw [hnamed] at hselected
  generalize (Session.start.dispatch (.load state)).selection = selected at hselected
  cases hselected with
  | some hselected => exact ⟨hj, hread, _, rfl, hselected⟩

end SharedState

end PromTree
