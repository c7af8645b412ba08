import PromTree.Proofs.Session.Invariant
import PromTree.Proofs.Tree.Order

namespace PromTree

namespace Session

def SelectionExists (s : Session) : Prop := ∀ ref, s.selection = some ref → s.nodeExists ref

variable {s s' : Session} {ref : NodeRef} {e : Expr}

theorem nodeExists_iff (s : Session) (ref : NodeRef) :
    s.nodeExists ref ↔ ∃ p, s.panes[ref.pane]? = some p ∧ p.tree.contains ref.node :=
  Option.any_eq_true ..

theorem pane_lt_of_nodeExists (h : s.nodeExists ref) : ref.pane < s.panes.length := by
  obtain ⟨p, hp, -⟩ := (s.nodeExists_iff ref).mp h
  exact (List.getElem?_eq_some_iff.mp hp).1

theorem PresentIntact.exists_exprAt? (h : s.PresentIntact) (href : s.nodeExists ref) :
    ∃ e, s.exprAt? ref = some e := by
  obtain ⟨p, hp, hc⟩ := (s.nodeExists_iff ref).mp href
  obtain ⟨r, hr⟩ := h.pane? hp
  obtain ⟨path, q, -, -, he, -⟩ := hr.exprAt hc
  exact ⟨q.expr, exprAt?_eq_some hp hc he⟩

namespace SelectionExists

theorem of_none (h : s.selection = none) : s.SelectionExists := by
  intro ref href
  rw [h] at href
  contradiction

theorem of_same (h : s.SelectionExists) (hs : s'.selection = s.selection)
    (hp : s'.panes = s.panes) : s'.SelectionExists := by
  intro ref href
  have he := (s.nodeExists_iff ref).mp (h ref (hs ▸ href))
  rw [nodeExists_iff, hp]
  exact he

theorem modifyPane (h : s.SelectionExists) (pane : Nat) {f : Pane → Pane}
    (hf : ∀ p id, p.tree.contains id → (f p).tree.contains id) :
    (s.modifyPane pane f).SelectionExists := by
  intro ref href
  obtain ⟨p, hp, hc⟩ := (s.nodeExists_iff ref).mp (h ref href)
  rw [nodeExists_iff, Session.modifyPane, List.getElem?_modify, hp]
  refine ⟨_, rfl, ?_⟩
  split
  · exact hf p _ hc
  · exact hc

end SelectionExists

theorem selectRootOf_selectionExists (h : s.SelectionExists) (hi : s.PresentIntact) (pane : Nat) :
    (s.selectRootOf pane).SelectionExists := by
  rw [selectRootOf]
  split
  · rename_i p hp
    intro ref href
    obtain rfl := Option.some.inj href
    exact (nodeExists_iff _ _).mpr ⟨p, hp, Tree.contains_root (hi.pane? hp)⟩
  · exact h

theorem replace?_selectionExists (h : s.SelectionExists) (hs : s.replace? ref e = some s') :
    s'.SelectionExists := by
  obtain ⟨p, tree, -, -, -, rfl⟩ := exists_of_replace? hs
  intro sel hsel
  obtain ⟨hsel, hkeep⟩ := Option.filter_eq_some_iff.mp hsel
  obtain ⟨q, hq, hc⟩ := (s.nodeExists_iff sel).mp (h sel hsel)
  rw [nodeExists_iff, Session.modifyPane, List.getElem?_modify, hq]
  refine ⟨_, rfl, ?_⟩
  split
  · rename_i hpane
    simpa [hpane] using hkeep
  · exact hc

theorem deletePane?_selectionExists {pane : Nat} (h : s.SelectionExists)
    (hs : s.deletePane? pane = some s') : s'.SelectionExists := by
  rcases cases_of_deletePane? hs with ⟨-, rfl⟩ | ⟨-, rfl⟩
  · exact .of_none rfl
  · intro sel hsel
    change s.selectionWithout pane = some sel at hsel
    rw [selectionWithout] at hsel
    split at hsel
    · contradiction
    · rename_i old hold
      obtain ⟨q, hq, hc⟩ := (s.nodeExists_iff old).mp (h old hold)
      rw [nodeExists_iff, List.getElem?_eraseIdx]
      split at hsel
      · contradiction
      · split at hsel
        · obtain rfl := Option.some.inj hsel
          refine ⟨q, ?_, hc⟩
          rw [if_neg (by simp only; omega), Nat.sub_add_cancel (by omega), hq]
        · obtain rfl := Option.some.inj hsel
          refine ⟨q, ?_, hc⟩
          rw [if_pos (by omega), hq]

theorem delete?_selectionExists (h : s.SelectionExists) (hs : s.delete? ref = some s') :
    s'.SelectionExists := by
  rcases cases_of_delete? hs with hs | hs
  · exact deletePane?_selectionExists h hs
  · exact replace?_selectionExists h hs

theorem move?_selectionExists {source target : NodeRef} (h : s.SelectionExists)
    (hs : s.move? source target = some s') : s'.SelectionExists := by
  obtain ⟨e, moved, -, hm, hs⟩ := exists_of_move? hs
  have hmoved := replace?_selectionExists h hm
  rcases hs with rfl | hr
  · exact hmoved
  · exact replace?_selectionExists hmoved hr

theorem edit?_selectionExists (h : s.SelectionExists) {a : Edit} (hs : s.edit? a = some s') :
    s'.SelectionExists := by
  cases a with
  | setText pane text =>
    obtain rfl := eq_of_setText? hs
    exact h.modifyPane pane fun p id hc => hc
  | setExpr pane e =>
    obtain ⟨p, hp, -, rfl⟩ := exists_of_setExpr? hs
    intro sel hsel
    obtain rfl := Option.some.inj hsel
    rw [nodeExists_iff, Session.modifyPane, List.getElem?_modify_eq, hp]
    exact ⟨_, rfl, Tree.contains_root_ofExpr _ _⟩
  | setEditMode ref mode =>
    obtain rfl := eq_of_setEditMode? hs
    exact h.modifyPane ref.pane fun p id hc => (p.tree.contains_setEditMode ..).trans hc
  | update ref e => exact replace?_selectionExists h hs
  | delete ref => exact delete?_selectionExists h hs
  | cut ref =>
    obtain ⟨e, he, hs⟩ := Option.bind_eq_some_iff.mp hs
    exact delete?_selectionExists (s := { s with clipboard := some e }) (h.of_same rfl rfl) hs
  | paste ref =>
    obtain ⟨e, -, hs⟩ := Option.bind_eq_some_iff.mp hs
    exact replace?_selectionExists h hs
  | move source target => exact move?_selectionExists h hs
  | insertParent ref =>
    obtain ⟨e, -, hs⟩ := Option.bind_eq_some_iff.mp hs
    exact replace?_selectionExists h hs
  | addPane =>
    obtain rfl := Option.some.inj hs
    intro sel hsel
    obtain rfl := Option.some.inj hsel
    rw [nodeExists_iff, addPane, List.getElem?_concat_length]
    exact ⟨_, rfl, Tree.contains_root_ofExpr _ _⟩
  | insertPane index text => exact Option.some.inj hs ▸ .of_none rfl
  | deletePane pane => exact deletePane?_selectionExists h hs

theorem load_selectionExists {shared : SharedState} (h : (s.load shared).PresentIntact) :
    (s.load shared).SelectionExists := by
  intro ref href
  obtain ⟨selection, -, href⟩ := Option.bind_eq_some_iff.mp href
  obtain ⟨p, hp, href⟩ := Option.bind_eq_some_iff.mp href
  obtain ⟨id, hid, href⟩ := Option.bind_eq_some_iff.mp href
  obtain rfl := Option.some.inj href
  exact (nodeExists_iff _ _).mpr
    ⟨p, hp, Tree.contains_of_mem_orderedIds (h.pane? hp) (List.mem_of_getElem? hid)⟩

theorem selectNeighbour_selectionExists (h : s.SelectionExists) (hi : s.PresentIntact)
    (d : Direction) : (s.selectNeighbour d).SelectionExists := by
  rw [selectNeighbour]
  split
  · exact selectRootOf_selectionExists h hi 0
  · split
    · rename_i ref href node hnode
      obtain ⟨p, hp, hnode⟩ := Option.bind_eq_some_iff.mp hnode
      obtain ⟨index, -, hnode⟩ := Option.bind_eq_some_iff.mp hnode
      intro sel hsel
      obtain rfl := Option.some.inj hsel
      exact (nodeExists_iff _ _).mpr
        ⟨p, hp, Tree.contains_of_mem_orderedIds (hi.pane? hp) (List.mem_of_getElem? hnode)⟩
    · exact h

theorem dispatch_selectionExists (h : s.SelectionExists) (hi : s.Intact) {a : Action}
    (hi' : (s.dispatch a).Intact) : (s.dispatch a).SelectionExists := by
  cases a with
  | edit a =>
    rw [dispatch, record]
    split
    · exact h
    · rename_i edited he
      exact (edit?_selectionExists h he).of_same rfl rfl
  | undo =>
    rw [dispatch, undo]
    split
    · exact h
    · exact .of_none rfl
  | redo =>
    rw [dispatch, redo]
    split
    · exact h
    · exact .of_none rfl
  | load shared => exact load_selectionExists hi'.present
  | setSettings | setVisualizer => exact h.of_same rfl rfl
  | showExplorer pane shows => exact h.modifyPane pane fun p id hc => hc
  | setQueryState ref fingerprint state =>
    rw [dispatch, setQueryState]
    split
    · exact h.modifyPane ref.pane fun p id hc => (p.tree.contains_setQueryState ..).trans hc
    · exact h
  | copy ref =>
    rw [dispatch, copy]
    split <;> exact h.of_same rfl rfl
  | select ref =>
    rw [dispatch, select]
    split
    · rename_i he
      intro sel hsel
      exact Option.some.inj hsel ▸ he
    · exact h
  | deselect => exact .of_none rfl
  | selectRoot =>
    rw [dispatch, selectRoot]
    split
    · exact selectRootOf_selectionExists h hi.present 0
    · split
      · exact .of_none rfl
      · exact selectRootOf_selectionExists h hi.present _
  | selectNeighbour d => exact selectNeighbour_selectionExists h hi.present d
  | selectPaneBeside d =>
    rw [dispatch, selectPaneBeside]
    split
    · exact selectRootOf_selectionExists h hi.present 0
    · exact selectRootOf_selectionExists h hi.present _

theorem Reachable.selectionExists (h : s.Reachable) : s.SelectionExists := by
  induction h with
  | start =>
    intro ref href
    obtain rfl := Option.some.inj href
    rfl
  | dispatch reachable admissible ih =>
    exact dispatch_selectionExists ih reachable.intact (reachable.intact.dispatch admissible)

end Session

end PromTree
