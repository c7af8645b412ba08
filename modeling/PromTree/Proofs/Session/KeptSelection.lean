import PromTree.Proofs.Session.Selection

namespace PromTree

def Edit.isOfNode : Edit → Bool
  | .update .. | .delete _ | .cut _ | .paste _ | .move .. | .insertParent _ => true
  | _ => false

namespace Session

def isRootOfLaterPane (s : Session) (ref : NodeRef) : Bool :=
  0 < ref.pane && (s.pane? ref.pane).any (·.tree.root == ref.node)

def removedPane? (s : Session) : Edit → Option Nat
  | .deletePane pane => if pane < s.panes.length then some pane else none
  | .delete ref | .cut ref => if s.isRootOfLaterPane ref then some ref.pane else none
  | _ => none

def indexWithout (removed pane : Nat) : Nat := if removed < pane then pane - 1 else pane

structure KeepsSelection (s s' : Session) : Prop where
  selection : s'.selection = s.selection.filter s'.nodeExists
  length : s'.panes.length = s.panes.length

structure MovesUpSelection (s s' : Session) (removed : Nat) (ref : NodeRef) : Prop where
  own : removed = ref.pane → s'.selection = none
  other : removed ≠ ref.pane →
    s'.selection = some ⟨indexWithout removed ref.pane, ref.node⟩ ∧
      s'.panes[indexWithout removed ref.pane]? = s.panes[ref.pane]?

variable {s s' s'' : Session} {ref : NodeRef} {e : Expr} {pane : Nat}

namespace KeepsSelection

theorem refl (h : s.SelectionExists) : KeepsSelection s s := by
  refine ⟨?_, rfl⟩
  cases hsel : s.selection with
  | none => rfl
  | some sel => rw [Option.filter_some, if_pos (h sel hsel)]

theorem trans (h : KeepsSelection s s') (h' : KeepsSelection s' s'')
    (hback : ∀ sel, s.selection = some sel → s''.nodeExists sel → s'.nodeExists sel) :
    KeepsSelection s s'' := by
  refine ⟨?_, h'.length.trans h.length⟩
  rw [h'.selection, h.selection]
  cases hsel : s.selection with
  | none => rfl
  | some sel =>
    by_cases hex : s''.nodeExists sel
    · rw [Option.filter_some, if_pos (hback sel hsel hex)]
    · simp [Option.filter_some, hex]

end KeepsSelection

theorem replace?_keepsSelection (h : s.SelectionExists) (hs : s.replace? ref e = some s') :
    KeepsSelection s s' := by
  obtain ⟨p, tree, -, -, -, rfl⟩ := exists_of_replace? hs
  refine ⟨?_, List.length_modify ..⟩
  change s.keepSelection ref.pane tree = _
  rw [keepSelection]
  cases hsel : s.selection with
  | none => rfl
  | some sel =>
    obtain ⟨q, hq, hc⟩ := (s.nodeExists_iff sel).mp (h sel hsel)
    rw [Option.filter_some, Option.filter_some]
    congr 1
    rw [nodeExists_iff, Session.modifyPane, List.getElem?_modify, hq]
    by_cases hpane : ref.pane = sel.pane
    · simp [hpane]
    · simp [hpane, Ne.symm hpane, hc]

theorem nodeExists_of_replace? (h : s.PresentIntact) (hs : s.replace? ref e = some s')
    {sel : NodeRef} (hlt : sel.node < s.nextId) (hex : s'.nodeExists sel) : s.nodeExists sel := by
  obtain ⟨p, tree, hp, ht, -, rfl⟩ := exists_of_replace? hs
  obtain ⟨q, hq, hc⟩ := (nodeExists_iff _ sel).mp hex
  rw [Session.modifyPane, List.getElem?_modify] at hq
  obtain ⟨old, hold, rfl⟩ := Option.map_eq_some_iff.mp hq
  refine (s.nodeExists_iff sel).mpr ⟨old, hold, ?_⟩
  split at hc
  · rename_i hpane
    obtain rfl : p = old := Option.some.inj (hp.symm.trans (hpane ▸ hold))
    rcases (h.pane? hp).contains_or_le_of_replaceSubtree? ht hc with hc | hle
    · exact hc
    · exact absurd hlt (Nat.not_lt.mpr hle)
  · exact hc

theorem move?_keepsSelection {source target : NodeRef} (h : s.PresentIntact)
    (hsel : s.SelectionExists) (hs : s.move? source target = some s') : KeepsSelection s s' := by
  obtain ⟨e, moved, -, hm, hs⟩ := exists_of_move? hs
  obtain ⟨hmoved, hle⟩ := replace?_intact h hm
  have hkeeps := replace?_keepsSelection hsel hm
  rcases hs with rfl | hr
  · exact hkeeps
  · have hkeeps' := replace?_keepsSelection (replace?_selectionExists hsel hm) hr
    -- what went in the first replacement has an old number, and so stays away in the second
    refine hkeeps.trans hkeeps' fun sel href hex => nodeExists_of_replace? hmoved hr ?_ hex
    obtain ⟨q, hq, hc⟩ := (s.nodeExists_iff sel).mp (hsel sel href)
    exact ((h.pane? hq).lt_of_contains hc).trans_le hle

theorem delete?_of_isRoot (h : s.isRootOfLaterPane ref) :
    s.delete? ref = s.deletePane? ref.pane := by
  rw [delete?, if_pos (by simpa [isRootOfLaterPane] using h)]

theorem delete?_of_not_isRoot (h : ¬s.isRootOfLaterPane ref) :
    s.delete? ref = s.replace? ref .empty := by
  rw [delete?, if_neg (by simpa [isRootOfLaterPane] using h)]

theorem edit?_keepsSelection (h : s.PresentIntact) (hsel : s.SelectionExists) {a : Edit}
    (ha : a.isOfNode) (hr : s.removedPane? a = none) (hs : s.edit? a = some s') :
    KeepsSelection s s' := by
  cases a with
  | update ref e => exact replace?_keepsSelection hsel hs
  | delete ref =>
    have hroot : ¬s.isRootOfLaterPane ref := by simpa [removedPane?] using hr
    rw [edit?, delete?_of_not_isRoot hroot] at hs
    exact replace?_keepsSelection hsel hs
  | cut ref =>
    have hroot : ¬s.isRootOfLaterPane ref := by simpa [removedPane?] using hr
    obtain ⟨e, -, hs⟩ := Option.bind_eq_some_iff.mp hs
    let copied : Session := { s with clipboard := some e }
    have hcopied : ¬copied.isRootOfLaterPane ref := hroot
    have hs : copied.replace? ref .empty = some s' := delete?_of_not_isRoot hcopied ▸ hs
    have hkeeps := replace?_keepsSelection (s := copied) (hsel.of_same rfl rfl) hs
    exact ⟨hkeeps.selection, hkeeps.length⟩
  | paste ref =>
    obtain ⟨e, -, hs⟩ := Option.bind_eq_some_iff.mp hs
    exact replace?_keepsSelection hsel hs
  | move source target => exact move?_keepsSelection h hsel hs
  | insertParent ref =>
    obtain ⟨e, -, hs⟩ := Option.bind_eq_some_iff.mp hs
    exact replace?_keepsSelection hsel hs
  | _ => contradiction

theorem deletePane?_movesUpSelection (hlt : pane < s.panes.length) (hsel : s.selection = some ref)
    (href : s.nodeExists ref) :
    ∃ s', s.deletePane? pane = some s' ∧ MovesUpSelection s s' pane ref := by
  obtain ⟨q, hq, -⟩ := (s.nodeExists_iff ref).mp href
  obtain ⟨hlt', -⟩ := List.getElem?_eq_some_iff.mp hq
  have hp : s.pane? pane = some s.panes[pane] := List.getElem?_eq_getElem hlt
  rw [deletePane?, hp, Option.bind_eq_bind, Option.bind_some]
  by_cases hone : s.panes.length = 1
  · rw [if_pos hone]
    exact ⟨_, rfl, fun _ => rfl, fun hne => absurd hne (by omega)⟩
  · rw [if_neg hone]
    refine ⟨_, rfl, fun hown => ?_, fun hne => ?_⟩
    · simp [selectionWithout, hsel, hown]
    · rw [selectionWithout, hsel, List.getElem?_eraseIdx, indexWithout]
      by_cases hbefore : pane < ref.pane
      · have hnot : ¬ref.pane - 1 < pane := by omega
        have hsub : ref.pane - 1 + 1 = ref.pane := by omega
        simp [hne.symm, hbefore, hnot, hsub]
      · have hafter : ref.pane < pane := by omega
        simp [hne.symm, hbefore, hafter]

theorem nodeExists_of_isRoot (h : s.PresentIntact) (hroot : s.isRootOfLaterPane ref) :
    s.nodeExists ref := by
  rw [isRootOfLaterPane, Bool.and_eq_true, Option.any_eq_true] at hroot
  obtain ⟨-, p, hp, hid⟩ := hroot
  refine (s.nodeExists_iff ref).mpr ⟨p, hp, ?_⟩
  exact eq_of_beq hid ▸ Tree.contains_root (h.pane? hp)

theorem edit?_movesUpSelection (h : s.PresentIntact) {a : Edit} (hr : s.removedPane? a = some pane)
    (hsel : s.selection = some ref) (href : s.nodeExists ref) :
    ∃ s', s.edit? a = some s' ∧ MovesUpSelection s s' pane ref := by
  cases a with
  | deletePane pane' =>
    obtain ⟨hlt, heq⟩ := Option.ite_none_right_eq_some.mp hr
    obtain rfl := Option.some.inj heq
    exact deletePane?_movesUpSelection hlt hsel href
  | delete gone =>
    obtain ⟨hroot, heq⟩ := Option.ite_none_right_eq_some.mp hr
    obtain rfl := Option.some.inj heq
    have hlt := pane_lt_of_nodeExists (nodeExists_of_isRoot h hroot)
    rw [edit?, delete?_of_isRoot hroot]
    exact deletePane?_movesUpSelection hlt hsel href
  | cut gone =>
    obtain ⟨hroot, heq⟩ := Option.ite_none_right_eq_some.mp hr
    obtain rfl := Option.some.inj heq
    have hexists := nodeExists_of_isRoot h hroot
    obtain ⟨e, he⟩ := h.exists_exprAt? hexists
    let copied : Session := { s with clipboard := some e }
    have hcopied : copied.isRootOfLaterPane gone := hroot
    obtain ⟨s', hs', hmoves⟩ :=
      deletePane?_movesUpSelection (s := copied) (pane_lt_of_nodeExists hexists) hsel href
    refine ⟨s', ?_, hmoves.own, hmoves.other⟩
    rw [edit?, cut?, he, Option.bind_eq_bind, Option.bind_some, delete?_of_isRoot hcopied, hs']
  | _ => contradiction

/-- The selection never names what is not there, and no edit makes it name another node. -/
structure SelectionKept (s : Session) : Prop where
  present : s.SelectionExists
  ofNode : ∀ a : Edit, a.isOfNode → s.removedPane? a = none →
    KeepsSelection s (s.dispatch (.edit a))
  removed : ∀ (a : Edit) pane ref, s.removedPane? a = some pane → s.selection = some ref →
    MovesUpSelection s (s.dispatch (.edit a)) pane ref

theorem selectionKept_of_reachable (h : s.Reachable) : s.SelectionKept where
  present := h.selectionExists
  ofNode := by
    intro a ha hr
    rw [dispatch, record]
    split
    · exact .refl h.selectionExists
    · rename_i edited he
      have hkeeps := edit?_keepsSelection h.intact.present h.selectionExists ha hr he
      exact ⟨hkeeps.selection, hkeeps.length⟩
  removed := by
    intro a pane ref hr hsel
    obtain ⟨edited, he, hmoves⟩ :=
      edit?_movesUpSelection h.intact.present hr hsel (h.selectionExists ref hsel)
    rw [dispatch, record, he]
    exact ⟨hmoves.own, hmoves.other⟩

theorem selectionKept_in_second_pane :
    (start.run [.edit .addPane, .edit (.insertParent ⟨1, 2⟩)]).Reachable ∧
      (start.run [.edit .addPane, .edit (.insertParent ⟨1, 2⟩)]).selection = some ⟨1, 2⟩ ∧
      (start.run [.edit .addPane, .edit (.insertParent ⟨1, 2⟩)]).removedPane? (.deletePane 0) =
        some 0 ∧
      (start.run [.edit .addPane, .edit (.insertParent ⟨1, 2⟩)]).SelectionKept := by
  have h : (start.run [.edit .addPane, .edit (.insertParent ⟨1, 2⟩)]).Reachable :=
    Reachable.start.run (by simp [Action.Admissible])
  exact ⟨h, rfl, rfl, selectionKept_of_reachable h⟩

end Session

end PromTree
