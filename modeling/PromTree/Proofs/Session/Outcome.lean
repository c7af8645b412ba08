import PromTree.Session.Edit

namespace PromTree

namespace Session

variable {s s' : Session} {ref source target : NodeRef} {e : Expr} {pane : Nat}

theorem eq_of_setText? {text : String} (hs : s.setText? pane text = some s') :
    s' = s.modifyPane pane fun p => { p with text, stale := false } := by
  obtain ⟨p, -, hs⟩ := Option.bind_eq_some_iff.mp hs
  split at hs
  · contradiction
  · exact (Option.some.inj hs).symm

theorem exists_of_setExpr? (hs : s.setExpr? pane e = some s') :
    ∃ p, s.panes[pane]? = some p ∧ e.IsValid ∧
      s' = { s.modifyPane pane fun p =>
          { p with tree := .ofExpr s.nextId e, stale := false } with
        selection := some ⟨pane, (Tree.ofExpr s.nextId e).root⟩, nextId := s.nextId + e.size } := by
  obtain ⟨p, hp, hs⟩ := Option.bind_eq_some_iff.mp hs
  split at hs
  · contradiction
  · rename_i he
    exact ⟨p, hp, Classical.not_not.mp he, (Option.some.inj hs).symm⟩

theorem eq_of_setEditMode? {mode : EditMode} (hs : s.setEditMode? ref mode = some s') :
    s' = s.modifyPane ref.pane fun p =>
      { p with tree := p.tree.setEditMode ref.node mode } := by
  obtain ⟨p, -, hs⟩ := Option.bind_eq_some_iff.mp hs
  obtain ⟨n, -, hs⟩ := Option.bind_eq_some_iff.mp hs
  split at hs
  · contradiction
  · exact (Option.some.inj hs).symm

theorem exists_of_replace? (hs : s.replace? ref e = some s') :
    ∃ p tree, s.panes[ref.pane]? = some p ∧
      p.tree.replaceSubtree? ref.node e s.nextId = some tree ∧ e.IsValid ∧
      s' = { s.modifyPane ref.pane fun p => { p with tree, stale := true } with
        selection := s.keepSelection ref.pane tree, nextId := s.nextId + e.size } := by
  obtain ⟨p, hp, hs⟩ := Option.bind_eq_some_iff.mp hs
  obtain ⟨tree, ht, hs⟩ := Option.bind_eq_some_iff.mp hs
  split at hs
  · contradiction
  · rename_i he
    exact ⟨p, tree, hp, ht, Classical.not_not.mp he, (Option.some.inj hs).symm⟩

theorem cases_of_deletePane? (hs : s.deletePane? pane = some s') :
    s.panes.length = 1 ∧
        s' = { s with
          panes := [.new s.nextId ""], selection := none, nextId := s.nextId + Expr.empty.size } ∨
      s.panes.length ≠ 1 ∧
        s' = { s with panes := s.panes.eraseIdx pane, selection := s.selectionWithout pane } := by
  obtain ⟨p, -, hs⟩ := Option.bind_eq_some_iff.mp hs
  split at hs
  · rename_i hone
    exact .inl ⟨hone, (Option.some.inj hs).symm⟩
  · rename_i hone
    exact .inr ⟨hone, (Option.some.inj hs).symm⟩

theorem cases_of_delete? (hs : s.delete? ref = some s') :
    s.deletePane? ref.pane = some s' ∨ s.replace? ref .empty = some s' := by
  rw [delete?] at hs
  split at hs
  · exact .inl hs
  · exact .inr hs

theorem exists_of_move? (hs : s.move? source target = some s') :
    ∃ e moved, s.exprAt? source = some e ∧ s.replace? target e = some moved ∧
      (s' = moved ∨ moved.replace? source .empty = some s') := by
  rw [move?] at hs
  split at hs
  · contradiction
  · obtain ⟨e, he, hs⟩ := Option.bind_eq_some_iff.mp hs
    obtain ⟨moved, hm, hs⟩ := Option.bind_eq_some_iff.mp hs
    refine ⟨e, moved, he, hm, ?_⟩
    obtain rfl := Option.some.inj hs
    cases hr : moved.replace? source .empty with
    | none => exact .inl rfl
    | some emptied => exact .inr rfl

end Session

end PromTree
