import PromTree.Proofs.Session.History
import PromTree.Proofs.Session.KeptSelection
import PromTree.Proofs.Tree.Ancestry

namespace PromTree

namespace Session

def LiesWithin (s : Session) (ref above : NodeRef) : Prop :=
  ref.pane = above.pane ∧ ∃ p, s.pane? above.pane = some p ∧
    Relation.ReflTransGen p.tree.Lists above.node ref.node

def RefusesEdit (s : Session) : Edit → Prop
  | .setText pane _ | .deletePane pane => s.pane? pane = none
  | .setExpr pane e => s.pane? pane = none ∨ ¬e.IsValid
  | .setEditMode ref _ | .delete ref | .cut ref | .insertParent ref => ¬s.nodeExists ref
  | .update ref e => ¬s.nodeExists ref ∨ ¬e.IsValid
  | .paste ref => ¬s.nodeExists ref ∨ s.clipboard = none
  | .move source target =>
    ¬s.nodeExists source ∨ ¬s.nodeExists target ∨ target = source ∨ s.LiesWithin target source
  | .addPane | .insertPane .. => False

def GrantedAlready (s : Session) : Edit → Prop
  | .setText pane text => ∃ p, s.pane? pane = some p ∧ p.text = text ∧ ¬p.stale
  | .setEditMode ref mode =>
    ∃ p n, s.pane? ref.pane = some p ∧ p.tree.find? ref.node = some n ∧ n.editMode = mode
  | _ => False

def Refuses (s : Session) : Action → Prop
  | .edit a => s.RefusesEdit a
  | .undo => s.past = []
  | .redo => s.future = []
  | .showExplorer pane _ => s.pane? pane = none
  | .setQueryState ref _ _ | .copy ref | .select ref => ¬s.nodeExists ref
  | _ => False

variable {s : Session} {ref source target : NodeRef} {e : Expr} {pane : Nat}

theorem find?_eq_none (h : ¬s.nodeExists ref) {p : Pane} (hp : s.pane? ref.pane = some p) :
    p.tree.find? ref.node = none := by
  cases hn : p.tree.find? ref.node with
  | none => rfl
  | some n =>
    have hc := (p.tree.contains_iff ref.node).mpr ⟨n, hn⟩
    exact absurd ((s.nodeExists_iff ref).mpr ⟨p, hp, hc⟩) h

theorem exprAt?_eq_none (h : ¬s.nodeExists ref) : s.exprAt? ref = none := by
  rw [exprAt?]
  cases hp : s.pane? ref.pane with
  | none => rfl
  | some p => simp [find?_eq_none h hp]

theorem fingerprint?_eq_none (h : ¬s.nodeExists ref) : s.fingerprint? ref = none := by
  rw [fingerprint?]
  cases hp : s.pane? ref.pane with
  | none => rfl
  | some p => simp [find?_eq_none h hp]

theorem nodeExists_of_exprAt? (h : s.exprAt? ref = some e) : s.nodeExists ref := by
  by_contra hgone
  rw [exprAt?_eq_none hgone] at h
  contradiction

theorem PresentIntact.exprAt?_eq_none_iff (h : s.PresentIntact) :
    s.exprAt? ref = none ↔ ¬s.nodeExists ref := by
  constructor
  · intro hnone hex
    obtain ⟨e, he⟩ := h.exists_exprAt? hex
    rw [hnone] at he
    contradiction
  · exact Session.exprAt?_eq_none

theorem isWithin_iff (h : s.PresentIntact) (ht : s.nodeExists target) :
    s.isWithin source target ↔ target = source ∨ s.LiesWithin target source := by
  obtain ⟨p, hp, hc⟩ := (s.nodeExists_iff target).mp ht
  rw [isWithin, Bool.or_eq_true, Bool.and_eq_true, beq_iff_eq, beq_iff_eq, Option.any_eq_true,
    eq_comm (a := source)]
  apply or_congr_right
  constructor
  · rintro ⟨hpane, q, hq, hanc⟩
    obtain rfl : p = q := Option.some.inj (hp.symm.trans (hpane ▸ hq))
    exact ⟨hpane.symm, p, hq, ((h.pane? hq).isAncestorOrSelf_iff hc).mp hanc⟩
  · rintro ⟨hpane, q, hq, hlists⟩
    obtain rfl : p = q := Option.some.inj (hp.symm.trans (hpane ▸ hq))
    exact ⟨hpane.symm, p, hq, ((h.pane? hq).isAncestorOrSelf_iff hc).mpr hlists⟩

theorem setText?_eq_none_iff {text : String} : s.setText? pane text = none ↔
    s.pane? pane = none ∨ ∃ p, s.pane? pane = some p ∧ p.text = text ∧ ¬p.stale := by
  rw [setText?]
  cases hp : s.pane? pane with
  | none => simp
  | some p => simp

theorem setExpr?_eq_none_iff : s.setExpr? pane e = none ↔ s.pane? pane = none ∨ ¬e.IsValid := by
  rw [setExpr?]
  cases hp : s.pane? pane with
  | none => simp
  | some p => simp

theorem setEditMode?_eq_none_iff {mode : EditMode} : s.setEditMode? ref mode = none ↔
    ¬s.nodeExists ref ∨
      ∃ p n, s.pane? ref.pane = some p ∧ p.tree.find? ref.node = some n ∧ n.editMode = mode := by
  rw [setEditMode?, nodeExists]
  cases hp : s.pane? ref.pane with
  | none => simp
  | some p =>
    cases hn : p.tree.find? ref.node with
    | none => simp [hn, Tree.contains_iff]
    | some n => simp [hn, Tree.contains_iff]

theorem replace?_eq_none_iff : s.replace? ref e = none ↔ ¬s.nodeExists ref ∨ ¬e.IsValid := by
  rw [replace?, nodeExists]
  cases hp : s.pane? ref.pane with
  | none => simp
  | some p =>
    cases hn : p.tree.find? ref.node with
    | none => simp [hn, Tree.contains_iff, Tree.replaceSubtree?]
    | some n => simp [hn, Tree.contains_iff, Tree.replaceSubtree?]

theorem deletePane?_eq_none_iff : s.deletePane? pane = none ↔ s.pane? pane = none := by
  rw [deletePane?]
  cases hp : s.pane? pane with
  | none => simp
  | some p =>
    rw [Option.bind_eq_bind, Option.bind_some]
    split <;> simp

theorem delete?_eq_none_iff (h : s.PresentIntact) : s.delete? ref = none ↔ ¬s.nodeExists ref := by
  by_cases hroot : s.isRootOfLaterPane ref
  · have hex := nodeExists_of_isRoot h hroot
    obtain ⟨p, hp, -⟩ := (s.nodeExists_iff ref).mp hex
    rw [delete?_of_isRoot hroot, deletePane?_eq_none_iff, pane?, hp]
    simp [hex]
  · rw [delete?_of_not_isRoot hroot, replace?_eq_none_iff]
    simp [Expr.isValid_empty]

theorem cut?_eq_none_iff (h : s.PresentIntact) : s.cut? ref = none ↔ ¬s.nodeExists ref := by
  rw [cut?, Option.bind_eq_bind]
  cases he : s.exprAt? ref with
  | none => simpa using h.exprAt?_eq_none_iff.mp he
  | some e =>
    have hdelete : delete? { s with clipboard := some e } ref = none ↔ ¬s.nodeExists ref :=
      delete?_eq_none_iff (h.copied he)
    rw [Option.bind_some, hdelete]

theorem paste?_eq_none_iff (h : s.PresentIntact) :
    s.paste? ref = none ↔ ¬s.nodeExists ref ∨ s.clipboard = none := by
  rw [paste?, Option.bind_eq_bind]
  cases hc : s.clipboard with
  | none => simp
  | some e =>
    rw [Option.bind_some, replace?_eq_none_iff]
    simp [h.clipboard e hc]

theorem insertParent?_eq_none_iff (h : s.PresentIntact) :
    s.insertParent? ref = none ↔ ¬s.nodeExists ref := by
  rw [insertParent?, Option.bind_eq_bind]
  cases he : s.exprAt? ref with
  | none => simpa using h.exprAt?_eq_none_iff.mp he
  | some e =>
    rw [Option.bind_some, replace?_eq_none_iff]
    simp [Expr.isValid_placeholder (h.exprAt? he)]

theorem move?_eq_none_iff (h : s.PresentIntact) : s.move? source target = none ↔
    ¬s.nodeExists source ∨ ¬s.nodeExists target ∨ target = source ∨
      s.LiesWithin target source := by
  by_cases ht : s.nodeExists target
  · rw [← isWithin_iff h ht, move?]
    by_cases hw : s.isWithin source target
    · simp [hw]
    · cases he : s.exprAt? source with
      | none =>
        have hs := h.exprAt?_eq_none_iff.mp he
        simp [hs]
      | some e =>
        have hs := nodeExists_of_exprAt? he
        have hmoved : s.replace? target e ≠ none := by
          rw [Ne, replace?_eq_none_iff]
          simp [ht, h.exprAt? he]
        obtain ⟨moved, hmoved⟩ := Option.ne_none_iff_exists'.mp hmoved
        simp [hw, hs, ht, hmoved]
  · have hgone (e : Expr) : s.replace? target e = none := replace?_eq_none_iff.mpr (.inl ht)
    rw [move?]
    simp [ht, hgone]

theorem edit?_eq_none_iff (h : s.PresentIntact) (a : Edit) :
    s.edit? a = none ↔ s.RefusesEdit a ∨ s.GrantedAlready a := by
  cases a with
  | setText pane text => exact setText?_eq_none_iff
  | setEditMode ref mode => exact setEditMode?_eq_none_iff
  | setExpr pane e => exact setExpr?_eq_none_iff.trans (or_iff_left id).symm
  | update ref e => exact replace?_eq_none_iff.trans (or_iff_left id).symm
  | delete ref => exact (delete?_eq_none_iff h).trans (or_iff_left id).symm
  | cut ref => exact (cut?_eq_none_iff h).trans (or_iff_left id).symm
  | paste ref => exact (paste?_eq_none_iff h).trans (or_iff_left id).symm
  | move source target => exact (move?_eq_none_iff h).trans (or_iff_left id).symm
  | insertParent ref => exact (insertParent?_eq_none_iff h).trans (or_iff_left id).symm
  | deletePane pane => exact deletePane?_eq_none_iff.trans (or_iff_left id).symm
  | addPane | insertPane => simp [edit?, RefusesEdit, GrantedAlready]

theorem dispatch_eq_self_of_refuses (h : s.Reachable) {a : Action} (ha : s.Refuses a) :
    s.dispatch a = s := by
  cases a with
  | edit a =>
    rw [dispatch, record, (edit?_eq_none_iff h.intact.present a).mpr (.inl ha)]
  | undo => exact undo_nothing ha
  | redo => exact redo_nothing ha
  | showExplorer pane shows =>
    have hlen : s.panes.length ≤ pane := List.getElem?_eq_none_iff.mp ha
    rw [dispatch, modifyPane, List.modify_eq_self hlen]
  | setQueryState ref fingerprint state =>
    rw [dispatch, setQueryState, fingerprint?_eq_none ha]
    rfl
  | copy ref => rw [dispatch, copy, exprAt?_eq_none ha]
  | select ref => rw [dispatch, select, if_neg ha]
  | _ => contradiction

theorem dispatch_eq_self_moving_below :
    (start.run [.edit (.insertParent ⟨0, 1⟩)]).Reachable ∧
      (start.run [.edit (.insertParent ⟨0, 1⟩)]).nodeExists ⟨0, 2⟩ ∧
      (start.run [.edit (.insertParent ⟨0, 1⟩)]).Refuses (.edit (.move ⟨0, 1⟩ ⟨0, 2⟩)) ∧
      (start.run [.edit (.insertParent ⟨0, 1⟩)]).dispatch (.edit (.move ⟨0, 1⟩ ⟨0, 2⟩)) =
        start.run [.edit (.insertParent ⟨0, 1⟩)] := by
  have h : (start.run [.edit (.insertParent ⟨0, 1⟩)]).Reachable :=
    Reachable.start.run (by simp [Action.Admissible])
  have hbelow : (start.run [.edit (.insertParent ⟨0, 1⟩)]).Refuses
      (.edit (.move ⟨0, 1⟩ ⟨0, 2⟩)) :=
    .inr (.inr (.inr ⟨rfl, _, rfl, .single ⟨_, rfl, List.mem_cons_self⟩⟩))
  exact ⟨h, rfl, hbelow, dispatch_eq_self_of_refuses h hbelow⟩

end Session

end PromTree
