import PromTree.Proofs.Session.Checks
import PromTree.Proofs.Session.Outcome
import PromTree.Proofs.Tree.Soundness
import PromTree.Session.Action

namespace PromTree

/-- Only what has been read from a document is loaded. -/
def Action.Admissible : Action → Prop
  | .load shared => ∃ text, SharedState.parse text = .ok shared
  | _ => True

def Action.leavesHistory : Action → Bool
  | .undo | .redo | .load _ => true
  | _ => false

def Action.movesSelection : Action → Bool
  | .select _ | .deselect | .selectRoot | .selectNeighbour _ | .selectPaneBeside _ => true
  | _ => false

namespace Session

inductive Reachable : Session → Prop where
  | start : Reachable start
  | dispatch {s : Session} {a : Action} (reachable : Reachable s) (admissible : a.Admissible) :
    Reachable (s.dispatch a)

def snapshots (s : Session) : List (List Pane) := s.panes :: (s.past ++ s.future)

structure PanesIntact (next : NodeId) (panes : List Pane) : Prop where
  nonempty : panes ≠ []
  trees : ∀ p ∈ panes, p.tree.IsIntact next

structure PresentIntact (s : Session) : Prop where
  panes : PanesIntact s.nextId s.panes
  clipboard : ∀ e, s.clipboard = some e → e.IsValid

structure Intact (s : Session) : Prop where
  snapshots : ∀ panes ∈ s.snapshots, PanesIntact s.nextId panes
  clipboard : ∀ e, s.clipboard = some e → e.IsValid

variable {s s' : Session} {p : Pane} {panes : List Pane} {ref : NodeRef} {e : Expr}
  {next next' : NodeId}

theorem mem_modify {α : Type} {f : α → α} {i : Nat} {as : List α} {a : α} (h : a ∈ as.modify i f) :
    a ∈ as ∨ ∃ b ∈ as, a = f b := by
  obtain ⟨j, hj⟩ := List.getElem?_of_mem h
  rw [List.getElem?_modify] at hj
  obtain ⟨b, hb, rfl⟩ := Option.map_eq_some_iff.mp hj
  have hb := List.mem_of_getElem? hb
  split
  · exact .inr ⟨b, hb, rfl⟩
  · exact .inl hb

namespace PanesIntact

theorem mono (h : PanesIntact next panes) (hle : next ≤ next') : PanesIntact next' panes :=
  ⟨h.nonempty, fun p hp => (h.trees p hp).mono hle⟩

theorem modify (h : PanesIntact next panes) (hle : next ≤ next') {f : Pane → Pane}
    (hf : ∀ p ∈ panes, (f p).tree.IsIntact next') (i : Nat) :
    PanesIntact next' (panes.modify i f) := by
  refine ⟨fun hnil => h.nonempty ((List.modify_eq_nil_iff).mp hnil), fun p hp => ?_⟩
  rcases mem_modify hp with hp | ⟨q, hq, rfl⟩
  · exact (h.trees p hp).mono hle
  · exact hf q hq

theorem new (next : NodeId) (text : String) :
    (Pane.new next text).tree.IsIntact (next + Expr.empty.size) :=
  ⟨_, Tree.shows_ofExpr Expr.isValid_empty next⟩

end PanesIntact

theorem PresentIntact.pane? (h : s.PresentIntact) {pane : Nat} (hp : s.pane? pane = some p) :
    p.tree.IsIntact s.nextId :=
  h.panes.trees p (List.mem_of_getElem? hp)

theorem exprAt?_eq_some (hp : s.panes[ref.pane]? = some p) (hc : p.tree.contains ref.node)
    (he : p.tree.exprAt ref.node = .ok e) : s.exprAt? ref = some e := by
  obtain ⟨n, hn⟩ := (p.tree.contains_iff ref.node).mp hc
  simp only [exprAt?, pane?, hp, hn, he, Option.bind_eq_bind, Option.bind_some]
  rfl

theorem PresentIntact.exprAt? (h : s.PresentIntact) (he : s.exprAt? ref = some e) : e.IsValid := by
  obtain ⟨p, hp, he⟩ := Option.bind_eq_some_iff.mp he
  obtain ⟨n, hn, he⟩ := Option.bind_eq_some_iff.mp he
  obtain ⟨r, hr⟩ := h.pane? hp
  obtain ⟨path, q, -, -, heq, hv⟩ := hr.exprAt ((p.tree.contains_iff ref.node).mpr ⟨n, hn⟩)
  rw [heq] at he
  exact Option.some.inj he ▸ hv

theorem PresentIntact.copied (h : s.PresentIntact) (he : s.exprAt? ref = some e) :
    PresentIntact { s with clipboard := some e } :=
  ⟨h.panes, fun _ he' => Option.some.inj he' ▸ h.exprAt? he⟩

theorem setText?_intact {pane : Nat} {text : String} (h : s.PresentIntact)
    (hs : s.setText? pane text = some s') : s'.PresentIntact ∧ s.nextId ≤ s'.nextId := by
  obtain rfl := eq_of_setText? hs
  refine ⟨⟨h.panes.modify le_rfl (fun p hp => ?_) pane, h.clipboard⟩, le_rfl⟩
  exact h.panes.trees p hp

theorem setExpr?_intact {pane : Nat} (h : s.PresentIntact) (hs : s.setExpr? pane e = some s') :
    s'.PresentIntact ∧ s.nextId ≤ s'.nextId := by
  obtain ⟨p, -, he, rfl⟩ := exists_of_setExpr? hs
  have hle : s.nextId ≤ s.nextId + e.size := Nat.le_add_right _ _
  refine ⟨⟨h.panes.modify hle (fun p _ => ?_) pane, h.clipboard⟩, hle⟩
  exact ⟨_, Tree.shows_ofExpr he s.nextId⟩

theorem setEditMode?_intact {mode : EditMode} (h : s.PresentIntact)
    (hs : s.setEditMode? ref mode = some s') : s'.PresentIntact ∧ s.nextId ≤ s'.nextId := by
  obtain rfl := eq_of_setEditMode? hs
  refine ⟨⟨h.panes.modify le_rfl (fun p hp => ?_) ref.pane, h.clipboard⟩, le_rfl⟩
  exact (h.panes.trees p hp).setEditMode ref.node mode

theorem replace?_intact (h : s.PresentIntact) (hs : s.replace? ref e = some s') :
    s'.PresentIntact ∧ s.nextId ≤ s'.nextId := by
  obtain ⟨p, tree, hp, ht, he, rfl⟩ := exists_of_replace? hs
  have hle : s.nextId ≤ s.nextId + e.size := Nat.le_add_right _ _
  refine ⟨⟨h.panes.modify hle (fun p _ => ?_) ref.pane, h.clipboard⟩, hle⟩
  exact (h.pane? hp).replaceSubtree? he ht

theorem deletePane?_intact {pane : Nat} (h : s.PresentIntact) (hs : s.deletePane? pane = some s') :
    s'.PresentIntact ∧ s.nextId ≤ s'.nextId := by
  rcases cases_of_deletePane? hs with ⟨-, rfl⟩ | ⟨hlen, rfl⟩
  · refine ⟨⟨⟨List.cons_ne_nil _ _, fun p hp => ?_⟩, h.clipboard⟩, Nat.le_add_right _ _⟩
    rw [List.mem_singleton.mp hp]
    exact PanesIntact.new s.nextId ""
  · have hpos := List.length_pos_iff.mpr h.panes.nonempty
    refine ⟨⟨⟨?_, fun p hp => h.panes.trees p (List.mem_of_mem_eraseIdx hp)⟩, h.clipboard⟩, le_rfl⟩
    exact List.eraseIdx_ne_nil_iff.mpr (.inl (by omega))

theorem delete?_intact (h : s.PresentIntact) (hs : s.delete? ref = some s') :
    s'.PresentIntact ∧ s.nextId ≤ s'.nextId := by
  rcases cases_of_delete? hs with hs | hs
  · exact deletePane?_intact h hs
  · exact replace?_intact h hs

theorem cut?_intact (h : s.PresentIntact) (hs : s.cut? ref = some s') :
    s'.PresentIntact ∧ s.nextId ≤ s'.nextId := by
  obtain ⟨e, he, hs⟩ := Option.bind_eq_some_iff.mp hs
  have hdeleted := delete?_intact (h.copied he) hs
  exact hdeleted

theorem move?_intact {source target : NodeRef} (h : s.PresentIntact)
    (hs : s.move? source target = some s') : s'.PresentIntact ∧ s.nextId ≤ s'.nextId := by
  obtain ⟨e, moved, -, hm, hs⟩ := exists_of_move? hs
  obtain ⟨hmoved, hle⟩ := replace?_intact h hm
  rcases hs with rfl | hr
  · exact ⟨hmoved, hle⟩
  · obtain ⟨hemptied, hle'⟩ := replace?_intact hmoved hr
    exact ⟨hemptied, hle.trans hle'⟩

theorem addPane_intact (h : s.PresentIntact) :
    s.addPane.PresentIntact ∧ s.nextId ≤ s.addPane.nextId := by
  have hle : s.nextId ≤ s.nextId + Expr.empty.size := Nat.le_add_right _ _
  refine ⟨⟨⟨List.append_ne_nil_of_left_ne_nil h.panes.nonempty _, fun p hp => ?_⟩, h.clipboard⟩, hle⟩
  rcases List.mem_append.mp hp with hp | hp
  · exact (h.panes.trees p hp).mono hle
  · rw [List.mem_singleton.mp hp]
    exact PanesIntact.new s.nextId ""

theorem insertPane_intact (h : s.PresentIntact) (index : Nat) (text : String) :
    (s.insertPane index text).PresentIntact ∧ s.nextId ≤ (s.insertPane index text).nextId := by
  have hle : s.nextId ≤ s.nextId + Expr.empty.size := Nat.le_add_right _ _
  have hmem (p : Pane) : p ∈ (s.insertPane index text).panes ↔
      p = .new s.nextId text ∨ p ∈ s.panes := List.mem_insertIdx (Nat.min_le_right _ _)
  refine ⟨⟨⟨?_, fun p hp => ?_⟩, h.clipboard⟩, hle⟩
  · exact List.ne_nil_of_mem ((hmem _).mpr (.inl rfl))
  · rcases (hmem p).mp hp with rfl | hp
    · exact PanesIntact.new s.nextId text
    · exact (h.panes.trees p hp).mono hle

theorem edit?_intact (h : s.PresentIntact) {a : Edit} (hs : s.edit? a = some s') :
    s'.PresentIntact ∧ s.nextId ≤ s'.nextId := by
  cases a with
  | setText pane text => exact setText?_intact h hs
  | setExpr pane e => exact setExpr?_intact h hs
  | setEditMode ref mode => exact setEditMode?_intact h hs
  | update ref e => exact replace?_intact h hs
  | delete ref => exact delete?_intact h hs
  | cut ref => exact cut?_intact h hs
  | paste ref =>
    obtain ⟨e, -, hs⟩ := Option.bind_eq_some_iff.mp hs
    exact replace?_intact h hs
  | move source target => exact move?_intact h hs
  | insertParent ref =>
    obtain ⟨e, -, hs⟩ := Option.bind_eq_some_iff.mp hs
    exact replace?_intact h hs
  | addPane => exact Option.some.inj hs ▸ addPane_intact h
  | insertPane index text => exact Option.some.inj hs ▸ insertPane_intact h index text
  | deletePane pane => exact deletePane?_intact h hs

theorem le_foldl_size (shared : List SharedPane) (next : NodeId) :
    next ≤ shared.foldl (fun next p => next + p.expr.size) next := by
  induction shared generalizing next with
  | nil => exact le_rfl
  | cons p shared ih => exact (Nat.le_add_right next p.expr.size).trans (ih _)

theorem panesFrom_intact {shared : List SharedPane} (h : ∀ p ∈ shared, p.expr.IsValid)
    (next : NodeId) : ∀ p ∈ panesFrom next shared,
      p.tree.IsIntact (shared.foldl (fun next p => next + p.expr.size) next) := by
  induction shared generalizing next with
  | nil => exact fun p hp => absurd hp List.not_mem_nil
  | cons q shared ih =>
    rw [List.forall_mem_cons] at h
    rw [panesFrom, List.foldl_cons, List.forall_mem_cons]
    refine ⟨?_, ih h.2 _⟩
    exact ⟨_, (Tree.shows_ofExpr h.1 next).mono (le_foldl_size shared _)⟩

theorem isValid_of_parse {text : String} {shared : SharedState}
    (h : SharedState.parse text = .ok shared) : ∀ p ∈ shared.panes, p.expr.IsValid :=
  (SharedState.check_eq_ok_iff.mp (SharedState.exists_tells_of_parse h).2).2.1

theorem load_intact {shared : SharedState} (h : ∀ p ∈ shared.panes, p.expr.IsValid) :
    (s.load shared).Intact := by
  have hvalid : ∀ p ∈ sharedPanes shared, p.expr.IsValid := by
    rw [sharedPanes]
    split
    · exact List.forall_mem_singleton.mpr Expr.isValid_empty
    · exact h
  have hne : sharedPanes shared ≠ [] := by
    rw [sharedPanes]
    split
    · exact List.cons_ne_nil _ _
    · rename_i hempty
      exact fun hnil => hempty (List.isEmpty_iff.mpr hnil)
  refine ⟨fun panes hp => ?_, fun e he => nomatch he⟩
  obtain rfl := List.mem_singleton.mp hp
  refine ⟨?_, panesFrom_intact hvalid s.nextId⟩
  change panesFrom s.nextId (sharedPanes shared) ≠ []
  cases hs : sharedPanes shared with
  | nil => exact absurd hs hne
  | cons p shared => exact List.cons_ne_nil _ _

theorem selectRootOf_eq (s : Session) (pane : Nat) :
    s.selectRootOf pane = { s with selection := (s.selectRootOf pane).selection } := by
  rw [selectRootOf]
  split <;> rfl

theorem dispatch_movesSelection {a : Action} (h : a.movesSelection) :
    s.dispatch a = { s with selection := (s.dispatch a).selection } := by
  cases a with
  | select ref =>
    rw [dispatch, select]
    split <;> rfl
  | deselect => rfl
  | selectRoot =>
    rw [dispatch, selectRoot]
    split
    · exact s.selectRootOf_eq 0
    · split
      · rfl
      · exact s.selectRootOf_eq _
  | selectNeighbour direction =>
    rw [dispatch, selectNeighbour]
    split
    · exact s.selectRootOf_eq 0
    · split <;> rfl
  | selectPaneBeside direction =>
    rw [dispatch, selectPaneBeside]
    split
    · exact s.selectRootOf_eq 0
    · exact s.selectRootOf_eq _
  | _ => contradiction

theorem dispatch_history {a : Action} (hr : a.isRecorded = false) (hl : a.leavesHistory = false) :
    (s.dispatch a).past = s.past ∧ (s.dispatch a).future = s.future ∧
      (s.dispatch a).nextId = s.nextId := by
  cases a with
  | edit | undo | redo | load => contradiction
  | setSettings | showExplorer | setVisualizer => exact ⟨rfl, rfl, rfl⟩
  | setQueryState ref fingerprint state =>
    rw [dispatch, setQueryState]
    split <;> exact ⟨rfl, rfl, rfl⟩
  | copy ref =>
    rw [dispatch, copy]
    split <;> exact ⟨rfl, rfl, rfl⟩
  | _ =>
    rw [dispatch_movesSelection rfl]
    exact ⟨rfl, rfl, rfl⟩

theorem dispatch_presentIntact (h : s.PresentIntact) {a : Action} (hr : a.isRecorded = false)
    (hl : a.leavesHistory = false) : (s.dispatch a).PresentIntact := by
  cases a with
  | edit | undo | redo | load => contradiction
  | setSettings | setVisualizer => exact ⟨h.panes, h.clipboard⟩
  | showExplorer pane shows =>
    refine ⟨h.panes.modify le_rfl (fun p hp => ?_) pane, h.clipboard⟩
    exact h.panes.trees p hp
  | setQueryState ref fingerprint state =>
    rw [dispatch, setQueryState]
    split
    · refine ⟨h.panes.modify le_rfl (fun p hp => ?_) ref.pane, h.clipboard⟩
      exact (h.panes.trees p hp).setQueryState ref.node state
    · exact h
  | copy ref =>
    rw [dispatch, copy]
    split
    · rename_i e he
      exact h.copied he
    · exact h
  | _ =>
    rw [dispatch_movesSelection rfl]
    exact ⟨h.panes, h.clipboard⟩

theorem snapshots_undo_subset (s : Session) : s.undo.snapshots ⊆ s.snapshots := by
  rw [undo]
  split
  · exact List.Subset.refl _
  · rename_i panes past hpast
    intro panes' hm
    simp only [snapshots, hpast, List.mem_cons, List.mem_append] at hm ⊢
    tauto

theorem snapshots_redo_subset (s : Session) : s.redo.snapshots ⊆ s.snapshots := by
  rw [redo]
  split
  · exact List.Subset.refl _
  · rename_i panes future hfuture
    intro panes' hm
    simp only [snapshots, hfuture, List.mem_cons, List.mem_append] at hm ⊢
    tauto

theorem kept_subset (s : Session) (a : Action) :
    (s.dispatch a).past ++ (s.dispatch a).future ⊆ s.snapshots := by
  by_cases hk : a.isRecorded = false ∧ a.leavesHistory = false
  · obtain ⟨hpast, hfuture, -⟩ := dispatch_history (s := s) hk.1 hk.2
    rw [hpast, hfuture]
    exact List.subset_cons_self _ _
  · cases a with
    | edit a =>
      rw [dispatch, record]
      split
      · exact List.subset_cons_self _ _
      · intro panes hm
        rw [List.append_nil] at hm
        rw [snapshots, List.mem_cons, List.mem_append]
        exact (List.mem_cons.mp (List.mem_of_mem_take hm)).imp_right .inl
    | undo => exact fun panes hm => s.snapshots_undo_subset (List.mem_cons_of_mem _ hm)
    | redo => exact fun panes hm => s.snapshots_redo_subset (List.mem_cons_of_mem _ hm)
    | load shared => exact List.nil_subset _
    | _ => exact absurd ⟨rfl, rfl⟩ hk

namespace Intact

theorem present (h : s.Intact) : s.PresentIntact :=
  ⟨h.snapshots s.panes List.mem_cons_self, h.clipboard⟩

theorem of_snapshots (h : s.Intact) (hp : s'.PresentIntact) (hle : s.nextId ≤ s'.nextId)
    (hsub : s'.past ++ s'.future ⊆ s.snapshots) : s'.Intact := by
  refine ⟨fun panes hm => ?_, hp.clipboard⟩
  rcases List.mem_cons.mp hm with rfl | hm
  · exact hp.panes
  · exact (h.snapshots panes (hsub hm)).mono hle

theorem record (h : s.Intact) (a : Edit) : (s.record a).Intact := by
  have hkept : (s.record a).past ++ (s.record a).future ⊆ s.snapshots := s.kept_subset (.edit a)
  cases he : s.edit? a with
  | none => rwa [Session.record, he]
  | some edited =>
    obtain ⟨hp, hle⟩ := edit?_intact h.present he
    rw [Session.record, he] at hkept ⊢
    exact h.of_snapshots ⟨hp.panes, hp.clipboard⟩ hle hkept

theorem undo (h : s.Intact) : s.undo.Intact := by
  have hsub := s.snapshots_undo_subset
  cases hpast : s.past with
  | nil => rwa [Session.undo, hpast]
  | cons panes past =>
    rw [Session.undo, hpast] at hsub ⊢
    exact ⟨fun panes' hm => h.snapshots panes' (hsub hm), h.clipboard⟩

theorem redo (h : s.Intact) : s.redo.Intact := by
  have hsub := s.snapshots_redo_subset
  cases hfuture : s.future with
  | nil => rwa [Session.redo, hfuture]
  | cons panes future =>
    rw [Session.redo, hfuture] at hsub ⊢
    exact ⟨fun panes' hm => h.snapshots panes' (hsub hm), h.clipboard⟩

theorem unrecorded (h : s.Intact) {a : Action} (hr : a.isRecorded = false)
    (hl : a.leavesHistory = false) : (s.dispatch a).Intact := by
  have hnext := (dispatch_history (s := s) hr hl).2.2
  exact h.of_snapshots (dispatch_presentIntact h.present hr hl) hnext.ge (s.kept_subset a)

theorem dispatch (h : s.Intact) {a : Action} (ha : a.Admissible) : (s.dispatch a).Intact := by
  cases a with
  | edit e => exact h.record e
  | undo => exact h.undo
  | redo => exact h.redo
  | load shared =>
    obtain ⟨text, htext⟩ := ha
    exact load_intact (isValid_of_parse htext)
  | _ => exact h.unrecorded rfl rfl

end Intact

theorem start_intact : start.Intact where
  snapshots := by
    intro panes hm
    obtain rfl := List.mem_singleton.mp hm
    refine ⟨List.cons_ne_nil _ _, fun p hp => ?_⟩
    rw [List.mem_singleton.mp hp]
    exact PanesIntact.new firstId ""
  clipboard := fun e he => nomatch he

theorem Reachable.intact (h : s.Reachable) : s.Intact := by
  induction h with
  | start => exact start_intact
  | dispatch reachable admissible ih => exact ih.dispatch admissible

theorem Reachable.run {s : Session} (h : s.Reachable) {actions : List Action}
    (ha : ∀ a ∈ actions, a.Admissible) : (s.run actions).Reachable := by
  induction actions generalizing s with
  | nil => exact h
  | cons a actions ih =>
    rw [List.forall_mem_cons] at ha
    exact ih (h.dispatch ha.1) ha.2

structure Sound (s : Session) : Prop where
  nonempty : s.panes ≠ []
  trees : ∀ panes ∈ s.snapshots, ∀ p ∈ panes, p.tree.Sound
  exprAt : ∀ panes ∈ s.snapshots, ∀ p ∈ panes, ∀ id, p.tree.contains id →
    ∃ e, p.tree.exprAt id = .ok e
  expr : ∀ panes ∈ s.snapshots, ∀ p ∈ panes, ∃ e, p.tree.expr = .ok e ∧ e.IsValid
  clipboard : ∀ e, s.clipboard = some e → e.IsValid

theorem sound_of_reachable (h : s.Reachable) : s.Sound where
  nonempty := h.intact.present.panes.nonempty
  trees := by
    intro panes hm p hp
    obtain ⟨r, hr⟩ := (h.intact.snapshots panes hm).trees p hp
    exact hr.sound
  exprAt := by
    intro panes hm p hp id hid
    obtain ⟨r, hr⟩ := (h.intact.snapshots panes hm).trees p hp
    obtain ⟨path, q, -, -, heq, -⟩ := hr.exprAt hid
    exact ⟨q.expr, heq⟩
  expr := by
    intro panes hm p hp
    obtain ⟨r, hr⟩ := (h.intact.snapshots panes hm).trees p hp
    exact ⟨r.expr, hr.expr, hr.wellShaped.isValid⟩
  clipboard := h.intact.clipboard

theorem sound_after_move :
    (start.run [.edit .addPane, .edit (.move ⟨0, 1⟩ ⟨1, 2⟩), .undo, .redo]).Reachable ∧
      (start.run [.edit .addPane, .edit (.move ⟨0, 1⟩ ⟨1, 2⟩), .undo, .redo]).Sound := by
  have h : (start.run [.edit .addPane, .edit (.move ⟨0, 1⟩ ⟨1, 2⟩), .undo, .redo]).Reachable :=
    Reachable.start.run (by simp [Action.Admissible])
  exact ⟨h, sound_of_reachable h⟩

end Session

end PromTree
