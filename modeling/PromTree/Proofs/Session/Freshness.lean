import PromTree.Proofs.Session.Editing
import PromTree.Proofs.Session.Selection

namespace PromTree

def TreeNode.numbers (n : TreeNode) : List NodeId := n.id :: (n.parent.toList ++ n.children)

namespace Tree

def numbers (t : Tree) : List NodeId := t.root :: t.nodes.toList.flatMap fun e => e.1 :: e.2.numbers

variable {t : Tree} {r : NestedTree} {id : NodeId}

theorem Flattens.contains_of_mem_numbers (h : t.Flattens r) {n : TreeNode}
    (hn : t.find? id = some n) {x : NodeId} (hx : x ∈ n.numbers) : t.contains x := by
  obtain ⟨path, s, parent, hs, rfl, -, hid, -⟩ := h.exists_depicts hn
  rw [TreeNode.numbers, List.mem_cons, List.mem_append, Option.mem_toList] at hx
  rcases hx with rfl | hx | hx
  · rw [hid]
    exact (t.contains_iff s.top).mpr ⟨n, hn⟩
  · obtain ⟨above, q, -, hq, rfl⟩ := h.parent hs hn hx
    exact h.depicts.contains (NestedTree.top_mem_of_subtree? hq)
  · obtain ⟨m, hm, -⟩ := h.linkedBack ⟨n, hn, hx⟩
    exact (t.contains_iff x).mpr ⟨m, hm⟩

theorem Flattens.mem_numbers_iff (h : t.Flattens r) : id ∈ t.numbers ↔ t.contains id := by
  rw [numbers, List.mem_cons, List.mem_flatMap]
  constructor
  · rintro (rfl | ⟨⟨k, n⟩, hm, hx⟩)
    · exact h.contains_root
    · have hn : t.find? k = some n := (t.nodes.find?_eq_some_iff k n).mpr hm
      rcases List.mem_cons.mp hx with rfl | hx
      · exact (t.contains_iff _).mpr ⟨n, hn⟩
      · exact h.contains_of_mem_numbers hn hx
  · intro hid
    obtain ⟨n, hn⟩ := (t.contains_iff id).mp hid
    exact .inr ⟨(id, n), (t.nodes.find?_eq_some_iff id n).mp hn, List.mem_cons_self⟩

theorem mem_numbers_ofExpr {next : NodeId} {e : Expr} :
    id ∈ (ofExpr next e).numbers ↔ next ≤ id ∧ id < next + e.size := by
  have h := flattens_ofExpr next e
  rw [h.mem_numbers_iff, h.contains_iff_mem, NestedTree.mem_ids_number]

theorem numbers_modify (t : Tree) (id : NodeId) {f : TreeNode → TreeNode}
    (hf : ∀ n, (f n).numbers = n.numbers) : (t.modify id f).numbers = t.numbers := by
  have hnode (e : NodeId × TreeNode) :
      (if e.1 == id then f e.2 else e.2).numbers = e.2.numbers := by
    split
    · exact hf e.2
    · rfl
  simp only [numbers, modify, SortedMap.modify, List.flatMap_map, hnode]

theorem numbers_setEditMode (t : Tree) (id : NodeId) (mode : EditMode) :
    (t.setEditMode id mode).numbers = t.numbers := t.numbers_modify id fun _ => rfl

theorem numbers_setQueryState (t : Tree) (id : NodeId) (state : QueryState) :
    (t.setQueryState id state).numbers = t.numbers := t.numbers_modify id fun _ => rfl

namespace IsIntact

variable {t' : Tree} {next : NodeId}

theorem mem_numbers_iff (h : t.IsIntact next) : id ∈ t.numbers ↔ t.contains id := by
  obtain ⟨r, hr⟩ := h
  exact hr.flattens.mem_numbers_iff

theorem lt_of_mem_numbers (h : t.IsIntact next) (hid : id ∈ t.numbers) : id < next :=
  h.lt_of_contains (h.mem_numbers_iff.mp hid)

theorem mem_numbers_or_le_of_replaceSubtree? (h : t.IsIntact next) {e : Expr} (he : e.IsValid)
    {x : NodeId} (ht : t.replaceSubtree? id e next = some t') (hx : x ∈ t'.numbers) :
    x ∈ t.numbers ∨ next ≤ x := by
  rw [h.mem_numbers_iff]
  rw [(h.replaceSubtree? he ht).mem_numbers_iff] at hx
  exact h.contains_or_le_of_replaceSubtree? ht hx

end IsIntact

end Tree

namespace Session

def numbersOf (panes : List Pane) : List NodeId := panes.flatMap fun p => p.tree.numbers

def Apart (panes : List Pane) : Prop :=
  panes.Pairwise fun p q => p.tree.numbers.Disjoint q.tree.numbers

structure Renewed (next : NodeId) (panes panes' : List Pane) : Prop where
  apart : Apart panes'
  fresh : ∀ id ∈ numbersOf panes', id ∈ numbersOf panes ∨ next ≤ id

variable {s s' : Session} {ref : NodeRef} {e : Expr} {panes panes' panes'' rest : List Pane}
  {p : Pane} {next next' : NodeId} {pane : Nat}

theorem mem_numbersOf {id : NodeId} : id ∈ numbersOf panes ↔ ∃ p ∈ panes, id ∈ p.tree.numbers :=
  List.mem_flatMap

theorem PanesIntact.lt_of_mem_numbersOf (h : PanesIntact next panes) {id : NodeId}
    (hid : id ∈ numbersOf panes) : id < next := by
  obtain ⟨p, hp, hid⟩ := mem_numbersOf.mp hid
  exact (h.trees p hp).lt_of_mem_numbers hid

theorem Apart.perm (h : Apart panes) (hp : panes.Perm panes') : Apart panes' :=
  (hp.pairwise_iff fun {_ _} hd => List.disjoint_symm hd).mp h

namespace Renewed

theorem refl (h : Apart panes) : Renewed next panes panes := ⟨h, fun _ hid => .inl hid⟩

theorem trans (h : Renewed next panes panes') (h' : Renewed next' panes' panes'')
    (hle : next ≤ next') : Renewed next panes panes'' := by
  refine ⟨h'.apart, fun id hid => ?_⟩
  rcases h'.fresh id hid with hid | hid
  · exact h.fresh id hid
  · exact .inr (hle.trans hid)

theorem sublist (h : Apart panes) (hs : panes'.Sublist panes) : Renewed next panes panes' := by
  refine ⟨h.sublist hs, fun id hid => .inl ?_⟩
  obtain ⟨p, hp, hid⟩ := mem_numbersOf.mp hid
  exact mem_numbersOf.mpr ⟨p, hs.subset hp, hid⟩

theorem of_perm (old : List Pane) (h : Apart panes) (hi : PanesIntact next panes)
    (hp : panes.Perm (old ++ rest)) (hp' : panes'.Perm (p :: rest))
    (hf : ∀ id ∈ p.tree.numbers, id ∈ numbersOf old ∨ next ≤ id) : Renewed next panes panes' := by
  obtain ⟨-, hrest, hcross⟩ := List.pairwise_append.mp (h.perm hp)
  have hmem {q : Pane} (hq : q ∈ old ∨ q ∈ rest) : q ∈ panes :=
    hp.symm.subset (List.mem_append.mpr hq)
  constructor
  · refine Apart.perm (List.pairwise_cons.mpr ⟨fun q hq id hid hid' => ?_, hrest⟩) hp'.symm
    rcases hf id hid with hid | hid
    · obtain ⟨o, ho, hid⟩ := mem_numbersOf.mp hid
      exact hcross o ho q hq hid hid'
    · have hlt := (hi.trees q (hmem (.inr hq))).lt_of_mem_numbers hid'
      exact absurd hlt (Nat.not_lt.mpr hid)
  · intro id hid
    obtain ⟨q, hq, hid⟩ := mem_numbersOf.mp hid
    rcases List.mem_cons.mp (hp'.subset hq) with rfl | hq
    · refine (hf id hid).imp_left fun hid => ?_
      obtain ⟨o, ho, hid⟩ := mem_numbersOf.mp hid
      exact mem_numbersOf.mpr ⟨o, hmem (.inl ho), hid⟩
    · exact .inl (mem_numbersOf.mpr ⟨q, hmem (.inr hq), hid⟩)

theorem cons (h : Apart panes) (hi : PanesIntact next panes) (hp : panes'.Perm (p :: panes))
    (hf : ∀ id ∈ p.tree.numbers, next ≤ id) : Renewed next panes panes' :=
  of_perm [] h hi (.refl _) hp fun id hid => .inr (hf id hid)

theorem modify (h : Apart panes) (hi : PanesIntact next panes) {f : Pane → Pane} (pane : Nat)
    (hf : ∀ p, panes[pane]? = some p →
      ∀ id ∈ (f p).tree.numbers, id ∈ p.tree.numbers ∨ next ≤ id) :
    Renewed next panes (panes.modify pane f) := by
  by_cases hlt : pane < panes.length
  · have hp := List.getElem?_eq_getElem hlt
    rw [modify_eq_set hp]
    refine of_perm [panes[pane]] h hi (List.getElem_cons_eraseIdx_perm hlt).symm
      (List.set_perm_cons_eraseIdx hlt _) fun id hid => ?_
    exact (hf _ hp id hid).imp_left fun hid => mem_numbersOf.mpr ⟨_, List.mem_singleton_self _, hid⟩
  · rw [List.modify_eq_self (Nat.not_lt.mp hlt)]
    exact refl h

end Renewed

theorem replace?_renewed (h : s.PresentIntact) (ha : Apart s.panes)
    (hs : s.replace? ref e = some s') : Renewed s.nextId s.panes s'.panes := by
  obtain ⟨p, tree, hp, ht, he, rfl⟩ := exists_of_replace? hs
  refine .modify ha h.panes ref.pane fun q hq id hid => ?_
  obtain rfl : p = q := Option.some.inj (hp.symm.trans hq)
  exact (h.pane? hp).mem_numbers_or_le_of_replaceSubtree? he ht hid

theorem deletePane?_renewed (h : s.PresentIntact) (ha : Apart s.panes)
    (hs : s.deletePane? pane = some s') : Renewed s.nextId s.panes s'.panes := by
  rcases cases_of_deletePane? hs with ⟨-, rfl⟩ | ⟨-, rfl⟩
  · refine .of_perm s.panes ha h.panes ?_ (.refl _) fun id hid => .inr ?_
    · rw [List.append_nil]
    · exact (Tree.mem_numbers_ofExpr.mp hid).1
  · exact .sublist ha (List.eraseIdx_sublist ..)

theorem delete?_renewed (h : s.PresentIntact) (ha : Apart s.panes)
    (hs : s.delete? ref = some s') : Renewed s.nextId s.panes s'.panes := by
  rcases cases_of_delete? hs with hs | hs
  · exact deletePane?_renewed h ha hs
  · exact replace?_renewed h ha hs

theorem move?_renewed {source target : NodeRef} (h : s.PresentIntact) (ha : Apart s.panes)
    (hs : s.move? source target = some s') : Renewed s.nextId s.panes s'.panes := by
  obtain ⟨e, moved, -, hm, hs⟩ := exists_of_move? hs
  obtain ⟨hmoved, hle⟩ := replace?_intact h hm
  have hrenewed := replace?_renewed h ha hm
  rcases hs with rfl | hr
  · exact hrenewed
  · exact hrenewed.trans (replace?_renewed hmoved hrenewed.apart hr) hle

theorem edit?_renewed (h : s.PresentIntact) (ha : Apart s.panes) {a : Edit}
    (hs : s.edit? a = some s') : Renewed s.nextId s.panes s'.panes := by
  cases a with
  | setText pane text =>
    obtain rfl := eq_of_setText? hs
    exact .modify ha h.panes pane fun q _ id hid => .inl hid
  | setExpr pane e =>
    obtain ⟨p, -, -, rfl⟩ := exists_of_setExpr? hs
    exact .modify ha h.panes pane fun q _ id hid => .inr (Tree.mem_numbers_ofExpr.mp hid).1
  | setEditMode ref mode =>
    obtain rfl := eq_of_setEditMode? hs
    refine .modify ha h.panes ref.pane fun q _ id hid => .inl ?_
    exact q.tree.numbers_setEditMode ref.node mode ▸ hid
  | update ref e => exact replace?_renewed h ha hs
  | delete ref => exact delete?_renewed h ha hs
  | cut ref =>
    obtain ⟨e, he, hs⟩ := Option.bind_eq_some_iff.mp hs
    have hrenewed := delete?_renewed (h.copied he) ha hs
    exact hrenewed
  | paste ref =>
    obtain ⟨e, -, hs⟩ := Option.bind_eq_some_iff.mp hs
    exact replace?_renewed h ha hs
  | move source target => exact move?_renewed h ha hs
  | insertParent ref =>
    obtain ⟨e, -, hs⟩ := Option.bind_eq_some_iff.mp hs
    exact replace?_renewed h ha hs
  | addPane =>
    obtain rfl := Option.some.inj hs
    exact .cons ha h.panes (List.perm_append_singleton _ _) fun id hid =>
      (Tree.mem_numbers_ofExpr.mp hid).1
  | insertPane index text =>
    obtain rfl := Option.some.inj hs
    exact .cons ha h.panes (List.perm_insertIdx _ _ (Nat.min_le_right _ _)) fun id hid =>
      (Tree.mem_numbers_ofExpr.mp hid).1
  | deletePane pane => exact deletePane?_renewed h ha hs

theorem le_of_mem_numbersOf_panesFrom {shared : List SharedPane} {next id : NodeId}
    (h : id ∈ numbersOf (panesFrom next shared)) : next ≤ id := by
  induction shared generalizing next with
  | nil => exact absurd h List.not_mem_nil
  | cons p shared ih =>
    rw [panesFrom, numbersOf, List.flatMap_cons, List.mem_append] at h
    rcases h with h | h
    · exact (Tree.mem_numbers_ofExpr.mp h).1
    · exact (Nat.le_add_right next p.expr.size).trans (ih h)

theorem apart_panesFrom (next : NodeId) (shared : List SharedPane) :
    Apart (panesFrom next shared) := by
  induction shared generalizing next with
  | nil => exact .nil
  | cons p shared ih =>
    refine List.pairwise_cons.mpr ⟨fun q hq id hid hid' => ?_, ih _⟩
    have hlt := (Tree.mem_numbers_ofExpr.mp hid).2
    have hle := le_of_mem_numbersOf_panesFrom (mem_numbersOf.mpr ⟨q, hq, hid'⟩)
    exact absurd hlt (Nat.not_lt.mpr hle)

theorem dispatch_renewed (h : s.PresentIntact) (ha : Apart s.panes) {a : Action}
    (hu : a ≠ .undo) (hr : a ≠ .redo) : Renewed s.nextId s.panes (s.dispatch a).panes := by
  cases a with
  | edit a =>
    rw [dispatch, record]
    split
    · exact .refl ha
    · rename_i edited he
      have hrenewed := edit?_renewed h ha he
      exact hrenewed
  | undo | redo => contradiction
  | load shared =>
    exact ⟨apart_panesFrom _ _, fun id hid => .inr (le_of_mem_numbersOf_panesFrom hid)⟩
  | showExplorer pane shows => exact .modify ha h.panes pane fun q _ id hid => .inl hid
  | setQueryState ref fingerprint state =>
    rw [dispatch, setQueryState]
    split
    · refine .modify ha h.panes ref.pane fun q _ id hid => .inl ?_
      exact q.tree.numbers_setQueryState ref.node state ▸ hid
    · exact .refl ha
  | copy ref =>
    rw [dispatch, copy]
    split <;> exact .refl ha
  | setSettings | setVisualizer => exact .refl ha
  | _ =>
    rw [dispatch_movesSelection rfl]
    exact .refl ha

theorem Reachable.apart (h : s.Reachable) : ∀ panes ∈ s.snapshots, Apart panes := by
  induction h with
  | start =>
    intro panes hm
    obtain rfl := List.mem_singleton.mp hm
    exact List.pairwise_singleton _ _
  | @dispatch s a reachable admissible ih =>
    by_cases hu : a = .undo
    · exact hu ▸ fun panes hm => ih panes (s.snapshots_undo_subset hm)
    · by_cases hr : a = .redo
      · exact hr ▸ fun panes hm => ih panes (s.snapshots_redo_subset hm)
      · intro panes hm
        have hpresent := ih s.panes List.mem_cons_self
        rcases List.mem_cons.mp hm with rfl | hm
        · exact (dispatch_renewed reachable.intact.present hpresent hu hr).apart
        · exact ih panes (s.kept_subset a hm)

theorem nextId_le_dispatch (h : s.PresentIntact) (a : Action) :
    s.nextId ≤ (s.dispatch a).nextId := by
  by_cases hk : a.isRecorded = false ∧ a.leavesHistory = false
  · exact (dispatch_history hk.1 hk.2).2.2.ge
  · cases a with
    | edit a =>
      rw [dispatch, record]
      split
      · exact le_rfl
      · rename_i edited he
        exact (edit?_intact h he).2
    | undo =>
      rw [dispatch, undo]
      split <;> exact le_rfl
    | redo =>
      rw [dispatch, redo]
      split <;> exact le_rfl
    | load shared => exact le_foldl_size _ _
    | _ => exact absurd ⟨rfl, rfl⟩ hk

theorem Reachable.nextId_le_run (h : s.Reachable) {actions : List Action}
    (ha : ∀ a ∈ actions, a.Admissible) : s.nextId ≤ (s.run actions).nextId := by
  induction actions generalizing s with
  | nil => exact le_rfl
  | cons a actions ih =>
    rw [List.forall_mem_cons] at ha
    exact (nextId_le_dispatch h.intact.present a).trans (ih (h.dispatch ha.1) ha.2)

/-- Numbers are given out in ascending order and not given out again. -/
structure NumbersUnique (s : Session) : Prop where
  lt : ∀ panes ∈ s.snapshots, ∀ id ∈ numbersOf panes, id < s.nextId
  selected : ∀ ref, s.selection = some ref → ref.node < s.nextId
  apart : ∀ panes ∈ s.snapshots, Apart panes
  returns : ∀ actions a, (∀ b ∈ actions, b.Admissible) → a.Admissible → ∀ id ∈ numbersOf s.panes,
    id ∉ numbersOf (s.run actions).panes → id ∈ numbersOf ((s.run actions).dispatch a).panes →
    a = .undo ∨ a = .redo

/-- No number is given to two nodes, for as long as the counter stays below `2 ^ 64`. -/
theorem numbersUnique_of_reachable (h : s.Reachable) : s.NumbersUnique where
  lt := fun panes hm id hid => (h.intact.snapshots panes hm).lt_of_mem_numbersOf hid
  selected := by
    intro ref href
    obtain ⟨p, hp, hid⟩ := (s.nodeExists_iff ref).mp (h.selectionExists ref href)
    exact (h.intact.present.pane? hp).lt_of_contains hid
  apart := h.apart
  returns := by
    intro actions a hactions ha id hid hgone hback
    have hlt := h.intact.present.panes.lt_of_mem_numbersOf hid
    have hle := h.nextId_le_run hactions
    have hlater := h.run hactions
    by_contra hne
    rw [not_or] at hne
    have hrenewed := dispatch_renewed hlater.intact.present
      (hlater.apart _ List.mem_cons_self) hne.1 hne.2
    rcases hrenewed.fresh id hback with hback | hback
    · exact hgone hback
    · exact absurd (hlt.trans_le hle) (Nat.not_lt.mpr hback)

theorem numbersUnique_after_deletion :
    (start.run [.edit .addPane, .edit (.deletePane 0)]).Reachable ∧
      1 ∉ numbersOf (start.run [.edit .addPane, .edit (.deletePane 0)]).panes ∧
      1 ∈ numbersOf (start.run [.edit .addPane, .edit (.deletePane 0), .undo]).panes ∧
      (start.run [.edit .addPane, .edit (.deletePane 0)]).NumbersUnique := by
  have h : (start.run [.edit .addPane, .edit (.deletePane 0)]).Reachable :=
    Reachable.start.run (by simp [Action.Admissible])
  exact ⟨h, by decide, by decide, numbersUnique_of_reachable h⟩

end Session

end PromTree
