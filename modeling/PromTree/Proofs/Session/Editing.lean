import PromTree.Proofs.Session.Invariant

namespace PromTree

namespace Session

def PanesReplaced (panes : List Pane) (pane : Nat) (path : Position) (e : Expr)
    (panes' : List Pane) : Prop :=
  ∃ p whole tree, panes[pane]? = some p ∧ p.tree.expr = .ok whole ∧
    tree.expr = .ok (whole.replaceAt path e) ∧
    panes' = panes.set pane { p with tree, stale := true }

def PanesEmptied (panes : List Pane) (pane : Nat) (path : Position) (panes' : List Pane) : Prop :=
  if 0 < pane ∧ path = [] then panes' = panes.eraseIdx pane
  else PanesReplaced panes pane path .empty panes'

/-- An expression has been put at a position and its old position emptied. The old one is gone when
it was below the new one. -/
def PanesMoved (panes : List Pane) (pane pane' : Nat) (path path' : Position) (e : Expr)
    (panes' : List Pane) : Prop :=
  if pane = pane' ∧ path' <+: path then PanesReplaced panes pane' path' e panes'
  else ∃ mid, PanesReplaced panes pane' path' e mid ∧ PanesReplaced mid pane path .empty panes'

/-- What the edits of a node do to the panes, when `old` is the subterm at its position. -/
structure EditsSubterm (s : Session) (ref : NodeRef) (path : Position) (old : Expr) : Prop where
  update : ∀ e, e.IsValid →
    PanesReplaced s.panes ref.pane path e (s.dispatch (.edit (.update ref e))).panes
  delete : PanesEmptied s.panes ref.pane path (s.dispatch (.edit (.delete ref))).panes
  cut : PanesEmptied s.panes ref.pane path (s.dispatch (.edit (.cut ref))).panes ∧
    (s.dispatch (.edit (.cut ref))).clipboard = some old
  paste : ∀ e, s.clipboard = some e →
    PanesReplaced s.panes ref.pane path e (s.dispatch (.edit (.paste ref))).panes
  pasteNothing : s.clipboard = none → s.dispatch (.edit (.paste ref)) = s
  insertParent : PanesReplaced s.panes ref.pane path (.placeholder [old])
    (s.dispatch (.edit (.insertParent ref))).panes
  move : ∀ target p' path', s.panes[target.pane]? = some p' →
    p'.tree.idAt? path' = some target.node → ¬(ref.pane = target.pane ∧ path <+: path') →
    PanesMoved s.panes ref.pane target.pane path path' old
      (s.dispatch (.edit (.move ref target))).panes

structure Places (s : Session) (ref : NodeRef) (p : Pane) (r : NestedTree) (path : Position)
    (q : NestedTree) : Prop where
  pane : s.panes[ref.pane]? = some p
  shown : p.tree.Shows s.nextId r
  subtree : r.subtree? path = some q
  top : q.top = ref.node

variable {s s' : Session} {ref source target : NodeRef} {p p' : Pane} {r r' q q' : NestedTree}
  {path path' : Position} {e : Expr}

theorem dispatch_edit {a : Edit} (h : s.edit? a = some s') :
    (s.dispatch (.edit a)).panes = s'.panes ∧
      (s.dispatch (.edit a)).clipboard = s'.clipboard := by
  rw [dispatch, record, h]
  exact ⟨rfl, rfl⟩

theorem modify_eq_set {α : Type} {as : List α} {i : Nat} {a : α} (h : as[i]? = some a) (f : α → α) :
    as.modify i f = as.set i (f a) := by
  obtain ⟨hi, rfl⟩ := List.getElem?_eq_some_iff.mp h
  rw [List.modify_eq_take_cons_drop hi, List.set_eq_take_append_cons_drop, if_pos hi]

namespace Places

theorem contains (h : s.Places ref p r path q) : p.tree.contains ref.node :=
  h.top ▸ h.shown.flattens.depicts.contains (NestedTree.top_mem_of_subtree? h.subtree)

theorem isValid (h : s.Places ref p r path q) : q.expr.IsValid :=
  (h.shown.wellShaped.subtree? h.subtree).1.isValid

theorem exprAt (h : s.Places ref p r path q) : p.tree.exprAt ref.node = .ok q.expr :=
  h.top ▸ h.shown.flattens.exprAt h.shown.wellShaped h.subtree

theorem exprAt? (h : s.Places ref p r path q) : s.exprAt? ref = some q.expr :=
  exprAt?_eq_some h.pane h.contains h.exprAt

theorem root_eq_iff (h : s.Places ref p r path q) : p.tree.root = ref.node ↔ path = [] := by
  rw [h.shown.flattens.root, ← h.top]
  constructor
  · exact fun ht => NestedTree.path_unique h.shown.flattens.nodup h.subtree rfl ht.symm
  · rintro rfl
    exact congrArg NestedTree.top (Option.some.inj h.subtree)

theorem replace? (h : s.Places ref p r path q) (he : e.IsValid) :
    ∃ s' tree, s.replace? ref e = some s' ∧ s'.clipboard = s.clipboard ∧
      s'.panes = s.panes.set ref.pane { p with tree, stale := true } ∧ s.nextId ≤ s'.nextId ∧
      tree.Shows s'.nextId (r.graft path (Tree.replacement q.top s.nextId e)) := by
  obtain ⟨tree, ht, hshows⟩ := h.shown.replaceSubtree? h.subtree he
  rw [h.top] at ht
  refine ⟨{ s.modifyPane ref.pane fun p => { p with tree, stale := true } with
    selection := s.keepSelection ref.pane tree, nextId := s.nextId + e.size }, tree, ?_, rfl,
    modify_eq_set h.pane _, Nat.le_add_right _ _, hshows⟩
  simp only [Session.replace?, pane?, h.pane, ht, he, not_true_eq_false, ↓reduceIte,
    Option.bind_eq_bind, Option.bind_some]

theorem panesReplaced_of_shows (h : s.Places ref p r path q) (he : e.IsValid) {tree : Tree}
    {panes' : List Pane} (hpanes : panes' = s.panes.set ref.pane { p with tree, stale := true })
    {next : NodeId} (hshows : tree.Shows next (r.graft path (Tree.replacement q.top s.nextId e))) :
    PanesReplaced s.panes ref.pane path e panes' := by
  refine ⟨p, r.expr, tree, h.pane, h.shown.expr, ?_, hpanes⟩
  rw [hshows.expr, h.shown.expr_graft h.subtree he]

theorem panesReplaced (h : s.Places ref p r path q) (he : e.IsValid) :
    ∃ s', s.replace? ref e = some s' ∧ s'.clipboard = s.clipboard ∧
      PanesReplaced s.panes ref.pane path e s'.panes := by
  obtain ⟨s', tree, hs', hclip, hpanes, -, hshows⟩ := h.replace? he
  exact ⟨s', hs', hclip, h.panesReplaced_of_shows he hpanes hshows⟩

theorem panesEmptied (h : s.Places ref p r path q) :
    ∃ s', s.delete? ref = some s' ∧ s'.clipboard = s.clipboard ∧
      PanesEmptied s.panes ref.pane path s'.panes := by
  have hroot : (0 < ref.pane ∧ (s.pane? ref.pane).any (·.tree.root == ref.node)) ↔
      0 < ref.pane ∧ path = [] := by
    rw [pane?, h.pane, Option.any_some, beq_iff_eq, h.root_eq_iff]
  by_cases hc : 0 < ref.pane ∧ path = []
  · have hd : s.delete? ref = s.deletePane? ref.pane := if_pos (hroot.mpr hc)
    obtain ⟨hlt, -⟩ := List.getElem?_eq_some_iff.mp h.pane
    have hlen : s.panes.length ≠ 1 := by omega
    refine ⟨{ s with
      panes := s.panes.eraseIdx ref.pane, selection := s.selectionWithout ref.pane }, ?_, rfl, ?_⟩
    · rw [hd]
      simp only [deletePane?, pane?, h.pane, hlen, ↓reduceIte, Option.bind_eq_bind,
        Option.bind_some]
    · rw [PanesEmptied, if_pos hc]
  · have hd : s.delete? ref = s.replace? ref .empty := if_neg (mt hroot.mp hc)
    obtain ⟨s', hs', hclip, hpanes⟩ := h.panesReplaced Expr.isValid_empty
    refine ⟨s', hd.trans hs', hclip, ?_⟩
    rwa [PanesEmptied, if_neg hc]

theorem isWithin_eq_false (hq : s.Places source p r path q) (hq' : s.Places target p' r' path' q')
    (hr : source.pane = target.pane → r = r') (hw : ¬(source.pane = target.pane ∧ path <+: path')) :
    s.isWithin source target = false := by
  by_cases hp : source.pane = target.pane
  · obtain rfl := hr hp
    have hpath : ¬path <+: path' := fun hpre => hw ⟨hp, hpre⟩
    have hne : source ≠ target := by
      rintro rfl
      obtain rfl := NestedTree.path_unique hq.shown.flattens.nodup hq.subtree hq'.subtree
        (hq.top.trans hq'.top.symm)
      exact hpath List.prefix_rfl
    have hanc : p.tree.isAncestorOrSelf source.node target.node = false := by
      rw [Bool.eq_false_iff, ← hq.top, ← hq'.top]
      exact fun ha => hpath (hq.shown.flattens.prefix_of_isAncestorOrSelf hq'.subtree hq.subtree ha)
    rw [isWithin, beq_eq_false_iff_ne.mpr hne, pane?, hq.pane, Option.any_some, hanc]
    simp
  · have hne : source ≠ target := fun he => hp (congrArg NodeRef.pane he)
    rw [isWithin, beq_eq_false_iff_ne.mpr hne, beq_eq_false_iff_ne.mpr hp]
    rfl

theorem move?_eq (hq : s.Places source p r path q) (hw : s.isWithin source target = false)
    (hs : s.replace? target q.expr = some s') :
    s.move? source target = some ((s'.replace? source .empty).getD s') := by
  simp only [move?, hw, hq.exprAt?, hs, Bool.false_eq_true, ↓reduceIte, Option.bind_eq_bind,
    Option.bind_some]

theorem not_mem_graft (hq : s.Places source p r path q) (hq' : s.Places target p r path' q')
    (hpre : path' <+: path) (hne : path ≠ path') (e : Expr) :
    source.node ∉ (r.graft path' (Tree.replacement q'.top s.nextId e)).ids := by
  obtain ⟨rest, rfl⟩ := hpre
  obtain ⟨before, after, hids, hgraft⟩ := NestedTree.ids_graft hq'.subtree
  have hmem : source.node ∈ q'.ids := by
    rw [← hq.top]
    exact NestedTree.top_mem_of_subtree? (NestedTree.subtree?_append hq'.subtree hq.subtree)
  have hn := hq.shown.flattens.nodup
  rw [hids, List.nodup_append, List.nodup_append] at hn
  obtain ⟨⟨-, -, hbefore⟩, -, hafter⟩ := hn
  rw [hgraft, List.mem_append, List.mem_append]
  rintro ((hm | hm) | hm)
  · exact hbefore _ hm _ hmem rfl
  · rcases Tree.lt_of_mem_replacement hm with he | hm
    · apply hne
      apply NestedTree.path_unique hq.shown.flattens.nodup hq.subtree hq'.subtree
      rw [hq.top, he]
    · have hlt := hq.shown.lt q.top (NestedTree.top_mem_of_subtree? hq.subtree)
      rw [hq.top] at hlt
      exact absurd hlt (Nat.not_lt.mpr hm.1)
  · exact hafter _ (List.mem_append_right _ hmem) _ hm rfl

theorem panesMoved_within (hq : s.Places source p r path q) (hq' : s.Places target p r path' q')
    (hp : source.pane = target.pane) (hpath : ¬path <+: path') :
    ∃ s', s.move? source target = some s' ∧
      PanesMoved s.panes source.pane target.pane path path' q.expr s'.panes := by
  have hw := hq.isWithin_eq_false hq' (fun _ => rfl) fun h => hpath h.2
  obtain ⟨moved, tree, hmoved, -, hpanes, -, hshows⟩ := hq'.replace? hq.isValid
  have hrep := hq'.panesReplaced_of_shows hq.isValid hpanes hshows
  obtain ⟨hlt, -⟩ := List.getElem?_eq_some_iff.mp hq'.pane
  have hpane : moved.panes[source.pane]? = some { p with tree, stale := true } := by
    rw [hpanes, hp, List.getElem?_set_self hlt]
  refine ⟨_, hq.move?_eq hw hmoved, ?_⟩
  -- the source goes with the target when it lies below it, and else keeps its position
  by_cases hpre : path' <+: path
  · have hgone : moved.replace? source .empty = none := by
      have hnot := hq.not_mem_graft hq' hpre (fun he => hpath (he ▸ List.prefix_rfl)) q.expr
      have hfind : tree.find? source.node = none := by
        rw [← Option.not_isSome_iff_eq_none]
        exact fun hc => hnot (hshows.flattens.covered source.node hc)
      simp only [Session.replace?, pane?, hpane, Tree.replaceSubtree?, hfind, Option.bind_eq_bind,
        Option.bind_some, Option.bind_none]
    rw [hgone, Option.getD_none, PanesMoved, if_pos ⟨hp, hpre⟩]
    exact hrep
  · have hplace : moved.Places source { p with tree, stale := true }
        (r.graft path' (Tree.replacement q'.top s.nextId q.expr)) path q :=
      ⟨hpane, hshows, (NestedTree.subtree?_graft hpre hpath).trans hq.subtree, hq.top⟩
    obtain ⟨emptied, hemptied, -, hrep'⟩ := hplace.panesReplaced Expr.isValid_empty
    rw [hemptied, Option.getD_some, PanesMoved, if_neg fun h => hpre h.2]
    exact ⟨moved.panes, hrep, hrep'⟩

theorem panesMoved_across (hq : s.Places source p r path q) (hq' : s.Places target p' r' path' q')
    (hp : source.pane ≠ target.pane) :
    ∃ s', s.move? source target = some s' ∧
      PanesMoved s.panes source.pane target.pane path path' q.expr s'.panes := by
  have hw := hq.isWithin_eq_false hq' (fun he => absurd he hp) fun h => hp h.1
  obtain ⟨moved, tree, hmoved, -, hpanes, hle, hshows⟩ := hq'.replace? hq.isValid
  have hrep := hq'.panesReplaced_of_shows hq.isValid hpanes hshows
  have hplace : moved.Places source p r path q := by
    refine ⟨?_, hq.shown.mono hle, hq.subtree, hq.top⟩
    rw [hpanes, List.getElem?_set_ne (Ne.symm hp), hq.pane]
  obtain ⟨emptied, hemptied, -, hrep'⟩ := hplace.panesReplaced Expr.isValid_empty
  refine ⟨_, hq.move?_eq hw hmoved, ?_⟩
  rw [hemptied, Option.getD_some, PanesMoved, if_neg fun h => hp h.1]
  exact ⟨moved.panes, hrep, hrep'⟩

end Places

theorem Intact.places (h : s.Intact) (hp : s.panes[ref.pane]? = some p)
    (hid : p.tree.idAt? path = some ref.node) : ∃ r q, s.Places ref p r path q := by
  obtain ⟨r, hr⟩ := h.present.pane? hp
  obtain ⟨q, hq, ht⟩ := hr.flattens.subtree?_of_idAt? hid
  exact ⟨r, q, hp, hr, hq, ht⟩

theorem Places.editsSubterm (h : s.Places ref p r path q) (hs : s.Intact) :
    s.EditsSubterm ref path q.expr where
  update := by
    intro e he
    obtain ⟨s', hs', -, hpanes⟩ := h.panesReplaced he
    rwa [(dispatch_edit (a := .update ref e) hs').1]
  delete := by
    obtain ⟨s', hs', -, hpanes⟩ := h.panesEmptied
    rwa [(dispatch_edit (a := .delete ref) hs').1]
  cut := by
    let copied : Session := { s with clipboard := some q.expr }
    have hc : copied.Places ref p r path q := ⟨h.pane, h.shown, h.subtree, h.top⟩
    obtain ⟨s', hs', hclip, hpanes⟩ := hc.panesEmptied
    have hcut : s.edit? (.cut ref) = some s' := by
      rw [edit?, cut?, h.exprAt?]
      exact hs'
    rw [(dispatch_edit hcut).1, (dispatch_edit hcut).2]
    exact ⟨hpanes, hclip⟩
  paste := by
    intro e he
    obtain ⟨s', hs', -, hpanes⟩ := h.panesReplaced (hs.clipboard e he)
    have hpaste : s.edit? (.paste ref) = some s' := by
      rw [edit?, paste?, he]
      exact hs'
    rwa [(dispatch_edit hpaste).1]
  pasteNothing := by
    intro hnone
    have hpaste : s.edit? (.paste ref) = none := by
      rw [edit?, paste?, hnone]
      rfl
    rw [dispatch, record, hpaste]
  insertParent := by
    obtain ⟨s', hs', -, hpanes⟩ := h.panesReplaced (Expr.isValid_placeholder h.isValid)
    have hinsert : s.edit? (.insertParent ref) = some s' := by
      rw [edit?, insertParent?, h.exprAt?]
      exact hs'
    rwa [(dispatch_edit hinsert).1]
  move := by
    intro target p' path' hp' hid hpath
    have hmove : ∃ s', s.move? ref target = some s' ∧
        PanesMoved s.panes ref.pane target.pane path path' q.expr s'.panes := by
      by_cases hp : ref.pane = target.pane
      · obtain rfl : p = p' := Option.some.inj (h.pane.symm.trans (hp ▸ hp'))
        obtain ⟨q', hq', ht⟩ := h.shown.flattens.subtree?_of_idAt? hid
        exact h.panesMoved_within ⟨hp', h.shown, hq', ht⟩ hp fun hpre => hpath ⟨hp, hpre⟩
      · obtain ⟨r', q', h'⟩ := hs.places hp' hid
        exact h.panesMoved_across h' hp
    obtain ⟨s', hs', hpanes⟩ := hmove
    rwa [(dispatch_edit (a := .move ref target) hs').1]

/-- The tree of a pane stands for an expression, in which each node has one position and each position
a node. Edits of a node are replacements at its position. -/
structure Refines (s : Session) (pane : Nat) (p : Pane) (whole : Expr) : Prop where
  expr : p.tree.expr = .ok whole
  position : ∀ id, p.tree.contains id → ∃! path, p.tree.idAt? path = some id
  node : ∀ path, (whole.subterm? path).isSome ↔ (p.tree.idAt? path).isSome
  edits : ∀ path id, p.tree.idAt? path = some id → ∃ old, whole.subterm? path = some old ∧
    p.tree.exprAt id = .ok old ∧ s.EditsSubterm ⟨pane, id⟩ path old

/-- The editor of flat trees is plain editing of expressions. -/
theorem exists_refines (h : s.Reachable) {pane : Nat} (hp : s.panes[pane]? = some p) :
    ∃ whole, s.Refines pane p whole := by
  obtain ⟨r, hr⟩ := h.intact.present.pane? hp
  refine ⟨r.expr, hr.expr, fun id hid => ?_, fun path => ?_, fun path id hid => ?_⟩
  · obtain ⟨path, q, hq, ht⟩ := hr.flattens.exists_subtree? hid
    refine ⟨path, ?_, fun path' hid' => ?_⟩
    · change p.tree.idAt? path = some id
      rw [hr.flattens.idAt?, hq, Option.map_some, ht]
    · obtain ⟨q', hq', ht'⟩ := hr.flattens.subtree?_of_idAt? hid'
      exact NestedTree.path_unique hr.flattens.nodup hq' hq (ht'.trans ht.symm)
  · rw [hr.flattens.idAt?, Option.isSome_map, Option.isSome_iff_exists, Option.isSome_iff_exists]
    constructor
    · rintro ⟨e, he⟩
      exact hr.wellShaped.exists_subtree? he
    · rintro ⟨q, hq⟩
      exact ⟨q.expr, (hr.wellShaped.subtree? hq).2⟩
  · obtain ⟨q, hq, ht⟩ := hr.flattens.subtree?_of_idAt? hid
    have hplace : s.Places ⟨pane, id⟩ p r path q := ⟨hp, hr, hq, ht⟩
    exact ⟨q.expr, (hr.wellShaped.subtree? hq).2, hplace.exprAt, hplace.editsSubterm h.intact⟩

theorem exists_refines_nested :
    (start.run [.edit (.insertParent ⟨0, 1⟩), .edit (.insertParent ⟨0, 1⟩)]).Reachable ∧
      ∃ p, (start.run [.edit (.insertParent ⟨0, 1⟩), .edit (.insertParent ⟨0, 1⟩)]).panes = [p] ∧
        p.tree.orderedIds.length = 3 ∧
        ∃ whole, (start.run [.edit (.insertParent ⟨0, 1⟩), .edit (.insertParent ⟨0, 1⟩)]).Refines
          0 p whole := by
  have h : (start.run [.edit (.insertParent ⟨0, 1⟩), .edit (.insertParent ⟨0, 1⟩)]).Reachable :=
    Reachable.start.run (by simp [Action.Admissible])
  exact ⟨h, _, rfl, rfl, exists_refines h rfl⟩

end Session

end PromTree
