import Mathlib.Logic.Relation
import PromTree.Proofs.Tree.Replacement

namespace PromTree

namespace Tree

def Lists (t : Tree) (parent child : NodeId) : Prop :=
  ∃ n, t.find? parent = some n ∧ child ∈ n.children

def OwnsIds (t : Tree) : Prop := ∀ id n, t.find? id = some n → n.id = id

/-- The root has no parent, and a node is the parent of every child that it lists. -/
structure Linked (t : Tree) : Prop where
  root : ∃ n, t.find? t.root = some n ∧ n.parent = none
  linkedBack : ∀ id child, t.Lists id child → ∃ n, t.find? child = some n ∧ n.parent = some id

def ListsOnce (t : Tree) : Prop := ∀ id n, t.find? id = some n → n.children.Nodup

def Spanned (t : Tree) : Prop := ∀ id, t.contains id → Relation.ReflTransGen t.Lists t.root id

structure Sound (t : Tree) : Prop where
  root : ∃ n, t.find? t.root = some n ∧ n.parent = none
  ownId : ∀ id n, t.find? id = some n → n.id = id
  linkedBack : ∀ id child, t.Lists id child → ∃ n, t.find? child = some n ∧ n.parent = some id
  listedOnce : (t.nodes.values.flatMap TreeNode.children).Nodup
  reachable : ∀ id, t.contains id → Relation.ReflTransGen t.Lists t.root id
  fits : ∀ id n, t.find? id = some n → n.shape.Fits n.children.length

/-- A flat tree has the nodes of a well-shaped nested one, with numbers below `next`. -/
structure Shows (t : Tree) (next : NodeId) (r : NestedTree) : Prop where
  flattens : t.Flattens r
  wellShaped : r.WellShaped
  lt : ∀ id ∈ r.ids, id < next

def IsIntact (t : Tree) (next : NodeId) : Prop := ∃ r, t.Shows next r

variable {t t' : Tree} {parent : Option NodeId} {r s : NestedTree} {path : Position}
  {next next' : NodeId}

theorem Flattens.exists_subtree? (h : t.Flattens r) {id : NodeId} (hid : t.contains id) :
    ∃ path s, r.subtree? path = some s ∧ s.top = id :=
  NestedTree.exists_subtree? (h.covered id hid)

theorem Depicts.find? (h : t.Depicts parent s) :
    ∃ n, t.find? s.top = some n ∧ n.id = s.top ∧ n.parent = parent ∧
      n.children = s.children.map NestedTree.top := by
  cases h with
  | node found below =>
    obtain ⟨n, hn, hl⟩ := exists_find?_of_links? found
    exact ⟨n, hn, congrArg NodeLinks.id hl, congrArg NodeLinks.parent hl,
      congrArg NodeLinks.children hl⟩

theorem Depicts.fits (h : t.Depicts parent s) (hw : s.WellShaped) {n : TreeNode}
    (hn : t.find? s.top = some n) : n.shape.Fits n.children.length := by
  cases h with
  | @node _ id shape children found below =>
    rw [NestedTree.top] at hn
    rw [Tree.links?, hn] at found
    have hl := Option.some.inj found
    have hs : n.shape = shape := congrArg NodeLinks.shape hl
    have hc : n.children = children.map NestedTree.top := congrArg NodeLinks.children hl
    cases hw with
    | intro fits below => rwa [hs, hc, List.length_map]

theorem Flattens.exists_depicts (h : t.Flattens r) {id : NodeId} {n : TreeNode}
    (hn : t.find? id = some n) :
    ∃ path s parent, r.subtree? path = some s ∧ s.top = id ∧ t.Depicts parent s ∧ n.id = id ∧
      n.children = s.children.map NestedTree.top := by
  obtain ⟨path, s, hs, rfl⟩ := h.exists_subtree? ((t.contains_iff id).mpr ⟨n, hn⟩)
  obtain ⟨parent, hd⟩ := h.depicts.subtree? hs
  obtain ⟨n', hn', hid, -, hc⟩ := hd.find?
  obtain rfl : n = n' := Option.some.inj (hn.symm.trans hn')
  exact ⟨path, s, parent, hs, rfl, hd, hid, hc⟩

theorem Flattens.linkedBack (h : t.Flattens r) {id child : NodeId} (hl : t.Lists id child) :
    ∃ n, t.find? child = some n ∧ n.parent = some id := by
  obtain ⟨n, hn, hm⟩ := hl
  obtain ⟨path, s, parent, -, rfl, hd, -, hc⟩ := h.exists_depicts hn
  rw [hc, List.mem_map] at hm
  obtain ⟨c, hm, rfl⟩ := hm
  obtain ⟨i, hi⟩ := List.getElem?_of_mem hm
  obtain ⟨m, hfind, -, hparent, -⟩ := (hd.child hi).find?
  exact ⟨m, hfind, hparent⟩

theorem nodup_tops (hn : s.ids.Nodup) : (s.children.map NestedTree.top).Nodup := by
  cases s with
  | node id shape children =>
    rw [NestedTree.ids, List.nodup_cons] at hn
    refine List.pairwise_map.mpr ((List.nodup_flatMap.mp hn.2).2.imp fun {c d} hcd he => ?_)
    exact hcd c.top_mem_ids (he ▸ d.top_mem_ids)

theorem Flattens.listedOnce (h : t.Flattens r) :
    (t.nodes.values.flatMap TreeNode.children).Nodup := by
  rw [SortedMap.values, List.flatMap_map, List.nodup_flatMap]
  have hfind (e : NodeId × TreeNode) (he : e ∈ t.nodes.toList) : t.find? e.1 = some e.2 :=
    (t.nodes.find?_eq_some_iff e.1 e.2).mpr he
  constructor
  · intro e he
    obtain ⟨path, s, parent, hs, -, -, -, hc⟩ := h.exists_depicts (hfind e he)
    rw [hc]
    exact nodup_tops (NestedTree.nodup_of_subtree? hs h.nodup)
  · -- a child that two nodes list has both as its parent
    have hkeys := List.pairwise_map.mp t.nodes.nodup_keys
    refine hkeys.imp_of_mem fun {a b} ha hb hne => ?_
    intro child hca hcb
    obtain ⟨n, hn, hpa⟩ := h.linkedBack ⟨a.2, hfind a ha, hca⟩
    obtain ⟨m, hm, hpb⟩ := h.linkedBack ⟨b.2, hfind b hb, hcb⟩
    obtain rfl : n = m := Option.some.inj (hn.symm.trans hm)
    exact hne (Option.some.inj (hpa.symm.trans hpb))

theorem Depicts.reachable (h : t.Depicts parent r) (hs : r.subtree? path = some s) :
    Relation.ReflTransGen t.Lists r.top s.top := by
  induction path generalizing r parent with
  | nil =>
    obtain rfl : r = s := Option.some.inj hs
    exact .refl
  | cons i path ih =>
    obtain ⟨n, hn, -, -, hc⟩ := h.find?
    obtain ⟨c, hi, hs⟩ := Option.bind_eq_some_iff.mp hs
    have hl : t.Lists r.top c.top := by
      refine ⟨n, hn, ?_⟩
      rw [hc]
      exact List.mem_map_of_mem (List.mem_of_getElem? hi)
    exact .head hl (ih (h.child hi) hs)

namespace Flattens

theorem ownsIds (h : t.Flattens r) : t.OwnsIds := by
  intro id n hn
  obtain ⟨path, s, parent, -, -, -, hid, -⟩ := h.exists_depicts hn
  exact hid

theorem linked (h : t.Flattens r) : t.Linked where
  root := by
    obtain ⟨n, hn, -, hp, -⟩ := h.depicts.find?
    exact ⟨n, h.root ▸ hn, hp⟩
  linkedBack := fun _ _ hl => h.linkedBack hl

theorem listsOnce (h : t.Flattens r) : t.ListsOnce := by
  intro id n hn
  have hmem : n ∈ t.nodes.values :=
    List.mem_map_of_mem (f := Prod.snd) ((t.nodes.find?_eq_some_iff id n).mp hn)
  exact (List.nodup_flatMap.mp h.listedOnce).1 n hmem

theorem spanned (h : t.Flattens r) : t.Spanned := by
  intro id hid
  obtain ⟨path, s, hs, rfl⟩ := h.exists_subtree? hid
  rw [h.root]
  exact h.depicts.reachable hs

end Flattens

namespace Shows

theorem sound (h : t.Shows next r) : t.Sound where
  root := h.flattens.linked.root
  ownId := h.flattens.ownsIds
  linkedBack := h.flattens.linked.linkedBack
  listedOnce := h.flattens.listedOnce
  reachable := h.flattens.spanned
  fits := by
    intro id n hn
    obtain ⟨path, s, parent, hs, rfl, hd, -, -⟩ := h.flattens.exists_depicts hn
    exact hd.fits (h.wellShaped.subtree? hs).1 hn

theorem mono (h : t.Shows next r) (hle : next ≤ next') : t.Shows next' r :=
  ⟨h.flattens, h.wellShaped, fun id hid => Nat.lt_of_lt_of_le (h.lt id hid) hle⟩

theorem expr (h : t.Shows next r) : t.expr = .ok r.expr := h.flattens.expr h.wellShaped

theorem exprAt (h : t.Shows next r) {id : NodeId} (hid : t.contains id) :
    ∃ path s, r.subtree? path = some s ∧ s.top = id ∧ t.exprAt id = .ok s.expr ∧ s.expr.IsValid := by
  obtain ⟨path, s, hs, rfl⟩ := h.flattens.exists_subtree? hid
  exact ⟨path, s, hs, rfl, h.flattens.exprAt h.wellShaped hs, (h.wellShaped.subtree? hs).1.isValid⟩

end Shows

theorem shows_ofExpr {e : Expr} (he : e.IsValid) (next : NodeId) :
    (ofExpr next e).Shows (next + e.size) (NestedTree.number next e) where
  flattens := flattens_ofExpr next e
  wellShaped := (NestedTree.WellShaped.number he next).1
  lt := fun _ hid => (NestedTree.mem_ids_number.mp hid).2

theorem wellShaped_replacement {e : Expr} (he : e.IsValid) (id next : NodeId) :
    (replacement id next e).WellShaped ∧ (replacement id next e).expr = e := by
  obtain ⟨hw, hexpr⟩ := NestedTree.WellShaped.number he next
  obtain ⟨hw', hexpr'⟩ := hw.withTop id
  exact ⟨hw', hexpr'.trans hexpr⟩

theorem Shows.replaceSubtree? (h : t.Shows next r) (hs : r.subtree? path = some s) {e : Expr}
    (he : e.IsValid) :
    ∃ t', t.replaceSubtree? s.top e next = some t' ∧
      t'.Shows (next + e.size) (r.graft path (replacement s.top next e)) := by
  obtain ⟨t', ht', hf⟩ := h.flattens.replaceSubtree? hs h.lt e
  refine ⟨t', ht', hf, (h.wellShaped.graft hs (wellShaped_replacement he _ _).1).1, ?_⟩
  intro x hx
  obtain ⟨before, after, hids, hgraft⟩ := NestedTree.ids_graft hs
  have hold (hm : x ∈ r.ids) : x < next + e.size :=
    Nat.lt_of_lt_of_le (h.lt x hm) (Nat.le_add_right next e.size)
  rw [hgraft, List.mem_append, List.mem_append] at hx
  rw [hids, List.mem_append, List.mem_append] at hold
  rcases hx with (hx | hx) | hx
  · exact hold (.inl (.inl hx))
  · rcases lt_of_mem_replacement hx with rfl | hx
    · exact hold (.inl (.inr s.top_mem_ids))
    · exact hx.2
  · exact hold (.inr hx)

theorem Shows.expr_graft (h : t.Shows next r) (hs : r.subtree? path = some s) {e : Expr}
    (he : e.IsValid) (id : NodeId) :
    (r.graft path (replacement id next e)).expr = r.expr.replaceAt path e := by
  obtain ⟨hw, hexpr⟩ := wellShaped_replacement he id next
  rw [(h.wellShaped.graft hs hw).2, hexpr]

namespace IsIntact

theorem mono (h : t.IsIntact next) (hle : next ≤ next') : t.IsIntact next' := by
  obtain ⟨r, hr⟩ := h
  exact ⟨r, hr.mono hle⟩

theorem setEditMode (h : t.IsIntact next) (id : NodeId) (mode : EditMode) :
    (t.setEditMode id mode).IsIntact next := by
  obtain ⟨r, hr⟩ := h
  exact ⟨r, hr.flattens.setEditMode id mode, hr.wellShaped, hr.lt⟩

theorem setQueryState (h : t.IsIntact next) (id : NodeId) (state : QueryState) :
    (t.setQueryState id state).IsIntact next := by
  obtain ⟨r, hr⟩ := h
  exact ⟨r, hr.flattens.setQueryState id state, hr.wellShaped, hr.lt⟩

theorem lt_of_contains (h : t.IsIntact next) {id : NodeId} (hid : t.contains id) : id < next := by
  obtain ⟨r, hr⟩ := h
  exact hr.lt id (hr.flattens.covered id hid)

theorem contains_or_le_of_replaceSubtree? (h : t.IsIntact next) {e : Expr} {id x : NodeId}
    (ht : t.replaceSubtree? id e next = some t') (hx : t'.contains x) :
    t.contains x ∨ next ≤ x := by
  obtain ⟨r, hr⟩ := h
  obtain ⟨old, hold, -⟩ := Option.bind_eq_some_iff.mp ht
  obtain ⟨path, s, hs, rfl⟩ := hr.flattens.exists_subtree? ((t.contains_iff id).mpr ⟨old, hold⟩)
  obtain ⟨t'', ht'', hf⟩ := hr.flattens.replaceSubtree? hs hr.lt e
  obtain rfl : t' = t'' := Option.some.inj (ht.symm.trans ht'')
  obtain ⟨before, after, hids, hgraft⟩ := NestedTree.ids_graft hs
  have hmem := hf.covered x hx
  rw [hr.flattens.contains_iff_mem, hids]
  rw [hgraft] at hmem
  simp only [List.mem_append] at hmem ⊢
  rcases hmem with (hmem | hmem) | hmem
  · exact .inl (.inl (.inl hmem))
  · rcases lt_of_mem_replacement hmem with rfl | hmem
    · exact .inl (.inl (.inr s.top_mem_ids))
    · exact .inr hmem.1
  · exact .inl (.inr hmem)

theorem replaceSubtree? (h : t.IsIntact next) {e : Expr} (he : e.IsValid) {id : NodeId}
    (ht : t.replaceSubtree? id e next = some t') : t'.IsIntact (next + e.size) := by
  obtain ⟨r, hr⟩ := h
  obtain ⟨old, hold, -⟩ := Option.bind_eq_some_iff.mp ht
  obtain ⟨path, s, hs, rfl⟩ := hr.flattens.exists_subtree? ((t.contains_iff id).mpr ⟨old, hold⟩)
  obtain ⟨t'', ht'', hshows⟩ := hr.replaceSubtree? hs he
  obtain rfl : t' = t'' := Option.some.inj (ht.symm.trans ht'')
  exact ⟨_, hshows⟩

end IsIntact

end Tree

end PromTree
