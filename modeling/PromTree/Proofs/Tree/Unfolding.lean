import PromTree.Proofs.Tree.Soundness

/-!
The nested tree that a flat one unfolds to. Where the links to children lead back, they give every node
that can be reached one depth, so that no way down is longer than the nodes are many.
-/

namespace PromTree

namespace Tree

inductive AtDepth (t : Tree) : Nat → NodeId → Prop where
  | root : AtDepth t 0 t.root
  | child {depth : Nat} {parent child : NodeId} (above : AtDepth t depth parent)
    (lists : t.Lists parent child) : AtDepth t (depth + 1) child

def unfolding (t : Tree) : Nat → NodeId → NestedTree
  | 0, id => .node id .placeholder []
  | fuel + 1, id =>
    match t.find? id with
    | none => .node id .placeholder []
    | some n => .node id n.shape (n.children.map (t.unfolding fuel))

def unfolded (t : Tree) : NestedTree := t.unfolding (t.nodes.size + 1) t.root

variable {t : Tree} {r : NestedTree} {id p q x : NodeId} {depth depth' fuel : Nat}

theorem forall_find?_iff (P : NodeId → TreeNode → Prop) :
    (∀ e ∈ t.nodes.toList, P e.1 e.2) ↔ ∀ id n, t.find? id = some n → P id n := by
  constructor
  · exact fun h id n hn => h (id, n) ((t.nodes.find?_eq_some_iff id n).mp hn)
  · exact fun h e he => h e.1 e.2 ((t.nodes.find?_eq_some_iff e.1 e.2).mpr he)

instance : Decidable t.OwnsIds := decidable_of_iff _ (forall_find?_iff fun id n => n.id = id)

instance : Decidable t.ListsOnce :=
  decidable_of_iff _ (forall_find?_iff fun _ n => n.children.Nodup)

theorem AtDepth.of_reachable (hp : t.AtDepth depth p) (hx : Relation.ReflTransGen t.Lists p x) :
    ∃ depth', depth ≤ depth' ∧ t.AtDepth depth' x := by
  induction hx with
  | refl => exact ⟨depth, Nat.le_refl depth, hp⟩
  | tail _ hl ih =>
    obtain ⟨depth', hle, hd⟩ := ih
    exact ⟨depth' + 1, Nat.le_succ_of_le hle, .child hd hl⟩

theorem Spanned.exists_atDepth (hspan : t.Spanned) (hx : t.contains x) :
    ∃ depth, t.AtDepth depth x := by
  obtain ⟨depth, -, hd⟩ := AtDepth.root.of_reachable (hspan x hx)
  exact ⟨depth, hd⟩

theorem AtDepth.exists_above (h : t.AtDepth depth x) {k : Nat} (hk : k ≤ depth) :
    ∃ y, t.AtDepth k y := by
  induction h with
  | root => exact ⟨t.root, Nat.le_zero.mp hk ▸ .root⟩
  | child above lists ih =>
    rcases Nat.le_succ_iff.mp hk with hk | rfl
    · exact ih hk
    · exact ⟨_, .child above lists⟩

namespace Linked

theorem contains (h : t.Linked) (hd : t.AtDepth depth x) : t.contains x := by
  rw [contains_iff]
  cases hd with
  | root =>
    obtain ⟨n, hn, -⟩ := h.root
    exact ⟨n, hn⟩
  | child above lists =>
    obtain ⟨n, hn, -⟩ := h.linkedBack _ _ lists
    exact ⟨n, hn⟩

theorem not_lists_root (h : t.Linked) : ¬t.Lists p t.root := by
  intro hl
  obtain ⟨n, hn, hnone⟩ := h.root
  obtain ⟨m, hm, hsome⟩ := h.linkedBack _ _ hl
  obtain rfl : n = m := Option.some.inj (hn.symm.trans hm)
  rw [hnone] at hsome
  contradiction

theorem lister_unique (h : t.Linked) (hp : t.Lists p x) (hq : t.Lists q x) : p = q := by
  obtain ⟨n, hn, hnp⟩ := h.linkedBack _ _ hp
  obtain ⟨m, hm, hmq⟩ := h.linkedBack _ _ hq
  obtain rfl : n = m := Option.some.inj (hn.symm.trans hm)
  exact Option.some.inj (hnp.symm.trans hmq)

theorem depth_unique (h : t.Linked) (hd : t.AtDepth depth x) (hd' : t.AtDepth depth' x) :
    depth = depth' := by
  induction hd generalizing depth' with
  | root =>
    cases hd' with
    | root => rfl
    | child _ lists => exact absurd lists h.not_lists_root
  | child above lists ih =>
    cases hd' with
    | root => exact absurd lists h.not_lists_root
    | child above' lists' =>
      obtain rfl := h.lister_unique lists lists'
      rw [ih above']

theorem depth_lt (h : t.Linked) (hd : t.AtDepth depth x) : depth < t.nodes.size := by
  have hall (k : Nat) : ∃ y, k ≤ depth → t.AtDepth k y := by
    by_cases hk : k ≤ depth
    · obtain ⟨y, hy⟩ := hd.exists_above hk
      exact ⟨y, fun _ => hy⟩
    · exact ⟨x, fun hk' => absurd hk' hk⟩
  choose f hf using hall
  have hle {k : Nat} (hk : k ∈ List.range (depth + 1)) : k ≤ depth :=
    Nat.le_of_lt_succ (List.mem_range.mp hk)
  have hnodup : ((List.range (depth + 1)).map f).Nodup := by
    refine List.Nodup.map_on (fun i hi j hj he => ?_) List.nodup_range
    exact h.depth_unique (hf i (hle hi)) (he ▸ hf j (hle hj))
  have hsub : (List.range (depth + 1)).map f ⊆ t.nodes.keys := by
    intro y hy
    obtain ⟨k, hk, rfl⟩ := List.mem_map.mp hy
    exact (t.nodes.mem_keys_iff _).mpr (h.contains (hf k (hle hk)))
  have hlen := (hnodup.subperm hsub).length_le
  rw [List.length_map, List.length_range, SortedMap.keys, List.length_map] at hlen
  exact hlen

theorem eq_of_reachable (h : t.Linked) (hp : t.AtDepth depth p) (hq : t.AtDepth depth q)
    (hpq : Relation.ReflTransGen t.Lists p q) : p = q := by
  rcases hpq.cases_head with rfl | ⟨c, hl, hc⟩
  · rfl
  · obtain ⟨depth', hle, hd⟩ := (AtDepth.child hp hl).of_reachable hc
    have he := h.depth_unique hq hd
    omega

theorem eq_of_reach_same (h : t.Linked) (hp : t.AtDepth depth p) (hq : t.AtDepth depth q)
    (hpx : Relation.ReflTransGen t.Lists p x) (hqx : Relation.ReflTransGen t.Lists q x) : p = q := by
  have hunique : Relator.RightUnique (Function.swap t.Lists) :=
    fun _ _ _ ha hb => h.lister_unique ha hb
  rcases Relation.ReflTransGen.total_of_right_unique hunique hpx.swap hqx.swap with hqp | hpq
  · exact (h.eq_of_reachable hq hp (Relation.reflTransGen_swap.mp hqp)).symm
  · exact h.eq_of_reachable hp hq (Relation.reflTransGen_swap.mp hpq)

end Linked

@[simp]
theorem top_unfolding (t : Tree) (fuel : Nat) (id : NodeId) : (t.unfolding fuel id).top = id := by
  cases fuel with
  | zero => rfl
  | succ fuel =>
    rw [unfolding]
    cases t.find? id <;> rfl

theorem map_top_unfolding (t : Tree) (fuel : Nat) (ids : List NodeId) :
    (ids.map (t.unfolding fuel)).map NestedTree.top = ids := by
  rw [List.map_map]
  exact (List.map_congr_left fun id _ => t.top_unfolding fuel id).trans ids.map_id

theorem unfolding_succ {n : TreeNode} (hn : t.find? id = some n) (fuel : Nat) :
    t.unfolding (fuel + 1) id = .node id n.shape (n.children.map (t.unfolding fuel)) := by
  rw [unfolding, hn]

theorem lists_iff {n : TreeNode} (hn : t.find? id = some n) : t.Lists id x ↔ x ∈ n.children := by
  simp [Lists, hn]

theorem Linked.induct (h : t.Linked) {P : Nat → NodeId → Prop}
    (node : ∀ {depth fuel id n}, t.AtDepth depth id → t.nodes.size ≤ fuel + (depth + 1) →
      t.find? id = some n → (∀ c ∈ n.children, P fuel c) → P (fuel + 1) id)
    (hd : t.AtDepth depth id) (hfuel : t.nodes.size ≤ fuel + depth) : P fuel id := by
  induction fuel generalizing id depth with
  | zero =>
    have hlt := h.depth_lt hd
    omega
  | succ fuel ih =>
    obtain ⟨n, hn⟩ := (t.contains_iff id).mp (h.contains hd)
    have hfuel' : t.nodes.size ≤ fuel + (depth + 1) := by omega
    exact node hd hfuel' hn fun c hc => ih (.child hd ⟨n, hn, hc⟩) hfuel'

theorem Linked.depicts (h : t.Linked) (hown : t.OwnsIds) (hd : t.AtDepth depth id)
    (hfuel : t.nodes.size ≤ fuel + depth) {n : TreeNode} (hn : t.find? id = some n) :
    t.Depicts n.parent (t.unfolding fuel id) := by
  refine h.induct (P := fun fuel id => ∀ n, t.find? id = some n →
    t.Depicts n.parent (t.unfolding fuel id)) ?_ hd hfuel n hn
  intro depth fuel id m _ _ hm ih n hn
  obtain rfl : m = n := Option.some.inj (hm.symm.trans hn)
  rw [unfolding_succ hn]
  refine .node ?_ fun c hc => ?_
  · rw [links?, hn, map_top_unfolding, Option.map_some, TreeNode.links, hown id m hn]
  · obtain ⟨child, hchild, rfl⟩ := List.mem_map.mp hc
    obtain ⟨k, hk, hp⟩ := h.linkedBack id child ((lists_iff hn).mpr hchild)
    exact hp ▸ ih child hchild k hk

theorem Linked.depicts_unfolded (h : t.Linked) (hown : t.OwnsIds) : t.Depicts none t.unfolded := by
  obtain ⟨n, hn, hp⟩ := h.root
  exact hp ▸ h.depicts hown .root (by omega) hn

theorem subtreeWithin_succ {n : TreeNode} (hn : t.find? id = some n) (fuel : Nat) :
    t.subtreeWithin (fuel + 1) id = id :: n.children.flatMap (t.subtreeWithin fuel) := by
  rw [Tree.subtreeWithin, hn]

theorem Linked.subtreeWithin (h : t.Linked) (hd : t.AtDepth depth id)
    (hfuel : t.nodes.size ≤ fuel + depth) :
    t.subtreeWithin fuel id = (t.unfolding fuel id).ids := by
  refine h.induct (P := fun fuel id => t.subtreeWithin fuel id = (t.unfolding fuel id).ids) ?_ hd
    hfuel
  intro depth fuel id n _ _ hn ih
  rw [subtreeWithin_succ hn, unfolding_succ hn, NestedTree.ids, List.flatMap_map]
  congr 1
  exact List.flatMap_congr ih

theorem Linked.subtreeIds (h : t.Linked) (hd : t.AtDepth depth id) :
    t.subtreeIds id = (t.unfolding (t.nodes.size + 1) id).ids :=
  h.subtreeWithin hd (by omega)

theorem Linked.subtreeIds_root (h : t.Linked) : t.subtreeIds t.root = t.unfolded.ids :=
  h.subtreeIds .root

theorem Depicts.mem_ids_iff {parent : Option NodeId} (h : t.Depicts parent r) :
    x ∈ r.ids ↔ Relation.ReflTransGen t.Lists r.top x := by
  constructor
  · intro hx
    obtain ⟨path, s, hs, rfl⟩ := NestedTree.exists_subtree? hx
    exact h.reachable hs
  · intro hx
    induction hx with
    | refl => exact r.top_mem_ids
    | tail _ hl ih =>
      -- what a node lists is at the next step of its position
      obtain ⟨path, s, hs, rfl⟩ := NestedTree.exists_subtree? ih
      obtain ⟨parent, hd⟩ := h.subtree? hs
      obtain ⟨n, hn, -, -, hc⟩ := hd.find?
      obtain ⟨m, hm, hmem⟩ := hl
      obtain rfl : n = m := Option.some.inj (hn.symm.trans hm)
      rw [hc, List.mem_map] at hmem
      obtain ⟨c, hmem, rfl⟩ := hmem
      refine NestedTree.ids_subset_of_subtree? hs ?_
      cases s with
      | node id shape children => exact NestedTree.ids_subset_of_mem hmem c.top_mem_ids

theorem Linked.mem_unfolding (h : t.Linked) (hd : t.AtDepth depth id)
    (hfuel : t.nodes.size ≤ fuel + depth) (x : NodeId) :
    x ∈ (t.unfolding fuel id).ids ↔ Relation.ReflTransGen t.Lists id x := by
  refine h.induct (P := fun fuel id =>
    x ∈ (t.unfolding fuel id).ids ↔ Relation.ReflTransGen t.Lists id x) ?_ hd hfuel
  intro depth fuel id n _ _ hn ih
  rw [unfolding_succ hn, NestedTree.ids, List.mem_cons, List.flatMap_map, List.mem_flatMap,
    Relation.ReflTransGen.cases_head_iff, eq_comm]
  refine or_congr_right (exists_congr fun c => ?_)
  rw [lists_iff hn]
  exact and_congr_right fun hc => ih c hc

theorem Linked.nodup_unfolding (h : t.Linked) (honce : t.ListsOnce) (hd : t.AtDepth depth id)
    (hfuel : t.nodes.size ≤ fuel + depth) : (t.unfolding fuel id).ids.Nodup := by
  refine h.induct (P := fun fuel id => (t.unfolding fuel id).ids.Nodup) ?_ hd hfuel
  intro depth fuel id n hd hfuel hn ih
  have hchild {c : NodeId} (hc : c ∈ n.children) : t.AtDepth (depth + 1) c :=
    .child hd ((lists_iff hn).mpr hc)
  rw [unfolding_succ hn, NestedTree.ids, List.flatMap_map, List.nodup_cons, List.mem_flatMap,
    List.nodup_flatMap]
  refine ⟨?_, ih, ?_⟩
  · rintro ⟨c, hc, hid⟩
    have hreach := (h.mem_unfolding (hchild hc) hfuel id).mp hid
    obtain ⟨depth', hle, hd'⟩ := (hchild hc).of_reachable hreach
    have he := h.depth_unique hd hd'
    omega
  · refine (honce id n hn).imp_of_mem fun {c d} hc hd hne => ?_
    intro x hxc hxd
    have hreach := (h.mem_unfolding (hchild hc) hfuel x).mp hxc
    have hreach' := (h.mem_unfolding (hchild hd) hfuel x).mp hxd
    exact hne (h.eq_of_reach_same (hchild hc) (hchild hd) hreach hreach')

theorem top_unfolded (t : Tree) : t.unfolded.top = t.root := t.top_unfolding _ _

theorem Linked.nodup_unfolded (h : t.Linked) (honce : t.ListsOnce) : t.unfolded.ids.Nodup :=
  h.nodup_unfolding honce .root (by omega)

theorem Linked.mem_unfolded (h : t.Linked) :
    x ∈ t.unfolded.ids ↔ Relation.ReflTransGen t.Lists t.root x :=
  h.mem_unfolding .root (by omega) x

theorem Linked.flattens (h : t.Linked) (hown : t.OwnsIds) (honce : t.ListsOnce)
    (hspan : t.Spanned) : t.Flattens t.unfolded where
  root := t.top_unfolded.symm
  nodup := h.nodup_unfolded honce
  depicts := h.depicts_unfolded hown
  covered := fun id hid => h.mem_unfolded.mpr (hspan id hid)

end Tree

end PromTree
