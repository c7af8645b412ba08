import Mathlib.Data.List.Perm.Subperm
import PromTree.Proofs.SortedMap
import PromTree.Proofs.Tree.Nested
import PromTree.Tree.Order
import PromTree.Tree.Rebuilding

namespace PromTree

structure NodeLinks where
  id : NodeId
  parent : Option NodeId
  children : List NodeId
  shape : Shape

def TreeNode.links (n : TreeNode) : NodeLinks := ⟨n.id, n.parent, n.children, n.shape⟩

namespace Tree

def links? (t : Tree) (id : NodeId) : Option NodeLinks := (t.find? id).map TreeNode.links

/-- Below a parent the nodes of a flat tree are linked as in a nested one. -/
inductive Depicts (t : Tree) : Option NodeId → NestedTree → Prop where
  | node {parent : Option NodeId} {id : NodeId} {shape : Shape} {children : List NestedTree}
    (found : t.links? id = some ⟨id, parent, children.map NestedTree.top, shape⟩)
    (below : ∀ c ∈ children, t.Depicts (some id) c) :
    Depicts t parent (.node id shape children)

structure Flattens (t : Tree) (r : NestedTree) : Prop where
  root : t.root = r.top
  nodup : r.ids.Nodup
  depicts : t.Depicts none r
  covered : ∀ id, t.contains id → id ∈ r.ids

def idBelow? (t : Tree) : NodeId → Position → Option NodeId
  | id, [] => if t.contains id then some id else none
  | id, i :: path => do t.idBelow? (← (← t.find? id).children[i]?) path

def idAt? (t : Tree) (path : Position) : Option NodeId := t.idBelow? t.root path

theorem contains_iff (t : Tree) (id : NodeId) : t.contains id ↔ ∃ n, t.find? id = some n :=
  Option.isSome_iff_exists

theorem find?_eq_none {t : Tree} {id : NodeId} (h : ¬t.contains id) : t.find? id = none :=
  Option.not_isSome_iff_eq_none.mp h

theorem exists_find?_of_links? {t : Tree} {id : NodeId} {l : NodeLinks} (h : t.links? id = some l) :
    ∃ n, t.find? id = some n ∧ n.links = l :=
  Option.map_eq_some_iff.mp h

namespace Depicts

variable {t t' : Tree} {parent : Option NodeId} {r s c : NestedTree} {path : Position}

theorem congr (h : t.Depicts parent r) (hl : ∀ x ∈ r.ids, t'.links? x = t.links? x) :
    t'.Depicts parent r := by
  induction h with
  | @node parent id shape children found below ih =>
    refine .node ?_ fun c hc => ih c hc fun x hx => hl x (NestedTree.ids_subset_of_mem hc hx)
    rw [hl id (NestedTree.top_mem_ids _), found]

theorem contains (h : t.Depicts parent r) {x : NodeId} (hx : x ∈ r.ids) : t.contains x := by
  induction h with
  | node found below ih =>
    rw [NestedTree.ids, List.mem_cons, List.mem_flatMap] at hx
    rcases hx with rfl | ⟨c, hc, hx⟩
    · obtain ⟨n, hn, -⟩ := exists_find?_of_links? found
      exact (t.contains_iff _).mpr ⟨n, hn⟩
    · exact ih c hc hx

theorem subtree? (h : t.Depicts parent r) (hs : r.subtree? path = some s) :
    ∃ parent, t.Depicts parent s := by
  induction path generalizing r parent with
  | nil =>
    obtain rfl : r = s := Option.some.inj hs
    exact ⟨parent, h⟩
  | cons i path ih =>
    cases h with
    | node found below =>
      obtain ⟨c, hc, hs⟩ := NestedTree.exists_child hs
      exact ih (below c (List.mem_of_getElem? hc)) hs

theorem child (h : t.Depicts parent r) {i : Nat} (hc : r.children[i]? = some c) :
    t.Depicts (some r.top) c := by
  cases h with
  | node found below => exact below c (List.mem_of_getElem? hc)

theorem links? (h : t.Depicts parent r) : ∃ l, t.links? r.top = some l ∧ l.parent = parent := by
  cases h with
  | node found below => exact ⟨_, found, rfl⟩

theorem idBelow? (h : t.Depicts parent r) (path : Position) :
    t.idBelow? r.top path = (r.subtree? path).map NestedTree.top := by
  induction path generalizing r parent with
  | nil => rw [Tree.idBelow?, if_pos (h.contains r.top_mem_ids)]; rfl
  | cons i path ih =>
    cases h with
    | @node _ id shape children found below =>
      obtain ⟨n, hn, hl⟩ := exists_find?_of_links? found
      have hc : n.children = children.map NestedTree.top := congrArg NodeLinks.children hl
      simp only [Tree.idBelow?, NestedTree.top, NestedTree.subtree?, NestedTree.children, hn,
        Option.bind_eq_bind, Option.bind_some, hc, List.getElem?_map]
      cases hi : children[i]? with
      | none => rfl
      | some c => exact ih (below c (List.mem_of_getElem? hi))

theorem mapM_children {f : NodeId → Except Fault Expr} {children : List NestedTree}
    (h : ∀ c ∈ children, f c.top = .ok c.expr) :
    (children.map NestedTree.top).mapM f = .ok (children.map NestedTree.expr) := by
  induction children with
  | nil => rfl
  | cons c children ih =>
    rw [List.map_cons, List.mapM_cons, h c List.mem_cons_self,
      ih fun d hd => h d (List.mem_cons_of_mem c hd)]
    rfl

theorem exprWithin (h : t.Depicts parent r) (hw : r.WellShaped) {fuel : Nat} (hf : r.size ≤ fuel) :
    t.exprWithin fuel r.top = .ok r.expr := by
  induction h generalizing fuel with
  | @node _ id shape children found below ih =>
    obtain ⟨n, hn, hl⟩ := exists_find?_of_links? found
    have hc : n.children = children.map NestedTree.top := congrArg NodeLinks.children hl
    have hsh : n.shape = shape := congrArg NodeLinks.shape hl
    cases fuel with
    | zero => exact absurd hf (by rw [NestedTree.size_node]; omega)
    | succ fuel =>
      have hm : (n.children.mapM (t.exprWithin fuel)) = .ok (children.map NestedTree.expr) := by
        rw [hc]
        refine mapM_children fun c hmem => ih c hmem (hw.of_mem hmem) ?_
        have hlt := NestedTree.size_lt_of_mem id shape hmem
        omega
      simp only [Tree.exprWithin, NestedTree.top, hn, hm]
      change assemble n.id n.shape (children.map NestedTree.expr) = _
      rw [assemble, hsh, hw.ofShape?]

theorem subtreeWithin (h : t.Depicts parent r) {fuel : Nat} (hf : r.size ≤ fuel) :
    t.subtreeWithin fuel r.top = r.ids := by
  induction h generalizing fuel with
  | @node _ id shape children found below ih =>
    obtain ⟨n, hn, hl⟩ := exists_find?_of_links? found
    have hc : n.children = children.map NestedTree.top := congrArg NodeLinks.children hl
    cases fuel with
    | zero => exact absurd hf (by rw [NestedTree.size_node]; omega)
    | succ fuel =>
      simp only [Tree.subtreeWithin, NestedTree.top, hn, hc, NestedTree.ids, List.flatMap_map]
      congr 1
      refine List.flatMap_congr fun c hmem => ih c hmem ?_
      have hlt := NestedTree.size_lt_of_mem id shape hmem
      omega

end Depicts

namespace Flattens

variable {t : Tree} {r s : NestedTree} {path : Position}

theorem contains_iff_mem (h : t.Flattens r) (x : NodeId) : t.contains x ↔ x ∈ r.ids :=
  ⟨h.covered x, h.depicts.contains⟩

theorem size_le (h : t.Flattens r) : r.size ≤ t.nodes.size := by
  have hsub : r.ids ⊆ t.nodes.keys := fun x hx =>
    (t.nodes.mem_keys_iff x).mpr (h.depicts.contains hx)
  have hle := (h.nodup.subperm hsub).length_le
  rwa [SortedMap.keys, List.length_map] at hle

theorem size_subtree_le (h : t.Flattens r) (hs : r.subtree? path = some s) :
    s.size ≤ t.nodes.size + 1 := by
  have hle := h.size_le
  obtain ⟨before, after, hids, -⟩ := NestedTree.ids_graft hs
  rw [NestedTree.size, hids, List.length_append, List.length_append] at hle
  rw [NestedTree.size]
  omega

theorem exprAt (h : t.Flattens r) (hw : r.WellShaped) (hs : r.subtree? path = some s) :
    t.exprAt s.top = .ok s.expr := by
  obtain ⟨parent, hd⟩ := h.depicts.subtree? hs
  exact hd.exprWithin (hw.subtree? hs).1 (h.size_subtree_le hs)

theorem expr (h : t.Flattens r) (hw : r.WellShaped) : t.expr = .ok r.expr := by
  rw [Tree.expr, h.root]
  have hs : r.subtree? [] = some r := rfl
  exact h.exprAt hw hs

theorem subtreeIds (h : t.Flattens r) (hs : r.subtree? path = some s) :
    t.subtreeIds s.top = s.ids := by
  obtain ⟨parent, hd⟩ := h.depicts.subtree? hs
  exact hd.subtreeWithin (h.size_subtree_le hs)

theorem idAt? (h : t.Flattens r) (path : Position) :
    t.idAt? path = (r.subtree? path).map NestedTree.top := by
  rw [Tree.idAt?, h.root]
  exact h.depicts.idBelow? path

theorem subtree?_of_idAt? (h : t.Flattens r) {id : NodeId} (hid : t.idAt? path = some id) :
    ∃ s, r.subtree? path = some s ∧ s.top = id := by
  rw [h.idAt?] at hid
  exact Option.map_eq_some_iff.mp hid

theorem parent (h : t.Flattens r) (hs : r.subtree? path = some s) {n : TreeNode}
    (hn : t.find? s.top = some n) {p : NodeId} (hp : n.parent = some p) :
    ∃ above q, above <+: path ∧ r.subtree? above = some q ∧ q.top = p := by
  have hl : t.links? s.top = some n.links := by rw [Tree.links?, hn]; rfl
  -- the parent is at the position that lacks the last step, and the root has none
  rcases List.eq_nil_or_concat path with rfl | ⟨above, i, rfl⟩
  · obtain rfl : r = s := Option.some.inj hs
    obtain ⟨l, hl', hnone⟩ := h.depicts.links?
    obtain rfl : n.links = l := Option.some.inj (hl.symm.trans hl')
    rw [TreeNode.links, hp] at hnone
    contradiction
  · rw [List.concat_eq_append] at hs
    obtain ⟨q, hq, hi⟩ := NestedTree.subtree?_concat hs
    obtain ⟨_, hd⟩ := h.depicts.subtree? hq
    obtain ⟨l, hl', hsome⟩ := (hd.child hi).links?
    obtain rfl : n.links = l := Option.some.inj (hl.symm.trans hl')
    rw [TreeNode.links, hp] at hsome
    exact ⟨above, q, List.concat_eq_append ▸ List.prefix_append above [i], hq,
      (Option.some.inj hsome).symm⟩

theorem prefix_of_climbsWithin (h : t.Flattens r) {ancestor : NodeId} {fuel : Nat}
    (hs : r.subtree? path = some s) (hc : t.climbsWithin ancestor fuel s.top) :
    ∃ above q, above <+: path ∧ r.subtree? above = some q ∧ q.top = ancestor := by
  induction fuel generalizing path s with
  | zero => contradiction
  | succ fuel ih =>
    rw [Tree.climbsWithin, Bool.or_eq_true, beq_iff_eq, Option.any_eq_true] at hc
    rcases hc with hc | ⟨p, hp, hc⟩
    · exact ⟨path, s, List.prefix_rfl, hs, hc⟩
    · obtain ⟨n, hn, hp⟩ := Option.bind_eq_some_iff.mp hp
      obtain ⟨path', q, hpre, hq, rfl⟩ := h.parent hs hn hp
      obtain ⟨above, q', hpre', hq', ht⟩ := ih hq hc
      exact ⟨above, q', hpre'.trans hpre, hq', ht⟩

theorem prefix_of_isAncestorOrSelf (h : t.Flattens r) {path' : Position} {s' : NestedTree}
    (hs : r.subtree? path = some s) (hs' : r.subtree? path' = some s')
    (ha : t.isAncestorOrSelf s'.top s.top) : path' <+: path := by
  obtain ⟨above, q, hpre, hq, ht⟩ := h.prefix_of_climbsWithin hs ha
  rwa [NestedTree.path_unique h.nodup hs' hq ht.symm]

end Flattens

end Tree

end PromTree
