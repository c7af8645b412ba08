import PromTree.Proofs.Tree.Ancestry
import PromTree.Proofs.Tree.LinkCheck
import PromTree.Proofs.Tree.Order

/-!
The walks through a flat tree agree. The one that goes down by the lists of children, the one with a
stack and the one that climbs by the links to parents see the same nodes below a node, each of them
once, and each comes to an end.
-/

namespace PromTree

namespace TreeNode

def StandsBetween (n : TreeNode) (lhs rhs : NodeId) : Prop :=
  (∃ op matching returnBool, n.shape = .binary op matching returnBool) ∧ n.children = [lhs, rhs]

end TreeNode

namespace Tree

/-- A run of the recursion for the order of display, which no number of levels cuts off. -/
inductive Displays (t : Tree) : NodeId → List NodeId → Prop where
  | missing {id : NodeId} (absent : t.find? id = none) : Displays t id []
  | between {id lhs rhs : NodeId} {n : TreeNode} {left right : List NodeId}
    (found : t.find? id = some n) (operands : n.StandsBetween lhs rhs)
    (before : t.Displays lhs left) (after : t.Displays rhs right) :
    Displays t id (left ++ id :: right)
  | before {id : NodeId} {n : TreeNode} {parts : List (List NodeId)} (found : t.find? id = some n)
    (other : ∀ lhs rhs, ¬n.StandsBetween lhs rhs)
    (below : List.Forall₂ t.Displays n.children parts) : Displays t id (id :: parts.flatten)

variable {t : Tree} {n : TreeNode} {id lhs rhs x : NodeId} {depth fuel : Nat}

theorem leading_of_standsBetween (h : n.StandsBetween lhs rhs) :
    n.shape.leading n.children.length = 1 := by
  obtain ⟨⟨op, matching, returnBool, hs⟩, hc⟩ := h
  rw [hs, hc]
  rfl

theorem leading_of_not_standsBetween (h : ∀ lhs rhs, ¬n.StandsBetween lhs rhs) :
    n.shape.leading n.children.length = 0 := by
  rcases n.shape.leading_eq_zero_or n.children.length with hzero | ⟨hs, hcount⟩
  · exact hzero
  · obtain ⟨lhs, rhs, hc⟩ := List.length_eq_two.mp hcount
    exact absurd ⟨hs, hc⟩ (h lhs rhs)

theorem arrange_of_standsBetween (h : n.StandsBetween lhs rhs) (f : NodeId → List NodeId) :
    n.shape.arrange id (n.children.map f) = f lhs ++ id :: f rhs := by
  have hleading := leading_of_standsBetween h
  rw [Shape.arrange, List.length_map, hleading, h.2]
  simp

theorem arrange_of_not_standsBetween (h : ∀ lhs rhs, ¬n.StandsBetween lhs rhs)
    (f : NodeId → List NodeId) :
    n.shape.arrange id (n.children.map f) = id :: (n.children.map f).flatten := by
  rw [Shape.arrange, List.length_map, leading_of_not_standsBetween h]
  rfl

namespace Linked

theorem orderedWithin (h : t.Linked) (hd : t.AtDepth depth id)
    (hfuel : t.nodes.size ≤ fuel + depth) :
    t.orderedWithin fuel id = (t.unfolding fuel id).orderedIds := by
  refine h.induct (P := fun fuel id =>
    t.orderedWithin fuel id = (t.unfolding fuel id).orderedIds) ?_ hd hfuel
  intro depth fuel id n _ _ hn ih
  rw [orderedWithin_succ hn, unfolding_succ hn, NestedTree.orderedIds, List.map_map]
  congr 1
  exact List.map_congr_left ih

theorem displays (h : t.Linked) (hd : t.AtDepth depth id) (hfuel : t.nodes.size ≤ fuel + depth) :
    t.Displays id (t.orderedWithin fuel id) := by
  refine h.induct (P := fun fuel id => t.Displays id (t.orderedWithin fuel id)) ?_ hd hfuel
  intro depth fuel id n _ _ hn ih
  rw [orderedWithin_succ hn]
  by_cases hb : ∃ lhs rhs, n.StandsBetween lhs rhs
  · obtain ⟨lhs, rhs, hb⟩ := hb
    have hmem (c : NodeId) : c ∈ n.children ↔ c = lhs ∨ c = rhs := by simp [hb.2]
    rw [arrange_of_standsBetween hb]
    exact .between hn hb (ih lhs ((hmem lhs).mpr (.inl rfl))) (ih rhs ((hmem rhs).mpr (.inr rfl)))
  · have hother : ∀ lhs rhs, ¬n.StandsBetween lhs rhs := fun lhs rhs hb' => hb ⟨lhs, rhs, hb'⟩
    rw [arrange_of_not_standsBetween hother]
    refine .before hn hother ?_
    rw [List.forall₂_map_right_iff, List.forall₂_same]
    exact ih

theorem mem_orderedWithin (h : t.Linked) (hd : t.AtDepth depth id)
    (hfuel : t.nodes.size ≤ fuel + depth) :
    x ∈ t.orderedWithin fuel id ↔ Relation.ReflTransGen t.Lists id x := by
  rw [h.orderedWithin hd hfuel, (NestedTree.orderedIds_perm _).mem_iff, h.mem_unfolding hd hfuel]

theorem orderedIds_perm (h : t.Linked) (honce : t.ListsOnce) (hspan : t.Spanned) :
    t.orderedIds.Perm t.nodes.keys := by
  have hfuel : t.nodes.size ≤ t.nodes.size + 1 + 0 := by omega
  have heq : t.orderedIds = (t.unfolding (t.nodes.size + 1) t.root).orderedIds :=
    h.orderedWithin .root hfuel
  have hperm := (t.unfolding (t.nodes.size + 1) t.root).orderedIds_perm
  rw [← heq] at hperm
  have hnodup := hperm.nodup_iff.mpr (h.nodup_unfolding honce .root hfuel)
  refine (List.perm_ext_iff_of_nodup hnodup t.nodes.nodup_keys).mpr fun id => ?_
  rw [orderedIds, h.mem_orderedWithin .root hfuel, SortedMap.mem_keys_iff]
  refine ⟨fun hreach => ?_, fun hid => hspan id hid⟩
  obtain ⟨depth, -, hd⟩ := AtDepth.root.of_reachable hreach
  exact h.contains hd

theorem orderedWithin_infix (h : t.Linked) (hd : t.AtDepth depth id) :
    t.orderedWithin (t.nodes.size + 1 - depth) id <:+: t.orderedIds := by
  induction hd with
  | root => exact List.infix_rfl
  | @child depth p id hd hl ih =>
    have hlt := h.depth_lt hd
    obtain ⟨n, hn, hc⟩ := hl
    have hfuel : t.nodes.size + 1 - depth = t.nodes.size + 1 - (depth + 1) + 1 := by omega
    rw [hfuel, orderedWithin_succ hn] at ih
    exact (Shape.infix_arrange (List.mem_map_of_mem hc)).trans ih

theorem exists_arrange_infix (h : t.Linked) (hd : t.AtDepth depth id) (hn : t.find? id = some n) :
    ∃ part : NodeId → List NodeId, n.shape.arrange id (n.children.map part) <:+: t.orderedIds ∧
      ∀ c ∈ n.children, ∀ x, Relation.ReflTransGen t.Lists c x → x ∈ part c := by
  have hlt := h.depth_lt hd
  have hinfix := h.orderedWithin_infix hd
  have hfuel : t.nodes.size + 1 - depth = t.nodes.size - depth + 1 := by omega
  rw [hfuel, orderedWithin_succ hn] at hinfix
  refine ⟨_, hinfix, fun c hc x hx => ?_⟩
  exact (h.mem_orderedWithin (.child hd ((lists_iff hn).mpr hc)) (by omega)).mpr hx

theorem sublist_between (h : t.Linked) (hd : t.AtDepth depth id) (hn : t.find? id = some n)
    (hb : n.StandsBetween lhs rhs) :
    (∀ x, Relation.ReflTransGen t.Lists lhs x → [x, id].Sublist t.orderedIds) ∧
      ∀ x, Relation.ReflTransGen t.Lists rhs x → [id, x].Sublist t.orderedIds := by
  obtain ⟨part, hinfix, hpart⟩ := h.exists_arrange_infix hd hn
  rw [arrange_of_standsBetween hb] at hinfix
  constructor
  · intro x hx
    have hleft := List.singleton_sublist.mpr (hpart lhs (by simp [hb.2]) x hx)
    have hself : [id].Sublist (id :: part rhs) := List.singleton_sublist.mpr List.mem_cons_self
    exact (hleft.append hself).trans hinfix.sublist
  · intro x hx
    have hright := List.singleton_sublist.mpr (hpart rhs (by simp [hb.2]) x hx)
    have hself := (hright.cons_cons id).trans (List.sublist_append_right (part lhs) _)
    exact hself.trans hinfix.sublist

theorem sublist_before (h : t.Linked) (hd : t.AtDepth depth id) (hn : t.find? id = some n)
    (hother : ∀ lhs rhs, ¬n.StandsBetween lhs rhs) (hx : Relation.TransGen t.Lists id x) :
    [id, x].Sublist t.orderedIds := by
  obtain ⟨part, hinfix, hpart⟩ := h.exists_arrange_infix hd hn
  rw [arrange_of_not_standsBetween hother] at hinfix
  obtain ⟨c, hl, hreach⟩ := Relation.TransGen.head'_iff.mp hx
  have hc := (lists_iff hn).mp hl
  have hbelow : x ∈ (n.children.map part).flatten :=
    List.mem_flatten.mpr ⟨part c, List.mem_map_of_mem hc, hpart c hc x hreach⟩
  exact ((List.singleton_sublist.mpr hbelow).cons_cons id).trans hinfix.sublist

end Linked

/-- What the walks through a tree have in common. Each also comes to an end: the recursion and the
climb without a bound on their levels, and the walk with a stack after finitely many steps. -/
structure TraversalsAgree (t : Tree) : Prop where
  ordered : t.orderedIds.Perm t.nodes.keys
  between : ∀ id n lhs rhs, t.find? id = some n → n.StandsBetween lhs rhs →
    (∀ x, Relation.ReflTransGen t.Lists lhs x → [x, id].Sublist t.orderedIds) ∧
      ∀ x, Relation.ReflTransGen t.Lists rhs x → [id, x].Sublist t.orderedIds
  before : ∀ id n, t.find? id = some n → (∀ lhs rhs, ¬n.StandsBetween lhs rhs) →
    ∀ x, Relation.TransGen t.Lists id x → [id, x].Sublist t.orderedIds
  nodup : ∀ id, t.contains id → (t.subtreeIds id).Nodup
  below : ∀ id, t.contains id → ∀ x, x ∈ t.subtreeIds id ↔ t.isAncestorOrSelf id x
  displays : t.Displays t.root t.orderedIds
  walks : ∀ id, ∃ steps, (Walk.step t)^[steps] (.start id) = ⟨[], t.subtreeIds id⟩
  climbs : ∀ id x, t.Climbs id x (t.isAncestorOrSelf id x)

theorem traversalsAgree_of_linked (h : t.Linked) (honce : t.ListsOnce) (hspan : t.Spanned) :
    t.TraversalsAgree where
  ordered := h.orderedIds_perm honce hspan
  between := by
    intro id n lhs rhs hn hb
    obtain ⟨depth, hd⟩ := hspan.exists_atDepth ((t.contains_iff id).mpr ⟨n, hn⟩)
    exact h.sublist_between hd hn hb
  before := by
    intro id n hn hother x hx
    obtain ⟨depth, hd⟩ := hspan.exists_atDepth ((t.contains_iff id).mpr ⟨n, hn⟩)
    exact h.sublist_before hd hn hother hx
  nodup := by
    intro id hid
    obtain ⟨depth, hd⟩ := hspan.exists_atDepth hid
    rw [h.subtreeIds hd]
    exact h.nodup_unfolding honce hd (by omega)
  below := by
    intro id hid x
    obtain ⟨depth, hd⟩ := hspan.exists_atDepth hid
    rw [h.subtreeIds hd, h.mem_unfolding hd (by omega), h.isAncestorOrSelf_iff hspan hid]
  displays := h.displays .root (by omega)
  walks := by
    intro id
    by_cases hid : t.contains id
    · exact ⟨_, h.iterate_step (hspan id hid)⟩
    · exact ⟨1, Walk.step_start_of_not_contains hid⟩
  climbs := h.climbs_isAncestorOrSelf hspan

theorem traversalsAgree_of_quotient :
    let t := ofExpr 1 (.binary .div none false
      (.aggregation .sum ⟨[], false⟩ none (.vectorSelector ⟨"a", [], .zero⟩))
      (.vectorSelector ⟨"b", [], .zero⟩))
    t.Linked ∧ t.ListsOnce ∧ t.Spanned ∧ t.TraversalsAgree ∧ t.orderedIds = [2, 1, 4, 3] ∧
      t.subtreeIds 2 = [2, 1] := by
  intro t
  have hf : t.Flattens _ := flattens_ofExpr 1 _
  exact ⟨hf.linked, hf.listsOnce, hf.spanned,
    traversalsAgree_of_linked hf.linked hf.listsOnce hf.spanned, by decide, by decide⟩

end Tree

end PromTree
