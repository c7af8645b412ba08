import PromTree.Proofs.Tree.Unfolding

namespace PromTree

namespace Tree

/-- A climb from a node in search of another one, which no number of steps cuts off. -/
inductive Climbs (t : Tree) (ancestor : NodeId) : NodeId → Bool → Prop where
  | found : Climbs t ancestor ancestor true
  | up {id parent : NodeId} {found : Bool} (other : id ≠ ancestor)
    (link : (t.find? id).bind TreeNode.parent = some parent) (rest : t.Climbs ancestor parent found) :
    Climbs t ancestor id found
  | ended {id : NodeId} (other : id ≠ ancestor)
    (noLink : (t.find? id).bind TreeNode.parent = none) : Climbs t ancestor id false

variable {t : Tree} {id x ancestor : NodeId} {depth fuel : Nat} {next : NodeId}

theorem climbs_of_parent {parent : NodeId} (link : (t.find? x).bind TreeNode.parent = some parent)
    (rest : t.Climbs ancestor parent (t.climbsWithin ancestor fuel parent)) :
    t.Climbs ancestor x (t.climbsWithin ancestor (fuel + 1) x) := by
  rw [climbsWithin, link, Option.any_some]
  by_cases hx : x = ancestor
  · rw [hx, beq_self_eq_true, Bool.true_or]
    exact .found
  · rw [beq_eq_false_iff_ne.mpr hx, Bool.false_or]
    exact .up hx link rest

theorem climbs_of_noParent (noLink : (t.find? x).bind TreeNode.parent = none) :
    t.Climbs ancestor x (t.climbsWithin ancestor (fuel + 1) x) := by
  rw [climbsWithin, noLink, Option.any_none, Bool.or_false]
  by_cases hx : x = ancestor
  · rw [hx, beq_self_eq_true]
    exact .found
  · rw [beq_eq_false_iff_ne.mpr hx]
    exact .ended hx noLink

theorem noParent_of_not_contains (hx : ¬t.contains x) :
    (t.find? x).bind TreeNode.parent = none := by
  rw [find?_eq_none hx, Option.bind_none]

namespace Linked

theorem parent_root (h : t.Linked) : (t.find? t.root).bind TreeNode.parent = none := by
  obtain ⟨n, hn, hp⟩ := h.root
  rw [hn, Option.bind_some, hp]

theorem parent_of_lists (h : t.Linked) (hl : t.Lists id x) :
    (t.find? x).bind TreeNode.parent = some id := by
  obtain ⟨n, hn, hp⟩ := h.linkedBack id x hl
  rw [hn, Option.bind_some, hp]

theorem climbs (h : t.Linked) (hd : t.AtDepth depth x) (hf : depth < fuel) (ancestor : NodeId) :
    t.Climbs ancestor x (t.climbsWithin ancestor fuel x) := by
  induction hd generalizing fuel with
  | root =>
    cases fuel with
    | zero => contradiction
    | succ fuel => exact climbs_of_noParent h.parent_root
  | child hd hl ih =>
    cases fuel with
    | zero => contradiction
    | succ fuel => exact climbs_of_parent (h.parent_of_lists hl) (ih (Nat.lt_of_succ_lt_succ hf))

theorem climbs_isAncestorOrSelf (h : t.Linked) (hspan : t.Spanned) (ancestor x : NodeId) :
    t.Climbs ancestor x (t.isAncestorOrSelf ancestor x) := by
  by_cases hx : t.contains x
  · obtain ⟨depth, hd⟩ := hspan.exists_atDepth hx
    exact h.climbs hd (Nat.lt_succ_of_lt (h.depth_lt hd)) ancestor
  · exact climbs_of_noParent (noParent_of_not_contains hx)

theorem reach_root_iff (h : t.Linked) :
    Relation.ReflTransGen t.Lists ancestor t.root ↔ t.root = ancestor := by
  rw [Relation.ReflTransGen.cases_tail_iff]
  exact or_iff_left fun ⟨_, _, hl⟩ => h.not_lists_root hl

theorem reach_child_iff (h : t.Linked) (hl : t.Lists id x) :
    Relation.ReflTransGen t.Lists ancestor x ↔
      x = ancestor ∨ Relation.ReflTransGen t.Lists ancestor id := by
  rw [Relation.ReflTransGen.cases_tail_iff]
  refine or_congr_right ⟨?_, fun hreach => ⟨id, hreach, hl⟩⟩
  rintro ⟨p, hreach, hl'⟩
  rwa [h.lister_unique hl hl']

theorem climbs_iff (h : t.Linked) (hd : t.AtDepth depth x) {found : Bool}
    (hc : t.Climbs ancestor x found) :
    found = true ↔ Relation.ReflTransGen t.Lists ancestor x := by
  induction hd with
  | root =>
    rw [h.reach_root_iff]
    cases hc with
    | found => simp
    | up other link rest => simp [h.parent_root] at link
    | ended other noLink => simp [other]
  | child hd hl ih =>
    rw [h.reach_child_iff hl]
    have hparent := h.parent_of_lists hl
    cases hc with
    | found => simp
    | up other link rest =>
      obtain rfl := Option.some.inj (hparent.symm.trans link)
      rw [ih rest, or_iff_right other]
    | ended other noLink => simp [hparent] at noLink

theorem contains_of_reach (h : t.Linked) (hid : t.contains ancestor)
    (hreach : Relation.ReflTransGen t.Lists ancestor x) : t.contains x := by
  rcases Relation.ReflTransGen.cases_tail hreach with rfl | ⟨p, -, hl⟩
  · exact hid
  · obtain ⟨n, hn, -⟩ := h.linkedBack p x hl
    exact (t.contains_iff x).mpr ⟨n, hn⟩

theorem isAncestorOrSelf_iff (h : t.Linked) (hspan : t.Spanned) (hid : t.contains ancestor) :
    t.isAncestorOrSelf ancestor x ↔ Relation.ReflTransGen t.Lists ancestor x := by
  by_cases hx : t.contains x
  · obtain ⟨depth, hd⟩ := hspan.exists_atDepth hx
    exact h.climbs_iff hd (h.climbs_isAncestorOrSelf hspan ancestor x)
  · have hne : x ≠ ancestor := fun he => hx (he ▸ hid)
    have hnone := noParent_of_not_contains hx
    refine iff_of_false ?_ (mt (h.contains_of_reach hid) hx)
    simp [isAncestorOrSelf, climbsWithin, hnone, hne]

end Linked

theorem IsIntact.isAncestorOrSelf_iff (h : t.IsIntact next) {ancestor id : NodeId}
    (hid : t.contains id) :
    t.isAncestorOrSelf ancestor id ↔ Relation.ReflTransGen t.Lists ancestor id := by
  obtain ⟨r, hr⟩ := h
  have hlinked := hr.flattens.linked
  have hspan := hr.flattens.spanned
  obtain ⟨depth, hd⟩ := hspan.exists_atDepth hid
  exact hlinked.climbs_iff hd (hlinked.climbs_isAncestorOrSelf hspan ancestor id)

end Tree

end PromTree
