import Mathlib.Logic.Function.Iterate
import PromTree.Proofs.Tree.Unfolding
import PromTree.Tree.Links
import PromTree.Tree.Numbering

/-!
What the link check finds out. The walk with which it looks for nodes that cannot be reached comes to an
end once all other links are in order. It counts a child as often as it is listed, so that a child that
is listed twice can stand in for a node that cannot be reached.
-/

namespace PromTree

/-- A walk in progress: the nodes to go to, the next one first, and the nodes seen so far. -/
structure Walk where
  stack : List NodeId
  seen : List NodeId

namespace Walk

def start (id : NodeId) : Walk := ⟨[id], []⟩

def step (t : Tree) (w : Walk) : Walk :=
  match w.stack with
  | [] => w
  | id :: stack =>
    match t.find? id with
    | none => ⟨stack, w.seen⟩
    | some n => ⟨n.children ++ stack, w.seen ++ [id]⟩

theorem step_cons {t : Tree} {id : NodeId} {n : TreeNode} (hn : t.find? id = some n)
    (stack seen : List NodeId) :
    step t ⟨id :: stack, seen⟩ = ⟨n.children ++ stack, seen ++ [id]⟩ := by
  simp only [step, hn]

theorem step_start_of_not_contains {t : Tree} {id : NodeId} (hid : ¬t.contains id) :
    step t (start id) = ⟨[], t.subtreeIds id⟩ := by
  simp [step, start, Tree.subtreeIds, Tree.subtreeWithin, Tree.find?_eq_none hid]

theorem iterate_step {t : Tree} {id : NodeId} {depth fuel : Nat} (h : t.Linked)
    (hd : t.AtDepth depth id) (hfuel : t.nodes.size ≤ fuel + depth) (stack seen : List NodeId) :
    (step t)^[(t.unfolding fuel id).size] ⟨id :: stack, seen⟩ =
      ⟨stack, seen ++ (t.unfolding fuel id).ids⟩ := by
  refine h.induct (P := fun fuel id => ∀ stack seen,
    (step t)^[(t.unfolding fuel id).size] ⟨id :: stack, seen⟩ =
      ⟨stack, seen ++ (t.unfolding fuel id).ids⟩) ?_ hd hfuel stack seen
  intro depth fuel id n _ _ hn ih stack seen
  have hall (cs : List NodeId) (hcs : ∀ c ∈ cs, c ∈ n.children) (seen : List NodeId) :
      (step t)^[(cs.map fun c => (t.unfolding fuel c).size).sum] ⟨cs ++ stack, seen⟩ =
        ⟨stack, seen ++ cs.flatMap fun c => (t.unfolding fuel c).ids⟩ := by
    induction cs generalizing seen with
    | nil => simp
    | cons c cs ihcs =>
      rw [List.map_cons, List.sum_cons, List.flatMap_cons, List.cons_append, Nat.add_comm,
        Function.iterate_add_apply, ih c (hcs c List.mem_cons_self),
        ihcs fun d hd => hcs d (List.mem_cons_of_mem c hd), List.append_assoc]
  rw [Tree.unfolding_succ hn, NestedTree.size_node, Function.iterate_succ_apply, step_cons hn,
    List.map_map, NestedTree.ids, List.flatMap_map]
  refine (hall n.children (fun c hc => hc) (seen ++ [id])).trans ?_
  rw [List.append_assoc, List.singleton_append]

end Walk

namespace Tree

variable {t : Tree} {r : NestedTree}

theorem Linked.iterate_step (h : t.Linked) {id : NodeId}
    (hid : Relation.ReflTransGen t.Lists t.root id) :
    (Walk.step t)^[(t.subtreeIds id).length] (.start id) = ⟨[], t.subtreeIds id⟩ := by
  obtain ⟨depth, -, hd⟩ := AtDepth.root.of_reachable hid
  rw [h.subtreeIds hd]
  exact Walk.iterate_step h hd (by omega) [] []

theorem childError?_eq_none_iff {parent child : NodeId} :
    t.childError? parent child = none ↔ ∃ n, t.find? child = some n ∧ n.parent = some parent := by
  rw [childError?]
  cases t.find? child <;> simp

theorem childrenError?_eq_none_iff (hown : t.OwnsIds) : t.childrenError? = none ↔
    ∀ id child, t.Lists id child → ∃ n, t.find? child = some n ∧ n.parent = some id := by
  simp only [childrenError?, List.findSome?_eq_none_iff, childError?_eq_none_iff]
  rw [forall_find?_iff fun _ n => ∀ child ∈ n.children,
    ∃ m, t.find? child = some m ∧ m.parent = some n.id]
  constructor
  · rintro h id child ⟨n, hn, hc⟩
    have hback := h id n hn child hc
    rwa [hown id n hn] at hback
  · intro h id n hn child hc
    rw [hown id n hn]
    exact h id child ⟨n, hn, hc⟩

theorem unreachable?_eq_none_iff : t.unreachable? = none ↔
    (t.subtreeIds t.root).length = t.nodes.size ∨ ∀ id, t.contains id → id ∈ t.subtreeIds t.root := by
  have hkeys (id : NodeId) : id ∈ t.nodes.keys ↔ t.contains id := t.nodes.mem_keys_iff id
  rw [unreachable?]
  split
  · next h => simp [h]
  · next h => simp [h, hkeys]

theorem linkError?_eq_of_root {n : TreeNode} (hn : t.find? t.root = some n) (hp : n.parent = none) :
    t.linkError? = t.childrenError?.or t.unreachable? := by
  simp [linkError?, hn, hp]

theorem exists_linkError? (hown : t.OwnsIds) (h : ¬t.Linked) :
    ∃ e, t.linkError? = some e ∧ ∀ id, e ≠ .unreachable id := by
  cases hn : t.find? t.root with
  | none => exact ⟨.missingRoot t.root, by simp [linkError?, hn], nofun⟩
  | some n =>
    cases hp : n.parent with
    | some p => exact ⟨.rootHasParent t.root, by simp [linkError?, hn, hp], nofun⟩
    | none =>
      have hback : t.childrenError? ≠ none := fun hnone =>
        h ⟨⟨n, hn, hp⟩, (childrenError?_eq_none_iff hown).mp hnone⟩
      obtain ⟨e, he⟩ := Option.ne_none_iff_exists'.mp hback
      refine ⟨e, by rw [linkError?_eq_of_root hn hp, he, Option.some_or], ?_⟩
      rintro id rfl
      obtain ⟨entry, -, he⟩ := List.exists_of_findSome?_eq_some he
      obtain ⟨child, -, he⟩ := List.exists_of_findSome?_eq_some he
      rw [childError?] at he
      split at he
      · cases he
      · split at he <;> cases he

theorem Linked.linkError?_eq (h : t.Linked) (hown : t.OwnsIds) : t.linkError? = t.unreachable? := by
  obtain ⟨n, hn, hp⟩ := h.root
  rw [linkError?_eq_of_root hn hp, (childrenError?_eq_none_iff hown).mpr h.linkedBack, Option.none_or]

theorem Linked.spanned_iff (h : t.Linked) :
    t.Spanned ↔ ∀ id, t.contains id → id ∈ t.subtreeIds t.root := by
  simp only [h.subtreeIds_root, h.mem_unfolded, Spanned]

theorem Linked.spanned_of_length (h : t.Linked) (hown : t.OwnsIds) (honce : t.ListsOnce)
    (hlen : (t.subtreeIds t.root).length = t.nodes.size) : t.Spanned := by
  rw [h.spanned_iff]
  rw [h.subtreeIds_root] at hlen ⊢
  have hsub : t.unfolded.ids ⊆ t.nodes.keys := fun x hx =>
    (t.nodes.mem_keys_iff x).mpr ((h.depicts_unfolded hown).contains hx)
  have hperm := ((h.nodup_unfolded honce).subperm hsub).perm_of_length_le (by
    rw [hlen, SortedMap.keys, List.length_map]
    rfl)
  intro id hid
  exact hperm.mem_iff.mpr ((t.nodes.mem_keys_iff id).mpr hid)

theorem linkError?_eq_none_iff (hown : t.OwnsIds) : t.linkError? = none ↔
    t.Linked ∧ (t.Spanned ∨ (t.subtreeIds t.root).length = t.nodes.size) := by
  by_cases h : t.Linked
  · rw [h.linkError?_eq hown, unreachable?_eq_none_iff, h.spanned_iff, or_comm]
    simp [h]
  · obtain ⟨e, he, -⟩ := exists_linkError? hown h
    simp [h, he]

theorem linkError?_eq_none_iff_of_listsOnce (hown : t.OwnsIds) (honce : t.ListsOnce) :
    t.linkError? = none ↔ t.Linked ∧ t.Spanned := by
  rw [linkError?_eq_none_iff hown]
  refine and_congr_right fun h => ⟨fun hs => ?_, Or.inl⟩
  exact hs.elim id (h.spanned_of_length hown honce)

theorem Flattens.linkError?_eq_none (h : t.Flattens r) : t.linkError? = none :=
  (linkError?_eq_none_iff h.ownsIds).mpr ⟨h.linked, .inl h.spanned⟩

structure LinksDecided (t : Tree) : Prop where
  ends : t.Linked →
    (Walk.step t)^[(t.subtreeIds t.root).length] (.start t.root) = ⟨[], t.subtreeIds t.root⟩
  endsEarly : ¬t.Linked → ∃ e, t.linkError? = some e ∧ ∀ id, e ≠ .unreachable id
  accepts : t.linkError? = none ↔
    t.Linked ∧ (t.Spanned ∨ (t.subtreeIds t.root).length = t.nodes.size)
  acceptsListedOnce : t.ListsOnce → (t.linkError? = none ↔ t.Linked ∧ t.Spanned)

theorem linksDecided_of_ownsIds (hown : t.OwnsIds) : t.LinksDecided where
  ends := fun h => h.iterate_step .refl
  endsEarly := exists_linkError? hown
  accepts := linkError?_eq_none_iff hown
  acceptsListedOnce := linkError?_eq_none_iff_of_listsOnce hown

theorem linksDecided_beside_loop :
    let t := (((ofExpr 1 (.binary .add none false (.number "1") (.number "2"))).setChildren 3
      [2]).setChildren 1 [1]).setParent 1 (some 1)
    t.OwnsIds ∧ t.Linked ∧ t.ListsOnce ∧ t.LinksDecided ∧ t.linkError? = some (.unreachable 1) := by
  intro t
  have hown : t.OwnsIds := by decide
  have herror : t.linkError? = some (.unreachable 1) := by decide
  refine ⟨hown, ?_, by decide, linksDecided_of_ownsIds hown, herror⟩
  by_contra h
  obtain ⟨e, he, hne⟩ := exists_linkError? hown h
  exact hne 1 (Option.some.inj (he.symm.trans herror))

/-- Listed twice, the first operand is counted in place of the second one, which nothing lists. -/
theorem not_spanned_of_operand_listed_twice :
    let t := (ofExpr 1 (.binary .add none false (.number "1") (.number "2"))).setChildren 3 [1, 1]
    t.OwnsIds ∧ ¬(t.linkError? = none ↔ t.Linked ∧ t.Spanned) := by
  intro t
  have hown : t.OwnsIds := by decide
  refine ⟨hown, fun h => ?_⟩
  obtain ⟨hlinked, hspan⟩ := h.mp (by decide)
  have hmem := hlinked.spanned_iff.mp hspan 2 (by decide)
  exact absurd hmem (by decide)

end Tree

end PromTree
