import PromTree.Proofs.Tree.LinkCheck

namespace PromTree

namespace Tree

variable {t t' : Tree} {parent : Option NodeId} {r s : NestedTree} {path : Position}
  {old n : TreeNode} {id next x : NodeId} {e : Expr}

theorem find?_root_ofExpr (next : NodeId) (e : Expr) :
    ∃ n, (ofExpr next e).find? (ofExpr next e).root = some n ∧ n.queryState = .running := by
  have hroot : (ofExpr next e).root = (NestedTree.number next e).top := (flattens_ofExpr next e).root
  rw [hroot]
  simp only [find?_ofExpr, NumberedNodes.entries_ofExpr]
  exact ⟨_, List.mem_append_right _ (List.mem_singleton.mpr rfl), rfl⟩

theorem find?_incoming_top (hid : id < next) (old : TreeNode) (e : Expr) :
    ∃ n, (incoming old id e next).find? id = some n ∧ n.id = id ∧ n.parent = old.parent ∧
      n.editMode = old.editMode ∧ n.queryState = .running := by
  obtain ⟨m, hm, hstate⟩ := find?_root_ofExpr next e
  have hne : id ≠ (ofExpr next e).root := by
    rintro rfl
    have hf := flattens_ofExpr next e
    exact not_mem_number hid e (hf.root ▸ NestedTree.top_mem_ids _)
  have hfind : ((ofExpr next e).rekeyRoot id).find? id = some { m with id } := by
    rw [rekeyRoot, if_neg hne, hm]
    simp only [find?, SortedMap.find?_insert, beq_self_eq_true, ↓reduceIte]
  refine ⟨{ m with id, parent := old.parent, editMode := old.editMode }, ?_, rfl, rfl, rfl, hstate⟩
  rw [incoming, find?_modify, if_pos rfl, hfind, Option.map_some]

theorem Depicts.ne_top_of_below (h : t.Depicts parent r) (hn : r.ids.Nodup)
    (hx : Relation.TransGen t.Lists r.top x) : x ≠ r.top := by
  cases h with
  | @node _ id shape children found below =>
    obtain ⟨n, hfind, hl⟩ := exists_find?_of_links? found
    have hc : n.children = children.map NestedTree.top := congrArg NodeLinks.children hl
    obtain ⟨child, ⟨m, hm, hmem⟩, hreach⟩ := Relation.TransGen.head'_iff.mp hx
    obtain rfl : n = m := Option.some.inj (hfind.symm.trans hm)
    rw [hc, List.mem_map] at hmem
    obtain ⟨c, hmem, rfl⟩ := hmem
    rintro rfl
    exact NestedTree.top_not_mem_child hn hmem ((below c hmem).mem_ids_iff.mpr hreach)

/-- The tree after an expression has been put in the place of a node, with numbers from `next` on. -/
structure ReplacedAt (t : Tree) (id : NodeId) (e : Expr) (next : NodeId) (t' : Tree) : Prop where
  linked : t'.linkError? = none
  ownsIds : t'.OwnsIds
  listsOnce : t'.ListsOnce
  root : t'.root = t.root
  top : ∃ n n', t.find? id = some n ∧ t'.find? id = some n' ∧ n'.id = n.id ∧
    n'.parent = n.parent ∧ n'.editMode = n.editMode ∧ n'.queryState = .running
  slot : ∀ p n (i : Nat), t.find? p = some n → n.children[i]? = some id →
    ∃ n', t'.find? p = some n' ∧ n'.children[i]? = some id
  expr : t'.exprAt id = .ok e
  gone : ∀ x, Relation.TransGen t.Lists id x → t'.find? x = none
  fresh : ∀ x, Relation.TransGen t'.Lists id x → next ≤ x ∧ x < next + e.size
  outside : ∀ x n, t.find? x = some n → ¬Relation.ReflTransGen t.Lists id x → t'.find? x = some n
  known : ∀ x, t'.contains x → t.contains x ∨ Relation.TransGen t'.Lists id x

structure Grafted (t : Tree) (r s : NestedTree) (path : Position) (e : Expr) (next : NodeId)
    (t' : Tree) : Prop where
  flattens : t.Flattens r
  place : r.subtree? path = some s
  lt : ∀ x, t.contains x → x < next
  result : t.replaceSubtree? s.top e next = some t'
  grafted : t'.Flattens (r.graft path (replacement s.top next e))

theorem Flattens.exists_grafted (h : t.Flattens r) (hs : r.subtree? path = some s)
    (hlt : ∀ x, t.contains x → x < next) (e : Expr) : ∃ t', t.Grafted r s path e next t' := by
  obtain ⟨t', ht, hf⟩ := h.replaceSubtree? hs (fun x hx => hlt x (h.depicts.contains hx)) e
  exact ⟨t', h, hs, hlt, ht, hf⟩

namespace Grafted

variable (g : t.Grafted r s path e next t')

include g

theorem depicts : ∃ parent, t.Depicts parent s := g.flattens.depicts.subtree? g.place

theorem place' : (r.graft path (replacement s.top next e)).subtree? path =
    some (replacement s.top next e) :=
  NestedTree.subtree?_graft_self g.place _

theorem depicts' : ∃ parent, t'.Depicts parent (replacement s.top next e) :=
  g.grafted.depicts.subtree? g.place'

theorem exists_find?_top : ∃ old, t.find? s.top = some old := by
  rw [← contains_iff, g.flattens.contains_iff_mem]
  exact NestedTree.top_mem_of_subtree? g.place

theorem top_lt : s.top < next := g.lt s.top ((t.contains_iff s.top).mpr g.exists_find?_top)

theorem mem_ids_iff : x ∈ s.ids ↔ Relation.ReflTransGen t.Lists s.top x := by
  obtain ⟨parent, hd⟩ := g.depicts
  exact hd.mem_ids_iff

theorem mem_replacement_iff :
    x ∈ (replacement s.top next e).ids ↔ Relation.ReflTransGen t'.Lists s.top x := by
  obtain ⟨parent, hd⟩ := g.depicts'
  rw [hd.mem_ids_iff, top_replacement]

theorem ne_top_of_below (hx : Relation.TransGen t.Lists s.top x) : x ≠ s.top := by
  obtain ⟨parent, hd⟩ := g.depicts
  exact hd.ne_top_of_below (NestedTree.nodup_of_subtree? g.place g.flattens.nodup) hx

theorem find?_eq : ∃ old, t.find? s.top = some old ∧ ∀ x, t'.find? x =
    ((incoming old s.top e next).find? x).or (if x ∈ s.ids then none else t.find? x) := by
  obtain ⟨old, hold⟩ := g.exists_find?_top
  obtain ⟨t'', ht, -, hfind⟩ := find?_replaceSubtree? hold e next
  obtain rfl : t' = t'' := Option.some.inj (g.result.symm.trans ht)
  rw [g.flattens.subtreeIds g.place] at hfind
  exact ⟨old, hold, hfind⟩

theorem find?_of_ne (hn : t.find? x = some n) (hne : x ≠ s.top) :
    t'.find? x = if x ∈ s.ids then none else some n := by
  obtain ⟨old, -, hfind⟩ := g.find?_eq
  have hx : x < next := g.lt x ((t.contains_iff x).mpr ⟨n, hn⟩)
  have hnone : (incoming old s.top e next).find? x = none := by
    rw [← Option.not_isSome_iff_eq_none]
    intro hc
    rcases lt_of_mem_replacement (mem_replacement_of_contains g.top_lt old e hc) with he | he
    · exact hne he
    · exact absurd hx (Nat.not_lt.mpr he.1)
  rw [hfind, hnone, Option.none_or, hn]

theorem root : t'.root = t.root := by
  rw [g.grafted.root, NestedTree.top_graft g.place (top_replacement s.top next e), g.flattens.root]

theorem top : ∃ n n', t.find? s.top = some n ∧ t'.find? s.top = some n' ∧ n'.id = n.id ∧
    n'.parent = n.parent ∧ n'.editMode = n.editMode ∧ n'.queryState = .running := by
  obtain ⟨old, hold, hfind⟩ := g.find?_eq
  obtain ⟨n, hn, hid, hp, hm, hq⟩ := find?_incoming_top g.top_lt old e
  refine ⟨old, n, hold, ?_, hid.trans (g.flattens.ownsIds s.top old hold).symm, hp, hm, hq⟩
  rw [hfind, hn, Option.some_or]

theorem outside (hn : t.find? x = some n) (hx : ¬Relation.ReflTransGen t.Lists s.top x) :
    t'.find? x = some n := by
  have hne : x ≠ s.top := fun he => hx (he ▸ .refl)
  rw [g.find?_of_ne hn hne, if_neg (g.mem_ids_iff.not.mpr hx)]

theorem slot {p : NodeId} {i : Nat} (hn : t.find? p = some n) (hi : n.children[i]? = some s.top) :
    ∃ n', t'.find? p = some n' ∧ n'.children[i]? = some s.top := by
  refine ⟨n, g.outside hn fun hx => ?_, hi⟩
  exact g.ne_top_of_below (.tail' hx ⟨n, hn, List.mem_of_getElem? hi⟩) rfl

theorem exprAt (he : e.IsValid) : t'.exprAt s.top = .ok e := by
  obtain ⟨parent, hd⟩ := g.depicts'
  obtain ⟨hw, hexpr⟩ := wellShaped_replacement he s.top next
  have hrebuilt := hd.exprWithin hw (g.grafted.size_subtree_le g.place')
  rwa [top_replacement, hexpr] at hrebuilt

theorem gone (hx : Relation.TransGen t.Lists s.top x) : t'.find? x = none := by
  have hmem := g.mem_ids_iff.mpr hx.to_reflTransGen
  have hc := (g.flattens.contains_iff_mem x).mpr (NestedTree.ids_subset_of_subtree? g.place hmem)
  obtain ⟨n, hn⟩ := (t.contains_iff x).mp hc
  rw [g.find?_of_ne hn (g.ne_top_of_below hx), if_pos hmem]

theorem fresh (hx : Relation.TransGen t'.Lists s.top x) : next ≤ x ∧ x < next + e.size := by
  obtain ⟨parent, hd⟩ := g.depicts'
  have hmem := g.mem_replacement_iff.mpr hx.to_reflTransGen
  refine (lt_of_mem_replacement hmem).resolve_left ?_
  rw [← top_replacement s.top next e] at hx
  have hne := hd.ne_top_of_below (NestedTree.nodup_of_subtree? g.place' g.grafted.nodup) hx
  rwa [top_replacement] at hne

theorem known (hx : t'.contains x) : t.contains x ∨ Relation.TransGen t'.Lists s.top x := by
  obtain ⟨before, after, hids, hgraft⟩ := NestedTree.ids_graft g.place
  have hmem := g.grafted.covered x hx
  rw [hgraft, List.mem_append, List.mem_append] at hmem
  rw [g.flattens.contains_iff_mem, hids, List.mem_append, List.mem_append]
  rcases hmem with (hmem | hmem) | hmem
  · exact .inl (.inl (.inl hmem))
  · rcases Relation.reflTransGen_iff_eq_or_transGen.mp (g.mem_replacement_iff.mp hmem) with rfl | hb
    · exact .inl (.inl (.inr s.top_mem_ids))
    · exact .inr hb
  · exact .inl (.inr hmem)

theorem replacedAt (he : e.IsValid) : t.ReplacedAt s.top e next t' where
  linked := g.grafted.linkError?_eq_none
  ownsIds := g.grafted.ownsIds
  listsOnce := g.grafted.listsOnce
  root := g.root
  top := g.top
  slot := fun _ _ _ hn hi => g.slot hn hi
  expr := g.exprAt he
  gone := fun _ hx => g.gone hx
  fresh := fun _ hx => g.fresh hx
  outside := fun _ _ hn hx => g.outside hn hx
  known := fun _ hx => g.known hx

end Grafted

/-- Replacing a subtree of a tree whose links agree touches that subtree only. The numbers that it
takes are meant to stay below `2 ^ 64`. -/
theorem replaceSubtree?_replacedAt (hown : t.OwnsIds) (hlinks : t.linkError? = none)
    (honce : t.ListsOnce) (hlt : ∀ x, t.contains x → x < next) (he : e.IsValid) (id : NodeId) :
    (t.contains id → ∃ t', t.replaceSubtree? id e next = some t' ∧ t.ReplacedAt id e next t') ∧
      (¬t.contains id → t.replaceSubtree? id e next = none) := by
  constructor
  · intro hid
    obtain ⟨hlinked, hspan⟩ := (linkError?_eq_none_iff_of_listsOnce hown honce).mp hlinks
    have hf := hlinked.flattens hown honce hspan
    obtain ⟨path, s, hs, rfl⟩ := hf.exists_subtree? hid
    obtain ⟨t', g⟩ := hf.exists_grafted hs hlt e
    exact ⟨t', g.result, g.replacedAt he⟩
  · intro hid
    rw [contains, SortedMap.contains, Option.not_isSome_iff_eq_none] at hid
    rw [replaceSubtree?, find?, hid]
    rfl

theorem replaceSubtree?_replacedAt_operand :
    let e : Expr := .unary .minus (.binary .add none false (.number "1") (.number "2"))
    let t := (ofExpr 1 e).setEditMode 3 .form
    t.OwnsIds ∧ t.linkError? = none ∧ t.ListsOnce ∧ (∀ x, t.contains x → x < 5) ∧
      (Expr.paren (.number "3")).IsValid ∧ t.contains 3 ∧
      ((t.contains 3 → ∃ t', t.replaceSubtree? 3 (.paren (.number "3")) 5 = some t' ∧
          t.ReplacedAt 3 (.paren (.number "3")) 5 t') ∧
        (¬t.contains 3 → t.replaceSubtree? 3 (.paren (.number "3")) 5 = none)) := by
  intro e t
  have hown : t.OwnsIds := by decide
  have hlinks : t.linkError? = none := by decide
  have honce : t.ListsOnce := by decide
  have hlt : ∀ x, t.contains x → x < 5 := by
    intro x hx
    rw [contains_setEditMode] at hx
    exact (NestedTree.mem_ids_number.mp ((flattens_ofExpr 1 e).covered x hx)).2
  have he : (Expr.paren (.number "3")).IsValid := by decide
  exact ⟨hown, hlinks, honce, hlt, he, by decide,
    replaceSubtree?_replacedAt hown hlinks honce hlt he 3⟩

end Tree

end PromTree
