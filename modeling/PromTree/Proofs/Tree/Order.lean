import Mathlib.Data.List.Flatten
import PromTree.Proofs.Tree.Soundness

namespace PromTree

namespace Shape

def leading : Shape → Nat → Nat
  | .binary .., 2 => 1
  | _, _ => 0

def arrange {α : Type} (shape : Shape) (self : α) (parts : List (List α)) : List α :=
  (parts.take (shape.leading parts.length)).flatten ++
    self :: (parts.drop (shape.leading parts.length)).flatten

end Shape

def Expr.orderedPositions (e : Expr) : List Position :=
  e.fold fun s parts => s.arrange [] (parts.mapIdx fun i paths => paths.map (i :: ·))

def NestedTree.orderedIds : NestedTree → List NodeId
  | node id shape children => shape.arrange id (children.map orderedIds)

namespace Shape

variable {α β : Type}

theorem leading_eq_zero_or (shape : Shape) (count : Nat) :
    shape.leading count = 0 ∨
      (∃ op matching returnBool, shape = .binary op matching returnBool) ∧ count = 2 := by
  fun_cases leading shape count with
  | case1 op matching returnBool => exact .inr ⟨⟨op, matching, returnBool, rfl⟩, rfl⟩
  | case2 => exact .inl rfl

theorem arrange_perm (shape : Shape) (self : α) (parts : List (List α)) :
    (shape.arrange self parts).Perm (self :: parts.flatten) := by
  have happend := congrArg List.flatten
    (List.take_append_drop (shape.leading parts.length) parts)
  rw [List.flatten_append] at happend
  rw [arrange, ← happend]
  exact List.perm_middle

theorem infix_arrange {shape : Shape} {self : α} {parts : List (List α)} {part : List α}
    (h : part ∈ parts) : part <:+: shape.arrange self parts := by
  rw [← List.take_append_drop (shape.leading parts.length) parts, List.mem_append] at h
  rcases h with h | h
  · exact (List.infix_of_mem_flatten h).trans (List.prefix_append _ _).isInfix
  · have hafter := (List.suffix_cons self (parts.drop (shape.leading parts.length)).flatten).isInfix
    exact ((List.infix_of_mem_flatten h).trans hafter).trans (List.suffix_append _ _).isInfix

theorem map_arrange (f : α → β) (shape : Shape) (self : α) (parts : List (List α)) :
    (shape.arrange self parts).map f = shape.arrange (f self) (parts.map (List.map f)) := by
  simp only [arrange, List.map_append, List.map_cons, List.map_flatten, List.length_map,
    List.map_take, List.map_drop]

theorem length_arrange (shape : Shape) (self : α) (parts : List (List α)) :
    (shape.arrange self parts).length = (parts.map List.length).sum + 1 := by
  rw [(shape.arrange_perm self parts).length_eq, List.length_cons, List.length_flatten]

end Shape

variable {t t' : Tree} {parent : Option NodeId} {r r' : NestedTree} {next next' : NodeId}
  {path : Position}

theorem Expr.orderedPositions_eq (e : Expr) :
    e.orderedPositions = e.shape.arrange [] ((e.children.map orderedPositions).mapIdx
      fun i paths => paths.map (i :: ·)) :=
  fold_eq _ e

theorem Expr.length_orderedPositions (e : Expr) : e.orderedPositions.length = e.size := by
  induction e with
  | node e ih =>
    rw [orderedPositions_eq, Shape.length_arrange, size_eq]
    congr 2
    refine List.ext_getElem (by simp) fun i hi hi' => ?_
    simp [ih _ (List.getElem_mem _)]

namespace NestedTree

theorem orderedIds_perm (r : NestedTree) : r.orderedIds.Perm r.ids := by
  induction r with
  | node id shape children ih =>
    rw [orderedIds, ids]
    refine (shape.arrange_perm id _).trans (.cons id ?_)
    rw [← List.flatMap_def]
    exact List.Perm.flatMap_left children ih

theorem map_orderedIds (h : r.WellShaped) :
    r.orderedIds.map some = r.expr.orderedPositions.map fun path => (r.subtree? path).map top := by
  induction r with
  | node id shape children ih =>
    have hshape := (Expr.shape_of_ofShape? h.ofShape?).1
    rw [orderedIds, Expr.orderedPositions_eq, h.children_expr, hshape, Shape.map_arrange,
      Shape.map_arrange]
    congr 1
    refine List.ext_getElem (by simp) fun i hi hi' => ?_
    simp only [List.length_map] at hi
    have hmem := List.getElem_mem hi
    simp only [List.getElem_map, List.getElem_mapIdx, List.map_map, Function.comp_apply]
    rw [ih _ hmem (h.of_mem hmem)]
    refine List.map_congr_left fun path _ => ?_
    simp only [Function.comp_apply, subtree?, NestedTree.children, List.getElem?_eq_getElem hi,
      Option.bind_some]

end NestedTree

namespace Tree

theorem orderedWithin_succ {n : TreeNode} {id : NodeId} (hn : t.find? id = some n)
    (fuel : Nat) :
    t.orderedWithin (fuel + 1) id = n.shape.arrange id (n.children.map (t.orderedWithin fuel)) := by
  rw [Tree.orderedWithin, hn]
  split
  · contradiction
  · rename_i heq
    obtain rfl := Option.some.inj heq
    simp [Shape.arrange, Shape.leading]
  · rename_i m hne heq
    obtain rfl := Option.some.inj heq
    have hleading : n.shape.leading n.children.length = 0 := by
      rcases n.shape.leading_eq_zero_or n.children.length with h | ⟨⟨op, m, b, hs⟩, hcount⟩
      · exact h
      · obtain ⟨lhs, rhs, hc⟩ := List.length_eq_two.mp hcount
        obtain ⟨id, parent, children, shape, queryState, editMode⟩ := n
        subst hc hs
        exact (hne _ _ _ _ _ _ _ _ _ rfl).elim
    simp [Shape.arrange, hleading, List.flatMap_def]

theorem Depicts.orderedWithin (h : t.Depicts parent r) {fuel : Nat} (hf : r.size ≤ fuel) :
    t.orderedWithin fuel r.top = r.orderedIds := by
  induction h generalizing fuel with
  | @node _ id shape children found below ih =>
    obtain ⟨n, hn, hl⟩ := exists_find?_of_links? found
    have hc : n.children = children.map NestedTree.top := congrArg NodeLinks.children hl
    have hs : n.shape = shape := congrArg NodeLinks.shape hl
    cases fuel with
    | zero => exact absurd hf (by rw [NestedTree.size_node]; omega)
    | succ fuel =>
      rw [NestedTree.top, orderedWithin_succ hn, NestedTree.orderedIds, hs, hc, List.map_map]
      congr 1
      refine List.map_congr_left fun c hmem => ih c hmem ?_
      have hlt := NestedTree.size_lt_of_mem id shape hmem
      omega

theorem Flattens.orderedIds (h : t.Flattens r) : t.orderedIds = r.orderedIds := by
  rw [Tree.orderedIds, h.root]
  exact h.depicts.orderedWithin (h.size_le.trans (Nat.le_succ _))

theorem Shows.map_orderedIds (h : t.Shows next r) :
    t.orderedIds.map some = r.expr.orderedPositions.map t.idAt? := by
  rw [h.flattens.orderedIds, NestedTree.map_orderedIds h.wellShaped]
  exact List.map_congr_left fun path _ => (h.flattens.idAt? path).symm

theorem Shows.length_orderedIds (h : t.Shows next r) : t.orderedIds.length = r.expr.size := by
  have hlen := congrArg List.length h.map_orderedIds
  rwa [List.length_map, List.length_map, Expr.length_orderedPositions] at hlen

theorem Shows.nodup_orderedIds (h : t.Shows next r) : t.orderedIds.Nodup := by
  rw [h.flattens.orderedIds, r.orderedIds_perm.nodup_iff]
  exact h.flattens.nodup

theorem Shows.mem_orderedIds (h : t.Shows next r) {id : NodeId} :
    id ∈ t.orderedIds ↔ t.contains id := by
  rw [h.flattens.orderedIds, r.orderedIds_perm.mem_iff, h.flattens.contains_iff_mem]

theorem Shows.exprAt_of_idAt? (h : t.Shows next r) {id : NodeId} (hid : t.idAt? path = some id) :
    ∃ e, r.expr.subterm? path = some e ∧ t.exprAt id = .ok e := by
  obtain ⟨q, hq, rfl⟩ := h.flattens.subtree?_of_idAt? hid
  exact ⟨q.expr, (h.wellShaped.subtree? hq).2, h.flattens.exprAt h.wellShaped hq⟩

theorem Shows.exists_shownAt (h : t.Shows next r) {k : Nat} {id : NodeId}
    (hid : t.orderedIds[k]? = some id) :
    ∃ path e, r.expr.orderedPositions[k]? = some path ∧ t.idAt? path = some id ∧
      r.expr.subterm? path = some e ∧ t.exprAt id = .ok e := by
  have hk := congrArg (·[k]?) h.map_orderedIds
  simp only [List.getElem?_map, hid, Option.map_some] at hk
  obtain ⟨path, hpath, hat⟩ := Option.map_eq_some_iff.mp hk.symm
  obtain ⟨e, hsub, hexpr⟩ := h.exprAt_of_idAt? hat
  exact ⟨path, e, hpath, hat, hsub, hexpr⟩

theorem Shows.exists_corresponding (h : t.Shows next r) (h' : t'.Shows next' r')
    (he : r.expr = r'.expr) {k : Nat} {id : NodeId} (hid : t.orderedIds[k]? = some id) :
    ∃ id' path, t'.orderedIds[k]? = some id' ∧ t.idAt? path = some id ∧ t'.idAt? path = some id' ∧
      t'.exprAt id' = t.exprAt id := by
  obtain ⟨hlt, -⟩ := List.getElem?_eq_some_iff.mp hid
  rw [h.length_orderedIds, he, ← h'.length_orderedIds] at hlt
  have hid' := List.getElem?_eq_getElem hlt
  obtain ⟨path, e, hpath, hat, hsub, hexpr⟩ := h.exists_shownAt hid
  obtain ⟨path', e', hpath', hat', hsub', hexpr'⟩ := h'.exists_shownAt hid'
  obtain rfl : path = path' := Option.some.inj (hpath.symm.trans (he ▸ hpath'))
  obtain rfl : e = e' := Option.some.inj (hsub.symm.trans (he ▸ hsub'))
  exact ⟨_, path, hid', hat, hat', hexpr'.trans hexpr.symm⟩

theorem Flattens.contains_root (h : t.Flattens r) : t.contains t.root := by
  rw [h.root]
  exact h.depicts.contains r.top_mem_ids

theorem contains_root (h : t.IsIntact next) : t.contains t.root := by
  obtain ⟨r, hr⟩ := h
  exact hr.flattens.contains_root

theorem contains_root_ofExpr (next : NodeId) (e : Expr) :
    (ofExpr next e).contains (ofExpr next e).root :=
  (flattens_ofExpr next e).contains_root

theorem length_orderedIds_ofExpr (next : NodeId) (e : Expr) :
    (ofExpr next e).orderedIds.length = e.size := by
  rw [(flattens_ofExpr next e).orderedIds, (NestedTree.orderedIds_perm _).length_eq]
  exact NestedTree.size_number next e

theorem contains_of_mem_orderedIds (h : t.IsIntact next) {id : NodeId} (hid : id ∈ t.orderedIds) :
    t.contains id := by
  obtain ⟨r, hr⟩ := h
  exact hr.mem_orderedIds.mp hid

end Tree

end PromTree
