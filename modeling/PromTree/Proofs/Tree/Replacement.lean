import PromTree.Proofs.Tree.Numbering
import PromTree.Tree.Edit

namespace PromTree

namespace NestedTree

def withTop (id : NodeId) : NestedTree → NestedTree
  | node _ shape children => node id shape children

variable {id : NodeId} {r s new : NestedTree} {path : Position}

@[simp]
theorem top_withTop (id : NodeId) (r : NestedTree) : (r.withTop id).top = id := by
  cases r with
  | node old shape children => rfl

theorem WellShaped.withTop (h : r.WellShaped) (id : NodeId) :
    (r.withTop id).WellShaped ∧ (r.withTop id).expr = r.expr := by
  cases h with
  | intro fits below => exact ⟨.intro fits below, by rw [NestedTree.withTop, expr, expr]⟩

theorem mem_ids_withTop {x : NodeId} (h : x ∈ (r.withTop id).ids) : x = id ∨ x ∈ r.ids := by
  cases r with
  | node old shape children =>
    rw [withTop, ids, List.mem_cons] at h
    exact h.imp_right fun hx => by rw [ids]; exact List.mem_cons_of_mem old hx

theorem nodup_withTop (hn : r.ids.Nodup) (hid : id ∉ r.ids) : (r.withTop id).ids.Nodup := by
  cases r with
  | node old shape children =>
    rw [ids, List.nodup_cons] at hn
    rw [ids, List.mem_cons, not_or] at hid
    rw [withTop, ids, List.nodup_cons]
    exact ⟨hid.2, hn.2⟩

theorem nodup_graft (hs : r.subtree? path = some s) (hn : r.ids.Nodup) (hnew : new.ids.Nodup)
    (hfresh : ∀ x ∈ new.ids, x ∈ r.ids → x ∈ s.ids) : (r.graft path new).ids.Nodup := by
  obtain ⟨before, after, hids, hgraft⟩ := ids_graft hs
  rw [hids] at hn hfresh
  rw [hgraft]
  simp only [List.nodup_append, List.mem_append] at hn hfresh ⊢
  obtain ⟨⟨hb, -, hbs⟩, ha, hsa⟩ := hn
  refine ⟨⟨hb, hnew, fun x hx y hy he => ?_⟩, ha, fun x hx y hy he => ?_⟩
  · subst he
    exact hbs x hx x (hfresh x hy (.inl (.inl hx))) rfl
  · subst he
    rcases hx with hx | hx
    · exact hsa x (.inl hx) x hy rfl
    · exact hsa x (.inr (hfresh x hx (.inr hy))) x hy rfl

end NestedTree

namespace Tree

variable {t t' : Tree} {parent : Option NodeId} {r s new : NestedTree} {path : Position}

theorem find?_erase (t : Tree) (id x : NodeId) :
    (t.erase id).find? x = if x = id then none else t.find? x := by
  rw [find?, erase, SortedMap.find?_erase]
  simp only [beq_iff_eq, find?]

theorem find?_modify (t : Tree) (id x : NodeId) (f : TreeNode → TreeNode) :
    (t.modify id f).find? x = if x = id then (t.find? x).map f else t.find? x := by
  rw [find?, modify, SortedMap.find?_modify]
  simp only [beq_iff_eq, find?]

theorem find?_foldl_erase (ids : List NodeId) (t : Tree) (x : NodeId) :
    (ids.foldl erase t).find? x = if x ∈ ids then none else t.find? x := by
  induction ids generalizing t with
  | nil => simp
  | cons id ids ih =>
    rw [List.foldl_cons, ih, find?_erase]
    by_cases hx : x ∈ ids
    · simp [hx]
    · simp [hx]

theorem find?_foldl_setParent (ids : List NodeId) (parent : Option NodeId) (t : Tree) (x : NodeId) :
    (ids.foldl (fun t id => t.setParent id parent) t).find? x =
      if x ∈ ids then (t.find? x).map fun n => { n with parent } else t.find? x := by
  induction ids generalizing t with
  | nil => simp
  | cons id ids ih =>
    rw [List.foldl_cons, ih, setParent, find?_modify]
    by_cases hid : x = id
    · by_cases hx : x ∈ ids <;> simp [hid, Function.comp_def]
    · simp [hid]

theorem links?_modify (t : Tree) (id x : NodeId) (f : TreeNode → TreeNode)
    (hf : ∀ n, (f n).links = n.links) : (t.modify id f).links? x = t.links? x := by
  rw [links?, links?, find?_modify]
  split
  · rw [Option.map_map]
    exact congrArg (Option.map · (t.find? x)) (funext hf)
  · rfl

theorem contains_eq (t : Tree) (x : NodeId) : t.contains x = (t.links? x).isSome := by
  rw [links?, Option.isSome_map]
  rfl

theorem contains_modify (t : Tree) (id x : NodeId) (f : TreeNode → TreeNode) :
    (t.modify id f).contains x = t.contains x := by
  change ((t.modify id f).find? x).isSome = (t.find? x).isSome
  rw [find?_modify]
  split
  · rw [Option.isSome_map]
  · rfl

theorem contains_setEditMode (t : Tree) (id : NodeId) (mode : EditMode) (x : NodeId) :
    (t.setEditMode id mode).contains x = t.contains x := contains_modify t id x _

theorem contains_setQueryState (t : Tree) (id : NodeId) (state : QueryState) (x : NodeId) :
    (t.setQueryState id state).contains x = t.contains x := contains_modify t id x _

theorem Flattens.congr (h : t.Flattens r) (hroot : t'.root = t.root)
    (hl : ∀ x, t'.links? x = t.links? x) : t'.Flattens r where
  root := hroot.trans h.root
  nodup := h.nodup
  depicts := h.depicts.congr fun x _ => hl x
  covered := by
    intro x hx
    rw [contains_eq, hl, ← contains_eq] at hx
    exact h.covered x hx

theorem Flattens.setEditMode (h : t.Flattens r) (id : NodeId) (mode : EditMode) :
    (t.setEditMode id mode).Flattens r :=
  h.congr rfl fun x => links?_modify t id x _ fun _ => rfl

theorem Flattens.setQueryState (h : t.Flattens r) (id : NodeId) (state : QueryState) :
    (t.setQueryState id state).Flattens r :=
  h.congr rfl fun x => links?_modify t id x _ fun _ => rfl

theorem Depicts.setParent (h : t.Depicts parent r) (hn : r.ids.Nodup) {parent' : Option NodeId}
    (htop : t'.links? r.top = (t.links? r.top).map fun l => { l with parent := parent' })
    (hl : ∀ x ∈ r.ids, x ≠ r.top → t'.links? x = t.links? x) : t'.Depicts parent' r := by
  cases h with
  | @node _ id shape children found below =>
    refine .node ?_ fun c hc => (below c hc).congr fun x hx => ?_
    · rw [NestedTree.top] at htop
      rw [htop, found]
      rfl
    · apply hl x (NestedTree.ids_subset_of_mem hc hx)
      rintro rfl
      exact NestedTree.top_not_mem_child hn hc hx

theorem links?_rekeyRoot {n : TreeNode} (hn : t.find? t.root = some n) {id : NodeId}
    (hid : id ≠ t.root) (x : NodeId) :
    (t.rekeyRoot id).links? x =
      if x = id then some { n.links with id }
      else if x = t.root then none
      else if x ∈ n.children then (t.links? x).map fun l => { l with parent := some id }
      else t.links? x := by
  have hx : (t.rekeyRoot id).find? x = if x = id then some { n with id }
      else (n.children.foldl (fun t c => t.setParent c (some id)) (t.erase t.root)).find? x := by
    rw [rekeyRoot, if_neg hid, hn]
    simp only [find?, SortedMap.find?_insert, beq_iff_eq]
  rw [links?, hx, find?_foldl_setParent, find?_erase]
  by_cases h₁ : x = id
  · rw [if_pos h₁, if_pos h₁]
    rfl
  · by_cases h₂ : x = t.root
    · simp [h₂, Ne.symm hid]
    · simp only [h₁, h₂, ↓reduceIte, links?]
      split
      · rw [Option.map_map, Option.map_map]
        rfl
      · rfl

theorem Flattens.rekeyRoot (h : t.Flattens r) {id : NodeId} (hid : id ∉ r.ids) :
    (t.rekeyRoot id).Flattens (r.withTop id) := by
  have hroot := h.root
  have hn := h.nodup
  have hcov := h.covered
  cases h.depicts with
  | @node _ old shape children found below =>
    rw [NestedTree.top] at hroot
    obtain ⟨n, hfind, hnl⟩ := exists_find?_of_links? found
    have hne : id ≠ t.root := fun he => hid (hroot ▸ he ▸ NestedTree.top_mem_ids _)
    have hlinks := links?_rekeyRoot (hroot ▸ hfind) hne
    have hch : n.children = children.map NestedTree.top := congrArg NodeLinks.children hnl
    rw [hch, hnl] at hlinks
    -- below the root neither the old number nor the new one comes up
    have hold {c : NestedTree} (hc : c ∈ children) {x : NodeId} (hx : x ∈ c.ids) :
        x ≠ id ∧ x ≠ t.root := by
      constructor
      · rintro rfl
        exact hid (NestedTree.ids_subset_of_mem hc hx)
      · rw [hroot]
        rintro rfl
        exact NestedTree.top_not_mem_child hn hc hx
    refine ⟨?_, NestedTree.nodup_withTop hn hid, .node ?_ fun c hc => ?_, fun x hx => ?_⟩
    · rw [NestedTree.top_withTop, Tree.rekeyRoot, if_neg hne]
      rw [hroot, hfind]
    · rw [hlinks, if_pos rfl]
    · apply (below c hc).setParent (NestedTree.nodup_of_mem hn hc)
      · obtain ⟨h₁, h₂⟩ := hold hc c.top_mem_ids
        rw [hlinks, if_neg h₁, if_neg h₂, if_pos (List.mem_map_of_mem hc)]
      · intro x hx hxc
        obtain ⟨h₁, h₂⟩ := hold hc hx
        rw [hlinks, if_neg h₁, if_neg h₂, if_neg]
        -- the tops of the other children are not below this one
        intro hm
        obtain ⟨d, hd, rfl⟩ := List.mem_map.mp hm
        obtain ⟨i, hi⟩ := List.getElem?_of_mem hc
        obtain ⟨j, hj⟩ := List.getElem?_of_mem hd
        obtain rfl := NestedTree.index_unique hn hi hj hx d.top_mem_ids
        exact hxc (congrArg NestedTree.top (Option.some.inj (hj.symm.trans hi)))
    · rw [contains_eq, hlinks] at hx
      rw [NestedTree.withTop, NestedTree.ids, List.mem_cons]
      by_cases h₁ : x = id
      · exact .inl h₁
      · by_cases h₂ : x = t.root
        · rw [if_neg h₁, if_pos h₂] at hx
          contradiction
        · have hs : (t.links? x).isSome := by
            rw [if_neg h₁, if_neg h₂] at hx
            split at hx
            · rwa [Option.isSome_map] at hx
            · exact hx
          have hm := hcov x (contains_eq t x ▸ hs)
          rw [NestedTree.ids, List.mem_cons, ← hroot] at hm
          exact .inr (hm.resolve_left h₂)

theorem Depicts.graft (h : t.Depicts parent r) (hn : r.ids.Nodup) (hs : r.subtree? path = some s)
    (ht : new.top = s.top) (hnew : ∀ p, t.Depicts p s → t'.Depicts p new)
    (hold : ∀ x ∈ r.ids, x ∉ s.ids → t'.links? x = t.links? x) :
    t'.Depicts parent (r.graft path new) := by
  induction path generalizing r parent with
  | nil =>
    obtain rfl : r = s := Option.some.inj hs
    rw [NestedTree.graft]
    exact hnew parent h
  | cons i path ih =>
    cases h with
    | @node _ id shape children found below =>
      obtain ⟨c, hc, hs⟩ := NestedTree.exists_child hs
      have hmem := List.mem_of_getElem? hc
      have hsub := NestedTree.ids_subset_of_subtree? hs
      refine .node ?_ fun d hd => ?_
      · have htops := NestedTree.map_modify_of_getElem? (f := NestedTree.top)
          (g := fun c => c.graft path new) (h := fun x => x) hc (NestedTree.top_graft hs ht)
        have hsame : (children.map NestedTree.top).modify i (fun x => x) = children.map NestedTree.top :=
          List.modify_id i _
        rw [htops, hsame, ← found]
        exact hold id (NestedTree.top_mem_ids _)
          fun hm => NestedTree.top_not_mem_child hn hmem (hsub hm)
      · obtain ⟨j, hj⟩ := List.getElem?_of_mem hd
        by_cases hij : i = j
        · subst hij
          rw [List.getElem?_modify_eq, hc] at hj
          obtain rfl := Option.some.inj hj
          exact ih (below c hmem) (NestedTree.nodup_of_mem hn hmem) hs
            fun x hx => hold x (NestedTree.ids_subset_of_mem hmem hx)
        · rw [List.getElem?_modify_ne _ _ hij] at hj
          have hd := List.mem_of_getElem? hj
          refine (below d hd).congr fun x hx => hold x (NestedTree.ids_subset_of_mem hd hx) ?_
          exact fun hm => hij (NestedTree.index_unique hn hc hj (hsub hm) hx)

def replacement (id next : NodeId) (e : Expr) : NestedTree := (NestedTree.number next e).withTop id

theorem top_replacement (id next : NodeId) (e : Expr) : (replacement id next e).top = id :=
  NestedTree.top_withTop id _

theorem lt_of_mem_replacement {id next x : NodeId} {e : Expr}
    (hx : x ∈ (replacement id next e).ids) :
    x = id ∨ next ≤ x ∧ x < next + e.size :=
  (NestedTree.mem_ids_withTop hx).imp_right NestedTree.mem_ids_number.mp

theorem not_mem_number {id next : NodeId} (hid : id < next) (e : Expr) :
    id ∉ (NestedTree.number next e).ids := by
  intro hm
  exact absurd hid (Nat.not_lt.mpr (NestedTree.mem_ids_number.mp hm).1)

def incoming (old : TreeNode) (id : NodeId) (e : Expr) (next : NodeId) : Tree :=
  ((ofExpr next e).rekeyRoot id).modify id fun n =>
    { n with parent := old.parent, editMode := old.editMode }

variable {old : TreeNode} {id next x : NodeId}

theorem mem_replacement_of_contains (hid : id < next) (old : TreeNode) (e : Expr)
    (hx : (incoming old id e next).contains x) : x ∈ (replacement id next e).ids := by
  rw [incoming, contains_modify] at hx
  exact ((flattens_ofExpr next e).rekeyRoot (not_mem_number hid e)).covered x hx

theorem links?_incoming (old : TreeNode) (id : NodeId) (e : Expr) (next x : NodeId) :
    (incoming old id e next).links? x = if x = id then
      (((ofExpr next e).rekeyRoot id).links? x).map fun l => { l with parent := old.parent }
    else ((ofExpr next e).rekeyRoot id).links? x := by
  simp only [links?, incoming, find?_modify]
  split
  · rw [Option.map_map, Option.map_map]
    rfl
  · rfl

theorem depicts_incoming (hid : id < next) (old : TreeNode) (e : Expr) :
    (incoming old id e next).Depicts old.parent (replacement id next e) := by
  have hadd := (flattens_ofExpr next e).rekeyRoot (not_mem_number hid e)
  apply hadd.depicts.setParent hadd.nodup
  · change (incoming old id e next).links? (replacement id next e).top =
      (((ofExpr next e).rekeyRoot id).links? (replacement id next e).top).map _
    rw [top_replacement, links?_incoming, if_pos rfl]
  · intro x hx hne
    change x ≠ (replacement id next e).top at hne
    rw [top_replacement] at hne
    rw [links?_incoming, if_neg hne]

theorem find?_replaceSubtree? (hold : t.find? id = some old) (e : Expr) (next : NodeId) :
    ∃ t', t.replaceSubtree? id e next = some t' ∧ t'.root = t.root ∧
      ∀ x, t'.find? x = ((incoming old id e next).find? x).or
        (if x ∈ t.subtreeIds id then none else t.find? x) := by
  let rest := (t.subtreeIds id).foldl erase t
  refine ⟨⟨rest.nodes.union (incoming old id e next).nodes, t.root⟩, ?_, rfl, fun x => ?_⟩
  · rw [Tree.replaceSubtree?, hold]
    rfl
  · rw [← find?_foldl_erase]
    exact SortedMap.find?_union _ _ x

theorem Flattens.replaceSubtree? (h : t.Flattens r) (hs : r.subtree? path = some s) {next : NodeId}
    (hnext : ∀ x ∈ r.ids, x < next) (e : Expr) :
    ∃ t', t.replaceSubtree? s.top e next = some t' ∧
      t'.Flattens (r.graft path (replacement s.top next e)) := by
  have hid : s.top < next := hnext s.top (NestedTree.top_mem_of_subtree? hs)
  have htop := top_replacement s.top next e
  obtain ⟨old, hold⟩ := (t.contains_iff s.top).mp
    (h.depicts.contains (NestedTree.top_mem_of_subtree? hs))
  obtain ⟨t', ht', hroot, hfind⟩ := find?_replaceSubtree? hold e next
  -- what comes in counts first, and then what is outside of the subtree
  have hlinks (x : NodeId) : t'.links? x = ((incoming old s.top e next).links? x).or
      (if x ∈ s.ids then none else t.links? x) := by
    rw [links?, hfind, h.subtreeIds hs, links?, links?]
    cases (incoming old s.top e next).find? x with
    | some n => rfl
    | none => split <;> rfl
  -- all that comes in has a new number, but for the top, which takes that of the subtree
  have hfresh : ∀ x ∈ (replacement s.top next e).ids, x ∈ r.ids → x ∈ s.ids := by
    intro x hx hr
    rcases lt_of_mem_replacement hx with rfl | hx
    · exact s.top_mem_ids
    · exact absurd (hnext x hr) (Nat.not_lt.mpr hx.1)
  have hnew (x : NodeId) (hx : x ∈ (replacement s.top next e).ids) :
      t'.links? x = (incoming old s.top e next).links? x := by
    have hc := (depicts_incoming hid old e).contains hx
    rw [contains_eq, Option.isSome_iff_exists] at hc
    obtain ⟨l, hl⟩ := hc
    rw [hlinks, hl, Option.some_or]
  refine ⟨t', ht', ?_, ?_, ?_, ?_⟩
  · rw [hroot, h.root, NestedTree.top_graft hs htop]
  · apply NestedTree.nodup_graft hs h.nodup _ hfresh
    exact NestedTree.nodup_withTop (NestedTree.nodup_ids_number next e) (not_mem_number hid e)
  · apply h.depicts.graft h.nodup hs htop
    · intro p hp
      obtain ⟨l, hl, rfl⟩ := hp.links?
      obtain rfl : old.links = l := by
        rw [links?, hold] at hl
        exact Option.some.inj hl
      exact (depicts_incoming hid old e).congr hnew
    · intro x hx hxs
      have hnone : (incoming old s.top e next).links? x = none := by
        rw [← Option.not_isSome_iff_eq_none, ← contains_eq]
        exact fun hc => hxs (hfresh x (mem_replacement_of_contains hid old e hc) hx)
      rw [hlinks, hnone, if_neg hxs, Option.none_or]
  · intro x hx
    obtain ⟨before, after, hids, hgraft⟩ := NestedTree.ids_graft hs
    rw [contains_eq, hlinks, Option.isSome_or, ← contains_eq, Bool.or_eq_true] at hx
    rw [hgraft]
    simp only [List.mem_append]
    rcases hx with hx | hx
    · exact .inl (.inr (mem_replacement_of_contains hid old e hx))
    · split at hx
      · contradiction
      · rename_i hxs
        have hm := h.covered x (contains_eq t x ▸ hx)
        rw [hids] at hm
        simp only [List.mem_append, hxs, or_false] at hm
        exact hm.imp_left .inl

end Tree

end PromTree
