import Mathlib.Algebra.Order.BigOperators.Group.List
import Mathlib.Algebra.Order.Group.Nat
import Mathlib.Data.List.Nodup
import PromTree.Proofs.Expr.Positions
import PromTree.Tree.Basic

/-!
Trees whose nodes have a number and hold their children. A flat tree is a picture of one, and an edit
of the flat tree is plain replacement of a subtree in it.
-/

namespace PromTree

inductive NestedTree where
  | node (id : NodeId) (shape : Shape) (children : List NestedTree)

namespace NestedTree

def top : NestedTree → NodeId
  | node id _ _ => id

def children : NestedTree → List NestedTree
  | node _ _ children => children

def ids : NestedTree → List NodeId
  | node id _ children => id :: children.flatMap ids

def size (r : NestedTree) : Nat := r.ids.length

inductive WellShaped : NestedTree → Prop where
  | intro {id : NodeId} {shape : Shape} {children : List NestedTree}
    (fits : shape.Fits children.length) (below : ∀ c ∈ children, c.WellShaped) :
    WellShaped (.node id shape children)

def expr : NestedTree → Expr
  | node _ shape children => (Expr.ofShape? shape (children.map expr)).getD .empty

@[induction_eliminator]
theorem induct {P : NestedTree → Prop}
    (node : ∀ id shape children, (∀ c ∈ children, P c) → P (.node id shape children)) : ∀ r, P r
  | .node id shape children => node id shape children fun c _ => induct node c

variable {id : NodeId} {shape : Shape} {children : List NestedTree} {r s c new : NestedTree}
  {path : Position}

theorem top_mem_ids (r : NestedTree) : r.top ∈ r.ids := by
  cases r with
  | node id shape children => simp [top, ids]

theorem size_node : (node id shape children).size = (children.map size).sum + 1 := by
  rw [size, ids, List.length_cons, List.length_flatMap]
  rfl

theorem size_lt_of_mem (id : NodeId) (shape : Shape) (h : c ∈ children) :
    c.size < (node id shape children).size := by
  have hle := List.le_sum_of_mem (List.mem_map_of_mem (f := size) h)
  rw [size_node]
  omega

theorem ids_subset_of_mem (h : c ∈ children) : c.ids ⊆ (node id shape children).ids := by
  intro x hx
  rw [ids]
  exact List.mem_cons_of_mem _ (List.mem_flatMap.mpr ⟨c, h, hx⟩)

theorem nodup_of_mem (hn : (node id shape children).ids.Nodup) (h : c ∈ children) :
    c.ids.Nodup := by
  rw [ids, List.nodup_cons] at hn
  exact (List.nodup_flatMap.mp hn.2).1 c h

theorem index_unique (hn : (node id shape children).ids.Nodup) {i j : Nat} {d : NestedTree}
    (hc : children[i]? = some c) (hd : children[j]? = some d) {x : NodeId} (hxc : x ∈ c.ids)
    (hxd : x ∈ d.ids) : i = j := by
  rw [ids, List.nodup_cons] at hn
  have hp := List.pairwise_iff_getElem.mp (List.nodup_flatMap.mp hn.2).2
  obtain ⟨hi, rfl⟩ := List.getElem?_eq_some_iff.mp hc
  obtain ⟨hj, rfl⟩ := List.getElem?_eq_some_iff.mp hd
  rcases Nat.lt_trichotomy i j with h | h | h
  · exact absurd hxd (hp i j hi hj h hxc)
  · exact h
  · exact absurd hxc (hp j i hj hi h hxd)

namespace WellShaped

theorem ofShape? (h : (node id shape children).WellShaped) :
    Expr.ofShape? shape (children.map expr) = some (node id shape children).expr := by
  cases h with
  | intro fits below =>
    have hf : shape.Fits (children.map expr).length := by rwa [List.length_map]
    obtain ⟨e, he⟩ := Expr.exists_ofShape? hf
    rw [expr, he]
    rfl

theorem isValid (h : r.WellShaped) : r.expr.IsValid := by
  induction h with
  | intro fits below ih =>
    apply Expr.isValid_of_ofShape? (intro fits below).ofShape?
    simpa using ih

theorem of_mem (h : (node id shape children).WellShaped) (hc : c ∈ children) : c.WellShaped := by
  cases h with
  | intro fits below => exact below c hc

theorem children_expr (h : (node id shape children).WellShaped) :
    (node id shape children).expr.children = children.map expr :=
  (Expr.shape_of_ofShape? h.ofShape?).2

end WellShaped

def subtree? : NestedTree → Position → Option NestedTree
  | r, [] => some r
  | r, i :: path => r.children[i]?.bind fun c => c.subtree? path

def graft : NestedTree → Position → NestedTree → NestedTree
  | _, [], new => new
  | node id shape children, i :: path, new =>
    node id shape (children.modify i fun c => c.graft path new)

theorem exists_child {i : Nat} (h : (node id shape children).subtree? (i :: path) = some s) :
    ∃ c, children[i]? = some c ∧ c.subtree? path = some s :=
  Option.bind_eq_some_iff.mp h

theorem subtree?_concat {i : Nat} (h : r.subtree? (path ++ [i]) = some s) :
    ∃ q, r.subtree? path = some q ∧ q.children[i]? = some s := by
  induction path generalizing r with
  | nil =>
    obtain ⟨c, hc, hs⟩ := Option.bind_eq_some_iff.mp h
    exact ⟨r, rfl, hc.trans hs⟩
  | cons j path ih =>
    cases r with
    | node id shape children =>
      obtain ⟨c, hc, hs⟩ := exists_child h
      obtain ⟨q, hq, hi⟩ := ih hs
      refine ⟨q, ?_, hi⟩
      rw [subtree?, NestedTree.children, hc]
      exact hq

theorem WellShaped.subtree? (h : r.WellShaped) (hs : r.subtree? path = some s) :
    s.WellShaped ∧ r.expr.subterm? path = some s.expr := by
  induction path generalizing r with
  | nil =>
    obtain rfl : r = s := Option.some.inj hs
    exact ⟨h, rfl⟩
  | cons i path ih =>
    cases r with
    | node id shape children =>
      obtain ⟨c, hc, hs⟩ := exists_child hs
      obtain ⟨hw, he⟩ := ih (h.of_mem (List.mem_of_getElem? hc)) hs
      refine ⟨hw, ?_⟩
      rw [Expr.subterm?, h.children_expr, List.getElem?_map, hc]
      exact he

theorem WellShaped.exists_subtree? (h : r.WellShaped) {e : Expr}
    (he : r.expr.subterm? path = some e) : ∃ s, r.subtree? path = some s := by
  induction path generalizing r with
  | nil => exact ⟨r, rfl⟩
  | cons i path ih =>
    cases r with
    | node id shape children =>
      obtain ⟨d, hd, he⟩ := Option.bind_eq_some_iff.mp he
      rw [h.children_expr, List.getElem?_map] at hd
      obtain ⟨c, hc, rfl⟩ := Option.map_eq_some_iff.mp hd
      obtain ⟨s, hs⟩ := ih (h.of_mem (List.mem_of_getElem? hc)) he
      refine ⟨s, ?_⟩
      rw [NestedTree.subtree?, NestedTree.children, hc]
      exact hs

theorem subtree?_append {path' : Position} {q : NestedTree} (hs : r.subtree? path = some s)
    (hq : r.subtree? (path ++ path') = some q) : s.subtree? path' = some q := by
  induction path generalizing r with
  | nil =>
    obtain rfl : r = s := Option.some.inj hs
    exact hq
  | cons i path ih =>
    cases r with
    | node id shape children =>
      obtain ⟨c, hc, hs⟩ := exists_child hs
      obtain ⟨d, hd, hq⟩ := exists_child hq
      obtain rfl : c = d := Option.some.inj (hc.symm.trans hd)
      exact ih hs hq

theorem exists_subtree? {x : NodeId} (h : x ∈ r.ids) :
    ∃ path s, r.subtree? path = some s ∧ s.top = x := by
  induction r with
  | node id shape children ih =>
    rw [ids, List.mem_cons, List.mem_flatMap] at h
    rcases h with rfl | ⟨c, hc, hx⟩
    · exact ⟨[], _, rfl, rfl⟩
    · obtain ⟨path, s, hs, ht⟩ := ih c hc hx
      obtain ⟨i, hi⟩ := List.getElem?_of_mem hc
      refine ⟨i :: path, s, ?_, ht⟩
      rw [subtree?, NestedTree.children, hi]
      exact hs

theorem eq_take_cons_drop {α : Type} {as : List α} {i : Nat} (h : i < as.length) :
    as = as.take i ++ as[i] :: as.drop (i + 1) := by
  rw [← List.drop_eq_getElem_cons h, List.take_append_drop]

theorem ids_graft (hs : r.subtree? path = some s) :
    ∃ before after, r.ids = before ++ s.ids ++ after ∧
      ∀ new, (r.graft path new).ids = before ++ new.ids ++ after := by
  induction path generalizing r with
  | nil =>
    obtain rfl : r = s := Option.some.inj hs
    exact ⟨[], [], by simp, fun new => by simp [graft]⟩
  | cons i path ih =>
    cases r with
    | node id shape children =>
      obtain ⟨c, hc, hs⟩ := exists_child hs
      obtain ⟨before, after, hids, hgraft⟩ := ih hs
      obtain ⟨hi, rfl⟩ := List.getElem?_eq_some_iff.mp hc
      refine ⟨id :: ((children.take i).flatMap ids ++ before),
        after ++ (children.drop (i + 1)).flatMap ids, ?_, fun new => ?_⟩
      · have hflat := congrArg (List.flatMap ids) (eq_take_cons_drop hi)
        rw [List.flatMap_append, List.flatMap_cons, hids] at hflat
        rw [ids, hflat]
        simp only [List.cons_append, List.append_assoc]
      · rw [graft, ids, List.modify_eq_take_cons_drop hi, List.flatMap_append, List.flatMap_cons,
          hgraft]
        simp only [List.cons_append, List.append_assoc]

theorem ids_subset_of_subtree? (hs : r.subtree? path = some s) : s.ids ⊆ r.ids := by
  obtain ⟨before, after, hids, -⟩ := ids_graft hs
  intro x hx
  rw [hids]
  simp [hx]

theorem nodup_of_subtree? (hs : r.subtree? path = some s) (hn : r.ids.Nodup) : s.ids.Nodup := by
  obtain ⟨before, after, hids, -⟩ := ids_graft hs
  rw [hids] at hn
  exact (List.nodup_append.mp (List.nodup_append.mp hn).1).2.1

theorem top_mem_of_subtree? (hs : r.subtree? path = some s) : s.top ∈ r.ids :=
  ids_subset_of_subtree? hs s.top_mem_ids

theorem top_not_mem_child (hn : (node id shape children).ids.Nodup) (h : c ∈ children) :
    id ∉ c.ids := by
  rw [ids, List.nodup_cons] at hn
  exact fun hm => hn.1 (List.mem_flatMap.mpr ⟨c, h, hm⟩)

theorem path_unique {path' : Position} {s' : NestedTree} (hn : r.ids.Nodup)
    (hs : r.subtree? path = some s) (hs' : r.subtree? path' = some s') (ht : s.top = s'.top) :
    path = path' := by
  induction path generalizing r path' with
  | nil =>
    obtain rfl : r = s := Option.some.inj hs
    cases path' with
    | nil => rfl
    | cons j path' =>
      cases r with
      | node id shape children =>
        obtain ⟨d, hd, hs'⟩ := exists_child hs'
        have hm := top_mem_of_subtree? hs'
        rw [← ht] at hm
        exact absurd hm (top_not_mem_child hn (List.mem_of_getElem? hd))
  | cons i path ih =>
    cases r with
    | node id shape children =>
      obtain ⟨c, hc, hs⟩ := exists_child hs
      have hm := top_mem_of_subtree? hs
      cases path' with
      | nil =>
        obtain rfl : node id shape children = s' := Option.some.inj hs'
        rw [ht] at hm
        exact absurd hm (top_not_mem_child hn (List.mem_of_getElem? hc))
      | cons j path' =>
        obtain ⟨d, hd, hs'⟩ := exists_child hs'
        -- children that have a node in common are one child
        obtain rfl : i = j := index_unique hn hc hd hm (ht ▸ top_mem_of_subtree? hs')
        obtain rfl : c = d := Option.some.inj (hc.symm.trans hd)
        rw [ih (nodup_of_mem hn (List.mem_of_getElem? hc)) hs hs']

theorem top_graft (hs : r.subtree? path = some s) (ht : new.top = s.top) :
    (r.graft path new).top = r.top := by
  cases path with
  | nil =>
    obtain rfl : r = s := Option.some.inj hs
    rw [graft, ht]
  | cons i path =>
    cases r with
    | node id shape children => rfl

theorem subtree?_graft {path' : Position} (h : ¬path <+: path') (h' : ¬path' <+: path) :
    (r.graft path new).subtree? path' = r.subtree? path' := by
  induction path generalizing r path' with
  | nil => exact absurd List.nil_prefix h
  | cons i path ih =>
    cases path' with
    | nil => exact absurd List.nil_prefix h'
    | cons j path' =>
      cases r with
      | node id shape children =>
        rw [List.cons_prefix_cons] at h h'
        rw [graft, subtree?, subtree?, NestedTree.children, NestedTree.children]
        by_cases hij : i = j
        · subst hij
          rw [List.getElem?_modify_eq]
          cases children[i]? with
          | none => rfl
          | some c => exact ih (fun hp => h ⟨rfl, hp⟩) (fun hp => h' ⟨rfl, hp⟩)
        · rw [List.getElem?_modify_ne _ _ hij]

theorem subtree?_graft_self (hs : r.subtree? path = some s) (new : NestedTree) :
    (r.graft path new).subtree? path = some new := by
  induction path generalizing r with
  | nil => rw [graft, subtree?]
  | cons i path ih =>
    cases r with
    | node id shape children =>
      obtain ⟨c, hc, hs⟩ := exists_child hs
      rw [graft, subtree?, NestedTree.children, List.getElem?_modify_eq, hc]
      exact ih hs

theorem map_modify_of_getElem? {α β : Type} {f : α → β} {g : α → α} {h : β → β} {as : List α}
    {i : Nat} {a : α} (ha : as[i]? = some a) (he : f (g a) = h (f a)) :
    (as.modify i g).map f = (as.map f).modify i h := by
  obtain ⟨hi, rfl⟩ := List.getElem?_eq_some_iff.mp ha
  rw [List.modify_eq_take_cons_drop hi, List.modify_eq_take_cons_drop (by simpa using hi)]
  simp [he]

theorem WellShaped.modify {i : Nat} {f : NestedTree → NestedTree}
    (h : (node id shape children).WellShaped) (hc : children[i]? = some c)
    (hf : (f c).WellShaped) : (node id shape (children.modify i f)).WellShaped := by
  cases h with
  | intro fits below =>
    obtain ⟨hi, rfl⟩ := List.getElem?_eq_some_iff.mp hc
    refine .intro (by rwa [List.length_modify]) fun d hd => ?_
    rw [List.modify_eq_take_cons_drop hi, List.mem_append, List.mem_cons] at hd
    rcases hd with hd | rfl | hd
    · exact below d (List.mem_of_mem_take hd)
    · exact hf
    · exact below d (List.mem_of_mem_drop hd)

theorem WellShaped.graft (h : r.WellShaped) (hs : r.subtree? path = some s)
    (hnew : new.WellShaped) :
    (r.graft path new).WellShaped ∧ (r.graft path new).expr = r.expr.replaceAt path new.expr := by
  induction path generalizing r with
  | nil =>
    rw [NestedTree.graft]
    exact ⟨hnew, rfl⟩
  | cons i path ih =>
    cases r with
    | node id shape children =>
      obtain ⟨c, hc, hs⟩ := exists_child hs
      obtain ⟨hw, he⟩ := ih (h.of_mem (List.mem_of_getElem? hc)) hs
      have hws := h.modify (f := fun c => c.graft path new) hc hw
      have ho := hws.ofShape?
      rw [map_modify_of_getElem? (h := fun e => e.replaceAt path new.expr) hc he,
        Expr.ofShape?_modify h.ofShape?] at ho
      exact ⟨hws, (Option.some.inj ho).symm⟩

end NestedTree

end PromTree
