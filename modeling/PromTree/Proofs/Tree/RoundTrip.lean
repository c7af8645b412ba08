import PromTree.Proofs.Tree.LinkCheck

namespace PromTree

mutual

/-- The nodes of an expression take their numbers from a counter: those of its children do from left to
right, and then its own. What is left is the next number. -/
inductive TakesNumbers : NodeId → Expr → NestedTree → NodeId → Prop where
  | node {first next : NodeId} {e : Expr} {children : List NestedTree}
    (below : TakeNumbers first e.children children next) :
    TakesNumbers first e (.node next e.shape children) (next + 1)

inductive TakeNumbers : NodeId → List Expr → List NestedTree → NodeId → Prop where
  | nil {first : NodeId} : TakeNumbers first [] [] first
  | cons {first between next : NodeId} {e : Expr} {es : List Expr} {r : NestedTree}
    {rs : List NestedTree} (head : TakesNumbers first e r between)
    (tail : TakeNumbers between es rs next) : TakeNumbers first (e :: es) (r :: rs) next

end

def Tree.Misfits (t : Tree) (fault : Tree.Fault) : Prop :=
  ∃ id n expected, t.find? id = some n ∧ n.shape.arity? = some expected ∧
    n.children.length ≠ expected ∧ fault = .wrongArity n.shape id n.children.length expected

namespace NestedTree

variable {first : NodeId} {e : Expr} {s c : NestedTree} {path : Position}

theorem takesNumbers_number (first : NodeId) (e : Expr) :
    TakesNumbers first e (number first e) (first + e.size) := by
  induction e generalizing first with
  | node e ih =>
    have hall (es : List Expr) (hes : ∀ c ∈ es, c ∈ e.children) (first : NodeId) :
        TakeNumbers first es (numberAll first es) (first + (es.map Expr.size).sum) := by
      induction es generalizing first with
      | nil => exact .nil
      | cons c es ihes =>
        rw [numberAll_cons, List.map_cons, List.sum_cons, ← Nat.add_assoc, size_number]
        exact .cons (ih c (hes c List.mem_cons_self) first)
          (ihes (fun d hd => hes d (List.mem_cons_of_mem c hd)) _)
    rw [number_eq, sum_size_number, Expr.size_eq, ← Nat.add_assoc]
    exact .node (hall e.children (fun c hc => hc) first)

theorem exists_of_mem_numberAll {es : List Expr} (h : c ∈ numberAll first es) :
    ∃ first' e, e ∈ es ∧ c = number first' e := by
  induction es generalizing first with
  | nil => exact absurd h List.not_mem_nil
  | cons e es ih =>
    rw [numberAll_cons, List.mem_cons] at h
    rcases h with rfl | h
    · exact ⟨first, e, List.mem_cons_self, rfl⟩
    · obtain ⟨first', d, hd, rfl⟩ := ih h
      exact ⟨first', d, List.mem_cons_of_mem e hd, rfl⟩

theorem exists_of_mem_children {d : Expr} {es : List Expr} (h : d ∈ es) (first : NodeId) :
    ∃ first', number first' d ∈ numberAll first es := by
  induction es generalizing first with
  | nil => exact absurd h List.not_mem_nil
  | cons e es ih =>
    rw [numberAll_cons]
    rcases List.mem_cons.mp h with rfl | h
    · exact ⟨first, List.mem_cons_self⟩
    · obtain ⟨first', hm⟩ := ih h _
      exact ⟨first', List.mem_cons_of_mem _ hm⟩

theorem exists_eq_number (hs : (number first e).subtree? path = some s) :
    ∃ first' d, s = number first' d := by
  induction path generalizing first e with
  | nil => exact ⟨first, e, (Option.some.inj hs).symm⟩
  | cons i path ih =>
    rw [number_eq] at hs
    obtain ⟨c, hc, hs⟩ := exists_child hs
    obtain ⟨first', d, -, rfl⟩ := exists_of_mem_numberAll (List.mem_of_getElem? hc)
    exact ih hs

theorem le_top_number {x : NodeId} (h : x ∈ (number first e).ids) : x ≤ (number first e).top := by
  rw [top_number]
  exact Nat.le_sub_one_of_lt (mem_ids_number.mp h).2

theorem wellShaped_number_iff : (number first e).WellShaped ↔ e.IsValid := by
  refine ⟨fun h => ?_, fun h => (WellShaped.number h first).1⟩
  induction e generalizing first with
  | node e ih =>
    rw [number_eq] at h
    rw [Expr.isValid_iff]
    constructor
    · cases h with
      | intro fits below => rwa [length_numberAll] at fits
    · intro d hd
      obtain ⟨first', hm⟩ := exists_of_mem_children hd first
      exact ih d hd (h.of_mem hm)

end NestedTree

namespace Tree

variable {t : Tree} {parent : Option NodeId} {r : NestedTree} {first id x : NodeId} {e : Expr}

theorem lt_of_lists_ofExpr (hl : (ofExpr first e).Lists id x) : x < id := by
  have hf := flattens_ofExpr first e
  obtain ⟨n, hn, hx⟩ := hl
  obtain ⟨path, s, parent, hs, rfl, -, -, hc⟩ := hf.exists_depicts hn
  obtain ⟨first', d, rfl⟩ := NestedTree.exists_eq_number hs
  rw [hc, List.mem_map] at hx
  obtain ⟨c, hmem, rfl⟩ := hx
  have hnodup := NestedTree.nodup_ids_number first' d
  have hle : c.top ≤ (NestedTree.number first' d).top := by
    apply NestedTree.le_top_number
    rw [NestedTree.number_eq] at hmem ⊢
    exact NestedTree.ids_subset_of_mem hmem c.top_mem_ids
  refine Nat.lt_of_le_of_ne hle fun he => ?_
  have hm := c.top_mem_ids
  rw [NestedTree.number_eq] at hmem hnodup he
  rw [he] at hm
  exact NestedTree.top_not_mem_child hnodup hmem hm

theorem lt_of_below_ofExpr (h : Relation.TransGen (ofExpr first e).Lists id x) : x < id := by
  induction h with
  | single hl => exact lt_of_lists_ofExpr hl
  | tail _ hl ih => exact (lt_of_lists_ofExpr hl).trans ih

theorem assemble_misfit {n : TreeNode} (hn : t.find? id = some n) (hid : n.id = id)
    {es : List Expr} (hlen : es.length = n.children.length)
    (hfits : ¬n.shape.Fits n.children.length) :
    ∃ fault, assemble n.id n.shape es = .error fault ∧ t.Misfits fault := by
  obtain ⟨expected, harity, hne⟩ : ∃ k, n.shape.arity? = some k ∧ n.children.length ≠ k := by
    simpa only [Shape.Fits, not_forall, exists_prop] using hfits
  have hnone : Expr.ofShape? n.shape es = none := by
    rw [Option.eq_none_iff_forall_ne_some]
    exact fun e he => hfits (hlen ▸ Expr.fits_of_ofShape? he)
  refine ⟨_, by rw [assemble, hnone], id, n, expected, hn, harity, hne, ?_⟩
  rw [hid, hlen, harity, Option.getD_some]

theorem mapM_misfit {f : NodeId → Except Fault Expr} {children : List NestedTree}
    (hok : ∀ c ∈ children, c.WellShaped → f c.top = .ok c.expr)
    (hfault : ∀ c ∈ children, ¬c.WellShaped → ∃ fault, f c.top = .error fault ∧ t.Misfits fault)
    (h : ¬∀ c ∈ children, c.WellShaped) :
    ∃ fault, (children.map NestedTree.top).mapM f = .error fault ∧ t.Misfits fault := by
  induction children with
  | nil => exact absurd (fun c hc => absurd hc List.not_mem_nil) h
  | cons c children ih =>
    rw [List.map_cons, List.mapM_cons]
    by_cases hc : c.WellShaped
    · have hrest : ¬∀ d ∈ children, d.WellShaped := fun hall =>
        h (List.forall_mem_cons.mpr ⟨hc, hall⟩)
      obtain ⟨fault, hf, hm⟩ := ih (fun d hd => hok d (List.mem_cons_of_mem c hd))
        (fun d hd => hfault d (List.mem_cons_of_mem c hd)) hrest
      refine ⟨fault, ?_, hm⟩
      rw [hok c List.mem_cons_self hc, hf]
      rfl
    · obtain ⟨fault, hf, hm⟩ := hfault c List.mem_cons_self hc
      refine ⟨fault, ?_, hm⟩
      rw [hf]
      rfl

theorem Depicts.exists_misfit (h : t.Depicts parent r) (hw : ¬r.WellShaped) {fuel : Nat}
    (hf : r.size ≤ fuel) : ∃ fault, t.exprWithin fuel r.top = .error fault ∧ t.Misfits fault := by
  induction h generalizing fuel with
  | @node _ id shape children found below ih =>
    obtain ⟨n, hn, hl⟩ := exists_find?_of_links? found
    have hid : n.id = id := congrArg NodeLinks.id hl
    have hc : n.children = children.map NestedTree.top := congrArg NodeLinks.children hl
    have hsh : n.shape = shape := congrArg NodeLinks.shape hl
    cases fuel with
    | zero => exact absurd hf (by rw [NestedTree.size_node]; omega)
    | succ fuel =>
      have hsize {c : NestedTree} (hmem : c ∈ children) : c.size ≤ fuel := by
        have hlt := NestedTree.size_lt_of_mem id shape hmem
        omega
      have hok : ∀ c ∈ children, c.WellShaped → t.exprWithin fuel c.top = .ok c.expr :=
        fun c hmem hwc => (below c hmem).exprWithin hwc (hsize hmem)
      simp only [Tree.exprWithin, NestedTree.top, hn, hc]
      -- the fault is this node's own, or that of the first child that has one
      by_cases hall : ∀ c ∈ children, c.WellShaped
      · rw [mapM_children fun c hmem => hok c hmem (hall c hmem)]
        refine assemble_misfit hn hid (by rw [hc, List.length_map, List.length_map]) fun hfits => ?_
        rw [hsh, hc, List.length_map] at hfits
        exact hw (.intro hfits hall)
      · obtain ⟨fault, hfault, hm⟩ := mapM_misfit hok
          (fun c hmem hwc => ih c hmem hwc (hsize hmem)) hall
        refine ⟨fault, ?_, hm⟩
        rw [hfault]
        rfl

theorem Flattens.exists_misfit (h : t.Flattens r) (hw : ¬r.WellShaped) :
    ∃ fault, t.expr = .error fault ∧ t.Misfits fault := by
  rw [Tree.expr, h.root]
  exact h.depicts.exists_misfit hw (h.size_le.trans (Nat.le_succ _))

structure Holds (t : Tree) (first : NodeId) (e : Expr) : Prop where
  numbered : ∃ r, TakesNumbers first e r (first + e.size) ∧ t.Flattens r
  contains_iff : ∀ id, t.contains id ↔ first ≤ id ∧ id < first + e.size
  lt_of_below : ∀ id x, Relation.TransGen t.Lists id x → x < id
  le_root : ∀ id, t.contains id → id ≤ t.root
  linked : t.linkError? = none
  expr : e.IsValid → t.expr = .ok e
  fault : ¬e.IsValid → ∃ fault, t.expr = .error fault ∧ t.Misfits fault

/-- From an expression to its tree and back, if its last number is below `2 ^ 64`. -/
theorem holds_ofExpr (first : NodeId) (e : Expr) : (ofExpr first e).Holds first e := by
  have hf := flattens_ofExpr first e
  exact {
    numbered := ⟨_, NestedTree.takesNumbers_number first e, hf⟩
    contains_iff := fun id => (hf.contains_iff_mem id).trans NestedTree.mem_ids_number
    lt_of_below := fun id x h => lt_of_below_ofExpr h
    le_root := fun id hid => hf.root ▸ NestedTree.le_top_number (hf.covered id hid)
    linked := hf.linkError?_eq_none
    expr := fun he => (shows_ofExpr he first).expr.trans
      (congrArg Except.ok (NestedTree.WellShaped.number he first).2)
    fault := fun he => hf.exists_misfit (NestedTree.wellShaped_number_iff.not.mpr he) }

end Tree

end PromTree
