import PromTree.Proofs.Tree.Flattening
import PromTree.Tree.Numbering

namespace PromTree

namespace NestedTree

def numberParts : NodeId → List (NodeId → NestedTree) → List NestedTree
  | _, [] => []
  | first, part :: parts => part first :: numberParts (first + (part first).size) parts

/-- The nested tree of an expression. Its nodes are numbered one after another, children from left
to right and before their parent. -/
def number (first : NodeId) (e : Expr) : NestedTree :=
  e.fold (fun shape parts first =>
    let children := numberParts first parts
    .node (first + (children.map size).sum) shape children) first

def numberAll (first : NodeId) (es : List Expr) : List NestedTree :=
  numberParts first (es.map fun e first => number first e)

theorem number_eq (first : NodeId) (e : Expr) :
    number first e = .node (first + ((numberAll first e.children).map size).sum) e.shape
      (numberAll first e.children) := by
  rw [number, Expr.fold_eq]
  rfl

theorem numberAll_cons (first : NodeId) (e : Expr) (es : List Expr) :
    numberAll first (e :: es) =
      number first e :: numberAll (first + (number first e).size) es := rfl

theorem sum_size_numberAll {es : List Expr} (h : ∀ e ∈ es, ∀ first, (number first e).size = e.size)
    (first : NodeId) : ((numberAll first es).map size).sum = (es.map Expr.size).sum := by
  induction es generalizing first with
  | nil => rfl
  | cons e es ih =>
    rw [numberAll_cons, List.map_cons, List.map_cons, List.sum_cons, List.sum_cons,
      h e List.mem_cons_self, ih fun d hd => h d (List.mem_cons_of_mem e hd)]

@[simp]
theorem size_number (first : NodeId) (e : Expr) : (number first e).size = e.size := by
  induction e generalizing first with
  | node e ih => rw [number_eq, size_node, sum_size_numberAll ih, Expr.size_eq]

theorem sum_size_number (first : NodeId) (es : List Expr) :
    ((numberAll first es).map size).sum = (es.map Expr.size).sum :=
  sum_size_numberAll (fun e _ first => size_number first e) first

theorem top_number (first : NodeId) (e : Expr) : (number first e).top = first + e.size - 1 := by
  rw [number_eq, top, sum_size_number, Expr.size_eq]
  rfl

theorem length_numberAll (first : NodeId) (es : List Expr) :
    (numberAll first es).length = es.length := by
  induction es generalizing first with
  | nil => rfl
  | cons e es ih => rw [numberAll_cons, List.length_cons, List.length_cons, ih]

theorem ids_number (first : NodeId) (e : Expr) :
    (number first e).ids.Perm (List.range' first e.size) := by
  induction e generalizing first with
  | node e ih =>
    have hall (es : List Expr) (hes : ∀ c ∈ es, c ∈ e.children) (first : NodeId) :
        ((numberAll first es).flatMap ids).Perm (List.range' first (es.map Expr.size).sum) := by
      induction es generalizing first with
      | nil => exact .nil
      | cons c es ihes =>
        rw [numberAll_cons, List.flatMap_cons, List.map_cons, List.sum_cons,
          ← List.range'_append_1, size_number]
        exact (ih c (hes c List.mem_cons_self) first).append
          (ihes (fun d hd => hes d (List.mem_cons_of_mem c hd)) _)
    rw [number_eq, ids, Expr.size_eq, sum_size_number, List.range'_1_concat]
    exact ((hall e.children (fun c hc => hc) first).cons _).trans
      (List.perm_append_singleton _ _).symm

theorem mem_ids_number {first x : NodeId} {e : Expr} :
    x ∈ (number first e).ids ↔ first ≤ x ∧ x < first + e.size := by
  rw [(ids_number first e).mem_iff, List.mem_range'_1]

theorem nodup_ids_number (first : NodeId) (e : Expr) : (number first e).ids.Nodup :=
  (ids_number first e).nodup_iff.mpr List.nodup_range'

theorem WellShaped.number {e : Expr} (h : e.IsValid) (first : NodeId) :
    (number first e).WellShaped ∧ (number first e).expr = e := by
  induction e generalizing first with
  | node e ih =>
    rw [Expr.isValid_iff] at h
    have hall (es : List Expr) (hes : ∀ c ∈ es, c ∈ e.children) (first : NodeId) :
        (∀ c ∈ numberAll first es, c.WellShaped) ∧ (numberAll first es).map expr = es := by
      induction es generalizing first with
      | nil => exact ⟨fun c hc => absurd hc List.not_mem_nil, rfl⟩
      | cons c es ihes =>
        obtain ⟨hw, he⟩ := ih c (hes c List.mem_cons_self) (h.2 c (hes c List.mem_cons_self)) first
        obtain ⟨hws, hes⟩ := ihes (fun d hd => hes d (List.mem_cons_of_mem c hd))
          (first + (NestedTree.number first c).size)
        rw [numberAll_cons, List.forall_mem_cons, List.map_cons, he, hes]
        exact ⟨⟨hw, hws⟩, rfl⟩
    obtain ⟨hws, hes⟩ := hall e.children (fun c hc => hc) first
    rw [number_eq]
    have hw : (node (first + ((numberAll first e.children).map size).sum) e.shape
        (numberAll first e.children)).WellShaped :=
      .intro (by rw [length_numberAll]; exact h.1) hws
    refine ⟨hw, ?_⟩
    have ho := hw.ofShape?
    rw [hes, (Expr.ofShape?_self e).mpr h.1] at ho
    exact (Option.some.inj ho).symm

end NestedTree

namespace NumberedNodes

open NestedTree (number numberAll)

theorem ofExpr_eq (e : Expr) : ofExpr e = ofShape e.shape (e.children.map ofExpr) :=
  Expr.fold_eq ofShape e

theorem totalSize_eq (parts : List NumberedNodes) :
    totalSize parts = (parts.map NumberedNodes.size).sum := by
  induction parts with
  | nil => rfl
  | cons p parts ih => rw [totalSize, List.map_cons, List.sum_cons, ih]

theorem size_ofExpr (e : Expr) : (ofExpr e).size = e.size := by
  induction e with
  | node e ih =>
    rw [ofExpr_eq, ofShape, totalSize_eq, List.map_map, Expr.size_eq]
    exact congrArg (· + 1) (congrArg List.sum (List.map_congr_left ih))

theorem totalSize_map (es : List Expr) : totalSize (es.map ofExpr) = (es.map Expr.size).sum := by
  rw [totalSize_eq, List.map_map]
  exact congrArg List.sum (List.map_congr_left fun e _ => size_ofExpr e)

theorem rootsFrom_map (first : NodeId) (es : List Expr) :
    rootsFrom first (es.map ofExpr) = (numberAll first es).map NestedTree.top := by
  induction es generalizing first with
  | nil => rfl
  | cons e es ih =>
    rw [List.map_cons, rootsFrom, ih, NestedTree.numberAll_cons, List.map_cons,
      NestedTree.top_number, NestedTree.size_number, size_ofExpr]

theorem entries_ofExpr (e : Expr) (first : NodeId) (parent : Option NodeId) :
    (ofExpr e).entries first parent =
      entriesFrom first (some (number first e).top) (e.children.map ofExpr) ++
        [((number first e).top, ⟨(number first e).top, parent,
          (numberAll first e.children).map NestedTree.top, e.shape, .running, .none⟩)] := by
  have ht : first + totalSize (e.children.map ofExpr) = (number first e).top := by
    rw [totalSize_map, NestedTree.top_number, Expr.size_eq]
    rfl
  rw [ofExpr_eq, ofShape]
  simp only [rootsFrom_map, ht]

theorem keys_entries (e : Expr) (first : NodeId) (parent : Option NodeId) :
    ((ofExpr e).entries first parent).map Prod.fst = List.range' first e.size := by
  induction e generalizing first parent with
  | node e ih =>
    have hall (es : List Expr) (hes : ∀ c ∈ es, c ∈ e.children) (first : NodeId)
        (parent : Option NodeId) : (entriesFrom first parent (es.map ofExpr)).map Prod.fst =
          List.range' first (es.map Expr.size).sum := by
      induction es generalizing first with
      | nil => rfl
      | cons c es ihes =>
        rw [List.map_cons, entriesFrom, List.map_append, ih c (hes c List.mem_cons_self),
          ihes (fun d hd => hes d (List.mem_cons_of_mem c hd)), size_ofExpr, List.map_cons,
          List.sum_cons, List.range'_append_1]
    rw [entries_ofExpr, List.map_append, hall e.children (fun c hc => hc), Expr.size_eq,
      List.range'_1_concat, NestedTree.top_number, Expr.size_eq]
    simp only [List.map_cons, List.map_nil]
    congr 2

theorem depicts {t : Tree} {e : Expr} {first : NodeId} {parent : Option NodeId}
    (h : ∀ x ∈ (ofExpr e).entries first parent, t.find? x.1 = some x.2) :
    t.Depicts parent (number first e) := by
  induction e generalizing first parent with
  | node e ih =>
    rw [entries_ofExpr] at h
    -- the children all together, as each is numbered from where the one before it ends
    have hall (es : List Expr) (hes : ∀ c ∈ es, c ∈ e.children) (first : NodeId)
        (parent : Option NodeId)
        (h : ∀ x ∈ entriesFrom first parent (es.map ofExpr), t.find? x.1 = some x.2) :
        ∀ c ∈ numberAll first es, t.Depicts parent c := by
      induction es generalizing first with
      | nil => exact fun c hc => absurd hc List.not_mem_nil
      | cons c es ihes =>
        rw [List.map_cons, entriesFrom, size_ofExpr] at h
        rw [NestedTree.numberAll_cons, NestedTree.size_number, List.forall_mem_cons]
        exact ⟨ih c (hes c List.mem_cons_self) fun x hx => h x (List.mem_append_left _ hx),
          ihes (fun d hd => hes d (List.mem_cons_of_mem c hd)) _
            fun x hx => h x (List.mem_append_right _ hx)⟩
    have hself := h _ (List.mem_append_right _ (List.mem_singleton.mpr rfl))
    rw [NestedTree.number_eq] at h hself ⊢
    refine .node ?_ (hall e.children (fun c hc => hc) _ _
      fun x hx => h x (List.mem_append_left _ hx))
    rw [Tree.links?]
    exact congrArg (Option.map TreeNode.links) hself

end NumberedNodes

namespace Tree

open NestedTree (number)

theorem find?_ofExpr (first : NodeId) (e : Expr) (x : NodeId) (n : TreeNode) :
    (ofExpr first e).find? x = some n ↔
      (x, n) ∈ (NumberedNodes.ofExpr e).entries first none := by
  have hn : (((NumberedNodes.ofExpr e).entries first none).map Prod.fst).Nodup := by
    rw [NumberedNodes.keys_entries]
    exact List.nodup_range'
  rw [find?, ofExpr, SortedMap.find?_ofList hn, SortedMap.lookup_eq_some_iff_mem hn]

theorem flattens_ofExpr (first : NodeId) (e : Expr) :
    (ofExpr first e).Flattens (number first e) where
  root := by rw [NestedTree.top_number, ofExpr, NumberedNodes.size_ofExpr]
  nodup := NestedTree.nodup_ids_number first e
  depicts := NumberedNodes.depicts fun x hx => (find?_ofExpr first e x.1 x.2).mpr hx
  covered := by
    intro id hid
    obtain ⟨n, hn⟩ := (contains_iff _ _).mp hid
    rw [(NestedTree.ids_number first e).mem_iff, ← NumberedNodes.keys_entries e first none]
    exact List.mem_map_of_mem (f := Prod.fst) ((find?_ofExpr first e id n).mp hn)

end Tree

end PromTree
