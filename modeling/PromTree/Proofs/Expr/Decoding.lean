import PromTree.Proofs.Expr.Codec

namespace PromTree

variable {fields : List (String × Json)} {f : String × Json}

theorem TimeShift.eq_null_of_ofFields? {s : TimeShift} (h : ofFields? fields = some s)
    (hf : f ∈ s.toFields) (hnull : Json.field fields f.1 = .null) : f.2 = .null := by
  simp only [ofFields?, Option.bind_eq_bind, Option.bind_eq_some_iff] at h
  obtain ⟨offset, hoffset, timestamp, htimestamp, rangeEnd, hrangeEnd, hs⟩ := h
  obtain rfl := Option.some.inj hs
  simp only [toFields, List.mem_cons, List.not_mem_nil, or_false] at hf
  rcases hf with rfl | rfl | rfl
  · rw [hnull] at hoffset
    contradiction
  · rw [hnull] at htimestamp
    obtain rfl := Option.some.inj htimestamp
    rfl
  · rw [hnull] at hrangeEnd
    obtain rfl := Option.some.inj hrangeEnd
    rfl

theorem Selector.eq_null_of_ofFields? {s : Selector} (h : ofFields? fields = some s)
    (hf : f ∈ s.toFields) (hnull : Json.field fields f.1 = .null) : f.2 = .null := by
  simp only [ofFields?, Option.bind_eq_bind, Option.bind_eq_some_iff] at h
  obtain ⟨name, hname, matchers, hmatchers, shift, hshift, hs⟩ := h
  obtain rfl := Option.some.inj hs
  simp only [toFields, List.mem_cons] at hf
  rcases hf with rfl | rfl | hf
  · rw [hnull] at hname
    contradiction
  · rw [hnull] at hmatchers
    contradiction
  · exact shift.eq_null_of_ofFields? hshift hf hnull

theorem Window.eq_null_of_ofFields? {w : Window} (h : ofFields? fields = some w)
    (hf : f ∈ w.toFields) (hnull : Json.field fields f.1 = .null) : f.2 = .null := by
  simp only [ofFields?, Option.bind_eq_bind, Option.bind_eq_some_iff] at h
  obtain ⟨range, hrange, step, hstep, shift, hshift, hw⟩ := h
  obtain rfl := Option.some.inj hw
  simp only [toFields, List.mem_cons] at hf
  rcases hf with rfl | rfl | hf
  · rw [hnull] at hrange
    contradiction
  · rw [hnull] at hstep
    contradiction
  · exact shift.eq_null_of_ofFields? hshift hf hnull

namespace Expr

def nodeFields : List String := ["param", "expr", "lhs", "rhs"]

def listFields : List String := ["args", "children"]

inductive ReadsChild (read? : Json → Option Expr) (fields : List (String × Json)) :
    String × Json → Prop where
  | noParam (h : Json.field fields "param" = .null) : ReadsChild read? fields ("param", .null)
  | noChildren (h : fields.lookup "children" = none) :
    ReadsChild read? fields ("children", .array [])
  | one (name : String) (hname : name ∈ nodeFields) (c : Expr)
    (h : read? (Json.field fields name) = some c) :
    ReadsChild read? fields (name, c.toJson)
  | many (name : String) (hname : name ∈ listFields) (items : List Json) (cs : List Expr)
    (hitems : fields.lookup name = some (.array items))
    (hcs : List.Forall₂ (fun j c => read? j = some c) items cs) :
    ReadsChild read? fields (name, .array (cs.map toJson))

structure ReadFrom (read? : Json → Option Expr) (fields : List (String × Json)) (e : Expr) :
    Prop where
  own : ∀ f ∈ e.shape.toFields, Json.field fields f.1 = .null → f.2 = .null
  child : ∀ f ∈ childFields e.shape (e.children.map toJson), ReadsChild read? fields f

variable {read? : Json → Option Expr}

theorem readsChild_many {name : String} (hname : name ∈ listFields) {es : List Expr}
    (h : (Json.field fields name).list? read? = some es) :
    ReadsChild read? fields (name, .array (es.map toJson)) := by
  rw [Json.field] at h
  cases hlookup : fields.lookup name with
  | none =>
    rw [hlookup] at h
    contradiction
  | some j =>
    rw [hlookup, Option.getD_some] at h
    cases j with
    | array items => exact .many name hname items es hlookup (Json.forall₂_of_mapM h)
    | _ => contradiction

theorem readsChild_param {param : Option Expr}
    (h : Json.nullable read? (Json.field fields "param") = some param) :
    ReadsChild read? fields ("param", Json.ofOption toJson param) := by
  cases hj : Json.field fields "param" with
  | null =>
    rw [hj] at h
    obtain rfl := Option.some.inj h
    exact .noParam hj
  | _ =>
    rw [hj] at h
    obtain ⟨c, hc, rfl⟩ := Option.map_eq_some_iff.mp h
    exact .one _ (by decide) _ (hj ▸ hc)

theorem eq_null_of_read {α : Type} {decode : Json → Option α} {name : String} {a : α} {part : Json}
    (hnull : decode .null = none) (h : decode (Json.field fields name) = some a)
    (hleftOut : Json.field fields name = .null) : part = .null :=
  absurd hleftOut (Json.ne_null hnull h)

theorem ofJsonWithin?_null (fuel : Nat) (kept : Bool) : ofJsonWithin? fuel kept .null = none := by
  cases fuel <;> rfl

theorem readFrom_of_ofJsonWithin? {fuel : Nat} {kept : Bool} {j : Json} {e : Expr}
    (h : ofJsonWithin? (fuel + 1) kept j = some e) :
    ∃ fields, j.tagged? (Json.tag? Shape.typeNames kept) "type" Shape.fieldNames? =
        some (e.typeName, fields) ∧
      e.ReadFrom (ofJsonWithin? fuel true) fields := by
  rw [ofJsonWithin?, Option.bind_eq_bind, Option.bind_eq_some_iff] at h
  obtain ⟨⟨type, fields⟩, htag, h⟩ := h
  refine ⟨fields, ?_⟩
  rw [htag]
  dsimp only at h
  -- one case for each type of node, in the order in which they are tried
  split at h
  · simp only [Option.bind_eq_bind, Option.bind_eq_some_iff] at h
    obtain ⟨op, hop, body, hbody, param, hparam, labels, hlabels, without, hwithout, he⟩ := h
    obtain rfl := Option.some.inj he
    refine ⟨rfl, ?_, ?_⟩
    · simp only [shape, Shape.toFields, List.forall_mem_cons]
      exact ⟨eq_null_of_read rfl hop, eq_null_of_read rfl hlabels, eq_null_of_read rfl hwithout,
        List.forall_mem_nil _⟩
    · have hparam' := readsChild_param hparam
      have hbody' := List.forall_mem_singleton.mpr (ReadsChild.one "expr" (by decide) _ hbody)
      cases param with
      | none => exact List.forall_mem_cons.mpr ⟨hparam', hbody'⟩
      | some param => exact List.forall_mem_cons.mpr ⟨hparam', hbody'⟩
  · simp only [Option.bind_eq_bind, Option.bind_eq_some_iff] at h
    obtain ⟨op, hop, lhs, hlhs, rhs, hrhs, matching, hmatching, returnBool, hbool, he⟩ := h
    obtain rfl := Option.some.inj he
    refine ⟨rfl, ?_, ?_⟩
    · simp only [shape, Shape.toFields, List.forall_mem_cons]
      refine ⟨eq_null_of_read rfl hop, fun hnull => ?_, eq_null_of_read rfl hbool,
        List.forall_mem_nil _⟩
      rw [hnull] at hmatching
      exact Json.ofOption_eq_null hmatching
    · have hrhs' := List.forall_mem_singleton.mpr (ReadsChild.one "rhs" (by decide) _ hrhs)
      exact List.forall_mem_cons.mpr ⟨.one _ (by decide) _ hlhs, hrhs'⟩
  · simp only [Option.bind_eq_bind, Option.bind_eq_some_iff] at h
    obtain ⟨func, hfunc, args, hargs, he⟩ := h
    obtain rfl := Option.some.inj he
    refine ⟨rfl, ?_, ?_⟩
    · exact List.forall_mem_singleton.mpr (eq_null_of_read rfl hfunc)
    · exact List.forall_mem_singleton.mpr (readsChild_many (by decide) hargs)
  · simp only [Option.bind_eq_bind, Option.bind_eq_some_iff] at h
    obtain ⟨selector, hselector, range, hrange, he⟩ := h
    obtain rfl := Option.some.inj he
    refine ⟨rfl, ?_, List.forall_mem_nil _⟩
    · refine List.forall_mem_cons.mpr ⟨eq_null_of_read rfl hrange, ?_⟩
      exact fun f => selector.eq_null_of_ofFields? hselector
  · simp only [Option.bind_eq_bind, Option.bind_eq_some_iff] at h
    obtain ⟨body, hbody, window, hwindow, he⟩ := h
    obtain rfl := Option.some.inj he
    refine ⟨rfl, ?_, ?_⟩
    · exact fun f => window.eq_null_of_ofFields? hwindow
    · exact List.forall_mem_singleton.mpr (.one _ (by decide) _ hbody)
  · obtain ⟨text, htext, rfl⟩ := Option.map_eq_some_iff.mp h
    refine ⟨rfl, ?_, List.forall_mem_nil _⟩
    exact List.forall_mem_singleton.mpr (eq_null_of_read rfl htext)
  · obtain ⟨body, hbody, rfl⟩ := Option.map_eq_some_iff.mp h
    exact ⟨rfl, List.forall_mem_nil _, List.forall_mem_singleton.mpr (.one _ (by decide) _ hbody)⟩
  · obtain ⟨value, hvalue, rfl⟩ := Option.map_eq_some_iff.mp h
    refine ⟨rfl, ?_, List.forall_mem_nil _⟩
    exact List.forall_mem_singleton.mpr (eq_null_of_read rfl hvalue)
  · simp only [Option.bind_eq_bind, Option.bind_eq_some_iff] at h
    obtain ⟨sign, hsign, body, hbody, he⟩ := h
    obtain rfl := Option.some.inj he
    refine ⟨rfl, ?_, ?_⟩
    · exact List.forall_mem_singleton.mpr (eq_null_of_read rfl hsign)
    · exact List.forall_mem_singleton.mpr (.one _ (by decide) _ hbody)
  · obtain ⟨selector, hselector, rfl⟩ := Option.map_eq_some_iff.mp h
    exact ⟨rfl, fun f => selector.eq_null_of_ofFields? hselector, List.forall_mem_nil _⟩
  · obtain ⟨cs, hcs, rfl⟩ := Option.map_eq_some_iff.mp h
    refine ⟨rfl, List.forall_mem_nil _, List.forall_mem_singleton.mpr ?_⟩
    rw [Json.fieldOr] at hcs
    split at hcs
    · rename_i hnone
      obtain rfl := Option.some.inj hcs
      exact .noChildren hnone
    · rename_i j hj
      exact readsChild_many (by decide) (by rwa [Json.field, hj])
  · contradiction

end Expr

end PromTree
