import PromTree.Expr.Codec
import PromTree.Proofs.Expr.Positions
import PromTree.Proofs.Json.Decoding

namespace PromTree

variable {fields : List (String × Json)}

theorem LabelMatcher.ofJson?_toJson (m : LabelMatcher) : ofJson? m.toJson = some m := by
  have htype : Json.keptOneOf? MatchType.all MatchType.symbol (.string m.matchType.symbol) =
      some m.matchType := Json.keptOneOf?_string (by cases m.matchType <;> decide)
  rw [ofJson?, toJson]
  refine Json.bind_record?_ofFields ?_ fun sorted hp => ?_
  · simp
  · simp_all [Json.field]

theorem VectorMatching.ofJson?_toJson (m : VectorMatching) : ofJson? m.toJson = some m := by
  have hcard : Json.keptOneOf? Cardinality.all Cardinality.name (.string m.cardinality.name) =
      some m.cardinality := Json.keptOneOf?_string (by cases m.cardinality <;> decide)
  rw [ofJson?, toJson]
  refine Json.bind_record?_ofFields ?_ fun sorted hp => ?_
  · simp
  · simp_all [Json.field]

theorem ValueType.ofJson?_toJson (t : ValueType) : ofJson? t.toJson = some t :=
  Json.keptOneOf?_string (by cases t <;> decide)

theorem Signature.ofJson?_toJson (f : Signature) : ofJson? f.toJson = some f := by
  have hargs := Json.list?_ofList fun t (_ : t ∈ f.argTypes) => t.ofJson?_toJson
  rw [ofJson?, toJson]
  refine Json.bind_record?_ofFields ?_ fun sorted hp => ?_
  · simp
  · simp_all [Json.field, f.returnType.ofJson?_toJson]

theorem TimeShift.ofFields?_of_provides (s : TimeShift) (hp : Json.Provides fields s.toFields) :
    ofFields? fields = some s := by
  have hend (e : RangeEnd) : Json.keptOneOf? RangeEnd.all RangeEnd.name (.string e.name) = some e :=
    Json.keptOneOf?_string (by cases e <;> decide)
  have htime := Json.nullable_ofOption Json.int64?
    fun t (_ : s.timestamp = some t) => ⟨Json.noConfusion, Json.int64?_ofInt t⟩
  have hrange := Json.nullable_ofOption _ fun e (_ : s.rangeEnd = some e) =>
    ⟨Json.noConfusion, hend e⟩
  simp only [toFields, Json.provides_cons] at hp
  simp [ofFields?, Json.field, hp, htime, hrange]

theorem Selector.ofFields?_of_provides (s : Selector) (hp : Json.Provides fields s.toFields) :
    ofFields? fields = some s := by
  have hmatchers := Json.list?_ofList fun m (_ : m ∈ s.matchers) => m.ofJson?_toJson
  simp only [toFields, Json.provides_cons] at hp
  simp [ofFields?, Json.field, hp, hmatchers, s.shift.ofFields?_of_provides hp.2.2]

theorem Window.ofFields?_of_provides (w : Window) (hp : Json.Provides fields w.toFields) :
    ofFields? fields = some w := by
  simp only [toFields, Json.provides_cons] at hp
  simp [ofFields?, Json.field, hp, w.shift.ofFields?_of_provides hp.2.2]

namespace Expr

theorem toJson_eq (e : Expr) :
    e.toJson = e.shape.toJsonWith (childFields e.shape (e.children.map toJson)) :=
  fold_eq _ e

theorem nodup_fields (e : Expr) : ((("type", Json.string e.typeName) :: e.shape.toFields ++
    childFields e.shape (e.children.map toJson)).map Prod.fst).Nodup := by
  cases e with
  | aggregation op grouping param body =>
    cases param <;> simp [shape, children, childFields, Shape.toFields]
  | _ =>
    simp [shape, children, childFields, Shape.toFields, Selector.toFields, Window.toFields,
      TimeShift.toFields]

theorem exists_childField {e c : Expr} (h : c ∈ e.children) :
    ∃ f ∈ childFields e.shape (e.children.map toJson),
      f.2 = c.toJson ∨ ∃ items, f.2 = .array items ∧ c.toJson ∈ items := by
  cases e with
  | aggregation op grouping param body =>
    cases param with
    | none =>
      obtain rfl := List.mem_singleton.mp h
      exact ⟨("expr", c.toJson), by simp [shape, children, childFields], .inl rfl⟩
    | some param =>
      rcases List.mem_pair.mp h with rfl | rfl
      · exact ⟨("param", c.toJson), by simp [shape, children, childFields], .inl rfl⟩
      · exact ⟨("expr", c.toJson), by simp [shape, children, childFields], .inl rfl⟩
  | binary op matching returnBool lhs rhs =>
    rcases List.mem_pair.mp h with rfl | rfl
    · exact ⟨("lhs", c.toJson), by simp [shape, children, childFields], .inl rfl⟩
    · exact ⟨("rhs", c.toJson), by simp [shape, children, childFields], .inl rfl⟩
  | subquery | paren | unary =>
    obtain rfl := List.mem_singleton.mp h
    exact ⟨("expr", c.toJson), by simp [shape, children, childFields], .inl rfl⟩
  | call func args =>
    exact ⟨_, List.mem_singleton.mpr rfl, .inr ⟨_, rfl, List.mem_map_of_mem h⟩⟩
  | placeholder children =>
    exact ⟨_, List.mem_singleton.mpr rfl, .inr ⟨_, rfl, List.mem_map_of_mem h⟩⟩
  | _ => exact absurd h List.not_mem_nil

theorem toJson_ne_null (e : Expr) : e.toJson ≠ .null := by
  rw [toJson_eq, Shape.toJsonWith, Json.ofFields]
  exact Json.noConfusion

theorem ofJsonWithin?_of_provides {e : Expr} {fuel : Nat} (kept : Bool)
    {sorted : List (String × Json)}
    (hp : Json.Provides sorted (("type", .string e.typeName) :: e.shape.toFields ++
      childFields e.shape (e.children.map toJson)))
    (hchild : ∀ c ∈ e.children, ofJsonWithin? fuel true c.toJson = some c) :
    ofJsonWithin? (fuel + 1) kept (.object sorted) = some e := by
  cases e with
  | aggregation op grouping param body =>
    have hop : Json.keptOneOf? Aggregator.all Aggregator.name (.string op.name) = some op :=
      Json.keptOneOf?_string (by cases op <;> decide)
    cases param <;>
      simp_all [ofJsonWithin?, Json.tagged?, Json.field, shape, children, childFields, typeName,
        Shape.typeName, Shape.toFields, Json.nullable, toJson_ne_null]
  | binary op matching returnBool lhs rhs =>
    have hop : Json.keptOneOf? BinaryOp.all BinaryOp.symbol (.string op.symbol) = some op :=
      Json.keptOneOf?_string (by cases op <;> decide)
    have hmatching := Json.nullable_ofOption _ fun m (_ : matching = some m) =>
      ⟨Json.noConfusion, m.ofJson?_toJson⟩
    simp_all [ofJsonWithin?, Json.tagged?, Json.field, shape, children, childFields, typeName,
      Shape.typeName, Shape.toFields]
  | call func args =>
    have hargs := Json.list?_ofList hchild
    simp only [children, Json.ofList] at hargs
    simp_all [ofJsonWithin?, Json.tagged?, Json.field, shape, children, childFields, typeName,
      Shape.typeName, Shape.toFields, func.ofJson?_toJson]
  | matrixSelector selector range =>
    have hselector : Selector.ofFields? sorted = some selector :=
      selector.ofFields?_of_provides (by simp_all [shape, Shape.toFields])
    simp_all [ofJsonWithin?, Json.tagged?, Json.field, shape, children, childFields, typeName,
      Shape.typeName, Shape.toFields]
  | subquery window body =>
    have hwindow : Window.ofFields? sorted = some window :=
      window.ofFields?_of_provides (by simp_all [shape, Shape.toFields])
    simp_all [ofJsonWithin?, Json.tagged?, Json.field, shape, children, childFields, typeName,
      Shape.typeName, Shape.toFields]
  | unary sign body =>
    have hsign : Json.keptOneOf? Sign.all Sign.symbol (.string sign.symbol) = some sign :=
      Json.keptOneOf?_string (by cases sign <;> decide)
    simp_all [ofJsonWithin?, Json.tagged?, Json.field, shape, children, childFields, typeName,
      Shape.typeName, Shape.toFields]
  | vectorSelector selector =>
    have hselector : Selector.ofFields? sorted = some selector :=
      selector.ofFields?_of_provides (by simp_all [shape, Shape.toFields])
    simp_all [ofJsonWithin?, Json.tagged?, Json.field, shape, children, childFields, typeName,
      Shape.typeName, Shape.toFields]
  | placeholder es =>
    have hchildren := Json.list?_ofList hchild
    simp only [children, Json.ofList] at hchildren
    simp_all [ofJsonWithin?, Json.tagged?, Json.field, Json.fieldOr, shape, children, childFields,
      typeName, Shape.typeName, Shape.toFields]
  | number | string | paren =>
    simp_all [ofJsonWithin?, Json.tagged?, Json.field, shape, children, childFields, typeName,
      Shape.typeName, Shape.toFields]

theorem ofJsonWithin?_toJson (e : Expr) {fuel : Nat} (kept : Bool) (hf : e.toJson.size ≤ fuel) :
    ofJsonWithin? fuel kept e.toJson = some e := by
  induction e generalizing fuel kept with
  | node e ih =>
    obtain ⟨sorted, hs, hp⟩ := Json.exists_ofFields e.nodup_fields
    have hobject : e.toJson = .object sorted := e.toJson_eq.trans hs
    rw [hobject] at hf ⊢
    cases fuel with
    | zero => exact absurd hf (by simp [Json.size])
    | succ fuel =>
      have hchild : ∀ c ∈ e.children, ofJsonWithin? fuel true c.toJson = some c := by
        intro c hc
        refine ih c hc true ?_
        obtain ⟨f, hmem, hfield⟩ := exists_childField hc
        have hlt := Json.size_lt_of_lookup (hp f (List.mem_append_right _ hmem))
        rcases hfield with hfield | ⟨items, hitems, hfield⟩
        · rw [hfield] at hlt
          omega
        · rw [hitems] at hlt
          have hlt' := Json.size_lt_of_mem hfield
          omega
      exact ofJsonWithin?_of_provides kept hp hchild

theorem ofJson?_toJson (e : Expr) : ofJson? e.toJson = some e := 
  e.ofJsonWithin?_toJson false (Nat.le_refl _)

end Expr

end PromTree
