import PromTree.Proofs.Expr.Edited

namespace PromTree

structure VectorMatching.FitsOperator (m : VectorMatching) (op : BinaryOp) : Prop where
  manyToMany_iff : m.cardinality = .manyToMany ↔ op.isSetOperator
  included : m.included = [] ∨ m.cardinality = .manyToOne ∨ m.cardinality = .oneToMany

namespace OperatorClauses

theorem isWritten_ofMatching (returnBool : Bool) (matching : Option VectorMatching) :
    (ofMatching returnBool matching).IsWritten := by
  intro g hg
  obtain ⟨m, -, hm⟩ := Option.bind_eq_some_iff.mp hg
  rw [VectorMatching.groupClause?] at hm
  split_ifs at hm with hgrouped
  obtain rfl := Option.some.inj hm
  simp only [VectorMatching.isGrouped, Bool.or_eq_true, beq_iff_eq] at hgrouped
  rcases hgrouped with h | h <;> simp [h]

theorem fitsOperator_vectorMatching {c : OperatorClauses} (hc : c.IsWritten) (op : BinaryOp) :
    (c.vectorMatching op).FitsOperator op := by
  have hdefault : (VectorMatching.default op).cardinality = .manyToMany ↔ op.isSetOperator := by
    rw [VectorMatching.default]
    split_ifs with hset <;> simp [hset]
  obtain ⟨returnBool, matching, _ | ⟨side, labels⟩⟩ := c
  · exact ⟨hdefault, .inl rfl⟩
  · obtain ⟨hone, hmany⟩ := hc _ rfl
    rw [vectorMatching]
    dsimp only
    split_ifs with hset
    · exact ⟨hdefault, .inl rfl⟩
    · refine ⟨by simp [hset, hmany], .inr ?_⟩
      cases side <;> simp_all

end OperatorClauses

namespace Expr

def IsWellFormed : Expr → Prop
  | .aggregation op _ param _ => param.isSome = op.hasParam
  | .binary op matching _ lhs rhs =>
    (matching.isSome ↔ lhs.valueType = .vector ∧ rhs.valueType = .vector) ∧
      ∀ m ∈ matching, m.FitsOperator op
  | .matrixSelector s _ | .vectorSelector s => s.shift.IsStated
  | .subquery window _ => window.shift.IsStated
  | .unary sign _ => sign = .minus
  | .placeholder _ => False
  | .call .. | .number _ | .string _ | .paren _ => True

variable {e : Expr}

theorem isWellFormed_of_isStated (h : e.shape.IsStated (e.children.map valueType)) :
    e.IsWellFormed := by
  cases e with
  | aggregation op grouping param body =>
    have hadmits : Term.admitsArguments (.known op)
        ((param.toList ++ [body]).map valueType) := h
    have hparam : (AggregatorWord.known op).paramType?.isSome = op.hasParam := by
      cases op <;> rfl
    rw [Term.admitsArguments] at hadmits
    split at hadmits
    · rename_i hnone
      cases param with
      | none => simp [IsWellFormed, ← hparam, hnone]
      | some param => simp at hadmits
    · rename_i type hsome
      cases param with
      | none => simp at hadmits
      | some param => simp [IsWellFormed, ← hparam, hsome]
  | binary op matching returnBool lhs rhs =>
    obtain ⟨-, hmatching⟩ := h
    have hfits := OperatorClauses.fitsOperator_vectorMatching
      (OperatorClauses.isWritten_ofMatching returnBool matching) op
    by_cases hvectors : lhs.valueType = .vector ∧ rhs.valueType = .vector
    · rw [if_pos hvectors] at hmatching
      have hsome : matching.isSome := Option.isSome_of_eq_some hmatching
      refine ⟨iff_of_true hsome hvectors, fun m hm => ?_⟩
      exact Option.some.inj (hmatching.symm.trans hm) ▸ hfits
    · rw [if_neg hvectors] at hmatching
      subst hmatching
      exact ⟨iff_of_false Bool.false_ne_true hvectors, by rintro m ⟨⟩⟩
  | matrixSelector s range | vectorSelector s =>
    have hs := h.2
    rw [Pattern.selector?_eq] at hs
    split at hs
    · contradiction
    · rw [← Except.ok.inj hs]
      exact TimeShift.isStated_shift s.shift.modifiers
  | subquery window body => exact h.2
  | unary sign body => exact h.1
  | placeholder => exact h
  | _ => trivial

theorem isValid_of_everywhere (h : e.Everywhere IsWellFormed) : e.IsValid := by
  induction e with
  | node e ih =>
    refine e.isValid_iff.mpr ⟨?_, fun c hc => ih c hc (h.of_mem hc)⟩
    have hown := h.own
    cases e with
    | aggregation op grouping param body =>
      rw [IsWellFormed] at hown
      cases param <;> simp_all [shape, children, Shape.Fits, Shape.arity?]
    | _ => simp [shape, children, Shape.Fits, Shape.arity?]

theorem containsPlaceholder_of_everywhere (h : e.Everywhere IsWellFormed) :
    e.containsPlaceholder = false := by
  induction e with
  | node e ih =>
    have hshape : e.shape.isPlaceholder = false := by
      have hown := h.own
      cases e with
      | placeholder => contradiction
      | _ => rfl
    rw [containsPlaceholder_eq, hshape, Bool.false_or, List.any_eq_false]
    exact fun c hc => Bool.eq_false_iff.mp (ih c hc (h.of_mem hc))

end Expr

namespace Query

theorem isWellFormed_of_parse {text : String} {e : Expr} (h : parse text = .ok e) :
    e.IsValid ∧ e.containsPlaceholder = false ∧ e.Everywhere Expr.IsWellFormed := by
  have hwell : e.Everywhere Expr.IsWellFormed :=
    (Expr.isStated_of_parse h).mono fun _ => Expr.isWellFormed_of_isStated
  exact ⟨Expr.isValid_of_everywhere hwell, Expr.containsPlaceholder_of_everywhere hwell, hwell⟩

theorem isWellFormed_topk :
    let e : Expr := .aggregation .topk ⟨[], false⟩ (some (.number "2"))
      (.binary .mul (some ⟨true, ["x"], .manyToOne, ["y"]⟩) false
        (.vectorSelector ⟨"a", [], ⟨0, none, some .start⟩⟩)
        (.unary .minus (.paren (.binary .and (some ⟨false, [], .manyToMany, []⟩) false
          (.vectorSelector ⟨"b", [], .zero⟩) (.vectorSelector ⟨"c", [], .zero⟩)))))
    parse "topk(2, a @ start() * on(x) group_left(y) -(b and c))" = .ok e ∧
      e.IsValid ∧ e.containsPlaceholder = false ∧ e.Everywhere Expr.IsWellFormed := by
  intro e
  have he : parse "topk(2, a @ start() * on(x) group_left(y) -(b and c))" = .ok e := by cbv
  exact ⟨he, isWellFormed_of_parse he⟩

end Query

end PromTree
