import PromTree.Proofs.Advice

namespace PromTree.Advice

/-- What the rules put in the place of a node. -/
inductive Rewrites : Expr → Expr → Prop where
  | deriv {f : Signature} {args : List Expr} (counters : f.takesCounters) :
    Rewrites (.call f args) (.call .deriv args)
  | rate {selector : Selector} :
    Rewrites (.vectorSelector selector) (.call .rate [.matrixSelector selector defaultRange])
  | rateOfRange {selector : Selector} {range : UInt64} :
    Rewrites (.matrixSelector selector range) (.call .rate [.matrixSelector selector range])
  | quantile {selector : Selector} :
    Rewrites (.vectorSelector selector) (.call .histogramQuantile [.number "0.9",
      sumOf ["le"] (.call .rate [.matrixSelector selector defaultRange])])
  | keepLe {op : Aggregator} {grouping : Grouping} {param : Option Expr} {body : Expr}
    (lacks : grouping.without = grouping.labels.contains "le") :
    Rewrites (.aggregation op grouping param body) (.aggregation op (keepLe grouping) param body)
  | sum {node : Expr} (summable : isSummable node) : Rewrites node (sumOf [] node)

/-- Each suggestion is one for the node that the suggestion before it has put there, once the query
of that node has had its own result. -/
inductive Followed (parent : Option Expr) :
    Expr → List (Option Summary) → List Suggestion → Prop where
  | nil {node : Expr} : Followed parent node [] []
  | cons {node : Expr} {result : Option Summary} {results : List (Option Summary)} {s : Suggestion}
    {rest : List Suggestion} (made : s ∈ (of node parent result).suggestions)
    (followed : Followed parent s.replacement results rest) :
    Followed parent node (result :: results) (s :: rest)

def stepsLeft : Expr → Nat
  | .vectorSelector _ | .matrixSelector .. => 3
  | .call f _ => if f.takesCounters then 2 else 0
  | .aggregation _ grouping _ _ => if grouping.without = grouping.labels.contains "le" then 1 else 0
  | _ => 0

variable {node rate e e' : Expr} {parent : Option Expr} {result : Option Summary} {s : Suggestion}
  {results : List (Option Summary)} {suggestions : List Suggestion}

theorem rewrites_of_rateOf? (h : rateOf? node = some rate) : Rewrites node rate := by
  cases node with
  | vectorSelector selector =>
    rw [← Option.some.inj h]
    exact .rate
  | matrixSelector selector range =>
    rw [← Option.some.inj h]
    exact .rateOfRange
  | _ => contradiction

theorem rewrites_of_mem (hs : s ∈ (of node parent result).suggestions) :
    Rewrites node s.replacement := by
  simp only [of, mem_suggestions_append] at hs
  rcases hs with (((hs | hs) | hs) | hs) | hs
  · obtain ⟨f, args, rfl, hf, hr⟩ := replacement_onCall hs
    rw [hr]
    exact .deriv hf
  · obtain ⟨name, -, hrate, -⟩ := replacement_onCounter hs
    exact rewrites_of_rateOf? hrate
  · obtain ⟨selector, rfl, hr⟩ := replacement_onBuckets hs
    rw [hr]
    exact .quantile
  · obtain ⟨op, grouping, param, body, rfl, hlacks, hr⟩ := replacement_onQuantile hs
    rw [hr]
    exact .keepLe hlacks
  · obtain ⟨hsummable, hr⟩ := replacement_onManySeries hs
    rw [hr]
    exact .sum hsummable

theorem without_keepLe_ne (grouping : Grouping) :
    (keepLe grouping).without ≠ (keepLe grouping).labels.contains "le" := by
  unfold keepLe
  split <;> simp

theorem stepsLeft_le_three (node : Expr) : stepsLeft node ≤ 3 := by
  unfold stepsLeft
  split
  · omega
  · omega
  · split <;> omega
  · split <;> omega
  · omega

theorem stepsLeft_call_of_takesCounters {f : Signature} (hf : f.takesCounters) (args : List Expr) :
    stepsLeft (.call f args) = 2 := if_pos hf

theorem stepsLeft_call_of_not_takesCounters {f : Signature} (hf : ¬f.takesCounters)
    (args : List Expr) : stepsLeft (.call f args) = 0 := if_neg hf

theorem stepsLeft_of_isSummable (h : isSummable node) : 1 < stepsLeft node := by
  cases node with
  | vectorSelector => exact (by omega : 1 < 3)
  | call f args =>
    rw [stepsLeft_call_of_takesCounters h]
    exact Nat.one_lt_two
  | _ => contradiction

theorem Rewrites.stepsLeft_lt (h : Rewrites e e') : stepsLeft e' < stepsLeft e := by
  cases h with
  | deriv hf =>
    rw [stepsLeft_call_of_takesCounters hf, stepsLeft_call_of_not_takesCounters (by decide)]
    exact Nat.two_pos
  | rate | rateOfRange =>
    rw [stepsLeft_call_of_takesCounters (by decide)]
    exact (by omega : 2 < 3)
  | quantile =>
    rw [stepsLeft_call_of_not_takesCounters (by decide)]
    exact (by omega : 0 < 3)
  | keepLe hlacks =>
    rw [stepsLeft, stepsLeft, if_pos hlacks, if_neg (without_keepLe_ne _)]
    exact Nat.one_pos
  | sum h => exact stepsLeft_of_isSummable h

theorem isValid_call {f : Signature} {args : List Expr} :
    (Expr.call f args).IsValid ↔ ∀ a ∈ args, a.IsValid := by
  rw [Expr.isValid_iff]
  simp [Expr.shape, Expr.children, Shape.Fits, Shape.arity?]

theorem Rewrites.isValid_iff (h : Rewrites e e') : e'.IsValid ↔ e.IsValid := by
  cases h with
  | deriv => rw [isValid_call, isValid_call]
  | rate | rateOfRange | quantile => exact iff_of_true rfl rfl
  | keepLe =>
    rw [Expr.isValid_iff, Expr.isValid_iff (.aggregation ..)]
    rfl
  | sum =>
    rw [sumOf, Expr.isValid_iff]
    simp [Expr.shape, Expr.children, Shape.Fits, Shape.arity?, Aggregator.hasParam]

theorem Rewrites.containsPlaceholder_eq (h : Rewrites e e') :
    e'.containsPlaceholder = e.containsPlaceholder := by
  cases h with
  | deriv =>
    rw [Expr.containsPlaceholder_eq, Expr.containsPlaceholder_eq (.call ..)]
    rfl
  | keepLe =>
    rw [Expr.containsPlaceholder_eq, Expr.containsPlaceholder_eq (.aggregation ..)]
    rfl
  | rate | rateOfRange | quantile => rfl
  | sum =>
    rw [sumOf, Expr.containsPlaceholder_eq]
    exact Bool.or_false _

namespace Followed

theorem length_le (h : Followed parent node results suggestions) :
    suggestions.length ≤ stepsLeft node := by
  induction h with
  | nil => exact Nat.zero_le _
  | cons made _ ih =>
    have hlt := (rewrites_of_mem made).stepsLeft_lt
    rw [List.length_cons]
    omega

theorem stepsLeft_lt (h : Followed parent node results suggestions) :
    ∀ s ∈ suggestions, stepsLeft s.replacement < stepsLeft node := by
  induction h with
  | nil => exact nofun
  | cons made _ ih =>
    have hlt := (rewrites_of_mem made).stepsLeft_lt
    rw [List.forall_mem_cons]
    exact ⟨hlt, fun s hs => (ih s hs).trans hlt⟩

theorem nodup (h : Followed parent node results suggestions) :
    (node :: suggestions.map Suggestion.replacement).Nodup := by
  induction h with
  | nil => exact List.nodup_singleton _
  | cons made followed ih =>
    rw [List.nodup_cons]
    refine ⟨fun hmem => ?_, ih⟩
    obtain ⟨s, hs, heq⟩ := List.mem_map.mp hmem
    -- a node that came again would have fewer steps left than it has
    have hlt := (Followed.cons made followed).stepsLeft_lt s hs
    rw [heq] at hlt
    exact Nat.lt_irrefl _ hlt

theorem keeps {α : Type} {f : Expr → α} (hf : ∀ {e e'}, Rewrites e e' → f e' = f e)
    (h : Followed parent node results suggestions) :
    ∀ s ∈ suggestions, f s.replacement = f node := by
  induction h with
  | nil => exact nofun
  | cons made _ ih =>
    have hmade := hf (rewrites_of_mem made)
    rw [List.forall_mem_cons]
    exact ⟨hmade, fun s hs => (ih s hs).trans hmade⟩

end Followed

/-- Suggestions do not go round in circles, and at most three of them follow one another. -/
theorem followed_bounded (h : Followed parent node results suggestions) :
    (node :: suggestions.map Suggestion.replacement).Nodup ∧ suggestions.length ≤ 3 ∧
      ∀ s ∈ suggestions, (s.replacement.IsValid ↔ node.IsValid) ∧
        (s.replacement.containsPlaceholder ↔ node.containsPlaceholder) := by
  refine ⟨h.nodup, h.length_le.trans (stepsLeft_le_three node), fun s hs => ⟨?_, ?_⟩⟩
  · exact iff_of_eq (h.keeps (fun h => propext h.isValid_iff) s hs)
  · rw [h.keeps Rewrites.containsPlaceholder_eq s hs]

theorem followed_bounded_counter :
    let node : Expr := .matrixSelector ⟨"x_total", [], .zero⟩ 300000
    let rate : Expr := .call .rate [node]
    let parent : Expr := .call .histogramQuantile [.number "0.9", node]
    let many : Summary := ⟨2, 0, .empty, .empty⟩
    ∃ suggestions, Followed (some parent) node [Option.none, some many, Option.none] suggestions ∧
      suggestions.map Suggestion.replacement = [rate, sumOf [] rate, sumOf ["le"] rate] ∧
      (node :: suggestions.map Suggestion.replacement).Nodup ∧ suggestions.length ≤ 3 ∧
        ∀ s ∈ suggestions, (s.replacement.IsValid ↔ node.IsValid) ∧
          (s.replacement.containsPlaceholder ↔ node.containsPlaceholder) := by
  intro node rate parent many
  obtain ⟨s₁, h₁, hs₁⟩ : ∃ s ∈ (of node (some parent) Option.none).suggestions,
      s.replacement = rate := ⟨_, .head _, rfl⟩
  obtain ⟨s₂, h₂, hs₂⟩ : ∃ s ∈ (of rate (some parent) (some many)).suggestions,
      s.replacement = sumOf [] rate := ⟨_, .head _, rfl⟩
  obtain ⟨s₃, h₃, hs₃⟩ : ∃ s ∈ (of (sumOf [] rate) (some parent) Option.none).suggestions,
      s.replacement = sumOf ["le"] rate := ⟨_, .head _, rfl⟩
  have hfollowed :
      Followed (some parent) node [Option.none, some many, Option.none] [s₁, s₂, s₃] := by
    apply Followed.cons h₁
    rw [hs₁]
    apply Followed.cons h₂
    rw [hs₂]
    exact .cons h₃ .nil
  refine ⟨[s₁, s₂, s₃], hfollowed, ?_, followed_bounded hfollowed⟩
  rw [List.map_cons, List.map_cons, List.map_singleton, hs₁, hs₂, hs₃]

end PromTree.Advice
