import PromTree.Advice
import PromTree.Proofs.Tree.Nested

namespace PromTree

def Expr.CallsKnown (e : Expr) : Prop :=
  Hereditarily Expr.children (fun e => ∀ f args, e = .call f args → f ∈ Signature.all) e

namespace Suggestion

/-- In the place of a node the replacement leaves all types as they are: its own, those of the other
children and that of the parent. -/
structure KeepsTypes (s : Suggestion) (parent : Expr) (i : Nat) (node : Expr) : Prop where
  node : s.replacement.valueType = node.valueType
  children : (parent.replaceAt [i] s.replacement).children.map Expr.valueType =
    parent.children.map Expr.valueType
  parent : (parent.replaceAt [i] s.replacement).valueType = parent.valueType

def IsRateOfRange (s : Suggestion) (parent node : Expr) : Prop :=
  ∃ selector range f args, node = .matrixSelector selector range ∧ parent = .call f args ∧
    f.takesCounters = false ∧ hasCounterSuffix selector.name = true ∧
    s.replacement = .call .rate [node] ∧ s.replacement.valueType ≠ node.valueType

theorem keepsTypes_of_valueType {s : Suggestion} {parent node : Expr} {i : Nat}
    (hchild : parent.children[i]? = some node) (h : s.replacement.valueType = node.valueType) :
    s.KeepsTypes parent i node := by
  have hchildren : (parent.replaceAt [i] s.replacement).children.map Expr.valueType =
      parent.children.map Expr.valueType := by
    rw [Expr.replaceAt, Expr.children_modifyChild,
      NestedTree.map_modify_of_getElem? (h := fun t => t) hchild h]
    exact List.modify_id i _
  refine ⟨h, hchildren, ?_⟩
  rw [Expr.valueType_eq, hchildren, Expr.valueType_eq parent, Expr.replaceAt, Expr.shape_modifyChild]

end Suggestion

namespace Signature

theorem returnType_of_takesCounters {f : Signature} (hf : f ∈ all) (h : f.takesCounters) :
    f.returnType = .vector := by
  have hall : ∀ f ∈ all, f.takesCounters → f.returnType = .vector := by decide +kernel
  exact hall f hf h

theorem takesCounters_of_strict {f : Signature} (h : strictCounterNames.contains f.name) :
    f.takesCounters := by
  rw [takesCounters, counterNames, List.contains_iff_mem] at *
  exact List.mem_append_left _ h

end Signature

namespace Advice

variable {node parent : Expr} {s : Suggestion} {result : Option Summary}

theorem mem_suggestions_append {a b : Advice} :
    s ∈ (a ++ b).suggestions ↔ s ∈ a.suggestions ∨ s ∈ b.suggestions :=
  List.mem_append

theorem valueType_call (f : Signature) (args : List Expr) :
    (Expr.call f args).valueType = f.returnType := Expr.valueType_eq _

theorem valueType_aggregation (op : Aggregator) (grouping : Grouping) (param : Option Expr)
    (body : Expr) : (Expr.aggregation op grouping param body).valueType = .vector :=
  Expr.valueType_eq _

theorem valueType_vectorSelector (selector : Selector) :
    (Expr.vectorSelector selector).valueType = .vector := Expr.valueType_eq _

theorem valueType_matrixSelector (selector : Selector) (range : UInt64) :
    (Expr.matrixSelector selector range).valueType = .matrix := Expr.valueType_eq _

theorem replacement_onStrictCounter {f : Signature} {args : List Expr}
    (hs : s ∈ (onStrictCounter f args).suggestions) :
    f.takesCounters ∧ s.replacement = .call .deriv args := by
  unfold onStrictCounter at hs
  split at hs
  · split at hs
    · next hstrict =>
      rw [Bool.and_eq_true] at hstrict
      obtain rfl := List.mem_singleton.mp hs
      exact ⟨Signature.takesCounters_of_strict hstrict.1, rfl⟩
    · exact absurd hs List.not_mem_nil
  · exact absurd hs List.not_mem_nil

theorem suggestions_onRawCounter (f : Signature) (args : List Expr) :
    (onRawCounter f args).suggestions = [] := by
  rw [onRawCounter]
  split <;> rfl

theorem replacement_onCall (hs : s ∈ (onCall node).suggestions) :
    ∃ f args, node = .call f args ∧ f.takesCounters ∧ s.replacement = .call .deriv args := by
  cases node with
  | call f args =>
    rw [onCall, mem_suggestions_append, suggestions_onRawCounter] at hs
    exact ⟨f, args, rfl, replacement_onStrictCounter (hs.resolve_right List.not_mem_nil)⟩
  | _ => exact absurd hs List.not_mem_nil

theorem valueType_onCall (hknown : node.CallsKnown) (hs : s ∈ (onCall node).suggestions) :
    s.replacement.valueType = node.valueType := by
  obtain ⟨f, args, rfl, hf, hr⟩ := replacement_onCall hs
  rw [hr, valueType_call, valueType_call,
    Signature.returnType_of_takesCounters (hknown.own f args rfl) hf]
  rfl

theorem replacement_onCounter {parent : Option Expr}
    (hs : s ∈ (onCounter node parent).suggestions) :
    ∃ name, node.selectorName = some name ∧ rateOf? node = some s.replacement ∧
      admitsRate parent ∧ hasCounterSuffix name := by
  unfold onCounter at hs
  split at hs
  · next name rate hname hrate =>
    split at hs
    · next hadmits =>
      rw [Bool.and_eq_true] at hadmits
      obtain rfl := List.mem_singleton.mp hs
      exact ⟨name, hname, hrate, hadmits⟩
    · exact absurd hs List.not_mem_nil
  · exact absurd hs List.not_mem_nil

theorem exists_of_admitsRate (h : admitsRate (some parent)) :
    ∃ f args, parent = .call f args ∧ f.takesCounters = false := by
  cases parent with
  | call f args => exact ⟨f, args, rfl, by simpa [admitsRate] using h⟩
  | _ => contradiction

theorem onCounter_fits (hs : s ∈ (onCounter node (some parent)).suggestions) :
    s.replacement.valueType = node.valueType ∨ s.IsRateOfRange parent node := by
  obtain ⟨name, hname, hrate, hadmits, hsuffix⟩ := replacement_onCounter hs
  cases node with
  | vectorSelector selector =>
    rw [← Option.some.inj hrate]
    exact .inl ((valueType_call _ _).trans (valueType_vectorSelector _).symm)
  | matrixSelector selector range =>
    obtain rfl := Option.some.inj hname
    obtain ⟨f, args, hparent, hf⟩ := exists_of_admitsRate hadmits
    have hr := (Option.some.inj hrate).symm
    refine .inr ⟨selector, range, f, args, rfl, hparent, hf, hsuffix, hr, ?_⟩
    rw [hr, valueType_call, valueType_matrixSelector]
    exact nofun
  | _ => contradiction

theorem suggestions_onBuckets (node parent : Expr) :
    (onBuckets node (some parent)).suggestions = [] := by
  unfold onBuckets
  split
  · rw [Option.isNone_some, Bool.false_and]
    rfl
  · rfl

theorem replacement_onBuckets {parent : Option Expr}
    (hs : s ∈ (onBuckets node parent).suggestions) :
    ∃ selector, node = .vectorSelector selector ∧
      s.replacement = .call .histogramQuantile [.number "0.9",
        sumOf ["le"] (.call .rate [.matrixSelector selector defaultRange])] := by
  unfold onBuckets at hs
  split at hs
  · next selector rate hrate =>
    split at hs
    · obtain rfl := List.mem_singleton.mp hs
      obtain rfl := Option.some.inj hrate
      exact ⟨selector, rfl, rfl⟩
    · exact absurd hs List.not_mem_nil
  · exact absurd hs List.not_mem_nil

theorem replacement_onQuantile {parent : Option Expr}
    (hs : s ∈ (onQuantile node parent).suggestions) :
    ∃ op grouping param body, node = .aggregation op grouping param body ∧
      grouping.without = grouping.labels.contains "le" ∧
      s.replacement = .aggregation op (keepLe grouping) param body := by
  unfold onQuantile at hs
  split at hs
  · next op grouping param body =>
    split at hs
    · next hlacks =>
      obtain rfl := List.mem_singleton.mp hs
      exact ⟨op, grouping, param, body, rfl, hlacks.2, rfl⟩
    · exact absurd hs List.not_mem_nil
  · exact absurd hs List.not_mem_nil

theorem valueType_onQuantile (hs : s ∈ (onQuantile node (some parent)).suggestions) :
    s.replacement.valueType = node.valueType := by
  obtain ⟨op, grouping, param, body, rfl, -, hr⟩ := replacement_onQuantile hs
  rw [hr, valueType_aggregation, valueType_aggregation]

theorem valueType_of_isSummable (hknown : node.CallsKnown) (h : isSummable node) :
    node.valueType = .vector := by
  cases node with
  | vectorSelector selector => exact valueType_vectorSelector selector
  | call f args =>
    rw [valueType_call]
    exact Signature.returnType_of_takesCounters (hknown.own f args rfl) h
  | _ => contradiction

theorem replacement_onManySeries {parent : Option Expr}
    (hs : s ∈ (onManySeries node parent result).suggestions) :
    isSummable node ∧ s.replacement = sumOf [] node := by
  rw [onManySeries] at hs
  split at hs
  · next h =>
    rw [Bool.and_eq_true, Bool.and_eq_true] at h
    obtain rfl := List.mem_singleton.mp hs
    exact ⟨h.1.1, rfl⟩
  · exact absurd hs List.not_mem_nil

theorem valueType_onManySeries (hknown : node.CallsKnown)
    (hs : s ∈ (onManySeries node (some parent) result).suggestions) :
    s.replacement.valueType = node.valueType := by
  obtain ⟨hsummable, hr⟩ := replacement_onManySeries hs
  rw [hr, sumOf, valueType_aggregation, valueType_of_isSummable hknown hsummable]

/-- What is suggested for a child keeps all types, except the rate of a range of samples. -/
theorem suggestion_keepsTypes {i : Nat} (hchild : parent.children[i]? = some node)
    (hknown : node.CallsKnown) (hs : s ∈ (of node (some parent) result).suggestions) :
    s.KeepsTypes parent i node ∨ s.IsRateOfRange parent node := by
  have hkeeps (h : s.replacement.valueType = node.valueType) :
      s.KeepsTypes parent i node ∨ s.IsRateOfRange parent node :=
    .inl (Suggestion.keepsTypes_of_valueType hchild h)
  simp only [of, mem_suggestions_append, suggestions_onBuckets, List.not_mem_nil, or_false] at hs
  rcases hs with ((hs | hs) | hs) | hs
  · exact hkeeps (valueType_onCall hknown hs)
  · exact (onCounter_fits hs).elim hkeeps .inr
  · exact hkeeps (valueType_onQuantile hs)
  · exact hkeeps (valueType_onManySeries hknown hs)

theorem suggestion_keepsTypes_of_buckets :
    let rate : Expr := .call .rate [.matrixSelector ⟨"x_bucket", [], .zero⟩ 300000]
    let node : Expr := .aggregation .sum ⟨["job"], false⟩ Option.none rate
    let parent : Expr := .call .histogramQuantile [.number "0.9", node]
    parent.children[1]? = some node ∧ node.CallsKnown ∧
      ∃ s ∈ (of node (some parent) Option.none).suggestions,
        s.KeepsTypes parent 1 node ∨ s.IsRateOfRange parent node := by
  intro rate node parent
  have hrate : rate.CallsKnown := by
    refine .node _ (fun f args h => ?_) fun c hc => ?_
    · obtain ⟨rfl, -⟩ := Expr.call.inj h
      decide +kernel
    · obtain rfl := List.mem_singleton.mp hc
      exact .node _ nofun nofun
  have hknown : node.CallsKnown := by
    refine .node _ nofun fun c hc => ?_
    obtain rfl := List.mem_singleton.mp hc
    exact hrate
  have hlength : 0 < (of node (some parent) Option.none).suggestions.length := by decide +kernel
  obtain ⟨s, hs⟩ := List.exists_mem_of_length_pos hlength
  exact ⟨rfl, hknown, s, hs, suggestion_keepsTypes rfl hknown hs⟩

/-- A function that takes a range of samples is offered the rate of that range, which is a vector. -/
theorem rate_suggested_below_delta :
    let node : Expr := .matrixSelector ⟨"x_total", [], .zero⟩ 300000
    let parent : Expr := .call ⟨"delta", [.matrix], 0, .vector⟩ [node]
    parent.children[0]? = some node ∧ parent.CallsKnown ∧
      ¬∀ s ∈ (of node (some parent) Option.none).suggestions,
        s.replacement.valueType = node.valueType := by
  intro node parent
  refine ⟨rfl, ?_, fun h => ?_⟩
  · refine .node _ (fun f args h => ?_) fun c hc => ?_
    · obtain ⟨rfl, -⟩ := Expr.call.inj h
      decide +kernel
    · obtain rfl := List.mem_singleton.mp hc
      exact .node _ nofun nofun
  · have htypes : (of node (some parent) Option.none).suggestions.map (·.replacement.valueType) =
        [.vector] := by decide +kernel
    have hmem := htypes ▸ List.mem_singleton_self ValueType.vector
    obtain ⟨s, hs, ht⟩ := List.mem_map.mp hmem
    have hmatrix := h s hs
    rw [ht, valueType_matrixSelector] at hmatrix
    contradiction

end Advice

end PromTree
