import PromTree.Proofs.Matching.Agreement

namespace PromTree

section AtMost

variable {α β : Type}

theorem atMost_nil (limit : Option Nat) : atMost limit ([] : List α) = [] := by
  cases limit with
  | none => rfl
  | some n => exact List.take_nil

theorem atMost_map (limit : Option Nat) (f : α → β) (as : List α) :
    atMost limit (as.map f) = (atMost limit as).map f := by
  cases limit with
  | none => rfl
  | some n => exact List.map_take.symm

theorem atMost_zipIdx (limit : Option Nat) (as : List α) :
    atMost limit as.zipIdx = (atMost limit as).zipIdx := by
  cases limit with
  | none => rfl
  | some n =>
    apply List.ext_getElem?
    intro i
    simp only [atMost, Option.elim_some, List.getElem?_take, List.getElem?_zipIdx]
    split <;> rfl

theorem atMost_flatMap_map (limit : Option Nat) (as : List α) {bs : List β} (h : bs.length ≤ 1)
    {γ : Type} (f : α → β → γ) :
    atMost limit (as.flatMap fun a => bs.map (f a)) =
      (atMost limit as).flatMap fun a => (atMost limit bs).map (f a) := by
  match bs with
  | [] =>
    have hnil (as : List α) : (as.flatMap fun a => ([] : List β).map (f a)) = [] :=
      List.flatMap_eq_nil_iff.mpr fun _ _ => rfl
    rw [atMost_nil, hnil, hnil, atMost_nil]
  | [b] =>
    have hsingle (as : List α) : (as.flatMap fun a => [b].map (f a)) = as.map fun a => f a b :=
      List.map_eq_flatMap.symm
    cases limit with
    | none => rfl
    | some n =>
      cases n with
      | zero => rfl
      | succ n =>
        have hb : atMost (some (n + 1)) [b] = [b] := List.take_of_length_le (by simp)
        rw [hb, hsingle, hsingle, atMost_map]

end AtMost

variable {op : BinaryOp} {m : VectorMatching} {returnBool : Bool}

def MatchGroup.cut (limit : Option Nat) (g : MatchGroup) : MatchGroup :=
  { g with
    lhs := atMost limit g.lhs
    rhs := atMost limit g.rhs
    result := atMost limit g.result }

def MatchTable.cut (limits : MatchLimits) (t : MatchTable) : MatchTable :=
  { t with groups := (atMost limits.maxGroups t.groups).map (MatchGroup.cut limits.maxSeries) }

namespace Pile

def cut (limit : Option Nat) (p : Pile) : Pile :=
  { p with many := atMost limit p.many, one := atMost limit p.one }

variable {p : Pile} (limit : Option Nat)

theorem group_cut (cardinality : Cardinality) (result : List MatchResult)
    (error : Option MatchError) :
    (p.cut limit).group cardinality (atMost limit result) error =
      (p.group cardinality result error).cut limit := by
  rw [group, group]
  split <;> rfl

theorem taken_atMost (samples : List Sample) :
    taken (atMost limit samples) = atMost limit (taken samples) := by
  rw [taken, taken, atMost_map, atMost_zipIdx]

theorem setSamples_cut (op : BinaryOp) (p : Pile) :
    (p.cut limit).setSamples op = atMost limit (p.setSamples op) := by
  unfold setSamples
  rw [apply_ite (atMost limit), apply_ite (atMost limit), atMost_nil]
  rfl

theorem pairs_cut (f : Float → Float → Outcome) (h : p.one.length ≤ 1) :
    (p.cut limit).pairs f op m returnBool = atMost limit (p.pairs f op m returnBool) := by
  rw [pairs, pairs, atMost_flatMap_map limit _ h, atMost_zipIdx]
  rfl

theorem oneCount_le_of_error? {cardinality : Cardinality} (hc : cardinality ≠ .manyToMany)
    (h : p.error? cardinality = none) : p.oneCount ≤ 1 := by
  by_contra hcount
  rw [Nat.not_le] at hcount
  cases cardinality with
  | oneToOne =>
    simp only [error?, hcount, and_true, ↓reduceIte] at h
    split at h <;> contradiction
  | manyToOne | oneToMany => simp [error?, hcount] at h
  | manyToMany => contradiction

theorem evaluate_cut (hm : m.cardinality = .manyToMany → op.isSetOperator)
    (hone : p.oneCount = p.one.length) :
    (p.cut limit).evaluate op m returnBool = (p.evaluate op m returnBool).cut limit := by
  rw [evaluate, evaluate]
  cases hf : op.elementwise? with
  | none => simp only [setSamples_cut, taken_atMost, group_cut]
  | some f =>
    have hset := BinaryOp.not_isSetOperator_of_elementwise? hf
    have hc : m.cardinality ≠ .manyToMany := fun hc => Bool.false_ne_true (hset ▸ hm hc)
    have herror : (p.cut limit).error? m.cardinality = p.error? m.cardinality := rfl
    rw [herror]
    cases he : p.error? m.cardinality with
    | none =>
      have hle : p.one.length ≤ 1 := hone ▸ oneCount_le_of_error? hc he
      simp only [pairs_cut limit f hle, group_cut]
    | some e =>
      have hcut := p.group_cut limit m.cardinality [] (some e)
      rwa [atMost_nil] at hcut

end Pile

namespace MatchTable

theorem map_evaluate_ofSamples (hm : m.cardinality = .manyToMany → op.isSetOperator)
    (limits : MatchLimits)
    (many one : List Sample) :
    (Sorting.ofSamples m limits many one).piles.map (Pile.evaluate op m returnBool) =
      (atMost limits.maxGroups ((Sorting.ofSamples m .unlimited many one).piles.map
        (Pile.evaluate op m returnBool))).map (MatchGroup.cut limits.maxSeries) := by
  have hpile (key : String) : Pile.ofCasting m limits.maxSeries (Sorting.cast many one) key =
      (Pile.ofCasting m none (Sorting.cast many one) key).cut limits.maxSeries := rfl
  rw [Sorting.ofSamples_eq, Sorting.ofSamples_eq]
  simp only [Sorting.ofCasting, atMost_map, List.map_map]
  refine List.map_congr_left fun key _ => ?_
  exact (congrArg _ (hpile key)).trans (Pile.evaluate_cut _ hm rfl)

/-- Limits cut only what is shown. -/
theorem compute_eq_cut_unlimited (hm : m.cardinality = .manyToMany → op.isSetOperator)
    (returnBool : Bool) (lhs rhs : List Sample) (limits : MatchLimits) :
    compute op m returnBool lhs rhs limits =
      (compute op m returnBool lhs rhs .unlimited).cut limits := by
  have hkeys (many one : List Sample) :
      (Sorting.ofSamples m limits many one).keys = (Sorting.ofSamples m .unlimited many one).keys := by
    rw [Sorting.ofSamples_eq, Sorting.ofSamples_eq]
    rfl
  rw [compute, compute, cut]
  split
  · rw [map_evaluate_ofSamples hm, hkeys]
  · rw [map_evaluate_ofSamples hm, hkeys]

theorem compute_eq_cut_many :
    let m : VectorMatching := ⟨true, ["x"], .manyToOne, []⟩
    let lhs := [sampleOf [("x", "1"), ("y", "1")], sampleOf [("x", "1"), ("y", "2")],
      sampleOf [("x", "2")]]
    let rhs := [sampleOf [("x", "1")]]
    let limits : MatchLimits := ⟨some 1, some 1⟩
    (m.cardinality = .manyToMany → BinaryOp.mul.isSetOperator) ∧
      compute .mul m false lhs rhs limits =
        (compute .mul m false lhs rhs .unlimited).cut limits ∧
      (compute .mul m false lhs rhs limits).numGroups = 2 ∧
      (compute .mul m false lhs rhs limits).groups.map (fun g => (g.lhs.length, g.lhsCount)) =
        [(1, 2)] := by
  intro m lhs rhs limits
  exact ⟨by decide, compute_eq_cut_unlimited (by decide) false lhs rhs limits, by decide, by decide⟩

end MatchTable

end PromTree
