import PromTree.Proofs.Matching.Agreement

namespace PromTree

variable {op : BinaryOp} {f : Float → Float → Outcome} {returnBool : Bool}

namespace VectorMatching

theorem resultLabels_mirror (m : VectorMatching) (op : BinaryOp) (returnBool : Bool)
    (many one : Labels) :
    { m with cardinality := .oneToMany }.resultLabels op returnBool many one =
      { m with cardinality := .manyToOne }.resultLabels op returnBool many one := by
  simp only [resultLabels, reduceCtorEq, ↓reduceIte]

end VectorMatching

namespace MatchGroup

def mirror (g : MatchGroup) : MatchGroup :=
  { g with lhs := g.rhs, lhsCount := g.rhsCount, rhs := g.lhs, rhsCount := g.lhsCount }

end MatchGroup

namespace Pile

def evaluateBy (f : Float → Float → Outcome) (op : BinaryOp) (m : VectorMatching)
    (returnBool : Bool) (p : Pile) : MatchGroup :=
  match p.error? m.cardinality with
  | some e => p.group m.cardinality [] (some e)
  | none => p.group m.cardinality (p.pairs f op m returnBool) none

theorem evaluate_eq_evaluateBy (h : op.elementwise? = some f) (m : VectorMatching)
    (returnBool : Bool) (p : Pile) :
    p.evaluate op m returnBool = p.evaluateBy f op m returnBool := by
  rw [evaluate, h]
  rfl

theorem group_mirror (p : Pile) (result : List MatchResult) (error : Option MatchError) :
    (p.group .manyToOne result error).mirror = p.group .oneToMany result error := rfl

theorem pairResult_mirror (f : Float → Float → Outcome) (op : BinaryOp) (m : VectorMatching)
    (returnBool : Bool) (many : Sample) (index : Nat) (one : Sample) :
    pairResult f op { m with cardinality := .oneToMany } returnBool many index one =
      pairResult (fun l r => f r l) op { m with cardinality := .manyToOne } returnBool many index
        one := by
  simp only [pairResult, VectorMatching.resultLabels_mirror, reduceCtorEq, ↓reduceIte]

theorem evaluateBy_mirror (f : Float → Float → Outcome) (op : BinaryOp) (m : VectorMatching)
    (returnBool : Bool) (p : Pile) :
    p.evaluateBy f op { m with cardinality := .oneToMany } returnBool =
      (p.evaluateBy (fun l r => f r l) op { m with cardinality := .manyToOne }
        returnBool).mirror := by
  have herror : p.error? .oneToMany = p.error? .manyToOne := rfl
  have hpairs : p.pairs f op { m with cardinality := .oneToMany } returnBool =
      p.pairs (fun l r => f r l) op { m with cardinality := .manyToOne } returnBool := by
    simp only [pairs, pairResult_mirror]
  simp only [evaluateBy, herror, hpairs]
  cases p.error? .manyToOne with
  | none => exact (group_mirror p _ none).symm
  | some e => exact (group_mirror p [] (some e)).symm

end Pile

namespace Sorting

theorem ofSamples_cardinality (m : VectorMatching) (c : Cardinality) (limits : MatchLimits)
    (many one : List Sample) :
    ofSamples { m with cardinality := c } limits many one = ofSamples m limits many one := rfl

end Sorting

namespace MatchTable

def mirror (t : MatchTable) : MatchTable := { t with groups := t.groups.map MatchGroup.mirror }

/-- What `compute` does, with an operation on two values that need not be that of the operator. -/
def computeBy (f : Float → Float → Outcome) (op : BinaryOp) (m : VectorMatching)
    (returnBool : Bool) (lhs rhs : List Sample) (limits : MatchLimits) : MatchTable :=
  let sorting :=
    if m.cardinality = .oneToMany then Sorting.ofSamples m limits rhs lhs
    else Sorting.ofSamples m limits lhs rhs
  ⟨sorting.piles.map (Pile.evaluateBy f op m returnBool), sorting.keys.length⟩

theorem compute_eq_computeBy (h : op.elementwise? = some f) (m : VectorMatching)
    (returnBool : Bool) (lhs rhs : List Sample) (limits : MatchLimits) :
    compute op m returnBool lhs rhs limits = computeBy f op m returnBool lhs rhs limits := by
  have hevaluate : Pile.evaluate op m returnBool = Pile.evaluateBy f op m returnBool :=
    funext (Pile.evaluate_eq_evaluateBy h m returnBool)
  rw [compute, computeBy, hevaluate]

theorem computeBy_mirror (f : Float → Float → Outcome) (op : BinaryOp) (m : VectorMatching)
    (returnBool : Bool) (lhs rhs : List Sample) (limits : MatchLimits) :
    computeBy f op { m with cardinality := .oneToMany } returnBool lhs rhs limits =
      (computeBy (fun l r => f r l) op { m with cardinality := .manyToOne } returnBool rhs lhs
        limits).mirror := by
  simp only [computeBy, mirror, reduceCtorEq, ↓reduceIte, Sorting.ofSamples_cardinality,
    List.map_map]
  congr 1
  apply List.map_congr_left
  intro p _
  exact Pile.evaluateBy_mirror f op m returnBool p

/-- Operands keep their places: the mirrored match has them the other way round. -/
theorem compute_oneToMany_eq_mirror (h : op.isSetOperator = false) (m : VectorMatching)
    (returnBool : Bool) (lhs rhs : List Sample) (limits : MatchLimits) :
    ∃ f, op.elementwise? = some f ∧
      (∀ m returnBool lhs rhs limits,
        computeBy f op m returnBool lhs rhs limits = compute op m returnBool lhs rhs limits) ∧
      compute op { m with cardinality := .oneToMany } returnBool lhs rhs limits =
        (computeBy (fun l r => f r l) op { m with cardinality := .manyToOne } returnBool rhs lhs
          limits).mirror := by
  obtain ⟨f, hf⟩ := BinaryOp.exists_elementwise? h
  refine ⟨f, hf, ?_, ?_⟩
  · intro m returnBool lhs rhs limits
    exact (compute_eq_computeBy hf m returnBool lhs rhs limits).symm
  · rw [compute_eq_computeBy hf, computeBy_mirror]

theorem compute_oneToMany_eq_mirror_sub :
    let m : VectorMatching := ⟨true, ["x"], .oneToMany, ["y"]⟩
    let lhs := [sampleOf [("x", "1"), ("y", "1")]]
    let rhs := [sampleOf [("x", "1"), ("z", "1")], sampleOf [("x", "1"), ("z", "2")]]
    BinaryOp.sub.isSetOperator = false ∧
      compute .sub m false lhs rhs .unlimited =
        (computeBy (fun l r => ⟨r - l, true⟩) .sub ⟨true, ["x"], .manyToOne, ["y"]⟩ false rhs lhs
          .unlimited).mirror ∧
      (compute .sub m false lhs rhs .unlimited).samples.map Sample.labels =
        [.ofList [("x", "1"), ("y", "1"), ("z", "1")],
          .ofList [("x", "1"), ("y", "1"), ("z", "2")]] := by
  intro m lhs rhs
  have hsub : BinaryOp.sub.isSetOperator = false := rfl
  obtain ⟨f, hf, -, hmirror⟩ := compute_oneToMany_eq_mirror hsub m false lhs rhs .unlimited
  obtain rfl := Option.some.inj hf
  exact ⟨hsub, hmirror, by decide⟩

end MatchTable

end PromTree
