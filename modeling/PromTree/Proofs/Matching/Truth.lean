import PromTree.Proofs.Matching.Distinct
import PromTree.Proofs.Matching.Limits
import PromTree.Proofs.Matching.Scalars

namespace PromTree

variable {op : BinaryOp} {m : VectorMatching} {f : Float → Float → Outcome}
  {lhs rhs vector many one : List Sample} {limits : MatchLimits}

theorem Point.ofValue_truthValue (timestamp : Binary64) (b : Bool) :
    ofValue timestamp (BinaryOp.truthValue b) = ⟨timestamp, if b then "1" else "0"⟩ := by
  have htext : ∀ b, SampleValue.text (.ofFloat (BinaryOp.truthValue b)) =
      if b then "1" else "0" := by
    decide +kernel
  rw [ofValue, htext]

theorem BinaryOp.dropsName_of_isComparison (h : op.isComparison) (returnBool : Bool) :
    op.dropsName returnBool = returnBool := by
  simp [dropsName, h]

theorem BinaryOp.exists_elementwise?_of_isComparison (h : op.isComparison) :
    ∃ f, op.elementwise? = some f := by
  apply exists_elementwise?
  cases op with
  | and | or | «unless» => contradiction
  | _ => rfl

structure ScalarRow.IsTruthOf (plain r : ScalarRow) : Prop where
  input : r.input = plain.input
  labels : r.output.labels = plain.output.labels.erase metricName
  point : r.output.point = ⟨plain.output.point.timestamp, if plain.kept then "1" else "0"⟩
  kept : r.kept

/-- An entry of truth values, from that of the same comparison as a filter. The metric name is lost
unless it is taken over from the one side. -/
structure MatchResult.IsTruthOf (m : VectorMatching) (one : Sample) (plain r : MatchResult) :
    Prop where
  manyIndex : r.manyIndex = plain.manyIndex
  labels : r.sample.labels =
    if metricName ∈ m.included ∧ one.labels.contains metricName then plain.sample.labels
    else plain.sample.labels.erase metricName
  point : r.sample.point = ⟨plain.sample.point.timestamp, if plain.filtered then "0" else "1"⟩
  kept : r.filtered = false

structure MatchGroup.IsTruthOf (m : VectorMatching) (plain g : MatchGroup) : Prop where
  labels : g.labels = plain.labels
  lhs : g.lhs = plain.lhs
  lhsCount : g.lhsCount = plain.lhsCount
  rhs : g.rhs = plain.rhs
  rhsCount : g.rhsCount = plain.rhsCount
  error : g.error = plain.error
  result : List.Forall₂ (fun p r => ∃ one, m.oneSide plain.lhs plain.rhs = [one] ∧
    MatchResult.IsTruthOf m one p r) plain.result g.result

structure MatchTable.IsTruthOf (m : VectorMatching) (plain t : MatchTable) : Prop where
  numGroups : t.numGroups = plain.numGroups
  groups : List.Forall₂ (MatchGroup.IsTruthOf m) plain.groups t.groups

theorem ScalarRow.isTruthOf_compute (h : op.isComparison) (scalar : Float) (scalarLeft : Bool)
    (s : Sample) :
    IsTruthOf (compute f op false scalar scalarLeft s) (compute f op true scalar scalarLeft s) := by
  have hplain := BinaryOp.dropsName_of_isComparison h false
  have hbool := BinaryOp.dropsName_of_isComparison h true
  constructor
  · rfl
  · simp only [compute, hplain, hbool, Bool.false_eq_true, ↓reduceIte]
  · exact Point.ofValue_truthValue _ _
  · rfl

theorem ScalarRow.forall₂_isTruthOf (h : op.isComparison) (vector : List Sample) (scalar : Float)
    (scalarLeft : Bool) :
    ∃ plain rows, ofVector? op false vector scalar scalarLeft = some plain ∧
      ofVector? op true vector scalar scalarLeft = some rows ∧
      List.Forall₂ IsTruthOf plain rows := by
  obtain ⟨f, hf⟩ := BinaryOp.exists_elementwise?_of_isComparison h
  refine ⟨_, _, by rw [ofVector?, hf], by rw [ofVector?, hf], ?_⟩
  rw [List.forall₂_map_left_iff, List.forall₂_map_right_iff, List.forall₂_same]
  intro s _
  exact isTruthOf_compute h scalar scalarLeft s

namespace VectorMatching

theorem takesOver_truth (h : op.isComparison) (m : VectorMatching) (name : String) :
    m.takesOver op true name = (name != metricName && m.takesOver op false name) := by
  have hplain := BinaryOp.dropsName_of_isComparison h false
  have hbool := BinaryOp.dropsName_of_isComparison h true
  rw [takesOver, takesOver, hplain, hbool, Bool.true_and, Bool.false_and, Bool.not_false,
    Bool.true_and, Bool.and_assoc]
  rfl

theorem resultLabels_truth (h : op.isComparison) (m : VectorMatching) (many one : Labels) :
    m.resultLabels op true many one =
      if metricName ∈ m.included ∧ one.contains metricName then m.resultLabels op false many one
      else (m.resultLabels op false many one).erase metricName := by
  apply SortedMap.ext_find?
  intro name
  by_cases hincluded : metricName ∈ m.included ∧ one.contains metricName
  · rw [if_pos hincluded, find?_resultLabels, find?_resultLabels]
    split
    · rfl
    · rename_i hmem
      have hname : name ≠ metricName := fun hname => hmem (hname ▸ hincluded.1)
      rw [takesOver_truth h, bne_iff_ne.mpr hname, Bool.true_and]
  · rw [if_neg hincluded, SortedMap.find?_erase, find?_resultLabels, find?_resultLabels,
      takesOver_truth h]
    by_cases hname : name = metricName
    · subst hname
      rw [beq_self_eq_true, if_pos rfl]
      split
      · rename_i hmem
        simpa [hmem, SortedMap.contains] using hincluded
      · simp
    · simp [hname]

end VectorMatching

namespace Pile

variable {p : Pile}

theorem pairResult_isTruthOf (h : op.isComparison) (m : VectorMatching) (many one : Sample)
    (index : Nat) :
    MatchResult.IsTruthOf m one (pairResult f op m false many index one)
      (pairResult f op m true many index one) := by
  constructor
  · rfl
  · exact VectorMatching.resultLabels_truth h m many.labels one.labels
  · have hpoint (timestamp : Binary64) (keep : Bool) :
        Point.ofValue timestamp (BinaryOp.truthValue keep) =
          ⟨timestamp, if !keep && !false then "0" else "1"⟩ := by
      rw [Point.ofValue_truthValue]
      cases keep <;> rfl
    exact hpoint _ _
  · simp [pairResult]

theorem pairs_isTruthOf (h : op.isComparison) (hone : p.one.length ≤ 1) :
    List.Forall₂ (fun plain r => ∃ one, p.one = [one] ∧ MatchResult.IsTruthOf m one plain r)
      (p.pairs f op m false) (p.pairs f op m true) := by
  apply List.rel_flatMap (List.forall₂_same.mpr fun s _ => rfl)
  rintro ⟨s, i⟩ _ rfl
  rw [List.forall₂_map_left_iff, List.forall₂_map_right_iff, List.forall₂_same]
  intro t ht
  have hsingle : p.one = [t] := by
    obtain ⟨u, hu⟩ := List.length_eq_one_iff.mp (le_antisymm hone (List.length_pos_of_mem ht))
    rw [hu] at ht ⊢
    rw [List.mem_singleton.mp ht]
  exact ⟨t, hsingle, pairResult_isTruthOf h m s t i⟩

theorem oneSide_group (p : Pile) (m : VectorMatching) (result : List MatchResult)
    (error : Option MatchError) :
    m.oneSide (p.group m.cardinality result error).lhs (p.group m.cardinality result error).rhs =
      p.one := by
  rw [VectorMatching.oneSide, group]
  split <;> rfl

theorem group_isTruthOf {plain results : List MatchResult} (error : Option MatchError)
    (h : List.Forall₂ (fun plain r => ∃ one, p.one = [one] ∧ MatchResult.IsTruthOf m one plain r)
      plain results) :
    MatchGroup.IsTruthOf m (p.group m.cardinality plain error)
      (p.group m.cardinality results error) := by
  have hone := p.oneSide_group m plain error
  by_cases hc : m.cardinality = .oneToMany
  · simp only [group, if_pos hc] at hone ⊢
    exact ⟨rfl, rfl, rfl, rfl, rfl, rfl, by simpa only [hone] using h⟩
  · simp only [group, if_neg hc] at hone ⊢
    exact ⟨rfl, rfl, rfl, rfl, rfl, rfl, by simpa only [hone] using h⟩

theorem evaluate_isTruthOf (h : op.isComparison) (hc : m.cardinality ≠ .manyToMany)
    (hone : p.one.length ≤ p.oneCount) :
    MatchGroup.IsTruthOf m (p.evaluate op m false) (p.evaluate op m true) := by
  obtain ⟨f, hf⟩ := BinaryOp.exists_elementwise?_of_isComparison h
  rw [evaluate, evaluate, hf]
  cases he : p.error? m.cardinality with
  | some e => exact group_isTruthOf (some e) .nil
  | none =>
    have hle : p.one.length ≤ 1 := hone.trans (oneCount_le_of_error? hc he)
    exact group_isTruthOf none (pairs_isTruthOf h hle)

end Pile

namespace MatchTable

theorem length_one_le {p : Pile} (hp : p ∈ (Sorting.ofSamples m limits many one).piles) :
    p.one.length ≤ p.oneCount := by
  rw [Sorting.ofSamples_eq] at hp
  obtain ⟨key, -, rfl⟩ := List.mem_map.mp hp
  simp only [Pile.ofCasting, atMost]
  cases limits.maxSeries with
  | none => exact le_rfl
  | some n => exact List.length_take_le' _ _

theorem compute_isTruthOf (h : op.isComparison) (hc : m.cardinality ≠ .manyToMany)
    (lhs rhs : List Sample) (limits : MatchLimits) :
    IsTruthOf m (compute op m false lhs rhs limits) (compute op m true lhs rhs limits) := by
  have hpiles (many one : List Sample) : List.Forall₂ (MatchGroup.IsTruthOf m)
      ((Sorting.ofSamples m limits many one).piles.map (Pile.evaluate op m false))
      ((Sorting.ofSamples m limits many one).piles.map (Pile.evaluate op m true)) := by
    rw [List.forall₂_map_left_iff, List.forall₂_map_right_iff, List.forall₂_same]
    intro p hp
    exact Pile.evaluate_isTruthOf h hc (length_one_le hp)
  constructor
  · rfl
  · simp only [compute]
    split
    · exact hpiles rhs lhs
    · exact hpiles lhs rhs

/-- Truth values and filtering agree on all pairs of samples, and on all pairs of a sample and a
scalar. -/
theorem comparison_isTruthOf (h : op.isComparison) (hc : m.cardinality ≠ .manyToMany)
    (lhs rhs : List Sample) (limits : MatchLimits) :
    IsTruthOf m (compute op m false lhs rhs limits) (compute op m true lhs rhs limits) ∧
      ∀ vector scalar scalarLeft, ∃ plain rows,
        ScalarRow.ofVector? op false vector scalar scalarLeft = some plain ∧
        ScalarRow.ofVector? op true vector scalar scalarLeft = some rows ∧
        List.Forall₂ ScalarRow.IsTruthOf plain rows :=
  ⟨compute_isTruthOf h hc lhs rhs limits, ScalarRow.forall₂_isTruthOf h⟩

theorem comparison_isTruthOf_included :
    let m : VectorMatching := ⟨true, ["x"], .oneToMany, ["__name__"]⟩
    let lhs := [sampleOf [("__name__", "a"), ("x", "1")]]
    let rhs : List Sample := ["2", "0.5", "NaN"].map fun text =>
      ⟨.ofList [("__name__", "b"), ("x", "1"), ("y", text)], ⟨.zero false, text⟩⟩
    BinaryOp.lss.isComparison ∧ m.cardinality ≠ .manyToMany ∧
      IsTruthOf m (compute .lss m false lhs rhs .unlimited)
        (compute .lss m true lhs rhs .unlimited) ∧
      (compute .lss m false lhs rhs .unlimited).samples.length = 1 ∧
      (compute .lss m true lhs rhs .unlimited).samples.map (fun s => s.point.text) =
        ["1", "0", "0"] ∧
      (compute .lss m true lhs rhs .unlimited).samples.map (fun s => s.labels.find? "__name__") =
        [some "a", some "a", some "a"] := by
  intro m lhs rhs
  have hlss : BinaryOp.lss.isComparison := rfl
  have hm : m.cardinality ≠ .manyToMany := nofun
  refine ⟨hlss, hm, (comparison_isTruthOf hlss hm lhs rhs .unlimited).1, ?_, ?_, ?_⟩
  · decide +kernel
  · decide +kernel
  · decide +kernel

end MatchTable

end PromTree
