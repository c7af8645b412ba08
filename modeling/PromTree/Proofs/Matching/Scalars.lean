import Mathlib.Data.List.Forall2
import PromTree.Proofs.Matching.Agreement

namespace PromTree

variable {op : BinaryOp} {m : VectorMatching} {returnBool : Bool} {f : Float → Float → Outcome}
  {lhs rhs vector samples : List Sample} {s t : Sample}

namespace VectorMatching

def onNothing (cardinality : Cardinality) : VectorMatching := ⟨true, [], cardinality, []⟩

variable {c : Cardinality}

theorem key_onNothing (labels : Labels) : (onNothing c).key labels = "" := rfl

theorem withKey_onNothing (samples : List Sample) : (onNothing c).withKey "" samples = samples := by
  apply List.filter_eq_self.mpr
  intro s _
  rfl

theorem keys_onNothing (h : samples ≠ []) : (onNothing c).keys samples = [""] := by
  obtain ⟨s, samples, rfl⟩ := List.exists_cons_of_ne_nil h
  have hrest : ((samples.map fun s => (onNothing c).key s.labels).filter fun key => !key == "") =
      [] := by
    simp [key_onNothing]
  rw [keys, List.map_cons, key_onNothing, List.eraseDups_cons, hrest]
  rfl

end VectorMatching

namespace ScalarRow

structure Agrees (vector : List Sample) (r : ScalarRow) (e : MatchResult) : Prop where
  input : vector[e.manyIndex]? = some r.input
  output : r.output = e.sample
  kept : r.kept = !e.filtered

theorem input_compute (f : Float → Float → Outcome) (op : BinaryOp) (returnBool : Bool)
    (scalar : Float) (scalarLeft : Bool) (s : Sample) :
    (compute f op returnBool scalar scalarLeft s).input = s := by
  cases returnBool <;> rfl

theorem kept_compute (f : Float → Float → Outcome) (op : BinaryOp) (returnBool : Bool)
    (scalar : Float) (scalarLeft : Bool) (s : Sample) :
    (compute f op returnBool scalar scalarLeft s).kept =
      (returnBool ||
        (if scalarLeft then f scalar s.point.value else f s.point.value scalar).keep) := by
  cases returnBool <;> rfl

theorem not_filtered_pairOf (hf : op.elementwise? = some f) (m : VectorMatching) (returnBool : Bool)
    (l r : Sample) (index : Nat) :
    (!(MatchGroup.pairOf f op m returnBool l r index).filtered) =
      (returnBool || (f l.point.value r.point.value).keep) := by
  simp only [MatchGroup.pairOf, ← Pile.not_keep_eq hf, Bool.not_and, Bool.not_not]
  exact Bool.or_comm _ _

theorem agrees_pairOf_left (hf : op.elementwise? = some f) {index : Nat}
    (hs : vector[index]? = some s) :
    Agrees vector (compute f op returnBool t.point.value false s)
      (MatchGroup.pairOf f op (.onNothing .manyToOne) returnBool s t index) := by
  refine ⟨by rwa [input_compute], ?_, ?_⟩
  · cases returnBool with
    | true => rfl
    | false =>
      simp only [compute, Bool.and_false]
      rfl
  · rw [kept_compute, not_filtered_pairOf hf]
    rfl

theorem agrees_pairOf_right (hf : op.elementwise? = some f) (h : op.isComparison → returnBool)
    {index : Nat} (hs : vector[index]? = some s) :
    Agrees vector (compute f op returnBool t.point.value true s)
      (MatchGroup.pairOf f op (.onNothing .oneToMany) returnBool t s index) := by
  refine ⟨by rwa [input_compute], ?_, ?_⟩
  · cases returnBool with
    | true => rfl
    | false =>
      -- a comparison would put the value of the sample in the place of the scalar
      have hc : op.isComparison = false := by simpa using h
      simp only [compute, hc, Bool.false_and]
      rfl
  · rw [kept_compute, not_filtered_pairOf hf]
    rfl

theorem map_output_filter {rows : List ScalarRow} {entries : List MatchResult}
    (h : List.Forall₂ (Agrees vector) rows entries) :
    (rows.filter kept).map output =
      (entries.filter fun e => !e.filtered).map MatchResult.sample := by
  induction h with
  | nil => rfl
  | @cons r e rows entries hre _ ih =>
    rw [List.filter_cons, List.filter_cons, hre.kept]
    split
    · rw [List.map_cons, List.map_cons, ih, hre.output]
    · exact ih

end ScalarRow

namespace MatchTable

/-- The entries of a table are rows, and its samples those that the rows keep. -/
structure Lists (table : MatchTable) (vector : List Sample) (rows : List ScalarRow) : Prop where
  entries : List.Forall₂ (ScalarRow.Agrees vector) rows (table.groups.flatMap MatchGroup.result)
  correct : ∀ g ∈ table.groups, g.error = none
  samples : table.samples = (rows.filter ScalarRow.kept).map ScalarRow.output

theorem samples_of_correct {table : MatchTable} (h : ∀ g ∈ table.groups, g.error = none) :
    table.samples = ((table.groups.flatMap MatchGroup.result).filter fun e => !e.filtered).map
      MatchResult.sample := by
  rw [samples, List.filter_eq_self.mpr, List.filter_flatMap, List.map_flatMap]
  intro g hg
  rw [h g hg]
  rfl

theorem groups_compute_onNothing {c : Cardinality} (h : lhs ≠ [] ∨ rhs ≠ []) :
    (compute op (.onNothing c) returnBool lhs rhs .unlimited).groups =
      [.ofSamples op (.onNothing c) returnBool lhs rhs] := by
  have hscanned : (VectorMatching.onNothing c).scanned lhs rhs ≠ [] := by
    rw [VectorMatching.scanned]
    split <;> simp only [ne_eq, List.append_eq_nil_iff, not_and_or]
    · exact h
    · exact h.symm
  rw [compute_unlimited_eq, VectorMatching.keys_onNothing hscanned, List.map_singleton,
    VectorMatching.withKey_onNothing, VectorMatching.withKey_onNothing]

theorem lists_of_group {table : MatchTable} {g : MatchGroup} {rows : List ScalarRow}
    (hg : table.groups = [g]) (herror : g.error = none)
    (h : List.Forall₂ (ScalarRow.Agrees vector) rows g.result) : table.Lists vector rows := by
  have hcorrect : ∀ g ∈ table.groups, g.error = none := by simp [hg, herror]
  have hentries : table.groups.flatMap MatchGroup.result = g.result := by simp [hg]
  refine ⟨hentries ▸ h, hcorrect, ?_⟩
  rw [samples_of_correct hcorrect, hentries, ScalarRow.map_output_filter h]

theorem forall₂_zipIdx {α β γ : Type} {r : β → γ → Prop} {as : List α} {g : α → β} {k : α × Nat → γ}
    (h : ∀ a i, as[i]? = some a → r (g a) (k (a, i))) :
    List.Forall₂ r (as.map g) (as.zipIdx.map k) := by
  conv => arg 2; rw [← List.zipIdx_map_fst 0 as]
  rw [List.map_map, List.forall₂_map_left_iff, List.forall₂_map_right_iff, List.forall₂_same]
  rintro ⟨a, i⟩ ha
  exact h a i (List.mem_zipIdx_iff_getElem?.mp ha)

theorem lists_of_pairs {c : Cardinality} {row : Sample → ScalarRow}
    {pair : Sample × Nat → MatchResult} (hf : op.elementwise? = some f) (hne : lhs ≠ [] ∨ rhs ≠ [])
    (herror : MatchGroup.errorOf op c lhs rhs = none)
    (hpairs : MatchGroup.pairsOf f op (.onNothing c) returnBool lhs rhs = vector.zipIdx.map pair)
    (h : ∀ s i, vector[i]? = some s → ScalarRow.Agrees vector (row s) (pair (s, i))) :
    (compute op (.onNothing c) returnBool lhs rhs .unlimited).Lists vector (vector.map row) := by
  have hresult : (MatchGroup.ofSamples op (.onNothing c) returnBool lhs rhs).result =
      vector.zipIdx.map pair := by
    simp only [MatchGroup.ofSamples, hf, hpairs]
    exact if_pos herror
  apply lists_of_group (groups_compute_onNothing hne) herror
  rw [hresult]
  exact forall₂_zipIdx h

theorem lists_left (hf : op.elementwise? = some f) (returnBool : Bool) (vector : List Sample)
    (t : Sample) :
    (compute op (.onNothing .manyToOne) returnBool vector [t] .unlimited).Lists vector
      (vector.map (ScalarRow.compute f op returnBool t.point.value false)) := by
  have hpairs : MatchGroup.pairsOf f op (.onNothing .manyToOne) returnBool vector [t] =
      vector.zipIdx.map fun s =>
        MatchGroup.pairOf f op (.onNothing .manyToOne) returnBool s.1 t s.2 :=
    List.map_eq_flatMap.symm
  have herror : MatchGroup.errorOf op .manyToOne vector [t] = none := by
    simp [MatchGroup.errorOf]
  apply lists_of_pairs hf (.inr (List.cons_ne_nil _ _)) herror hpairs
  intro s i hs
  exact ScalarRow.agrees_pairOf_left hf hs

theorem lists_right (hf : op.elementwise? = some f) (h : op.isComparison → returnBool)
    (vector : List Sample) (t : Sample) :
    (compute op (.onNothing .oneToMany) returnBool [t] vector .unlimited).Lists vector
      (vector.map (ScalarRow.compute f op returnBool t.point.value true)) := by
  have hpairs : MatchGroup.pairsOf f op (.onNothing .oneToMany) returnBool [t] vector =
      vector.zipIdx.map fun s =>
        MatchGroup.pairOf f op (.onNothing .oneToMany) returnBool t s.1 s.2 :=
    List.map_eq_flatMap.symm
  have herror : MatchGroup.errorOf op .oneToMany [t] vector = none := by
    simp [MatchGroup.errorOf]
  apply lists_of_pairs hf (.inl (List.cons_ne_nil _ _)) herror hpairs
  intro s i hs
  exact ScalarRow.agrees_pairOf_right hf h hs

/-- A sample may stand for a scalar, whatever its labels. The exception is a comparison on the left
that filters: it gives the sample that stands there, but not the scalar. -/
theorem exists_lists (h : op.isSetOperator = false) (returnBool : Bool) (vector : List Sample)
    (t : Sample) :
    (∃ rows, ScalarRow.ofVector? op returnBool vector t.point.value false = some rows ∧
      (compute op ⟨true, [], .manyToOne, []⟩ returnBool vector [t] .unlimited).Lists vector rows) ∧
    ((op.isComparison → returnBool) →
      ∃ rows, ScalarRow.ofVector? op returnBool vector t.point.value true = some rows ∧
        (compute op ⟨true, [], .oneToMany, []⟩ returnBool [t] vector .unlimited).Lists vector
          rows) := by
  obtain ⟨f, hf⟩ := BinaryOp.exists_elementwise? h
  have hrows (scalarLeft : Bool) :
      ScalarRow.ofVector? op returnBool vector t.point.value scalarLeft =
        some (vector.map (ScalarRow.compute f op returnBool t.point.value scalarLeft)) := by
    rw [ScalarRow.ofVector?, hf]
  constructor
  · exact ⟨_, hrows false, lists_left hf returnBool vector t⟩
  · intro hc
    exact ⟨_, hrows true, lists_right hf hc vector t⟩

theorem exists_lists_sub :
    let vector := [sampleOf [("__name__", "a"), ("x", "1")], sampleOf [("x", "2")]]
    let t := sampleOf []
    BinaryOp.sub.isSetOperator = false ∧ (BinaryOp.sub.isComparison → false = true) ∧
      (∃ rows, ScalarRow.ofVector? .sub false vector t.point.value true = some rows ∧
        (compute .sub ⟨true, [], .oneToMany, []⟩ false [t] vector .unlimited).Lists vector rows) ∧
      (compute .sub ⟨true, [], .oneToMany, []⟩ false [t] vector .unlimited).samples.map
        Sample.labels = [.ofList [("x", "1")], .ofList [("x", "2")]] := by
  intro vector t
  have hsub : BinaryOp.sub.isSetOperator = false := rfl
  exact ⟨hsub, nofun, (exists_lists hsub false vector t).2 nofun, by decide⟩

end MatchTable

end PromTree
