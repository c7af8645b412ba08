import Mathlib.Data.List.Perm.Basic
import PromTree.Proofs.Matching.Agreement

namespace PromTree

variable {op : BinaryOp} {m : VectorMatching} {returnBool : Bool} {lhs rhs samples : List Sample}
  {key : String} {s : Sample}

namespace VectorMatching

def occursIn (m : VectorMatching) (samples : List Sample) (s : Sample) : Bool :=
  samples.any fun t => m.key t.labels == m.key s.labels

def setOf (m : VectorMatching) (op : BinaryOp) (lhs rhs : List Sample) : List Sample :=
  match op with
  | .and => lhs.filter (m.occursIn rhs)
  | .unless => lhs.filter fun s => !m.occursIn rhs s
  | _ => lhs ++ rhs.filter fun s => !m.occursIn lhs s

theorem occursIn_eq (hs : m.key s.labels = key) :
    m.occursIn samples s = !(m.withKey key samples).isEmpty := by
  rw [Bool.eq_iff_iff, occursIn, List.any_eq_true, Bool.not_eq_true',
    List.isEmpty_eq_false_iff_exists_mem, hs]
  simp only [beq_iff_eq, mem_withKey]

theorem withKey_filter {p : Sample → Bool} {b : Bool} (h : ∀ s, m.key s.labels = key → p s = b) :
    m.withKey key (samples.filter p) = if b then m.withKey key samples else [] := by
  rw [withKey, List.filter_filter]
  cases b with
  | true =>
    apply List.filter_congr
    intro s _
    by_cases hs : m.key s.labels = key
    · simp [hs, h s hs]
    · simp [hs]
  | false =>
    apply List.filter_eq_nil_iff.mpr
    intro s _
    by_cases hs : m.key s.labels = key
    · simp [h s hs]
    · simp [hs]

theorem withKey_setOf (h : op.isSetOperator) :
    m.withKey key (m.setOf op lhs rhs) =
      MatchGroup.setSamplesOf op (m.withKey key lhs) (m.withKey key rhs) := by
  have hin (samples : List Sample) (s : Sample) (hs : m.key s.labels = key) :=
    (occursIn_eq hs : m.occursIn samples s = _)
  have hout (samples : List Sample) (s : Sample) (hs : m.key s.labels = key) :
      (!m.occursIn samples s) = (m.withKey key samples).isEmpty := by
    rw [hin samples s hs, Bool.not_not]
  cases op with
  | and =>
    rw [setOf, withKey_filter (hin rhs), MatchGroup.setSamplesOf]
    cases m.withKey key rhs <;> rfl
  | «unless» =>
    rw [setOf, withKey_filter (hout rhs), MatchGroup.setSamplesOf]
    cases m.withKey key rhs <;> rfl
  | or =>
    change m.withKey key (lhs ++ rhs.filter fun s => !m.occursIn lhs s) =
      if m.withKey key lhs = [] then m.withKey key rhs else m.withKey key lhs
    rw [withKey_append, withKey_filter (hout lhs)]
    cases m.withKey key lhs <;> simp
  | _ => contradiction

theorem mem_of_mem_setOf (h : s ∈ m.setOf op lhs rhs) : s ∈ lhs ∨ s ∈ rhs := by
  rw [setOf.eq_def] at h
  split at h
  · exact .inl (List.mem_of_mem_filter h)
  · exact .inl (List.mem_of_mem_filter h)
  · exact (List.mem_append.mp h).imp_right List.mem_of_mem_filter

end VectorMatching

namespace MatchGroup

theorem map_sample_taken (samples : List Sample) :
    (Pile.taken samples).map MatchResult.sample = samples := by
  rw [Pile.taken, List.map_map]
  exact List.zipIdx_map_fst 0 samples

theorem filter_taken (samples : List Sample) :
    ((Pile.taken samples).filter fun r => !r.filtered) = Pile.taken samples := by
  apply List.filter_eq_self.mpr
  intro r hr
  obtain ⟨t, -, rfl⟩ := List.mem_map.mp hr
  rfl

theorem result_ofSamples_of_isSetOperator (h : op.isSetOperator)
    (hm : m.cardinality = .manyToMany) :
    (ofSamples op m returnBool lhs rhs).result = Pile.taken (setSamplesOf op lhs rhs) := by
  simp only [ofSamples, BinaryOp.elementwise?_eq_none_iff.mpr h, hm, reduceCtorEq, ↓reduceIte]

theorem error_ofSamples_of_isSetOperator (h : op.isSetOperator) :
    (ofSamples op m returnBool lhs rhs).error = none := if_pos h

end MatchGroup

namespace MatchTable

theorem hasErrors_of_isSetOperator (h : op.isSetOperator) (m : VectorMatching) (returnBool : Bool)
    (lhs rhs : List Sample) : (compute op m returnBool lhs rhs .unlimited).hasErrors = false := by
  rw [compute_unlimited_eq, hasErrors, List.any_eq_false]
  intro g hg
  obtain ⟨key, -, rfl⟩ := List.mem_map.mp hg
  rw [MatchGroup.error_ofSamples_of_isSetOperator h]
  decide

theorem samples_of_isSetOperator (h : op.isSetOperator) (hm : m.cardinality = .manyToMany)
    (returnBool : Bool) (lhs rhs : List Sample) :
    (compute op m returnBool lhs rhs .unlimited).samples =
      (m.keys (m.scanned lhs rhs)).flatMap fun key => m.withKey key (m.setOf op lhs rhs) := by
  have hcorrect : ∀ g ∈ (compute op m returnBool lhs rhs .unlimited).groups, g.error.isNone := by
    simpa [hasErrors] using hasErrors_of_isSetOperator h m returnBool lhs rhs
  rw [samples, List.filter_eq_self.mpr hcorrect, compute_unlimited_eq, List.flatMap_map]
  apply List.flatMap_congr
  intro key _
  rw [MatchGroup.result_ofSamples_of_isSetOperator h hm, MatchGroup.filter_taken,
    MatchGroup.map_sample_taken, VectorMatching.withKey_setOf h]

theorem samples_perm_setOf (op : BinaryOp) (h : op.isSetOperator)
    (hm : m.cardinality = .manyToMany) (returnBool : Bool) (lhs rhs : List Sample) :
    (compute op m returnBool lhs rhs .unlimited).samples.Perm (m.setOf op lhs rhs) := by
  rw [samples_of_isSetOperator h hm]
  apply VectorMatching.flatMap_withKey_perm (nodup_eraseDups _)
  intro s hs
  exact VectorMatching.mem_keys.mpr ⟨s, mem_scanned.mpr (VectorMatching.mem_of_mem_setOf hs), rfl⟩

structure ActAsSetOperators (table : BinaryOp → MatchTable) (m : VectorMatching)
    (lhs rhs : List Sample) : Prop where
  both : (table .and).samples.Perm (lhs.filter (m.occursIn rhs))
  onlyLeft : (table .unless).samples.Perm (lhs.filter fun s => !m.occursIn rhs s)
  either : (table .or).samples.Perm (lhs ++ rhs.filter fun s => !m.occursIn lhs s)
  correct : ∀ op, op.isSetOperator → ∀ g ∈ (table op).groups, g.error = none
  parts : ((table .and).samples ++ (table .unless).samples).Perm lhs

theorem actAsSetOperators_compute (hm : m.cardinality = .manyToMany) (returnBool : Bool)
    (lhs rhs : List Sample) :
    ActAsSetOperators (compute · m returnBool lhs rhs .unlimited) m lhs rhs := by
  have hboth := samples_perm_setOf .and rfl hm returnBool lhs rhs
  have honly := samples_perm_setOf .unless rfl hm returnBool lhs rhs
  refine ⟨hboth, honly, samples_perm_setOf .or rfl hm returnBool lhs rhs, ?_, ?_⟩
  · intro op h
    simpa [hasErrors] using hasErrors_of_isSetOperator h m returnBool lhs rhs
  · exact (hboth.append honly).trans (List.filter_append_perm (m.occursIn rhs) lhs)

theorem actAsSetOperators_compute_shared :
    let m : VectorMatching := ⟨false, ["y"], .manyToMany, []⟩
    let lhs := [sampleOf [("x", "1"), ("y", "1")], sampleOf [("x", "2")],
      sampleOf [("__name__", "a"), ("x", "1")]]
    let rhs := [sampleOf [("x", "3")], sampleOf [("x", "1"), ("y", "3")]]
    m.cardinality = .manyToMany ∧
      ActAsSetOperators (compute · m false lhs rhs .unlimited) m lhs rhs ∧
      lhs.map (m.occursIn rhs) = [true, false, true] ∧
      (compute .or m false lhs rhs .unlimited).samples.length = 4 := by
  intro m lhs rhs
  exact ⟨rfl, actAsSetOperators_compute rfl false lhs rhs, by decide, by decide⟩

end MatchTable

end PromTree
