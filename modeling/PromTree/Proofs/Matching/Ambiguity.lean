import PromTree.Proofs.Matching.Limits

namespace PromTree

theorem getElem?_of_atMost {α : Type} {limit : Option Nat} {as : List α} {i : Nat} {a : α}
    (h : (atMost limit as)[i]? = some a) : as[i]? = some a := by
  cases limit with
  | none => exact h
  | some n =>
    rw [atMost, Option.elim_some, List.getElem?_take] at h
    split at h
    · exact h
    · contradiction

namespace MatchGroup

variable {op : BinaryOp} {m : VectorMatching} {returnBool : Bool} {lhs rhs : List Sample}
  {limit : Option Nat} {key : String} {g : MatchGroup}

def oneCount (cardinality : Cardinality) (g : MatchGroup) : Nat :=
  if cardinality = .oneToMany then g.lhsCount else g.rhsCount

def manyCount (cardinality : Cardinality) (g : MatchGroup) : Nat :=
  if cardinality = .oneToMany then g.rhsCount else g.lhsCount

/-- It is open which sample is to be matched: there are several on the one side, or, between one and
one, several that the one sample could be matched with. -/
def IsAmbiguous (cardinality : Cardinality) (g : MatchGroup) : Prop :=
  1 < g.oneCount cardinality ∨
    cardinality = .oneToOne ∧ 0 < g.oneCount cardinality ∧ 1 < g.manyCount cardinality

/-- Several samples that are to be matched one to one and have no partner. -/
def IsCrowded (cardinality : Cardinality) (g : MatchGroup) : Prop :=
  cardinality = .oneToOne ∧ g.oneCount cardinality = 0 ∧ 1 < g.manyCount cardinality

instance (cardinality : Cardinality) (g : MatchGroup) : Decidable (g.IsAmbiguous cardinality) :=
  inferInstanceAs (Decidable (_ ∨ _))

instance (cardinality : Cardinality) (g : MatchGroup) : Decidable (g.IsCrowded cardinality) :=
  inferInstanceAs (Decidable (_ ∧ _))

structure Reports (g : MatchGroup) (m : VectorMatching) (key : String) (lhs rhs : List Sample) :
    Prop where
  lhsCount : g.lhsCount = (m.withKey key lhs).length
  rhsCount : g.rhsCount = (m.withKey key rhs).length
  error : g.error.isSome ↔ g.IsAmbiguous m.cardinality ∨ g.IsCrowded m.cardinality
  failed : g.error.isSome → g.result = []
  unmatched : g.oneCount m.cardinality = 0 → g.result = []

theorem isSome_errorOf (h : op.isSetOperator = false) (cardinality : Cardinality)
    (hc : cardinality ≠ .manyToMany) : (errorOf op cardinality lhs rhs).isSome ↔
      1 < (if cardinality = .oneToMany then lhs else rhs).length ∨
        cardinality = .oneToOne ∧ 1 < (if cardinality = .oneToMany then rhs else lhs).length := by
  cases cardinality with
  | oneToOne =>
    rw [errorOf, h]
    by_cases hl : 1 < lhs.length
    · by_cases hr : 1 < rhs.length <;> simp [hl, hr]
    · by_cases hr : 1 < rhs.length <;> simp [hl, hr]
  | manyToOne => simp [errorOf, h]
  | oneToMany => simp [errorOf, h]
  | manyToMany => contradiction

theorem pairsOf_eq_nil {f : Float → Float → Outcome}
    (h : (if m.cardinality = .oneToMany then lhs else rhs) = []) :
    pairsOf f op m returnBool lhs rhs = [] := by
  rw [pairsOf]
  split <;> rename_i hc
  · rw [if_pos hc] at h
    simp [h]
  · rw [if_neg hc] at h
    simp [h]

theorem ofSamples_reports (h : op.isSetOperator = false) (hm : m.cardinality ≠ .manyToMany)
    (key : String) (lhs rhs : List Sample) :
    (ofSamples op m returnBool (m.withKey key lhs) (m.withKey key rhs)).Reports m key lhs rhs := by
  obtain ⟨f, hf⟩ := BinaryOp.exists_elementwise? h
  refine ⟨rfl, rfl, ?_, ?_, ?_⟩
  · have hsplit (p : Prop) (one many : Nat) : (1 < one ∨ p ∧ 1 < many) ↔
        (1 < one ∨ p ∧ 0 < one ∧ 1 < many) ∨ p ∧ one = 0 ∧ 1 < many := by
      by_cases hp : p
      · simp only [hp, true_and]
        omega
      · simp only [hp, false_and, or_false]
    refine (isSome_errorOf h m.cardinality hm).trans ?_
    simp only [IsAmbiguous, IsCrowded, oneCount, manyCount, ofSamples, ← hsplit,
      apply_ite List.length]
  · intro herror
    have hsome : errorOf op m.cardinality (m.withKey key lhs) (m.withKey key rhs) ≠ none :=
      Option.isSome_iff_ne_none.mp herror
    simp only [ofSamples, hf, if_neg hsome]
  · intro hone
    have hnil :
        (if m.cardinality = .oneToMany then m.withKey key lhs else m.withKey key rhs) = [] := by
      simp only [oneCount, ofSamples] at hone
      split <;> rename_i hc
      · exact List.length_eq_zero_iff.mp (by simpa [hc] using hone)
      · exact List.length_eq_zero_iff.mp (by simpa [hc] using hone)
    simp only [ofSamples, hf, pairsOf_eq_nil hnil, ite_self]

theorem Reports.cut (h : g.Reports m key lhs rhs) (limit : Option Nat) :
    (g.cut limit).Reports m key lhs rhs where
  lhsCount := h.lhsCount
  rhsCount := h.rhsCount
  error := h.error
  failed herror := by rw [MatchGroup.cut, h.failed herror, atMost_nil]
  unmatched hone := by rw [MatchGroup.cut, h.unmatched hone, atMost_nil]

end MatchGroup

namespace MatchTable

variable {op : BinaryOp} {m : VectorMatching}

theorem groups_compute (hm : m.cardinality ≠ .manyToMany) (returnBool : Bool)
    (lhs rhs : List Sample) (limits : MatchLimits) :
    (compute op m returnBool lhs rhs limits).groups =
      (atMost limits.maxGroups (compute op m returnBool lhs rhs .unlimited).groups).map
        (MatchGroup.cut limits.maxSeries) := by
  rw [compute, compute]
  split
  · exact map_evaluate_ofSamples (fun h => absurd h hm) limits rhs lhs
  · exact map_evaluate_ofSamples (fun h => absurd h hm) limits lhs rhs

/-- A group has an error when it is ambiguous, and then only, but for samples to be matched one to
one: if there are several, they are an error even where nothing is there to be matched with. -/
theorem exists_reports (hop : op.isSetOperator = false) (hm : m.cardinality ≠ .manyToMany)
    (returnBool : Bool) (lhs rhs : List Sample) (limits : MatchLimits) {i : Nat} {g : MatchGroup}
    (hg : (compute op m returnBool lhs rhs limits).groups[i]? = some g) :
    ∃ key, (m.keys (m.scanned lhs rhs))[i]? = some key ∧ g.Reports m key lhs rhs := by
  rw [groups_compute hm, compute_unlimited_eq, atMost_map, List.map_map, List.getElem?_map,
    Option.map_eq_some_iff] at hg
  obtain ⟨key, hkey, rfl⟩ := hg
  refine ⟨key, ?_, (MatchGroup.ofSamples_reports hop hm key lhs rhs).cut limits.maxSeries⟩
  exact getElem?_of_atMost hkey

theorem exists_reports_limited :
    let m : VectorMatching := ⟨true, ["x"], .oneToMany, []⟩
    let lhs := [sampleOf [("x", "1"), ("y", "1")], sampleOf [("x", "1"), ("y", "2")]]
    let rhs := [sampleOf [("x", "1")], sampleOf [("x", "2")]]
    let limits : MatchLimits := ⟨some 1, some 1⟩
    BinaryOp.sub.isSetOperator = false ∧ m.cardinality ≠ .manyToMany ∧
      ∃ g, (compute .sub m false lhs rhs limits).groups[0]? = some g ∧
        (∃ key, (m.keys (m.scanned lhs rhs))[0]? = some key ∧ g.Reports m key lhs rhs) ∧
        g.lhs.length = 1 ∧ g.lhsCount = 2 ∧ g.error = some .duplicatesOnOneSide := by
  intro m lhs rhs limits
  exact ⟨by decide, by decide, _, rfl,
    exists_reports (by decide) (by decide) false lhs rhs limits rfl,
    by decide, by decide, by decide⟩

/-- Two samples without a partner, which would be dropped if each of them was matched with one of
many, are an error one to one. -/
theorem error_of_unmatched_samples :
    let m : VectorMatching := ⟨true, ["x"], .oneToOne, []⟩
    let lhs := [sampleOf [("x", "1"), ("y", "1")], sampleOf [("x", "1"), ("y", "2")]]
    ∃ g, (compute .add m false lhs [] .unlimited).groups = [g] ∧ g.rhsCount = 0 ∧
      ¬g.IsAmbiguous m.cardinality ∧ g.error = some (.duplicate .left) := by
  intro m lhs
  exact ⟨_, rfl, by decide, by decide, by decide⟩

end MatchTable

end PromTree
