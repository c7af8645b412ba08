import PromTree.Proofs.Matching.Piles

namespace PromTree

/-- The samples in the order in which their keys count as coming up. -/
def VectorMatching.scanned (m : VectorMatching) (lhs rhs : List Sample) : List Sample :=
  if m.cardinality = .oneToMany then lhs ++ rhs else rhs ++ lhs

namespace MatchGroup

def errorOf (op : BinaryOp) (cardinality : Cardinality) (lhs rhs : List Sample) :
    Option MatchError :=
  if op.isSetOperator then none
  else
    match cardinality with
    | .oneToOne =>
      if 1 < lhs.length ∧ 1 < rhs.length then some .duplicatesOnBothSides
      else if 1 < lhs.length then some (.duplicate .left)
      else if 1 < rhs.length then some (.duplicate .right)
      else none
    | .manyToOne => if 1 < rhs.length then some .duplicatesOnOneSide else none
    | .oneToMany => if 1 < lhs.length then some .duplicatesOnOneSide else none
    | .manyToMany => none

def pairOf (f : Float → Float → Outcome) (op : BinaryOp) (m : VectorMatching) (returnBool : Bool)
    (lhs rhs : Sample) (index : Nat) : MatchResult :=
  let outcome := f lhs.point.value rhs.point.value
  let many := if m.cardinality = .oneToMany then rhs else lhs
  let one := if m.cardinality = .oneToMany then lhs else rhs
  let value := if returnBool then BinaryOp.truthValue outcome.keep else outcome.value
  { sample := ⟨m.resultLabels op returnBool many.labels one.labels,
      .ofValue many.point.timestamp value⟩
    manyIndex := index
    filtered := op.isComparison && !outcome.keep && !returnBool }

def pairsOf (f : Float → Float → Outcome) (op : BinaryOp) (m : VectorMatching) (returnBool : Bool)
    (lhs rhs : List Sample) : List MatchResult :=
  if m.cardinality = .oneToMany then
    rhs.zipIdx.flatMap fun r => lhs.map fun l => pairOf f op m returnBool l r.1 r.2
  else lhs.zipIdx.flatMap fun l => rhs.map fun r => pairOf f op m returnBool l.1 r l.2

def setSamplesOf (op : BinaryOp) (many one : List Sample) : List Sample :=
  match op with
  | .and => if one = [] then [] else many
  | .unless => if one = [] then many else []
  | _ => if many = [] then one else many

def ofSamples (op : BinaryOp) (m : VectorMatching) (returnBool : Bool) (lhs rhs : List Sample) :
    MatchGroup where
  labels := m.labelsOf (m.scanned lhs rhs)
  lhs
  lhsCount := lhs.length
  rhs
  rhsCount := rhs.length
  result :=
    match op.elementwise? with
    | some f =>
      if errorOf op m.cardinality lhs rhs = none then pairsOf f op m returnBool lhs rhs else []
    | none =>
      if m.cardinality = .oneToMany then Pile.taken (setSamplesOf op rhs lhs)
      else Pile.taken (setSamplesOf op lhs rhs)
  error := errorOf op m.cardinality lhs rhs

end MatchGroup

structure MatchTable.Matches (t : MatchTable) (op : BinaryOp) (m : VectorMatching)
    (returnBool : Bool) (lhs rhs : List Sample) : Prop where
  groups : t.groups = (m.keys (m.scanned lhs rhs)).map fun key =>
    .ofSamples op m returnBool (m.withKey key lhs) (m.withKey key rhs)
  numGroups : t.numGroups = (m.keys (m.scanned lhs rhs)).length
  distinct : (m.keys (m.scanned lhs rhs)).Nodup
  occurring : ∀ key, key ∈ m.keys (m.scanned lhs rhs) ↔
    ∃ s, (s ∈ lhs ∨ s ∈ rhs) ∧ m.key s.labels = key
  allLhs : (t.groups.flatMap MatchGroup.lhs).Perm lhs
  allRhs : (t.groups.flatMap MatchGroup.rhs).Perm rhs
  separate : ∀ (lhs' rhs' : List Sample) (key : String) (i j : Nat),
    (m.keys (m.scanned lhs rhs))[i]? = some key →
    (m.keys (m.scanned lhs' rhs'))[j]? = some key → m.withKey key lhs = m.withKey key lhs' →
    m.withKey key rhs = m.withKey key rhs' →
    t.groups[i]? = (MatchTable.compute op m returnBool lhs' rhs' .unlimited).groups[j]?

variable {op : BinaryOp} {m : VectorMatching} {returnBool : Bool} {f : Float → Float → Outcome}

namespace BinaryOp

theorem elementwise?_eq_none_iff : op.elementwise? = none ↔ op.isSetOperator := by
  cases op with
  | and | or | «unless» => exact iff_of_true rfl rfl
  | _ => exact iff_of_false nofun nofun

theorem isSetOperator_of_elementwise? (h : op.elementwise? = none) : op.isSetOperator :=
  elementwise?_eq_none_iff.mp h

theorem not_isSetOperator_of_elementwise? (h : op.elementwise? = some f) :
    op.isSetOperator = false := by
  rw [Bool.eq_false_iff, Ne, ← elementwise?_eq_none_iff, h]
  exact Option.some_ne_none f

theorem exists_elementwise? (h : op.isSetOperator = false) : ∃ f, op.elementwise? = some f := by
  apply Option.ne_none_iff_exists'.mp
  rw [Ne, elementwise?_eq_none_iff, h]
  exact Bool.false_ne_true

theorem keep_of_not_isComparison (h : op.elementwise? = some f) (hc : op.isComparison = false)
    (l r : Float) : (f l r).keep := by
  cases op with
  | add | sub | mul | div | mod | pow | atan2 =>
    obtain rfl := Option.some.inj h
    rfl
  | _ => contradiction

end BinaryOp

namespace Pile

theorem not_keep_eq (h : op.elementwise? = some f) (l r : Float) (returnBool : Bool) :
    (!(f l r).keep && !returnBool) = (op.isComparison && !(f l r).keep && !returnBool) := by
  cases hc : op.isComparison with
  | true => rfl
  | false =>
    rw [BinaryOp.keep_of_not_isComparison h hc l r]
    rfl

theorem pairs_eq (h : op.elementwise? = some f) (p : Pile) :
    p.pairs f op m returnBool =
      if m.cardinality = .oneToMany then MatchGroup.pairsOf f op m returnBool p.one p.many
      else MatchGroup.pairsOf f op m returnBool p.many p.one := by
  by_cases hc : m.cardinality = .oneToMany
  · simp only [pairs, MatchGroup.pairsOf, MatchGroup.pairOf, pairResult, hc, ↓reduceIte,
      not_keep_eq h]
  · simp only [pairs, MatchGroup.pairsOf, MatchGroup.pairOf, pairResult, hc, ↓reduceIte,
      not_keep_eq h]

theorem error?_eq (h : op.isSetOperator = false) (m : VectorMatching) (p : Pile)
    (hmany : p.manyCount = p.many.length) (hone : p.oneCount = p.one.length) :
    p.error? m.cardinality =
      if m.cardinality = .oneToMany then MatchGroup.errorOf op m.cardinality p.one p.many
      else MatchGroup.errorOf op m.cardinality p.many p.one := by
  simp only [error?, MatchGroup.errorOf, h, hmany, hone]
  cases m.cardinality <;> rfl

theorem setSamples_eq (h : op.isSetOperator) (p : Pile) (hmany : p.manyCount = p.many.length)
    (hone : p.oneCount = p.one.length) :
    p.setSamples op = MatchGroup.setSamplesOf op p.many p.one := by
  cases op with
  | and | or | «unless» =>
    cases hm : p.many <;> cases ho : p.one <;>
      simp [setSamples, MatchGroup.setSamplesOf, hmany, hone, hm, ho]
  | _ => contradiction

theorem evaluate_eq (p : Pile) (hmany : p.manyCount = p.many.length)
    (hone : p.oneCount = p.one.length) (hlabels : p.labels = m.labelsOf (p.one ++ p.many)) :
    p.evaluate op m returnBool =
      if m.cardinality = .oneToMany then MatchGroup.ofSamples op m returnBool p.one p.many
      else MatchGroup.ofSamples op m returnBool p.many p.one := by
  rw [evaluate]
  cases hf : op.elementwise? with
  | none =>
    have hset := BinaryOp.isSetOperator_of_elementwise? hf
    by_cases hc : m.cardinality = .oneToMany
    · simp only [group, setSamples_eq hset p hmany hone, MatchGroup.ofSamples, MatchGroup.errorOf,
        VectorMatching.scanned, hset, hlabels, hmany, hone, hf, if_pos hc, ↓reduceIte]
    · simp only [group, setSamples_eq hset p hmany hone, MatchGroup.ofSamples, MatchGroup.errorOf,
        VectorMatching.scanned, hset, hlabels, hmany, hone, hf, if_neg hc, ↓reduceIte]
  | some f =>
    have herror := error?_eq (BinaryOp.not_isSetOperator_of_elementwise? hf) m p hmany hone
    by_cases hc : m.cardinality = .oneToMany
    · rw [if_pos hc] at herror
      simp only [herror, pairs_eq hf, group, MatchGroup.ofSamples, VectorMatching.scanned, hlabels,
        hmany, hone, hf, if_pos hc]
      cases MatchGroup.errorOf op m.cardinality p.one p.many <;> rfl
    · rw [if_neg hc] at herror
      simp only [herror, pairs_eq hf, group, MatchGroup.ofSamples, VectorMatching.scanned, hlabels,
        hmany, hone, hf, if_neg hc]
      cases MatchGroup.errorOf op m.cardinality p.many p.one <;> rfl

end Pile

namespace MatchTable

theorem mem_scanned {lhs rhs : List Sample} {s : Sample} :
    s ∈ m.scanned lhs rhs ↔ s ∈ lhs ∨ s ∈ rhs := by
  rw [VectorMatching.scanned]
  split
  · exact List.mem_append
  · exact List.mem_append.trans or_comm

theorem compute_unlimited_eq (op : BinaryOp) (m : VectorMatching) (returnBool : Bool)
    (lhs rhs : List Sample) :
    compute op m returnBool lhs rhs .unlimited =
      { groups := (m.keys (m.scanned lhs rhs)).map fun key =>
          .ofSamples op m returnBool (m.withKey key lhs) (m.withKey key rhs)
        numGroups := (m.keys (m.scanned lhs rhs)).length } := by
  -- the piles of both sides, whichever of them is the many side
  have hpiles (many one : List Sample) :
      (Sorting.ofSamples m .unlimited many one).piles.map (Pile.evaluate op m returnBool) =
        (m.keys (one ++ many)).map fun key =>
          if m.cardinality = .oneToMany then
            .ofSamples op m returnBool (m.withKey key one) (m.withKey key many)
          else .ofSamples op m returnBool (m.withKey key many) (m.withKey key one) := by
    rw [Sorting.ofSamples_eq, Sorting.ofCasting, Sorting.samples_cast, List.map_map]
    refine List.map_congr_left fun key _ => ?_
    obtain ⟨hmany, hone⟩ := Sorting.playing_cast many one
    rw [Function.comp_apply, Pile.evaluate_eq _ rfl rfl]
    · simp only [Pile.ofCasting, hmany, hone]
      rfl
    · simp only [Pile.ofCasting, hmany, hone, Sorting.samples_cast, VectorMatching.withKey_append]
      rfl
  have hkeys (many one : List Sample) :
      (Sorting.ofSamples m .unlimited many one).keys = m.keys (one ++ many) := by
    rw [Sorting.ofSamples_eq, Sorting.ofCasting, Sorting.samples_cast]
  by_cases hc : m.cardinality = .oneToMany
  · simp only [compute, VectorMatching.scanned, hc, ↓reduceIte, hpiles, hkeys]
  · simp only [compute, VectorMatching.scanned, hc, ↓reduceIte, hpiles, hkeys]

theorem matches_compute_unlimited (op : BinaryOp) (m : VectorMatching) (returnBool : Bool)
    (lhs rhs : List Sample) :
    (compute op m returnBool lhs rhs .unlimited).Matches op m returnBool lhs rhs where
  groups := by rw [compute_unlimited_eq]
  numGroups := by rw [compute_unlimited_eq]
  distinct := nodup_eraseDups _
  occurring := by
    intro key
    simp only [VectorMatching.mem_keys, mem_scanned]
  allLhs := by
    rw [compute_unlimited_eq, List.flatMap_map]
    refine VectorMatching.flatMap_withKey_perm (nodup_eraseDups _) fun s hs => ?_
    exact VectorMatching.mem_keys.mpr ⟨s, mem_scanned.mpr (.inl hs), rfl⟩
  allRhs := by
    rw [compute_unlimited_eq, List.flatMap_map]
    refine VectorMatching.flatMap_withKey_perm (nodup_eraseDups _) fun s hs => ?_
    exact VectorMatching.mem_keys.mpr ⟨s, mem_scanned.mpr (.inr hs), rfl⟩
  separate := by
    intro lhs' rhs' key i j hi hj hl hr
    rw [compute_unlimited_eq, compute_unlimited_eq, List.getElem?_map, List.getElem?_map, hi, hj,
      Option.map_some, Option.map_some, hl, hr]

end MatchTable

end PromTree
