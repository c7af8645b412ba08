import PromTree.Proofs.Matching.Distinct

namespace PromTree

variable {op : BinaryOp} {m : VectorMatching} {returnBool : Bool} {f : Float → Float → Outcome}
  {lhs rhs lhs' rhs' samples samples' : List Sample}

namespace VectorMatching

theorem scanned_perm (hl : lhs.Perm lhs') (hr : rhs.Perm rhs') :
    (m.scanned lhs rhs).Perm (m.scanned lhs' rhs') := by
  rw [scanned, scanned]
  split
  · exact hl.append hr
  · exact hr.append hl

theorem keys_perm (h : samples.Perm samples') : (m.keys samples).Perm (m.keys samples') := by
  apply (List.perm_ext_iff_of_nodup (nodup_eraseDups _) (nodup_eraseDups _)).mpr
  intro key
  refine mem_keys.trans (Iff.trans ?_ mem_keys.symm)
  simp only [h.mem_iff]

theorem withKey_perm (key : String) (h : samples.Perm samples') :
    (m.withKey key samples).Perm (m.withKey key samples') :=
  h.filter _

end VectorMatching

namespace MatchGroup

def tally (g : MatchGroup) : Nat × Nat × Option MatchError := (g.lhsCount, g.rhsCount, g.error)

def unfiltered (results : List MatchResult) : List Sample :=
  (results.filter fun r => !r.filtered).map MatchResult.sample

def shown (g : MatchGroup) : List Sample := if g.error.isNone then unfiltered g.result else []

theorem errorOf_perm (hl : lhs.Perm lhs') (hr : rhs.Perm rhs') :
    errorOf op m.cardinality lhs rhs = errorOf op m.cardinality lhs' rhs' := by
  simp only [errorOf, hl.length_eq, hr.length_eq]

theorem tally_perm (hl : lhs.Perm lhs') (hr : rhs.Perm rhs') :
    (ofSamples op m returnBool lhs rhs).tally = (ofSamples op m returnBool lhs' rhs').tally := by
  simp only [tally, ofSamples, hl.length_eq, hr.length_eq, errorOf_perm hl hr]

theorem unfiltered_pairsOf (lhs rhs : List Sample) :
    unfiltered (pairsOf f op m returnBool lhs rhs) =
      if m.cardinality = .oneToMany then
        rhs.flatMap fun r => unfiltered (lhs.map fun l => pairOf f op m returnBool l r 0)
      else lhs.flatMap fun l => unfiltered (rhs.map fun r => pairOf f op m returnBool l r 0) := by
  rw [pairsOf, unfiltered]
  split
  · rw [List.filter_flatMap, List.map_flatMap]
    apply flatMap_zipIdx
    intro r i
    simp only [unfiltered, List.filter_map, List.map_map]
    rfl
  · rw [List.filter_flatMap, List.map_flatMap]
    apply flatMap_zipIdx
    intro l i
    simp only [unfiltered, List.filter_map, List.map_map]
    rfl

theorem unfiltered_pairsOf_perm (hl : lhs.Perm lhs') (hr : rhs.Perm rhs') :
    (unfiltered (pairsOf f op m returnBool lhs rhs)).Perm
      (unfiltered (pairsOf f op m returnBool lhs' rhs')) := by
  rw [unfiltered_pairsOf, unfiltered_pairsOf]
  split
  · apply hr.flatMap
    intro r _
    exact ((hl.map _).filter _).map _
  · apply hl.flatMap
    intro l _
    exact ((hr.map _).filter _).map _

theorem unfiltered_taken (samples : List Sample) : unfiltered (Pile.taken samples) = samples := by
  rw [unfiltered, filter_taken, map_sample_taken]

theorem setSamplesOf_perm (hl : lhs.Perm lhs') (hr : rhs.Perm rhs') :
    (setSamplesOf op lhs rhs).Perm (setSamplesOf op lhs' rhs') := by
  have hlnil : lhs = [] ↔ lhs' = [] := by
    rw [← List.length_eq_zero_iff, hl.length_eq, List.length_eq_zero_iff]
  have hrnil : rhs = [] ↔ rhs' = [] := by
    rw [← List.length_eq_zero_iff, hr.length_eq, List.length_eq_zero_iff]
  cases op with
  | and =>
    simp only [setSamplesOf, hrnil]
    split
    · exact .nil
    · exact hl
  | «unless» =>
    simp only [setSamplesOf, hrnil]
    split
    · exact hl
    · exact .nil
  | _ =>
    simp only [setSamplesOf, hlnil]
    split
    · exact hr
    · exact hl

theorem unfiltered_result_perm (hl : lhs.Perm lhs') (hr : rhs.Perm rhs') :
    (unfiltered (ofSamples op m returnBool lhs rhs).result).Perm
      (unfiltered (ofSamples op m returnBool lhs' rhs').result) := by
  simp only [ofSamples, errorOf_perm hl hr]
  cases op.elementwise? with
  | none =>
    dsimp only
    split
    · rw [unfiltered_taken, unfiltered_taken]
      exact setSamplesOf_perm hr hl
    · rw [unfiltered_taken, unfiltered_taken]
      exact setSamplesOf_perm hl hr
  | some f =>
    dsimp only
    split
    · exact unfiltered_pairsOf_perm hl hr
    · exact .nil

theorem shown_perm (hl : lhs.Perm lhs') (hr : rhs.Perm rhs') :
    (ofSamples op m returnBool lhs rhs).shown.Perm (ofSamples op m returnBool lhs' rhs').shown := by
  have herror : (ofSamples op m returnBool lhs rhs).error =
      (ofSamples op m returnBool lhs' rhs').error := errorOf_perm hl hr
  rw [shown, shown, herror]
  split
  · exact unfiltered_result_perm hl hr
  · exact .nil

end MatchGroup

namespace MatchTable

/-- Two tables that differ at most in the order of their groups and of what stands in them. -/
structure SameOutcome (t t' : MatchTable) : Prop where
  numGroups : t.numGroups = t'.numGroups
  tallies : (t.groups.map MatchGroup.tally).Perm (t'.groups.map MatchGroup.tally)
  samples : t.samples.Perm t'.samples

theorem samples_eq_flatMap (t : MatchTable) : t.samples = t.groups.flatMap MatchGroup.shown := by
  rw [samples]
  induction t.groups with
  | nil => rfl
  | cons g groups ih =>
    rw [List.flatMap_cons, MatchGroup.shown, List.filter_cons]
    split
    · rw [List.flatMap_cons, ih, MatchGroup.unfiltered]
    · exact ih

theorem sameOutcome_compute (hl : lhs.Perm lhs') (hr : rhs.Perm rhs') :
    SameOutcome (compute op m returnBool lhs rhs .unlimited)
      (compute op m returnBool lhs' rhs' .unlimited) := by
  have hkeys := VectorMatching.keys_perm (m := m) (VectorMatching.scanned_perm (m := m) hl hr)
  have hside {samples samples' : List Sample} (key : String) (h : samples.Perm samples') :=
    VectorMatching.withKey_perm (m := m) key h
  constructor
  · rw [compute_unlimited_eq, compute_unlimited_eq]
    exact hkeys.length_eq
  · rw [compute_unlimited_eq, compute_unlimited_eq, List.map_map, List.map_map]
    have htally : ∀ key, MatchGroup.tally (.ofSamples op m returnBool (m.withKey key lhs)
        (m.withKey key rhs)) = MatchGroup.tally (.ofSamples op m returnBool (m.withKey key lhs')
        (m.withKey key rhs')) :=
      fun key => MatchGroup.tally_perm (hside key hl) (hside key hr)
    simp only [Function.comp_def, htally]
    exact hkeys.map _
  · rw [samples_eq_flatMap, samples_eq_flatMap, compute_unlimited_eq, compute_unlimited_eq,
      List.flatMap_map, List.flatMap_map]
    apply hkeys.flatMap
    intro key _
    exact MatchGroup.shown_perm (hside key hl) (hside key hr)

end MatchTable

namespace VectorMatching

variable {names names' labels included : List String}

theorem sortedNames_eq (h : ∀ n, n ∈ names ↔ n ∈ names') :
    sortedNames names = sortedNames names' := by
  have hmap : SortedMap.ofList (names.map fun n => (n, ())) =
      SortedMap.ofList (names'.map fun n => (n, ())) := by
    apply SortedMap.ext_find?
    intro k
    apply Option.ext
    rintro ⟨⟩
    have hmem (names : List String) :
        (SortedMap.ofList (names.map fun n => (n, ()))).find? k = some () ↔ k ∈ names := by
      rw [← mem_sortedNames, sortedNames, SortedMap.mem_keys_iff, SortedMap.contains,
        Option.isSome_iff_exists]
      constructor
      · exact fun hk => ⟨(), hk⟩
      · rintro ⟨⟨⟩, hk⟩
        exact hk
    rw [hmem, hmem, h]
  rw [sortedNames, sortedNames, hmap]

theorem contains_eq (h : ∀ n, n ∈ names ↔ n ∈ names') (n : String) :
    names.contains n = names'.contains n := by
  rw [Bool.eq_iff_iff, List.contains_iff_mem, List.contains_iff_mem, h]

variable (hl : ∀ n, n ∈ labels ↔ n ∈ m.labels) (hi : ∀ n, n ∈ included ↔ n ∈ m.included)

include hl

theorem countsWhenIgnoring_eq :
    { m with labels, included }.countsWhenIgnoring = m.countsWhenIgnoring := by
  funext n
  rw [countsWhenIgnoring, countsWhenIgnoring, contains_eq hl]

theorem key_eq : { m with labels, included }.key = m.key := by
  funext l
  rw [key, key, countsWhenIgnoring_eq hl, sortedNames_eq hl]

theorem groupLabels_eq : { m with labels, included }.groupLabels = m.groupLabels := by
  funext l
  rw [groupLabels, groupLabels, countsWhenIgnoring_eq hl]
  simp only [contains_eq hl]

include hi

theorem takesOver_eq : { m with labels, included }.takesOver = m.takesOver := by
  funext op returnBool name
  simp only [takesOver, contains_eq hl, contains_eq hi]

theorem resultLabels_eq : { m with labels, included }.resultLabels = m.resultLabels := by
  funext op returnBool many one
  apply SortedMap.ext_find?
  intro name
  rw [find?_resultLabels, find?_resultLabels, takesOver_eq hl hi]
  simp only [hi]

end VectorMatching

namespace MatchTable

variable {labels included : List String}

theorem compute_congr {m m' : VectorMatching} (hc : m'.cardinality = m.cardinality)
    (hkey : m'.key = m.key) (hgroup : m'.groupLabels = m.groupLabels)
    (hresult : m'.resultLabels = m.resultLabels) (lhs rhs : List Sample) (limits : MatchLimits) :
    compute op m' returnBool lhs rhs limits = compute op m returnBool lhs rhs limits := by
  have hadd : Sorting.add m' = Sorting.add m := by
    funext limits role g s
    simp only [Sorting.add, hkey, hgroup]
  have hpairs (f : Float → Float → Outcome) (p : Pile) :
      p.pairs f op m' returnBool = p.pairs f op m returnBool := by
    simp only [Pile.pairs, Pile.pairResult, hc, hresult]
  have hevaluate : Pile.evaluate op m' returnBool = Pile.evaluate op m returnBool := by
    funext p
    simp only [Pile.evaluate, hc, hpairs]
  simp only [compute, Sorting.ofSamples, hadd, hc, hevaluate]

theorem compute_eq_of_same_names (hl : ∀ n, n ∈ labels ↔ n ∈ m.labels)
    (hi : ∀ n, n ∈ included ↔ n ∈ m.included) (lhs rhs : List Sample) (limits : MatchLimits) :
    compute op { m with labels, included } returnBool lhs rhs limits =
      compute op m returnBool lhs rhs limits := by
  apply compute_congr
  · rfl
  · exact VectorMatching.key_eq hl
  · exact VectorMatching.groupLabels_eq hl
  · exact VectorMatching.resultLabels_eq hl hi

/-- Neither the order of the samples nor that of the labels in a matching counts. -/
theorem compute_orderIndependent (op : BinaryOp) (m : VectorMatching) (returnBool : Bool)
    (lhs rhs : List Sample) :
    (∀ lhs' rhs', lhs.Perm lhs' → rhs.Perm rhs' →
      SameOutcome (compute op m returnBool lhs rhs .unlimited)
        (compute op m returnBool lhs' rhs' .unlimited)) ∧
    ∀ labels included, (∀ n, n ∈ labels ↔ n ∈ m.labels) → (∀ n, n ∈ included ↔ n ∈ m.included) →
      ∀ limits, compute op { m with labels, included } returnBool lhs rhs limits =
        compute op m returnBool lhs rhs limits := by
  constructor
  · intro lhs' rhs' hl hr
    exact sameOutcome_compute hl hr
  · intro labels included hl hi limits
    exact compute_eq_of_same_names hl hi lhs rhs limits

theorem compute_orderIndependent_manyToOne :
    let m : VectorMatching := ⟨true, ["x", "y"], .manyToOne, ["z", "w"]⟩
    let s := sampleOf [("x", "1"), ("y", "1"), ("z", "1")]
    let t := sampleOf [("x", "2"), ("v", "1")]
    let u := sampleOf [("x", "2"), ("v", "2")]
    let rhs := [sampleOf [("x", "2"), ("w", "1")], sampleOf [("x", "1"), ("y", "1")]]
    [s, t, u].Perm [u, s, t] ∧ rhs.Perm rhs.reverse ∧
      SameOutcome (compute .sub m false [s, t, u] rhs .unlimited)
        (compute .sub m false [u, s, t] rhs.reverse .unlimited) ∧
      (compute .sub m false [s, t, u] rhs .unlimited).groups.map MatchGroup.labels ≠
        (compute .sub m false [u, s, t] rhs.reverse .unlimited).groups.map MatchGroup.labels ∧
      (∀ n, n ∈ ["y", "x", "y"] ↔ n ∈ m.labels) ∧ (∀ n, n ∈ ["w", "z", "z"] ↔ n ∈ m.included) ∧
      compute .sub ⟨true, ["y", "x", "y"], .manyToOne, ["w", "z", "z"]⟩ false [s, t, u] rhs
          ⟨some 1, some 1⟩ =
        compute .sub m false [s, t, u] rhs ⟨some 1, some 1⟩ := by
  intro m s t u rhs
  have hl : ([s, t] ++ [u]).Perm ([u] ++ [s, t]) := List.perm_append_comm
  have hr : rhs.Perm rhs.reverse := (List.reverse_perm rhs).symm
  have hlabels (n : String) : n ∈ ["y", "x", "y"] ↔ n ∈ m.labels := by grind
  have hincluded (n : String) : n ∈ ["w", "z", "z"] ↔ n ∈ m.included := by grind
  obtain ⟨hsamples, hnames⟩ := compute_orderIndependent .sub m false [s, t, u] rhs
  refine ⟨hl, hr, hsamples _ _ hl hr, by decide, hlabels, hincluded, ?_⟩
  exact hnames _ _ hlabels hincluded ⟨some 1, some 1⟩

end MatchTable

end PromTree
