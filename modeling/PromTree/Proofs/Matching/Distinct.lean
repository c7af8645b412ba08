import Mathlib
import PromTree.Expr.Printer
import PromTree.Proofs.Matching.SetOperators
import PromTree.Proofs.Query.Clauses

/-!
When the samples of a result have different labels. Results lose labels of the samples that they
come from, so samples that differ may lead to results that do not.
-/

namespace PromTree

namespace VectorMatching

/-- The matchings that a query can state for an operator between two vectors. -/
def IsStatedFor (m : VectorMatching) (op : BinaryOp) : Prop :=
  ∃ ts clauses rest, Token.operatorClauses ts = .ok (clauses, rest) ∧
    Term.admitsOperands op clauses .vector .vector ∧ clauses.vectorMatching op = m

def manySide (m : VectorMatching) (lhs rhs : List Sample) : List Sample :=
  if m.cardinality = .oneToMany then rhs else lhs

def oneSide (m : VectorMatching) (lhs rhs : List Sample) : List Sample :=
  if m.cardinality = .oneToMany then lhs else rhs

def keeps (m : VectorMatching) (op : BinaryOp) (returnBool : Bool) (many one : Sample) : Bool :=
  op.elementwise?.any fun f =>
    returnBool ||
      if m.cardinality = .oneToMany then (f one.point.value many.point.value).keep
      else (f many.point.value one.point.value).keep

/-- The matches with a result that stays: a sample on the many side, and its partner. -/
def kept (m : VectorMatching) (op : BinaryOp) (returnBool : Bool) (lhs rhs : List Sample) :
    List (Sample × Sample) :=
  (m.manySide lhs rhs ×ˢ m.oneSide lhs rhs).filter fun p =>
    m.key p.1.labels == m.key p.2.labels && m.keeps op returnBool p.1 p.2

def takesOver (m : VectorMatching) (op : BinaryOp) (returnBool : Bool) (name : String) : Bool :=
  !(op.dropsName returnBool && name == metricName) && !m.included.contains name &&
    (m.cardinality != .oneToOne || m.labels.contains name == m.on)

/-- Two matches differ in what results show of them: a label that is taken over from the many side,
or an included label of the partners. -/
def TellsApart (m : VectorMatching) (op : BinaryOp) (returnBool : Bool) (p q : Sample × Sample) :
    Prop :=
  (∃ name, m.takesOver op returnBool name ∧ p.1.labels.find? name ≠ q.1.labels.find? name) ∨
    ∃ name ∈ m.included, p.2.labels.find? name ≠ q.2.labels.find? name

end VectorMatching

variable {op : BinaryOp} {m : VectorMatching} {returnBool : Bool} {f : Float → Float → Outcome}
  {lhs rhs : List Sample} {p q : Sample × Sample} {key : String}

namespace VectorMatching

namespace IsStatedFor

theorem cardinality (h : m.IsStatedFor op) :
    m.cardinality = .manyToMany ↔ op.isSetOperator := by
  obtain ⟨ts, c, rest, hts, -, rfl⟩ := h
  have hdefault : (default op).cardinality = .manyToMany ↔ op.isSetOperator := by
    rw [default]
    cases op.isSetOperator <;> simp
  rw [OperatorClauses.vectorMatching]
  cases hg : c.group with
  | none => exact hdefault
  | some g =>
    cases hs : op.isSetOperator with
    | true =>
      rw [hs] at hdefault
      exact hdefault
    | false => simpa using (Token.operatorClauses_side hts hg).2

theorem included (h : m.IsStatedFor op) (hc : m.cardinality = .oneToOne) :
    m.included = [] := by
  obtain ⟨ts, c, rest, hts, -, rfl⟩ := h
  rw [OperatorClauses.vectorMatching] at hc ⊢
  cases hg : c.group with
  | none => rfl
  | some g =>
    cases hs : op.isSetOperator with
    | true => rfl
    | false =>
      simp only [hg, hs, Bool.false_eq_true, ↓reduceIte] at hc
      exact absurd hc (Token.operatorClauses_side hts hg).1

end IsStatedFor

theorem find?_foldl {step : Labels → String → Labels} {one : Labels}
    (hstep : ∀ labels n name,
      (step labels n).find? name = if name == n then one.find? n else labels.find? name)
    (names : List String) (labels : Labels) (name : String) :
    (names.foldl step labels).find? name =
      if name ∈ names then one.find? name else labels.find? name := by
  induction names generalizing labels with
  | nil => rfl
  | cons n names ih =>
    rw [List.foldl_cons, ih, hstep]
    by_cases hn : name = n
    · subst hn
      simp
    · simp [hn]

theorem find?_named (labels : Labels) (name : String) :
    (if op.dropsName returnBool then labels.erase metricName else labels).find? name =
      if op.dropsName returnBool && name == metricName then none else labels.find? name := by
  cases op.dropsName returnBool with
  | true =>
    rw [if_pos rfl, SortedMap.find?_erase]
    simp
  | false => rfl

theorem find?_resultLabels (m : VectorMatching) (op : BinaryOp) (returnBool : Bool)
    (many one : Labels) (name : String) :
    (m.resultLabels op returnBool many one).find? name =
      if name ∈ m.included then one.find? name
      else if m.takesOver op returnBool name then many.find? name else none := by
  rw [resultLabels, find?_foldl]
  · by_cases hname : name ∈ m.included
    · rw [if_pos hname, if_pos hname]
    · rw [if_neg hname, if_neg hname, takesOver]
      by_cases hc : m.cardinality = .oneToOne
      · rw [if_pos hc, SortedMap.find?_filter _ fun n => m.labels.contains n == m.on, find?_named]
        grind
      · rw [if_neg hc, find?_named]
        grind
  · intro labels n name
    split
    · rename_i v hv
      rw [SortedMap.find?_insert, hv]
    · rename_i hv
      rw [SortedMap.find?_erase, hv]

def shownLabels (m : VectorMatching) (op : BinaryOp) (returnBool : Bool) (p : Sample × Sample) :
    Labels := m.resultLabels op returnBool p.1.labels p.2.labels

theorem shownLabels_ne_iff :
    m.shownLabels op returnBool p ≠ m.shownLabels op returnBool q ↔
      m.TellsApart op returnBool p q := by
  constructor
  · intro hne
    by_contra hsame
    rw [TellsApart, not_or] at hsame
    push Not at hsame
    refine hne (SortedMap.ext_find? fun name => ?_)
    rw [shownLabels, shownLabels, find?_resultLabels, find?_resultLabels]
    split
    · exact hsame.2 name ‹_›
    · split
      · exact hsame.1 name ‹_›
      · rfl
  · intro happart he
    have hfind (name : String) := congrArg (SortedMap.find? · name) he
    simp only [shownLabels, find?_resultLabels] at hfind
    rcases happart with ⟨name, hname, hne⟩ | ⟨name, hname, hne⟩
    · have hni : name ∉ m.included := by
        rw [takesOver] at hname
        grind
      have := hfind name
      rw [if_neg hni, if_neg hni, if_pos hname, if_pos hname] at this
      exact hne this
    · have := hfind name
      rw [if_pos hname, if_pos hname] at this
      exact hne this

theorem tellsApart_of_key_ne (hc : m.cardinality = .oneToOne) (hi : m.included = [])
    (hnamed : m.on → metricName ∈ m.labels → op.dropsName returnBool = false)
    (h : m.key p.1.labels ≠ m.key q.1.labels) : m.TellsApart op returnBool p q := by
  by_contra hsame
  rw [TellsApart, not_or] at hsame
  push Not at hsame
  have hfind (name : String) (htaken : m.takesOver op returnBool name) := hsame.1 name htaken
  simp only [takesOver, hc, hi] at hfind
  apply h
  cases hon : m.on with
  | true =>
    refine key_eq_of_agree hon fun name hname => ?_
    rw [hfind name]
    by_cases hmetric : name = metricName
    · simp [hnamed hon (hmetric ▸ hname), hname, hon]
    · simp [hmetric, hname, hon]
  | false =>
    rw [key, key, hon]
    refine congrArg (fun labels : Labels => String.intercalate separator labels.values) ?_
    refine SortedMap.ext_find? fun name => ?_
    rw [SortedMap.find?_filter _ m.countsWhenIgnoring,
      SortedMap.find?_filter _ m.countsWhenIgnoring]
    split
    · rename_i hcounts
      rw [countsWhenIgnoring, Bool.and_eq_true] at hcounts
      apply hfind
      simp_all
    · rfl

theorem manySide_withKey (key : String) :
    m.manySide (m.withKey key lhs) (m.withKey key rhs) = m.withKey key (m.manySide lhs rhs) := by
  rw [manySide, manySide]
  split <;> rfl

theorem oneSide_withKey (key : String) :
    m.oneSide (m.withKey key lhs) (m.withKey key rhs) = m.withKey key (m.oneSide lhs rhs) := by
  rw [oneSide, oneSide]
  split <;> rfl

def matchesOf (m : VectorMatching) (op : BinaryOp) (returnBool : Bool) (one : List Sample)
    (key : String) (s : Sample) : List (Sample × Sample) :=
  ((m.withKey key one).filter (m.keeps op returnBool s)).map fun t => (s, t)

theorem kept_eq_flatMap (m : VectorMatching) (op : BinaryOp) (returnBool : Bool)
    (lhs rhs : List Sample) :
    m.kept op returnBool lhs rhs = (m.manySide lhs rhs).flatMap fun s =>
      m.matchesOf op returnBool (m.oneSide lhs rhs) (m.key s.labels) s := by
  simp only [kept, SProd.sprod, List.product, List.filter_flatMap]
  refine List.flatMap_congr fun s _ => ?_
  rw [List.filter_map, matchesOf, withKey, List.filter_filter]
  refine congrArg _ (List.filter_congr fun t _ => ?_)
  rw [Function.comp_apply, Bool.and_comm, BEq.comm]

theorem kept_withKey (key : String) :
    m.kept op returnBool (m.withKey key lhs) (m.withKey key rhs) =
      (m.withKey key (m.manySide lhs rhs)).flatMap
        (m.matchesOf op returnBool (m.oneSide lhs rhs) key) := by
  rw [kept_eq_flatMap, manySide_withKey, oneSide_withKey]
  refine List.flatMap_congr fun s hs => ?_
  have hself : m.withKey key (m.withKey key (m.oneSide lhs rhs)) =
      m.withKey key (m.oneSide lhs rhs) := by
    simp only [withKey, List.filter_filter, Bool.and_self]
  rw [(mem_withKey.mp hs).2, matchesOf, hself, matchesOf]

theorem mem_kept_of_oneToOne (hc : m.cardinality = .oneToOne)
    (hp : p ∈ m.kept op returnBool lhs rhs) :
    p.1 ∈ m.withKey (m.key p.1.labels) lhs ∧ p.2 ∈ m.withKey (m.key p.1.labels) rhs := by
  simp only [kept, manySide, oneSide, hc, reduceCtorEq, ↓reduceIte] at hp
  obtain ⟨hmem, hkey⟩ := List.mem_filter.mp hp
  obtain ⟨hl, hr⟩ := List.pair_mem_product.mp hmem
  simp only [Bool.and_eq_true, beq_iff_eq] at hkey
  exact ⟨mem_withKey.mpr ⟨hl, rfl⟩, mem_withKey.mpr ⟨hr, hkey.1.symm⟩⟩

/-- The groups hold all matches, each of them once. -/
theorem flatMap_kept_perm {keys : List String} (hn : keys.Nodup)
    (h : ∀ s ∈ m.manySide lhs rhs, m.key s.labels ∈ keys) :
    (keys.flatMap fun key => m.kept op returnBool (m.withKey key lhs) (m.withKey key rhs)).Perm
      (m.kept op returnBool lhs rhs) := by
  have hkept : (keys.flatMap fun key => m.kept op returnBool (m.withKey key lhs)
      (m.withKey key rhs)) = (keys.flatMap fun key => m.withKey key (m.manySide lhs rhs)).flatMap
        fun s => m.matchesOf op returnBool (m.oneSide lhs rhs) (m.key s.labels) s := by
    rw [List.flatMap_assoc]
    refine List.flatMap_congr fun key _ => ?_
    rw [kept_withKey]
    refine List.flatMap_congr fun s hs => ?_
    rw [(mem_withKey.mp hs).2]
  rw [hkept, kept_eq_flatMap]
  exact (flatMap_withKey_perm hn h).flatMap_right _

end VectorMatching

namespace MatchGroup

theorem flatMap_zipIdx {α β : Type} (as : List α) (f : α × Nat → List β) (g : α → List β)
    (h : ∀ a i, f (a, i) = g a) : as.zipIdx.flatMap f = as.flatMap g := by
  have hfst : as = as.zipIdx.map Prod.fst := by simp
  conv_rhs => rw [hfst, List.flatMap_map]
  exact List.flatMap_congr fun x _ => h x.1 x.2

theorem pairsOf_eq (h : op.elementwise? = some f) (lhs rhs : List Sample) :
    pairsOf f op m returnBool lhs rhs = (m.manySide lhs rhs).zipIdx.flatMap fun s =>
      (m.oneSide lhs rhs).map (Pile.pairResult f op m returnBool s.1 s.2) := by
  have hpairs (many one : List Sample) :
      Pile.pairs f op m returnBool ⟨"", .empty, many, 0, one, 0⟩ = _ := Pile.pairs_eq h _
  rw [VectorMatching.manySide, VectorMatching.oneSide]
  split
  · exact ((hpairs rhs lhs).trans (if_pos ‹_›)).symm
  · exact ((hpairs lhs rhs).trans (if_neg ‹_›)).symm

theorem shownLabels_pairsOf (h : op.elementwise? = some f) (key : String) :
    ((pairsOf f op m returnBool (m.withKey key lhs) (m.withKey key rhs)).filter
        fun r => !r.filtered).map (fun r => r.sample.labels) =
      (m.kept op returnBool (m.withKey key lhs) (m.withKey key rhs)).map
        (m.shownLabels op returnBool) := by
  rw [VectorMatching.kept_withKey, pairsOf_eq h, VectorMatching.manySide_withKey,
    VectorMatching.oneSide_withKey, List.filter_flatMap, List.map_flatMap, List.map_flatMap]
  refine flatMap_zipIdx _ _ _ fun s i => ?_
  rw [List.filter_map, VectorMatching.matchesOf, List.map_map, List.map_map]
  refine congrArg (List.map _) (List.filter_congr fun t _ => ?_)
  rw [VectorMatching.keeps, h, Option.any_some, Function.comp_apply, Pile.pairResult, Bool.not_and,
    Bool.not_not, Bool.not_not, Bool.or_comm, apply_ite Outcome.keep]

theorem eq_of_length_le_one {α : Type} {as : List α} {a b : α} (h : as.length ≤ 1) (ha : a ∈ as)
    (hb : b ∈ as) : a = b := by
  match as with
  | [c] => rw [List.mem_singleton.mp ha, List.mem_singleton.mp hb]
  | _ :: _ :: _ => simp at h

theorem length_sides_le (hs : op.isSetOperator = false) (hc : m.cardinality = .oneToOne)
    (he : (ofSamples op m returnBool lhs rhs).error = none) :
    lhs.length ≤ 1 ∧ rhs.length ≤ 1 := by
  have he : errorOf op m.cardinality lhs rhs = none := he
  simp only [errorOf, hs, hc, Bool.false_eq_true, ↓reduceIte] at he
  grind

end MatchGroup

namespace MatchTable

theorem error_eq_none (he : (compute op m returnBool lhs rhs .unlimited).hasErrors = false)
    (hkey : key ∈ m.keys (m.scanned lhs rhs)) :
    (MatchGroup.ofSamples op m returnBool (m.withKey key lhs) (m.withKey key rhs)).error =
      none := by
  rw [compute_unlimited_eq, hasErrors] at he
  simpa using List.any_eq_false.mp he _ (List.mem_map_of_mem hkey)

theorem labels_samples_perm (h : op.elementwise? = some f)
    (he : (compute op m returnBool lhs rhs .unlimited).hasErrors = false) :
    ((compute op m returnBool lhs rhs .unlimited).samples.map Sample.labels).Perm
      ((m.kept op returnBool lhs rhs).map (m.shownLabels op returnBool)) := by
  have hcorrect : ∀ g ∈ (compute op m returnBool lhs rhs .unlimited).groups, g.error.isNone := by
    simpa [hasErrors] using he
  have hgroups : (compute op m returnBool lhs rhs .unlimited).samples.map Sample.labels =
      ((m.keys (m.scanned lhs rhs)).flatMap fun key => m.kept op returnBool (m.withKey key lhs)
        (m.withKey key rhs)).map (m.shownLabels op returnBool) := by
    rw [samples, List.filter_eq_self.mpr hcorrect, compute_unlimited_eq, List.flatMap_map,
      List.map_flatMap, List.map_flatMap]
    refine List.flatMap_congr fun key hkey => ?_
    have herror := error_eq_none he hkey
    rw [List.map_map, ← MatchGroup.shownLabels_pairsOf h]
    simp only [MatchGroup.ofSamples, h] at herror ⊢
    rw [if_pos herror]
    rfl
  rw [hgroups]
  refine (VectorMatching.flatMap_kept_perm (nodup_eraseDups _) fun s hs => ?_).map _
  refine VectorMatching.mem_keys.mpr ⟨s, mem_scanned.mpr ?_, rfl⟩
  rw [VectorMatching.manySide] at hs
  split at hs
  · exact .inr hs
  · exact .inl hs

theorem nodup_labels_setOf (m : VectorMatching) (op : BinaryOp)
    (hl : (lhs.map Sample.labels).Nodup) (hr : (rhs.map Sample.labels).Nodup) :
    ((m.setOf op lhs rhs).map Sample.labels).Nodup := by
  rw [VectorMatching.setOf.eq_def]
  split
  · exact (List.filter_sublist.map _).nodup hl
  · exact (List.filter_sublist.map _).nodup hl
  · rw [List.map_append]
    refine hl.append ((List.filter_sublist.map _).nodup hr) fun labels hmem hmem' => ?_
    obtain ⟨s, hs, rfl⟩ := List.mem_map.mp hmem
    obtain ⟨t, ht, he⟩ := List.mem_map.mp hmem'
    -- a sample with these labels has the key of one on the left
    have hout := (List.mem_filter.mp ht).2
    rw [Bool.not_eq_true', VectorMatching.occursIn, List.any_eq_false] at hout
    exact hout s hs (by rw [he, beq_self_eq_true])

theorem nodup_kept (m : VectorMatching) (op : BinaryOp) (returnBool : Bool)
    (hl : (lhs.map Sample.labels).Nodup) (hr : (rhs.map Sample.labels).Nodup) :
    (m.kept op returnBool lhs rhs).Nodup := by
  rw [VectorMatching.kept, VectorMatching.manySide, VectorMatching.oneSide]
  split
  · exact (hr.of_map.product hl.of_map).filter _
  · exact (hl.of_map.product hr.of_map).filter _

theorem eq_of_mem_kept (hs : op.isSetOperator = false) (hc : m.cardinality = .oneToOne)
    (he : (compute op m returnBool lhs rhs .unlimited).hasErrors = false)
    (hp : p ∈ m.kept op returnBool lhs rhs) (hq : q ∈ m.kept op returnBool lhs rhs)
    (hkey : m.key p.1.labels = m.key q.1.labels) : p = q := by
  obtain ⟨hpl, hpr⟩ := VectorMatching.mem_kept_of_oneToOne hc hp
  obtain ⟨hql, hqr⟩ := VectorMatching.mem_kept_of_oneToOne hc hq
  rw [← hkey] at hql hqr
  have hscanned : p.1 ∈ m.scanned lhs rhs :=
    mem_scanned.mpr (.inl (VectorMatching.mem_withKey.mp hpl).1)
  have herror := error_eq_none he (VectorMatching.mem_keys.mpr ⟨p.1, hscanned, rfl⟩)
  obtain ⟨hleft, hright⟩ := MatchGroup.length_sides_le hs hc herror
  exact Prod.ext (MatchGroup.eq_of_length_le_one hleft hpl hql)
    (MatchGroup.eq_of_length_le_one hright hpr hqr)

/-- Results share a label set when nothing by which their matches differ is shown, and only then.
Unless several series match one, that takes a metric name which is matched on and dropped. -/
theorem nodup_labels_samples (h : m.IsStatedFor op)
    (hl : (lhs.map Sample.labels).Nodup) (hr : (rhs.map Sample.labels).Nodup)
    (he : (compute op m returnBool lhs rhs .unlimited).hasErrors = false) :
    (((compute op m returnBool lhs rhs .unlimited).samples.map Sample.labels).Nodup ↔
      (m.kept op returnBool lhs rhs).Pairwise (m.TellsApart op returnBool)) ∧
    (m.isGrouped = false → (m.on → metricName ∈ m.labels → op.dropsName returnBool = false) →
      ((compute op m returnBool lhs rhs .unlimited).samples.map Sample.labels).Nodup) := by
  cases hf : op.elementwise? with
  | none =>
    have hs := BinaryOp.isSetOperator_of_elementwise? hf
    have hnodup : ((compute op m returnBool lhs rhs .unlimited).samples.map Sample.labels).Nodup :=
      ((samples_perm_setOf op hs (h.cardinality.mpr hs) returnBool lhs rhs).map _).nodup_iff.mpr
        (nodup_labels_setOf m op hl hr)
    have hkept : m.kept op returnBool lhs rhs = [] := by
      simp [VectorMatching.kept, VectorMatching.keeps, hf]
    exact ⟨⟨fun _ => hkept ▸ .nil, fun _ => hnodup⟩, fun _ _ => hnodup⟩
  | some f =>
    have hs := BinaryOp.not_isSetOperator_of_elementwise? hf
    have hiff : ((compute op m returnBool lhs rhs .unlimited).samples.map Sample.labels).Nodup ↔
        (m.kept op returnBool lhs rhs).Pairwise (m.TellsApart op returnBool) := by
      rw [(labels_samples_perm hf he).nodup_iff, List.Nodup, List.pairwise_map]
      simp only [VectorMatching.shownLabels_ne_iff]
    refine ⟨hiff, fun hgrouped hnamed => hiff.mpr ?_⟩
    have hc : m.cardinality = .oneToOne := by
      have := h.cardinality
      cases hcase : m.cardinality <;> simp_all [VectorMatching.isGrouped]
    refine (nodup_kept m op returnBool hl hr).pairwise_of_forall_ne fun p hp q hq hne => ?_
    exact VectorMatching.tellsApart_of_key_ne hc (h.included hc) hnamed fun hkey =>
      hne (eq_of_mem_kept hs hc he hp hq hkey)

theorem nodup_labels_samples_partners :
    let m : VectorMatching := ⟨false, ["code"], .manyToOne, ["job"]⟩
    let lhs := [sampleOf [("code", "500"), ("job", "a")], sampleOf [("code", "500"), ("job", "b")]]
    let rhs := [sampleOf [("job", "a")], sampleOf [("job", "b")]]
    let m' : VectorMatching := ⟨true, ["__name__", "x"], .oneToOne, []⟩
    let both := [sampleOf [("__name__", "a"), ("x", "1")], sampleOf [("__name__", "a"), ("x", "2")]]
    (m.IsStatedFor .div ∧ (compute .div m false lhs rhs .unlimited).hasErrors = false ∧
      (m.kept .div false lhs rhs).Pairwise (m.TellsApart .div false) ∧
      ((compute .div m false lhs rhs .unlimited).samples.map Sample.labels).Nodup) ∧
    (m'.IsStatedFor .add ∧ (compute .add m' false both both .unlimited).hasErrors = false ∧
      (m'.kept .add false both both).Pairwise (m'.TellsApart .add false) ∧
      ((compute .add m' false both both .unlimited).samples.map Sample.labels).Nodup) := by
  intro m lhs rhs m' both
  have hm : m.IsStatedFor .div :=
    ⟨[.word "ignoring", .leftParen, .word "code", .rightParen, .word "group_left", .leftParen,
      .word "job", .rightParen],
      ⟨false, some (false, ["code"]), some ⟨.manyToOne, ["job"]⟩⟩, [], by cbv, by cbv, rfl⟩
  have hm' : m'.IsStatedFor .add :=
    ⟨[.word "on", .leftParen, .word "__name__", .comma, .word "x", .rightParen],
      ⟨false, some (true, ["__name__", "x"]), none⟩, [], by cbv, by cbv, rfl⟩
  have hkept : m.kept .div false lhs rhs = lhs.zip rhs := by decide
  have hkept' : m'.kept .add false both both = both.zip both := by decide
  have hapart : (m.kept .div false lhs rhs).Pairwise (m.TellsApart .div false) := by
    rw [hkept]
    exact List.pairwise_pair.mpr (.inr ⟨"job", by decide, by decide⟩)
  have hapart' : (m'.kept .add false both both).Pairwise (m'.TellsApart .add false) := by
    rw [hkept']
    exact List.pairwise_pair.mpr (.inl ⟨"x", by decide, by decide⟩)
  have he : (compute .div m false lhs rhs .unlimited).hasErrors = false := by decide
  have he' : (compute .add m' false both both .unlimited).hasErrors = false := by decide
  exact ⟨⟨hm, he, hapart, (nodup_labels_samples hm (by decide) (by decide) he).1.mpr hapart⟩,
    hm', he', hapart', (nodup_labels_samples hm' (by decide) (by decide) he').1.mpr hapart'⟩

def Collapses (op : BinaryOp) (m : VectorMatching) (returnBool : Bool) (lhs rhs : List Sample) :
    Prop :=
  m.IsStatedFor op ∧ (lhs.map Sample.labels).Nodup ∧ (rhs.map Sample.labels).Nodup ∧
    (compute op m returnBool lhs rhs .unlimited).hasErrors = false ∧
    ¬((compute op m returnBool lhs rhs .unlimited).samples.map Sample.labels).Nodup

/-- A metric name that an operator drops, an included label, and a metric name that is matched on
and dropped: each of them can be all that tells results apart. -/
theorem collapses_of_lost_labels :
    Collapses .mul ⟨true, ["x"], .manyToOne, []⟩ false
      [sampleOf [("__name__", "a"), ("x", "1")], sampleOf [("__name__", "b"), ("x", "1")]]
      [sampleOf [("x", "1")]] ∧
    Collapses .sub ⟨true, ["x"], .manyToOne, ["y"]⟩ false
      [sampleOf [("x", "1"), ("y", "1")], sampleOf [("x", "1"), ("y", "2")]]
      [sampleOf [("x", "1"), ("y", "3")]] ∧
    Collapses .add ⟨true, ["__name__"], .oneToOne, []⟩ false
      [sampleOf [("__name__", "a")], sampleOf [("__name__", "b")]]
      [sampleOf [("__name__", "a")], sampleOf [("__name__", "b")]] := by
  refine ⟨⟨?_, by decide, by decide, by decide, by decide⟩,
    ⟨?_, by decide, by decide, by decide, by decide⟩,
    ⟨?_, by decide, by decide, by decide, by decide⟩⟩
  · exact ⟨[.word "on", .leftParen, .word "x", .rightParen, .word "group_left"],
      ⟨false, some (true, ["x"]), some ⟨.manyToOne, []⟩⟩, [], by cbv, by cbv, rfl⟩
  · exact ⟨[.word "on", .leftParen, .word "x", .rightParen, .word "group_left", .leftParen,
      .word "y", .rightParen],
      ⟨false, some (true, ["x"]), some ⟨.manyToOne, ["y"]⟩⟩, [], by cbv, by cbv, rfl⟩
  · exact ⟨[.word "on", .leftParen, .word "__name__", .rightParen],
      ⟨false, some (true, ["__name__"]), none⟩, [], by cbv, by cbv, rfl⟩

end MatchTable

end PromTree
