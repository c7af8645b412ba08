import PromTree.Proofs.Expr.SignedLiterals
import PromTree.Proofs.Query.Written

namespace PromTree

namespace TimeShift

variable {s : TimeShift}

def IsStated (s : TimeShift) : Prop := s.timestamp = none ∨ s.rangeEnd = none

theorem isStated_shift (m : Modifiers) : m.shift.IsStated := by
  obtain ⟨offset, _ | _ | _⟩ := m
  · exact .inl rfl
  · exact .inr rfl
  · exact .inl rfl

theorem offset_signedOffset? (s : TimeShift) :
    s.signedOffset?.elim 0 SignedSpan.offset = s.offset := by
  rw [signedOffset?]
  split_ifs with hpos hneg
  · simp [SignedSpan.offset, ofNat_natAbs hpos.le]
  · simp [SignedSpan.offset, neg_ofNat_natAbs hneg]
  · have hzero : s.offset.toInt = 0 := by omega
    exact (Int64.toInt_inj.mp hzero).symm

theorem shift_modifiers (h : s.IsStated) : s.modifiers.shift = s := by
  have hoffset := s.offset_signedOffset?
  obtain ⟨offset, _ | ms, _ | e⟩ := s
  · simp [modifiers, Modifiers.shift, evalTime?, hoffset]
  · simp [modifiers, Modifiers.shift, evalTime?, hoffset]
  · simp [modifiers, Modifiers.shift, evalTime?, hoffset]
  · simp [IsStated] at h

end TimeShift

def LabelMatcher.repeats (m : LabelMatcher) (name : String) : Bool :=
  m.name == "__name__" && m.matchType == .equal && m.value == name

namespace Pattern

theorem selector?_eq (p : Pattern) (m : Modifiers) : p.selector? m =
    if p.hasAlternatives then .error (.unsupported "\"or\" label matchers")
    else .ok ⟨p.name.getD "", p.matchers.filter (!·.repeats (p.name.getD "")), m.shift⟩ := rfl

theorem isUsable_filter {p : Pattern} (h : p.isUsable) :
    (Pattern.mk p.name (p.matchers.filter (!·.repeats (p.name.getD ""))) false).isUsable := by
  obtain ⟨name, ms, alternatives⟩ := p
  simp only [isUsable, Bool.and_eq_true, List.all_eq_true] at h ⊢
  refine ⟨fun m hm => h.1 m (List.mem_of_mem_filter hm), ?_⟩
  cases name with
  | none =>
    obtain ⟨m, hm, hempty⟩ := List.any_eq_true.mp h.2
    refine List.any_eq_true.mpr ⟨m, List.mem_filter.mpr ⟨hm, ?_⟩, hempty⟩
    by_contra hrepeats
    simp only [LabelMatcher.repeats, Bool.not_eq_true', Bool.not_eq_false, Bool.and_eq_true,
      beq_iff_eq] at hrepeats
    simp [LabelMatcher.matchesEmpty, hrepeats] at hempty
  | some name =>
    exact List.all_eq_true.mpr fun m hm => List.all_eq_true.mp h.2 m (List.mem_of_mem_filter hm)

end Pattern

namespace Selector

variable {s : Selector}

def IsStated (s : Selector) : Prop :=
  s.pattern.isUsable ∧ s.pattern.selector? s.shift.modifiers = .ok s

theorem pattern_mk {name : Option String} {ms : List LabelMatcher} (shift : TimeShift)
    (h : (Pattern.mk name ms false).isUsable) (hname : name ≠ some "") :
    pattern ⟨name.getD "", ms, shift⟩ = ⟨name, ms, false⟩ := by
  cases name with
  | none => simp [pattern, statedMatchers, repeatsName]
  | some name =>
    simp only [Pattern.isUsable, Bool.and_eq_true, List.all_eq_true, bne_iff_ne] at h
    have hstated : statedMatchers ⟨name, ms, shift⟩ = ms :=
      List.filter_eq_self.mpr fun m hm => by simp [repeatsName, h.2 m hm]
    simp only [pattern, Option.getD_some, hstated, if_neg (mt (congrArg some) hname)]

theorem isStated_of_selector? {p : Pattern} {m : Modifiers} (h : p.selector? m = .ok s)
    (hp : p.isUsable) (hname : p.name ≠ some "") : s.IsStated := by
  rw [Pattern.selector?_eq] at h
  split at h
  · contradiction
  · obtain rfl := Except.ok.inj h
    have hkept := Pattern.isUsable_filter hp
    have hpattern := pattern_mk m.shift hkept hname
    have hshift := TimeShift.shift_modifiers (TimeShift.isStated_shift m)
    refine ⟨hpattern ▸ hkept, ?_⟩
    rw [hpattern, Pattern.selector?_eq, hshift, List.filter_filter]
    simp only [Bool.and_self, Bool.false_eq_true, ↓reduceIte]

end Selector

namespace OperatorClauses

variable {op : BinaryOp} {c : OperatorClauses} {l r : ValueType}

theorem getD_labelClause? (m : VectorMatching) :
    m.labelClause?.getD (false, []) = (m.on, m.labels) := by
  rw [VectorMatching.labelClause?]
  split_ifs with hstates
  · rfl
  · simp only [VectorMatching.statesLabels, Bool.or_eq_true, Bool.not_eq_true', not_or,
      Bool.not_eq_true, Bool.not_eq_false, List.isEmpty_iff] at hstates
    rw [hstates.1.1, hstates.1.2, Option.getD_none]

theorem labelClause?_vectorMatching (c : OperatorClauses) (op : BinaryOp) :
    (c.vectorMatching op).labelClause?.getD (false, []) = c.matching.getD (false, []) := by
  rw [getD_labelClause?]
  obtain ⟨b, matching, _ | g⟩ := c
  · rfl
  · rw [vectorMatching]
    dsimp only
    split_ifs <;> rfl

theorem groupClause?_vectorMatching (hc : c.IsWritten) (hset : op.isSetOperator → c.group = none) :
    (c.vectorMatching op).groupClause? = c.group := by
  obtain ⟨b, matching, _ | ⟨side, labels⟩⟩ := c
  · simp only [VectorMatching.groupClause?, vectorMatching, VectorMatching.isGrouped,
      VectorMatching.default]
    split_ifs <;> simp_all
  · have hop : op.isSetOperator = false := Bool.eq_false_iff.mpr fun h =>
      absurd (hset h) (Option.some_ne_none _)
    obtain ⟨hone, hmany⟩ := hc _ rfl
    simp only [VectorMatching.groupClause?, vectorMatching, VectorMatching.isGrouped, hop]
    cases side <;> first | rfl | contradiction

variable {b : Bool} {x y : Option (Bool × List String)} {g : Option GroupClause}

theorem vectorMatching_of_getD (h : x.getD (false, []) = y.getD (false, [])) :
    vectorMatching ⟨b, x, g⟩ op = vectorMatching ⟨b, y, g⟩ op := by
  have hdefault : x.getD ((VectorMatching.default op).on, (VectorMatching.default op).labels) =
    y.getD ((VectorMatching.default op).on, (VectorMatching.default op).labels) := h
  simp only [vectorMatching, hdefault]

theorem admitsOperands_of_getD (h : x.getD (false, []) = y.getD (false, [])) :
    Term.admitsOperands op ⟨b, x, g⟩ l r = Term.admitsOperands op ⟨b, y, g⟩ l r := by
  have hlabels (o : Option (Bool × List String)) : o.elim [] Prod.snd = (o.getD (false, [])).2 := by
    cases o <;> rfl
  have hon (o : Option (Bool × List String)) : o.any Prod.fst = (o.getD (false, [])).1 := by
    cases o <;> rfl
  simp only [Term.admitsOperands, hlabels, hon, h]

theorem ofMatching_vectorMatching (hc : c.IsWritten)
    (h : Term.admitsOperands op c .vector .vector) :
    Term.admitsOperands op (.ofMatching c.returnBool (some (c.vectorMatching op))) .vector .vector ∧
      (ofMatching c.returnBool (some (c.vectorMatching op))).vectorMatching op =
        c.vectorMatching op := by
  have hset : op.isSetOperator → c.group = none := by
    intro hop
    simp only [Term.admitsOperands, hop, Bool.and_eq_true, Bool.or_eq_true] at h
    simpa using h.1.1.2
  have hclauses : ofMatching c.returnBool (some (c.vectorMatching op)) =
      ⟨c.returnBool, (c.vectorMatching op).labelClause?, c.group⟩ := by
    rw [ofMatching, Option.bind_some, Option.bind_some, groupClause?_vectorMatching hc hset]
  have hlabels := labelClause?_vectorMatching c op
  rw [hclauses, admitsOperands_of_getD hlabels]
  exact ⟨h, vectorMatching_of_getD hlabels⟩

theorem admitsOperands_none (hvectors : ¬(l = .vector ∧ r = .vector))
    (h : Term.admitsOperands op c l r) :
    Term.admitsOperands op (.ofMatching c.returnBool none) l r := by
  have hv : (l == .vector && r == .vector) = false := by simpa using hvectors
  simp only [Term.admitsOperands, ofMatching, hv, Bool.and_eq_true, Bool.or_eq_true] at h ⊢
  exact ⟨⟨⟨h.1.1.1, by simpa using h.1.1.2⟩, by simp⟩, by simp⟩

end OperatorClauses

theorem Span.range_ofMilliseconds (n : UInt64) : (ofMilliseconds n.toNat).range = n := by
  rw [range, milliseconds_ofMilliseconds, UInt64.ofNat_toNat]

theorem Window.range_statedStep? (w : Window) : w.statedStep?.elim 0 Span.range = w.step := by
  rw [statedStep?]
  split_ifs with hstep
  · exact hstep.symm
  · exact Span.range_ofMilliseconds w.step

def Shape.IsStated : Shape → List ValueType → Prop
  | .aggregation op _, types => Term.admitsArguments (.known op) types
  | .binary op matching returnBool, [l, r] =>
    Term.admitsOperands op (.ofMatching returnBool matching) l r ∧
      matching = if l = .vector ∧ r = .vector then
        some ((OperatorClauses.ofMatching returnBool matching).vectorMatching op) else none
  | .call func, types => ∃ f, Signature.callable? func.name = some f ∧
      func = .ofCall func.name ∧ f.admitsCount types.length
  | .matrixSelector s _, _ | .vectorSelector s, _ => s.IsStated
  | .subquery w, types => types = [.vector] ∧ w.shift.IsStated
  | .unary sign, types => sign = .minus ∧ (types = [.scalar] ∨ types = [.vector])
  | .number text, _ => ∃ x : Binary64, x.IsCanonical ∧ text = SampleValue.text x
  | .string _, _ | .paren, _ => True
  | .binary .., _ | .placeholder, _ => False

theorem OperatorClauses.isStated_vectorMatching {op : BinaryOp} {c : OperatorClauses}
    {l r : ValueType} (hc : c.IsWritten) (h : Term.admitsOperands op c l r) :
    Shape.IsStated (.binary op
      (if l = .vector ∧ r = .vector then some (c.vectorMatching op) else none) c.returnBool)
      [l, r] := by
  by_cases hvectors : l = .vector ∧ r = .vector
  · rw [if_pos hvectors]
    obtain ⟨rfl, rfl⟩ := hvectors
    obtain ⟨hadmits, hmatching⟩ := ofMatching_vectorMatching hc h
    exact ⟨hadmits, by simp [hmatching]⟩
  · rw [if_neg hvectors]
    exact ⟨admitsOperands_none hvectors h, (if_neg hvectors).symm⟩

namespace Expr

abbrev IsStated (e : Expr) : Prop :=
  e.Everywhere fun e => e.shape.IsStated (e.children.map valueType)

def HasTypedArguments : Expr → Prop
  | .call func args =>
    ∀ f, Signature.callable? func.name = some f → f.admitsTypes (args.map valueType)
  | _ => True

def HasAdmittedArguments : Expr → Prop
  | .call func args => ∀ f, Signature.callable? func.name = some f →
    Term.isExempt func.name (args.map signedTerm) ∨ f.admitsTypes (args.map valueType)
  | _ => True

theorem HasTypedArguments.admitted {e : Expr} (h : e.HasTypedArguments) :
    e.HasAdmittedArguments := by
  cases e with
  | call func args => exact fun f hf => .inr (h f hf)
  | _ => trivial

end Expr

theorem Signature.name_ofCall (name : String) : (ofCall name).name = name := by
  rw [ofCall]
  split
  · rename_i f hf
    simpa using List.find?_some hf
  · rename_i f _ hf
    simpa using List.find?_some hf
  · rfl

theorem Grouping.getD_stated? (g : Grouping) : g.stated?.getD ⟨[], false⟩ = g := by
  rw [stated?]
  split_ifs with hstates
  · rfl
  · obtain ⟨labels, without⟩ := g
    simp_all

namespace Term

variable {t : Term} {e : Expr}

theorem everywhere_isWritten_foldSigns (h : t.Everywhere IsWritten) :
    t.foldSigns.Everywhere IsWritten := by
  induction t using induct with
  | node t ih =>
    have hbelow (c : Term) (hc : c ∈ t.children) : c.foldSigns.Everywhere IsWritten :=
      ih c hc (h.of_mem hc)
    cases t with
    | minus body =>
      have hbody := hbelow body (by simp [children])
      rw [foldSigns, negated.eq_def]
      split
      · rename_i x hx
        exact .node _ (Binary64.isCanonical_neg (hx ▸ hbody).own) (List.forall_mem_nil _)
      · exact .node _ trivial (List.forall_mem_singleton.mpr hbody)
    | number | string | selector | matrix => exact h
    | call name args | aggregate op grouping args =>
      rw [foldSigns, foldAllSigns_eq]
      exact .node _ trivial (List.forall_mem_map.mpr hbelow)
    | _ => exact .node _ h.own (List.forall_mem_map.mpr hbelow)

theorem map_valueType_of_toExpr {ts : List Term} {es : List Expr}
    (h : List.Forall₂ (fun t e => t.toExpr = .ok e) ts es) (hw : ∀ t ∈ ts, t.isWellTyped) :
    es.map Expr.valueType = ts.map type := by
  induction h with
  | nil => rfl
  | cons ht _ ih =>
    rw [List.forall_mem_cons] at hw
    rw [List.map_cons, List.map_cons, valueType_of_toExpr hw.1 ht, ih hw.2]

theorem isStated_of_toExpr (hw : t.isWellTyped) (hwritten : t.Everywhere IsWritten)
    (h : t.toExpr = .ok e) : e.IsStated := by
  induction e generalizing t with
  | node e ih =>
    have hchildren := children_toExpr h
    refine .node _ ?_ fun c hc => ?_
    · have htypes := map_valueType_of_toExpr hchildren fun _ => isWellTyped_of_mem_children hw
      rw [htypes]
      cases means_of_toExpr h with
      | number x => exact ⟨x, hwritten.own, rfl⟩
      | string | paren => trivial
      | selector hs | matrix hs => exact Selector.isStated_of_selector? hs hw hwritten.own
      | @subquery body r step m b hb =>
        simp only [isWellTyped, Bool.and_eq_true, beq_iff_eq] at hw
        exact ⟨by simp [children, hw.1], TimeShift.isStated_shift m⟩
      | minus =>
        simp only [isWellTyped, Bool.and_eq_true, Bool.or_eq_true, beq_iff_eq] at hw
        exact ⟨rfl, by simpa [children] using hw.1⟩
      | @binary op clauses lhs rhs l r hl hr =>
        obtain ⟨hlt, hrt⟩ : l.valueType = lhs.type ∧ r.valueType = rhs.type := by
          simpa [children, Expr.children] using htypes
        simp only [isWellTyped, Bool.and_eq_true] at hw
        rw [hlt, hrt]
        exact OperatorClauses.isStated_vectorMatching hwritten.own hw.1.1
      | call =>
        simp only [isWellTyped] at hw
        split at hw
        · rename_i f hf
          simp only [Bool.and_eq_true] at hw
          exact ⟨f, by rwa [Signature.name_ofCall], by rw [Signature.name_ofCall],
            by simpa [children] using hw.1.1⟩
        · contradiction
      | aggregate =>
        simp only [isWellTyped, Bool.and_eq_true] at hw
        exact hw.1
    · obtain ⟨u, hu, huc⟩ := exists_left_of_mem hchildren hc
      exact ih c hc (isWellTyped_of_mem_children hw hu) (hwritten.of_mem hu) huc

end Term

namespace Expr

variable {e : Expr}

theorem forall₂_signedTerm {es : List Expr} (h : ∀ e ∈ es, e.signedTerm.toExpr = .ok e) :
    List.Forall₂ (fun t e => t.toExpr = .ok e) (es.map signedTerm) es := by
  rw [List.forall₂_map_left_iff, List.forall₂_same]
  exact h

theorem toExpr_signedTerm (h : e.IsStated) : e.signedTerm.toExpr = .ok e := by
  induction e with
  | node e ih =>
    obtain ⟨hown, hbelow⟩ := e.everywhere_iff.mp h
    replace ih (c : Expr) (hc : c ∈ e.children) := ih c hc (hbelow c hc)
    rw [signedTerm_eq]
    cases e with
    | aggregation op grouping param body =>
      exact (Term.toExpr_aggregate (forall₂_signedTerm ih)).trans (by rw [Grouping.getD_stated?])
    | binary op matching returnBool lhs rhs =>
      have hlhs := ih lhs (by simp [children])
      have hrhs := ih rhs (by simp [children])
      simp only [shape, children, List.map_cons, List.map_nil, Shape.signedTerm, Shape.term,
        Term.toExpr, hlhs, hrhs]
      exact congrArg (fun m => Except.ok (binary op m returnBool lhs rhs)) hown.2.symm
    | call func args =>
      obtain ⟨f, -, hfunc, -⟩ := hown
      have hargs := Term.toExprs_eq_ok_iff.mpr (forall₂_signedTerm ih)
      simp only [shape, children, Shape.signedTerm, Shape.term, Term.toExpr] at hargs ⊢
      rw [hargs]
      exact congrArg (fun f => Except.ok (call f args)) hfunc.symm
    | matrixSelector s range =>
      simp only [shape, Shape.signedTerm, Shape.term, Term.toExpr, hown.2,
        Span.range_ofMilliseconds]
      rfl
    | subquery window body =>
      have hbody := ih body (by simp [children])
      simp only [shape, children, List.map_cons, List.map_nil, Shape.signedTerm, Shape.term,
        Term.toExpr, hbody, Span.range_ofMilliseconds, window.range_statedStep?,
        TimeShift.shift_modifiers hown.2]
      rfl
    | number text =>
      obtain ⟨x, hx, rfl⟩ := hown
      simp only [shape, Shape.signedTerm, Term.toExpr, Literal.signedValue?_text hx,
        Option.getD_some]
    | paren body =>
      have hbody := ih body (by simp [children])
      simp only [shape, children, List.map_cons, List.map_nil, Shape.signedTerm, Shape.term,
        Term.toExpr, hbody]
      rfl
    | string value => rfl
    | unary sign body =>
      have hbody := ih body (by simp [children])
      obtain ⟨rfl, -⟩ := hown
      simp only [shape, children, List.map_cons, List.map_nil, Shape.signedTerm, Shape.term,
        Term.toExpr, beq_self_eq_true, Term.signed, ↓reduceIte, hbody]
      rfl
    | vectorSelector s =>
      simp only [shape, Shape.signedTerm, Shape.term, Term.toExpr, hown.2]
      rfl
    | placeholder => contradiction

theorem isWellTyped_signedTerm (h : e.IsStated) (ha : e.Everywhere HasAdmittedArguments) :
    e.signedTerm.isWellTyped := by
  induction e with
  | node e ih =>
    obtain ⟨hown, hbelow⟩ := e.everywhere_iff.mp h
    replace ih (c : Expr) (hc : c ∈ e.children) := ih c hc (hbelow c hc) (ha.of_mem hc)
    have htype (c : Expr) (hc : c ∈ e.children) : c.signedTerm.type = c.valueType :=
      (Term.valueType_of_toExpr (ih c hc) (toExpr_signedTerm (hbelow c hc))).symm
    have htypes : (e.children.map signedTerm).map Term.type = e.children.map valueType := by
      rw [List.map_map]
      exact List.map_congr_left htype
    have hall : Term.allWellTyped (e.children.map signedTerm) :=
      Term.allWellTyped_iff.mpr (List.forall_mem_map.mpr ih)
    rw [signedTerm_eq]
    cases e with
    | aggregation op grouping param body =>
      simp only [shape, Shape.signedTerm, Shape.term, Term.isWellTyped, htypes, hall, Bool.and_true]
      exact hown
    | binary op matching returnBool lhs rhs =>
      have hmem : lhs ∈ [lhs, rhs] ∧ rhs ∈ [lhs, rhs] := by simp
      simpa only [shape, children, List.map_cons, List.map_nil, Shape.signedTerm, Shape.term,
        Term.isWellTyped, htype lhs hmem.1, htype rhs hmem.2, ih lhs hmem.1, ih rhs hmem.2,
        Bool.and_true] using hown.1
    | call func args =>
      obtain ⟨f, hf, -, hcount⟩ := hown
      rw [List.length_map] at hcount
      have hargs : Term.isExempt func.name (args.map signedTerm) ∨
          f.admitsTypes ((args.map signedTerm).map Term.type) := htypes ▸ ha.own f hf
      simp only [shape, children, Shape.signedTerm, Shape.term, Term.isWellTyped, hf,
        List.length_map, Bool.and_eq_true, Bool.or_eq_true]
      exact ⟨⟨hcount, hargs⟩, hall⟩
    | matrixSelector s range => exact hown.1
    | vectorSelector s => exact hown.1
    | subquery window body =>
      have hmem : body ∈ [body] := by simp
      have hvector : body.valueType = .vector := (List.cons.inj hown.1).1
      simp only [shape, children, List.map_cons, List.map_nil, Shape.signedTerm, Shape.term,
        Term.isWellTyped, htype body hmem, hvector, ih body hmem, beq_self_eq_true, Bool.and_self]
    | number text => rfl
    | paren body => exact ih body (by simp [children])
    | string value => rfl
    | unary sign body =>
      have hmem : body ∈ [body] := by simp
      obtain ⟨rfl, hbody⟩ := hown
      simp only [shape, children, List.map_cons, List.map_nil, Shape.signedTerm, Shape.term,
        beq_self_eq_true, Term.signed, ↓reduceIte, Term.isWellTyped, htype body hmem, ih body hmem,
        Bool.and_true]
      simpa [children] using hbody
    | placeholder => contradiction

theorem type_signedTerm (h : e.IsStated) (ha : e.Everywhere HasTypedArguments) :
    e.signedTerm.type = e.valueType :=
  (Term.valueType_of_toExpr (isWellTyped_signedTerm h (ha.mono fun _ => HasTypedArguments.admitted))
    (toExpr_signedTerm h)).symm

theorem typedArguments_signedTerm (h : e.IsStated) (ha : e.Everywhere HasTypedArguments) :
    e.signedTerm.Everywhere Term.TypedArguments := by
  induction e with
  | node e ih =>
    replace ih (c : Expr) (hc : c ∈ e.children) := ih c hc (h.of_mem hc) (ha.of_mem hc)
    have htypes : (e.children.map signedTerm).map Term.type = e.children.map valueType := by
      rw [List.map_map]
      exact List.map_congr_left fun c hc => type_signedTerm (h.of_mem hc) (ha.of_mem hc)
    rw [signedTerm_eq]
    cases e with
    | call func args =>
      refine .node _ (fun f hf => ?_) (List.forall_mem_map.mpr ih)
      rw [htypes]
      exact ha.own f hf
    | unary sign body =>
      obtain ⟨rfl, -⟩ := h.own
      exact .node _ trivial (List.forall_mem_map.mpr ih)
    | placeholder => exact absurd h.own id
    | number | string | vectorSelector | matrixSelector => exact .node _ trivial nofun
    | _ => exact .node _ trivial (List.forall_mem_map.mpr ih)

theorem isStated_replaceAt {old new : Expr} {p : Position} (he : e.IsStated) (hnew : new.IsStated)
    (hold : e.subterm? p = some old) (htype : new.valueType = old.valueType) :
    (e.replaceAt p new).IsStated ∧ (e.replaceAt p new).valueType = e.valueType := by
  induction p generalizing e with
  | nil =>
    obtain rfl := Option.some.inj hold
    exact ⟨hnew, htype⟩
  | cons i p ih =>
    obtain ⟨c, hc, hsub⟩ := Option.bind_eq_some_iff.mp hold
    obtain ⟨hstated, hsame⟩ := ih (he.of_mem (List.mem_of_getElem? hc)) hsub
    rw [replaceAt]
    -- the child in which something is replaced keeps its type, and the others are the same
    have htypes : (e.modifyChild (·.replaceAt p new) i).children.map valueType =
        e.children.map valueType := by
      rw [children_modifyChild]
      refine List.ext_getElem? fun j => ?_
      rw [List.getElem?_map, List.getElem?_map, List.getElem?_modify]
      split_ifs with hj
      · subst hj
        simp [hc, hsame]
      · simp
    refine ⟨.node _ ?_ fun b hb => ?_, ?_⟩
    · rw [shape_modifyChild, htypes]
      exact he.own
    · rw [children_modifyChild] at hb
      obtain ⟨j, hj⟩ := List.mem_iff_getElem?.mp hb
      rw [List.getElem?_modify] at hj
      split_ifs at hj with hij
      · subst hij
        rw [hc] at hj
        exact Option.some.inj hj ▸ hstated
      · exact he.of_mem (List.mem_of_getElem? (by simpa using hj))
    · rw [valueType_eq, shape_modifyChild, htypes, ← valueType_eq]

end Expr

end PromTree
