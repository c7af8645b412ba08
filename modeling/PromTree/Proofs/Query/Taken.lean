import PromTree.Proofs.Query.Clauses

namespace PromTree

inductive LabelMatcher.IsWrittenAs : LabelMatcher → List Token → Prop where
  | word (type : MatchType) (name value : String) :
    IsWrittenAs ⟨type, name, value⟩ [.word name, .matchOperator type, .string value]
  | quoted (type : MatchType) (name value : String) :
    IsWrittenAs ⟨type, name, value⟩ [.string name, .matchOperator type, .string value]
  | metric (name : String) : IsWrittenAs ⟨.equal, "__name__", name⟩ [.string name]

namespace Token

inductive ListsMatchers : List Token → List LabelMatcher → Prop where
  | last {m : LabelMatcher} {ts : List Token} (h : m.IsWrittenAs ts) :
    ListsMatchers (ts ++ [.rightBrace]) [m]
  | lastComma {m : LabelMatcher} {ts : List Token} (h : m.IsWrittenAs ts) :
    ListsMatchers (ts ++ [.comma, .rightBrace]) [m]
  | cons {m : LabelMatcher} {ms : List LabelMatcher} {separator : Token} {ts rest : List Token}
    (h : m.IsWrittenAs ts) (hseparator : separator = .comma ∨ separator = .alternative)
    (hrest : ListsMatchers rest ms) : ListsMatchers (ts ++ separator :: rest) (m :: ms)

inductive Braces : List Token → List LabelMatcher → Prop where
  | empty : Braces [.leftBrace, .rightBrace] []
  | matchers {ts : List Token} {ms : List LabelMatcher} (h : ListsMatchers ts ms) :
    Braces (.leftBrace :: ts) ms

def name? : Token → Option String
  | .word name | .metric name => some name
  | _ => none

end Token

inductive Pattern.IsWrittenAs : Pattern → List Token → Prop where
  | name {t : Token} {name : String} {alternatives : Bool} (ht : t.name? = some name) :
    IsWrittenAs ⟨some name, [], alternatives⟩ [t]
  | named {t : Token} {name : String} {ms : List LabelMatcher} {alternatives : Bool}
    {ts : List Token} (ht : t.name? = some name) (hts : Token.Braces ts ms) :
    IsWrittenAs ⟨some name, ms, alternatives⟩ (t :: ts)
  | nameless {ms : List LabelMatcher} {alternatives : Bool} {ts : List Token}
    (hts : Token.Braces ts ms) : IsWrittenAs ⟨none, ms, alternatives⟩ ts

theorem Pattern.IsWrittenAs.exists_name? {p : Pattern} {name : String} {written : List Token}
    (h : p.IsWrittenAs written) (hname : p.name = some name) :
    ∃ t ∈ written, t.name? = some name := by
  cases h with
  | name ht => exact ⟨_, List.mem_singleton_self _, ht.trans hname⟩
  | named ht _ => exact ⟨_, List.mem_cons_self, ht.trans hname⟩
  | nameless => contradiction

namespace Token

def isPassed : Token → Bool
  | .leftBrace | .rightBrace | .leftBracket | .metric _ => false
  | .word text => (Keyword.ofWord? text).any (· ≠ .offset)
  | _ => true

def takesLabels (t : Token) : Bool :=
  t.groupingKind?.isSome || t.matchingKind?.isSome || (groupSide? t).isSome

inductive Passes : List Token → List Token → Prop where
  | refl (ts : List Token) : Passes ts ts
  | skip {t : Token} {ts rest : List Token} (ht : t.isPassed) (h : Passes ts rest) :
    Passes (t :: ts) rest
  | function {name : String} {ts rest : List Token} (h : Passes ts rest) :
    Passes (.word name :: .leftParen :: ts) rest
  | labels {t : Token} {ls ts rest : List Token} (ht : t.takesLabels)
    (hls : ∀ l ∈ ls, l = .comma ∨ l.label?.isSome) (h : Passes ts rest) :
    Passes (t :: .leftParen :: (ls ++ .rightParen :: ts)) rest

variable {t : Token} {ts rest : List Token}

theorem Passes.subset (h : Passes ts rest) : rest ⊆ ts := by
  induction h with
  | refl ts => exact List.Subset.refl ts
  | skip _ _ ih => exact List.subset_cons_of_subset _ ih
  | function _ ih => exact List.subset_cons_of_subset _ (List.subset_cons_of_subset _ ih)
  | labels _ _ _ ih =>
    exact List.subset_cons_of_subset _ (List.subset_cons_of_subset _
      (List.subset_append_of_subset_right _ (List.subset_cons_of_subset _ ih)))

theorem isPassed_of_keyword? {k : Keyword} (h : t.keyword? = some k) (hk : k ≠ .offset) :
    t.isPassed := by
  cases t with
  | word text =>
    have hword : Keyword.ofWord? text = some k := h
    simp [isPassed, hword, hk]
  | _ => contradiction

theorem isPassed_of_numeric? {x : Binary64} (h : t.numeric? = some x) : t.isPassed := by
  cases t with
  | number | span => rfl
  | _ => contradiction

theorem isPassed_of_takesLabels (h : t.takesLabels) : t.isPassed := by
  cases hk : t.keyword? with
  | none => simp [takesLabels, groupingKind?, matchingKind?, groupSide?, hk] at h
  | some k =>
    refine isPassed_of_keyword? hk ?_
    rintro rfl
    simp [takesLabels, groupingKind?, matchingKind?, groupSide?, hk] at h

theorem isPassed_of_binaryOp? {op : BinaryOp} (h : t.binaryOp? = some op) : t.isPassed := by
  cases t with
  | operator => rfl
  | word text =>
    cases hk : Keyword.ofWord? text with
    | none => simp [binaryOp?, hk] at h
    | some k =>
      refine isPassed_of_keyword? hk ?_
      rintro rfl
      simp [binaryOp?, hk] at h
  | _ => contradiction

theorem exists_of_labelsRest {ls : List String} (h : labelsRest ts = .ok (ls, rest)) :
    ∃ us, ts = us ++ .rightParen :: rest ∧ ∀ l ∈ us, l = .comma ∨ l.label?.isSome := by
  revert h
  fun_induction labelsRest ts generalizing ls with
  | case1 =>
    intro h
    cases h
    exact ⟨[], rfl, List.forall_mem_nil _⟩
  | case2 t ts _ l hl =>
    intro h
    cases h
    exact ⟨[t], rfl, List.forall_mem_singleton.mpr (.inr (Option.isSome_of_eq_some hl))⟩
  | case4 t ts _ l hl ih =>
    intro h
    obtain ⟨⟨ls, rest⟩, hls, h⟩ := bind_eq_ok_iff.mp h
    cases h
    obtain ⟨us, rfl, hus⟩ := ih hls
    have hlabel : t = .comma ∨ t.label?.isSome := .inr (Option.isSome_of_eq_some hl)
    refine ⟨t :: .comma :: us, rfl, ?_⟩
    exact List.forall_mem_cons.mpr ⟨hlabel, List.forall_mem_cons.mpr ⟨.inl rfl, hus⟩⟩
  | case3 | case5 | case6 =>
    intro h
    contradiction

theorem passes_of_labels {us : List Token} {ls : List String} (ht : t.takesLabels)
    (hls : labels ts = .ok (ls, us)) (h : Passes us rest) : Passes (t :: ts) rest := by
  revert hls
  fun_cases labels ts with
  | case1 ts =>
    intro hls
    obtain ⟨ws, rfl, hws⟩ := exists_of_labelsRest hls
    exact .labels ht hws h
  | case2 =>
    intro hls
    contradiction

theorem passes_groupClause {g : Option GroupClause} (h : groupClause ts = .ok (g, rest)) :
    Passes ts rest := by
  revert h
  fun_cases groupClause ts with
  | case1 t side ts hside =>
    intro h
    obtain ⟨⟨ls, rest⟩, hls, h⟩ := bind_eq_ok_iff.mp h
    cases h
    have htakes : t.takesLabels := by simp [takesLabels, hside]
    have hlabels : labels (.leftParen :: ts) = _ := hls
    exact passes_of_labels htakes hlabels (.refl _)
  | case2 =>
    rename_i hside
    intro h
    cases h
    exact .skip (isPassed_of_takesLabels (by simp [takesLabels, hside])) (.refl _)
  | case3 | case4 =>
    intro h
    cases h
    exact .refl _

theorem passes_matchingClauses {returnBool : Bool} {c : OperatorClauses}
    (h : matchingClauses returnBool ts = .ok (c, rest)) : Passes ts rest := by
  revert h
  fun_cases matchingClauses returnBool ts with
  | case1 t ts on hon =>
    intro h
    obtain ⟨⟨ls, ts'⟩, hls, h⟩ := bind_eq_ok_iff.mp h
    obtain ⟨⟨group, ts''⟩, hgroup, h⟩ := bind_eq_ok_iff.mp h
    cases h
    exact passes_of_labels (by simp [takesLabels, hon]) hls (passes_groupClause hgroup)
  | case2 | case3 =>
    intro h
    cases h
    exact .refl _

theorem passes_operatorClauses {c : OperatorClauses} (h : operatorClauses ts = .ok (c, rest)) :
    Passes ts rest := by
  have hclauses := passes_matchingClauses h
  revert hclauses
  fun_cases takeBool ts with
  | case1 t ts hbool => exact .skip (isPassed_of_keyword? hbool (by decide))
  | case2 | case3 => exact id

theorem passes_evalTime {time : EvalTime} (h : evalTime ts = .ok (time, rest)) :
    Passes ts rest := by
  revert h
  fun_cases evalTime ts with
  | case1 t ts x hx | case3 t ts x hx =>
    intro h
    obtain ⟨ms, -, h⟩ := bind_eq_ok_iff.mp h
    cases h
    exact .skip rfl (.skip (isPassed_of_numeric? hx) (.refl _))
  | case5 =>
    rename_i hx _ _
    intro h
    obtain ⟨ms, -, h⟩ := bind_eq_ok_iff.mp h
    cases h
    exact .skip (isPassed_of_numeric? hx) (.refl _)
  | case6 | case7 =>
    rename_i hk _ _ _
    intro h
    cases h
    exact .skip (isPassed_of_keyword? hk (by decide)) (.skip rfl (.skip rfl (.refl _)))
  | case2 | case4 | case8 | case9 =>
    intro h
    contradiction

mutual

theorem exists_of_matchersRest {ms : List LabelMatcher} {alternatives : Bool} :
    ∀ {ts rest}, matchersRest ts = .ok ((ms, alternatives), rest) →
      ∃ written, ts = written ++ rest ∧ ListsMatchers written ms
  | ts, rest, h => by
    rw [matchersRest.eq_def] at h
    split at h
    · obtain ⟨written, rfl, hw⟩ := exists_of_matcherEnd h
      exact ⟨_, rfl, hw (.quoted ..)⟩
    · obtain ⟨written, rfl, hw⟩ := exists_of_matcherEnd h
      exact ⟨_, rfl, hw (.word ..)⟩
    · obtain ⟨written, rfl, hw⟩ := exists_of_matcherEnd h
      exact ⟨_, rfl, hw (.metric _)⟩
    · contradiction
termination_by ts _ _ => ts.length

theorem exists_of_matcherEnd {m : LabelMatcher} {ms : List LabelMatcher} {alternatives : Bool} :
    ∀ {ts rest}, matcherEnd m ts = .ok ((ms, alternatives), rest) →
      ∃ written, ts = written ++ rest ∧
        ∀ {own}, m.IsWrittenAs own → ListsMatchers (own ++ written) ms
  | ts, rest, h => by
    rw [matcherEnd.eq_def] at h
    split at h
    · cases h
      exact ⟨[.rightBrace], rfl, .last⟩
    · cases h
      exact ⟨[.comma, .rightBrace], rfl, .lastComma⟩
    · obtain ⟨⟨⟨ms', alternatives'⟩, ts'⟩, hms, h⟩ := bind_eq_ok_iff.mp h
      cases h
      obtain ⟨written, rfl, hw⟩ := exists_of_matchersRest hms
      exact ⟨.comma :: written, rfl, fun hm => .cons hm (.inl rfl) hw⟩
    · obtain ⟨⟨⟨ms', alternatives'⟩, ts'⟩, hms, h⟩ := bind_eq_ok_iff.mp h
      cases h
      obtain ⟨written, rfl, hw⟩ := exists_of_matchersRest hms
      exact ⟨.alternative :: written, rfl, fun hm => .cons hm (.inr rfl) hw⟩
    · contradiction
termination_by ts _ _ => ts.length

end

theorem exists_of_leftBrace {ms : List LabelMatcher} {alternatives : Bool}
    (h : matchers (.leftBrace :: ts) = .ok ((ms, alternatives), rest)) :
    ∃ written, .leftBrace :: ts = written ++ rest ∧ Braces written ms := by
  rw [matchers.eq_def] at h
  split at h
  · rename_i htokens
    cases htokens
    cases h
    exact ⟨_, rfl, .empty⟩
  · rename_i htokens
    cases htokens
    obtain ⟨written, rfl, hw⟩ := exists_of_matchersRest h
    exact ⟨_, rfl, .matchers hw⟩
  · rename_i hne
    exact absurd rfl (hne ts)

theorem exists_of_named {name : String} {ms : List LabelMatcher} {alternatives : Bool}
    (ht : t.name? = some name) (hms : matchers ts = .ok ((ms, alternatives), rest)) :
    ∃ written, t :: ts = written ++ rest ∧
      Pattern.IsWrittenAs ⟨some name, ms, alternatives⟩ written := by
  by_cases hbrace : ∃ us, ts = .leftBrace :: us
  · obtain ⟨us, rfl⟩ := hbrace
    obtain ⟨written, hts, hw⟩ := exists_of_leftBrace hms
    exact ⟨t :: written, congrArg (t :: ·) hts, .named ht hw⟩
  · rw [matchers] at hms
    · cases hms
      exact ⟨[t], rfl, .name ht⟩
    · exact fun us hus => hbrace ⟨_, hus⟩
    · exact fun us hus => hbrace ⟨_, hus⟩

end Token

inductive SignedSpan.IsWrittenAs : SignedSpan → List Token → Prop where
  | unsigned {t : Token} {s : Span} (h : t.span? = .ok s) : IsWrittenAs ⟨false, s⟩ [t]
  | plus {t : Token} {s : Span} (h : t.span? = .ok s) : IsWrittenAs ⟨false, s⟩ [.operator .add, t]
  | minus {t : Token} {s : Span} (h : t.span? = .ok s) : IsWrittenAs ⟨true, s⟩ [.operator .sub, t]

inductive Token.Brackets.IsWrittenAs : Token.Brackets → List Token → Prop where
  | range {t : Token} {s : Span} (h : t.span? = .ok s) : IsWrittenAs (.range s) [t, .rightBracket]
  | colon {t : Token} {s : Span} (h : t.span? = .ok s) :
    IsWrittenAs (.steps s none) [t, .colon, .rightBracket]
  | step {t u : Token} {s step : Span} (h : t.span? = .ok s) (hstep : u.span? = .ok step) :
    IsWrittenAs (.steps s (some step)) [t, .colon, u, .rightBracket]

namespace Token

variable {ts rest : List Token}

theorem exists_of_brackets {b : Brackets} (h : brackets ts = .ok (b, rest)) :
    ∃ written, ts = written ++ rest ∧ b.IsWrittenAs written := by
  revert h
  fun_cases brackets ts with
  | case1 t ts =>
    intro h
    obtain ⟨s, hs, h⟩ := bind_eq_ok_iff.mp h
    cases h
    exact ⟨_, rfl, .range hs⟩
  | case2 t ts =>
    intro h
    obtain ⟨s, hs, h⟩ := bind_eq_ok_iff.mp h
    split at h
    · cases h
      exact ⟨_, rfl, .colon hs⟩
    · obtain ⟨step, hstep, h⟩ := bind_eq_ok_iff.mp h
      cases h
      exact ⟨_, rfl, .step hs hstep⟩
    · contradiction
  | case3 =>
    intro h
    contradiction

theorem exists_of_offset {o : SignedSpan} (h : offset ts = .ok (o, rest)) :
    ∃ written, ts = written ++ rest ∧ o.IsWrittenAs written := by
  revert h
  fun_cases offset ts with
  | case1 t ts =>
    intro h
    obtain ⟨s, hs, h⟩ := bind_eq_ok_iff.mp h
    cases h
    exact ⟨_, rfl, .minus hs⟩
  | case2 t ts =>
    intro h
    obtain ⟨s, hs, h⟩ := bind_eq_ok_iff.mp h
    cases h
    exact ⟨_, rfl, .plus hs⟩
  | case3 t ts =>
    intro h
    obtain ⟨s, hs, h⟩ := bind_eq_ok_iff.mp h
    cases h
    exact ⟨[t], rfl, .unsigned hs⟩
  | case4 =>
    intro h
    contradiction

end Token

end PromTree
