import PromTree.Proofs.Query.Steps

namespace PromTree

namespace Token

def isApart : Token → Bool
  | .leftBrace | .rightBrace | .metric _ => false
  | .word text => (Keyword.ofWord? text).isSome
  | _ => true

/-- The selectors in tokens, from left to right. Names that belong to no selector are those of
functions and of labels, and there is no brace outside of a selector. -/
inductive Mentions : List Token → List Pattern → Prop where
  | nil : Mentions [] []
  | skip {t : Token} {ts : List Token} {ps : List Pattern} (ht : t.isApart) (h : Mentions ts ps) :
    Mentions (t :: ts) ps
  | function {name : String} {ts : List Token} {ps : List Pattern} (h : Mentions ts ps) :
    Mentions (.word name :: .leftParen :: ts) ps
  | labels {t : Token} {ls ts : List Token} {ps : List Pattern} (ht : t.takesLabels)
    (hls : ∀ l ∈ ls, l = .comma ∨ l.label?.isSome) (h : Mentions ts ps) :
    Mentions (t :: .leftParen :: (ls ++ .rightParen :: ts)) ps
  | selector {p : Pattern} {written ts : List Token} {ps : List Pattern}
    (hp : p.IsWrittenAs written) (h : Mentions ts ps) : Mentions (written ++ ts) (p :: ps)

variable {t : Token} {ts rest : List Token} {ps : List Pattern}

theorem isApart_of_keyword? {k : Keyword} (h : t.keyword? = some k) : t.isApart := by
  cases t with
  | word text => exact Option.isSome_of_eq_some h
  | _ => contradiction

theorem isApart_of_span? {s : Span} (h : t.span? = .ok s) : t.isApart := by
  cases t with
  | number | span => rfl
  | _ => contradiction

theorem isApart_of_isPassed (h : t.isPassed) : t.isApart := by
  cases t with
  | word text =>
    cases hk : Keyword.ofWord? text with
    | none => simp [isPassed, hk] at h
    | some k => exact Option.isSome_of_eq_some hk
  | leftBrace | rightBrace | metric => contradiction
  | _ => rfl

theorem mentions_of_passes (hpasses : Passes ts rest) (h : Mentions rest ps) : Mentions ts ps := by
  induction hpasses with
  | refl => exact h
  | skip ht _ ih => exact .skip (isApart_of_isPassed ht) (ih h)
  | function _ ih => exact .function (ih h)
  | labels ht hls _ ih => exact .labels ht hls (ih h)

theorem mentions_offset {o : SignedSpan} {written : List Token} (ho : o.IsWrittenAs written)
    (h : Mentions rest ps) : Mentions (written ++ rest) ps := by
  cases ho with
  | unsigned hs => exact .skip (isApart_of_span? hs) h
  | plus hs | minus hs => exact .skip rfl (.skip (isApart_of_span? hs) h)

theorem mentions_brackets {b : Brackets} {written : List Token} (hb : b.IsWrittenAs written)
    (h : Mentions rest ps) : Mentions (written ++ rest) ps := by
  cases hb with
  | range hs => exact .skip (isApart_of_span? hs) (.skip rfl h)
  | colon hs => exact .skip (isApart_of_span? hs) (.skip rfl (.skip rfl h))
  | step hs hstep =>
    exact .skip (isApart_of_span? hs) (.skip rfl (.skip (isApart_of_span? hstep) (.skip rfl h)))

end Token

namespace Term

mutual

def patterns : Term → List Pattern
  | .selector p _ | .matrix p _ _ => [p]
  | .subquery body _ _ _ | .paren body | .minus body => body.patterns
  | .binary _ _ lhs rhs => lhs.patterns ++ rhs.patterns
  | .call _ args | .aggregate _ _ args => patternsAll args
  | .number _ | .string _ => []

def patternsAll : List Term → List Pattern
  | [] => []
  | t :: ts => t.patterns ++ patternsAll ts

end

theorem patternsAll_eq (ts : List Term) : patternsAll ts = ts.flatMap patterns := by
  induction ts with
  | nil => rfl
  | cons t ts ih => rw [patternsAll, ih, List.flatMap_cons]

theorem patterns_eq_filterMap (t : Term) : t.patterns = t.lookups.filterMap Lookup.pattern := by
  induction t using induct with
  | node t ih =>
    cases t with
    | call name args | aggregate op grouping args =>
      rw [patterns, patternsAll_eq, lookups, lookupsAll_eq, List.filterMap_flatMap]
      exact List.flatMap_congr ih
    | _ => simp_all [patterns, lookups, children]

theorem patterns_foldSigns (t : Term) : t.foldSigns.patterns = t.patterns := by
  rw [patterns_eq_filterMap, lookups_foldSigns, patterns_eq_filterMap]

theorem patterns_modifies {m m' : Modifiers} {t t' : Term} (h : Modifies m m' t t') :
    t'.patterns = t.patterns := by
  cases h <;> rfl

theorem patterns_bracketed {b : Token.Brackets} {t t' : Term} (h : Bracketed b t t') :
    t'.patterns = t.patterns := by
  cases h <;> rfl

namespace Reader

def patterns (r : Reader) : List Pattern := r.lookups.filterMap Lookup.pattern

variable {t : Term} {r r' : Reader} {ts rest : List Token}

theorem patterns_some (fs : List Frame) (t : Term) :
    patterns ⟨fs, some t⟩ = patterns ⟨fs, none⟩ ++ t.patterns := by
  simp [patterns, Term.patterns_eq_filterMap]

theorem mentions_takes (h : r.Takes ts r' rest) : Adds patterns Token.Mentions r ts r' rest := by
  cases h with
  | nothing hr hts =>
    exact adds_nothing (congrArg (List.filterMap Lookup.pattern) hr) (Token.mentions_of_passes hts)
  | selector hp => exact ⟨_, patterns_some .., .selector hp⟩
  | brackets hb ht =>
    refine adds_nothing ?_ fun hrest => .skip rfl (Token.mentions_brackets hb hrest)
    rw [patterns_some, patterns_bracketed ht, patterns_some]
  | time hts ht =>
    refine adds_nothing ?_ (Token.mentions_of_passes hts)
    rw [patterns_some, patterns_modifies ht, patterns_some]
  | offset hk ho ht =>
    refine adds_nothing ?_ fun hrest =>
      .skip (Token.isApart_of_keyword? hk) (Token.mentions_offset ho hrest)
    rw [patterns_some, patterns_modifies ht, patterns_some]

theorem patterns_finish (h : r.finish = .ok t) : r.patterns = t.patterns := by
  rw [patterns, lookups_finish h, Term.patterns_eq_filterMap]

end Reader

theorem mentions_of_ofTokens {ts : List Token} {t : Term} (h : ofTokens ts = .ok t) :
    Token.Mentions ts t.patterns :=
  says_of_ofTokens Reader.mentions_takes .nil rfl Reader.patterns_finish h

end Term

namespace Query

theorem exists_mentions_of_read {text : String} {t : Term} (h : read text = .ok t) :
    ∃ ts, Token.list? text = some ts ∧ Token.Mentions ts t.patterns := by
  obtain ⟨ts, hts, h⟩ := exists_ofTokens_of_read h
  exact ⟨ts, hts, Term.mentions_of_ofTokens h⟩

end Query

end PromTree
