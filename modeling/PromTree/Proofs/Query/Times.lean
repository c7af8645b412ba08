import Mathlib
import PromTree.Proofs.Expr.Stated
import PromTree.Proofs.Query.Steps

namespace PromTree

inductive LookupClause where
  | selector (p : Pattern)
  | range (s : Span)
  | step (s : Span)
  | offset (o : SignedSpan)

def Lookup.clauses (l : Lookup) : List LookupClause :=
  (l.pattern.map .selector).toList ++ (l.range.map .range).toList ++
    (l.step.map .step).toList ++ (l.modifiers.offset.map .offset).toList

namespace Token

def Brackets.clauses : Brackets → List LookupClause
  | .range s => [.range s]
  | .steps s step => .range s :: (step.map .step).toList

/-- The clauses in tokens, from left to right. There are brackets only around times, and what looks
like the keyword of an offset can be the name of a selector or a label. -/
inductive States : List Token → List LookupClause → Prop where
  | nil : States [] []
  | pass {ts rest : List Token} {cs : List LookupClause} (hts : Passes ts rest)
    (h : States rest cs) : States ts cs
  | selector {p : Pattern} {written ts : List Token} {cs : List LookupClause}
    (hp : p.IsWrittenAs written) (h : States ts cs) : States (written ++ ts) (.selector p :: cs)
  | brackets {b : Brackets} {written ts : List Token} {cs : List LookupClause}
    (hb : b.IsWrittenAs written) (h : States ts cs) :
    States (.leftBracket :: (written ++ ts)) (b.clauses ++ cs)
  | offset {k : Token} {o : SignedSpan} {written ts : List Token} {cs : List LookupClause}
    (hk : k.keyword? = some .offset) (ho : o.IsWrittenAs written) (h : States ts cs) :
    States (k :: (written ++ ts)) (.offset o :: cs)

end Token

namespace Term

def clauses (t : Term) : List LookupClause := t.lookups.flatMap Lookup.clauses

variable {t t' : Term}

theorem clauses_bracketed {b : Token.Brackets} (h : Bracketed b t t') :
    t'.clauses = t.clauses ++ b.clauses := by
  cases h with
  | matrix p range => rfl
  | subquery body range step =>
    simp [clauses, lookups, Lookup.clauses, Modifiers.absent, Token.Brackets.clauses]

theorem clauses_modifies_time {offset : Option SignedSpan} {time time' : Option EvalTime}
    (h : Modifies ⟨offset, time⟩ ⟨offset, time'⟩ t t') : t'.clauses = t.clauses := by
  cases h <;> simp [clauses, lookups, Lookup.clauses]

theorem clauses_modifies_offset {o : SignedSpan} {time : Option EvalTime}
    (h : Modifies ⟨none, time⟩ ⟨some o, time⟩ t t') : t'.clauses = t.clauses ++ [.offset o] := by
  cases h <;> simp [clauses, lookups, Lookup.clauses]

namespace Reader

def clauses (r : Reader) : List LookupClause := r.lookups.flatMap Lookup.clauses

variable {r r' : Reader} {ts rest : List Token}

theorem clauses_some (fs : List Frame) (t : Term) :
    clauses ⟨fs, some t⟩ = clauses ⟨fs, none⟩ ++ t.clauses := by
  simp [clauses, Term.clauses]

theorem states_takes (h : r.Takes ts r' rest) : Adds clauses Token.States r ts r' rest := by
  cases h with
  | nothing hr hts =>
    exact adds_nothing (congrArg (List.flatMap Lookup.clauses) hr) (.pass hts)
  | selector hp => exact ⟨[.selector _], clauses_some .., .selector hp⟩
  | brackets hb ht =>
    refine ⟨_, ?_, .brackets hb⟩
    rw [clauses_some, clauses_bracketed ht, clauses_some, List.append_assoc]
  | time hts ht =>
    refine adds_nothing ?_ (.pass hts)
    rw [clauses_some, clauses_modifies_time ht, clauses_some]
  | offset hk ho ht =>
    refine ⟨[.offset _], ?_, .offset hk ho⟩
    rw [clauses_some, clauses_modifies_offset ht, clauses_some, List.append_assoc]

theorem clauses_finish (h : r.finish = .ok t) : r.clauses = t.clauses :=
  congrArg (List.flatMap Lookup.clauses) (lookups_finish h)

end Reader

theorem states_of_ofTokens {ts : List Token} (h : ofTokens ts = .ok t) :
    Token.States ts t.clauses :=
  says_of_ofTokens Reader.states_takes .nil rfl Reader.clauses_finish h

end Term

@[ext]
structure Times where
  range : Int
  step : Int
  offset : Int
  deriving DecidableEq

namespace Times

/-- Ranges and steps have 64 bits, and an offset has one of them for its sign. -/
structure Fits (x : Times) : Prop where
  range : 0 ≤ x.range ∧ x.range < 2 ^ 64
  step : 0 ≤ x.step ∧ x.step < 2 ^ 64
  offset : -2 ^ 63 ≤ x.offset ∧ x.offset < 2 ^ 63

def cut (x : Times) : Times := ⟨x.range % 2 ^ 64, x.step % 2 ^ 64, x.offset.bmod (2 ^ 64)⟩

theorem cut_eq_iff {x : Times} : x.cut = x ↔ x.Fits := by
  rw [Times.ext_iff, cut]
  dsimp only
  constructor
  · rintro ⟨hrange, hstep, hoffset⟩
    have hlower := Int.le_bmod (x := x.offset) (m := 2 ^ 64) (by decide)
    have hupper := Int.bmod_lt (x := x.offset) (m := 2 ^ 64) (by decide)
    constructor <;> omega
  · rintro ⟨hrange, hstep, hoffset⟩
    exact ⟨Int.emod_eq_of_lt hrange.1 hrange.2, Int.emod_eq_of_lt hstep.1 hstep.2,
      Int.bmod_eq_of_le (by omega) (by omega)⟩

end Times

theorem Span.toNat_range (s : Span) : (s.range.toNat : Int) = s.milliseconds % 2 ^ 64 := by
  rw [range, UInt64.toNat_ofNat']
  norm_cast

namespace SignedSpan

def milliseconds (o : SignedSpan) : Int :=
  if o.negative then -o.span.milliseconds else o.span.milliseconds

theorem toInt_offset (o : SignedSpan) : o.offset.toInt = o.milliseconds.bmod (2 ^ 64) := by
  obtain ⟨_ | _, s⟩ := o
  · exact Int64.toInt_ofNat'
  · simp only [offset, milliseconds, if_true, Int64.toInt_neg, Int64.toInt_ofNat']
    exact Int.bmod_neg_bmod

end SignedSpan

def Lookup.times (l : Lookup) : Times where
  range := l.range.elim 0 fun s => s.milliseconds
  step := l.step.elim 0 fun s => s.milliseconds
  offset := l.modifiers.offset.elim 0 SignedSpan.milliseconds

def Shape.times? : Shape → Option Times
  | .vectorSelector s => some ⟨0, 0, s.shift.offset.toInt⟩
  | .matrixSelector s range => some ⟨range.toNat, 0, s.shift.offset.toInt⟩
  | .subquery w => some ⟨w.range.toNat, w.step.toNat, w.shift.offset.toInt⟩
  | _ => none

namespace Expr

def times (e : Expr) : List Times := e.fold fun s below => below.flatten ++ s.times?.toList

theorem times_eq (e : Expr) : e.times = e.children.flatMap times ++ e.shape.times?.toList := by
  rw [times, fold_eq, List.flatMap_def]
  rfl

end Expr

theorem Modifiers.toInt_offset (m : Modifiers) :
    m.shift.offset.toInt = (m.offset.elim 0 SignedSpan.milliseconds).bmod (2 ^ 64) := by
  have hshift : m.shift.offset = m.offset.elim 0 SignedSpan.offset := by
    rw [shift]
    split <;> rfl
  rw [hshift]
  cases m.offset with
  | none => rfl
  | some o => exact o.toInt_offset

theorem Pattern.shift_selector? {p : Pattern} {m : Modifiers} {s : Selector}
    (h : p.selector? m = .ok s) : s.shift = m.shift := by
  rw [selector?_eq] at h
  split at h
  · contradiction
  · rw [← Except.ok.inj h]

namespace Term

variable {t : Term} {e : Expr}

theorem times?_toExpr (h : t.toExpr = .ok e) :
    e.shape.times? = t.lookup?.map (·.times.cut) := by
  cases means_of_toExpr h with
  | @selector p m s hs =>
    simp [Expr.shape, Shape.times?, lookup?, Lookup.times, Times.cut, Pattern.shift_selector? hs,
      m.toInt_offset]
  | @matrix p range m s hs =>
    simp [Expr.shape, Shape.times?, lookup?, Lookup.times, Times.cut, Pattern.shift_selector? hs,
      m.toInt_offset, Span.toNat_range]
  | @subquery body range step m b hb =>
    -- without a step the expression has the step 0
    cases step <;>
      simp [Expr.shape, Shape.times?, lookup?, Lookup.times, Times.cut, m.toInt_offset,
        Span.toNat_range]
  | _ => rfl

theorem times_flatMap {ts : List Term} {es : List Expr}
    (h : List.Forall₂ (fun t e => e.times = t.lookups.map (·.times.cut)) ts es) :
    es.flatMap Expr.times = (ts.flatMap lookups).map (·.times.cut) := by
  induction h with
  | nil => rfl
  | cons he _ ih => rw [List.flatMap_cons, List.flatMap_cons, List.map_append, he, ih]

theorem times_toExpr (h : t.toExpr = .ok e) : e.times = t.lookups.map (·.times.cut) := by
  induction t using induct generalizing e with
  | node t ih =>
    rw [Expr.times_eq, lookups_eq, List.map_append, times?_toExpr h, Option.toList_map,
      times_flatMap (forall₂_children h ih)]

end Term

namespace Query

/-- The times of a parsed expression are those that the text states, in milliseconds, as far as 64
bits hold them. -/
theorem exists_times_of_parse {text : String} {e : Expr} (h : parse text = .ok e) :
    ∃ ts t, Token.list? text = some ts ∧ read text = .ok t ∧ Token.States ts t.clauses ∧
      e.times = t.lookups.map (·.times.cut) ∧
      (e.times = t.lookups.map Lookup.times ↔ ∀ l ∈ t.lookups, l.times.Fits) := by
  obtain ⟨t, hread, -, he⟩ := parse_eq_ok_iff.mp h
  obtain ⟨ts, hts, htokens⟩ := exists_ofTokens_of_read hread
  have htimes := Term.times_toExpr he
  rw [t.lookups_foldSigns] at htimes
  refine ⟨ts, t, hts, hread, Term.states_of_ofTokens htokens, htimes, ?_⟩
  rw [htimes, List.map_inj_left]
  exact forall₂_congr fun l _ => Times.cut_eq_iff

theorem exists_times_of_parse_subquery :
    let text := "max_over_time(rate(up[5m])[600000000y:1m] offset -2h)"
    ∃ e t, parse text = .ok e ∧ read text = .ok t ∧
      t.lookups.map Lookup.times =
        [⟨300000, 0, 0⟩, ⟨18921600000000000000, 60000, -7200000⟩] ∧
      e.times = t.lookups.map (·.times.cut) ∧
      e.times = [⟨300000, 0, 0⟩, ⟨474855926290448384, 60000, -7200000⟩] := by
  intro text
  let t : Term := .call "max_over_time" [.subquery
    (.call "rate" [.matrix ⟨some "up", [], false⟩ ⟨300000000000⟩ .absent])
    ⟨18921600000000000000000000⟩ (some ⟨60000000000⟩) ⟨some ⟨true, ⟨7200000000000⟩⟩, none⟩]
  have htokens : Token.list? text = some [.word "max_over_time", .leftParen, .word "rate",
      .leftParen, .word "up", .leftBracket, .span ⟨300000000000⟩, .rightBracket, .rightParen,
      .leftBracket, .span ⟨18921600000000000000000000⟩, .colon, .span ⟨60000000000⟩, .rightBracket,
      .word "offset", .operator .sub, .span ⟨7200000000000⟩, .rightParen] := by decide +kernel
  have hread : read text = .ok t := by
    rw [read, htokens]
    cbv
  have hparse : parse text = .ok (.call (.ofCall "max_over_time")
      [.subquery ⟨474855926290448384, 60000, ⟨-7200000, none, none⟩⟩
        (.call (.ofCall "rate") [.matrixSelector ⟨"up", [], .zero⟩ 300000])]) :=
    parse_eq_ok_iff.mpr ⟨t, hread, by decide, rfl⟩
  obtain ⟨ts, t', -, ht', -, htimes, -⟩ := exists_times_of_parse hparse
  obtain rfl := Except.ok.inj (hread.symm.trans ht')
  exact ⟨_, _, hparse, hread, by decide, htimes, by decide⟩

/-- An offset into the past becomes one into the future. -/
theorem parse_offset_wraps :
    let text := "up offset 400000000y"
    ∃ e t, parse text = .ok e ∧ read text = .ok t ∧
      t.lookups.map Lookup.times = [⟨0, 0, 12614400000000000000⟩] ∧
      e.times = [⟨0, 0, -5832344073709551616⟩] := by
  intro text
  have htokens : Token.list? text =
      some [.word "up", .word "offset", .span ⟨12614400000000000000000000⟩] := by decide +kernel
  have hread : read text = .ok (.selector ⟨some "up", [], false⟩
      ⟨some ⟨false, ⟨12614400000000000000000000⟩⟩, none⟩) := by
    rw [read, htokens]
    cbv
  have hparse : parse text = .ok (.vectorSelector ⟨"up", [], ⟨-5832344073709551616, none, none⟩⟩) :=
    parse_eq_ok_iff.mpr ⟨_, hread, by decide, rfl⟩
  exact ⟨_, _, hparse, hread, by decide, by decide⟩

end Query

end PromTree
