import Mathlib
import PromTree.Proofs.Expr.Stated
import PromTree.Proofs.Query.Mentions

namespace PromTree

namespace LabelMatcher

def metric (name : String) : LabelMatcher := ⟨.equal, "__name__", name⟩

theorem repeats_eq (m : LabelMatcher) (name : String) :
    m.repeats name = decide (m = metric name) := by
  obtain ⟨type, label, value⟩ := m
  rw [Bool.eq_iff_iff]
  simp only [repeats, metric, Bool.and_eq_true, beq_iff_eq, decide_eq_true_eq, mk.injEq]
  tauto

end LabelMatcher

def Selector.constraints (s : Selector) : List LabelMatcher :=
  (if s.name = "" then [] else [.metric s.name]) ++ s.matchers

def Shape.selector? : Shape → Option Selector
  | .vectorSelector s | .matrixSelector s _ => some s
  | _ => none

namespace Expr

def selectors (e : Expr) : List Selector :=
  e.fold fun s below => s.selector?.toList ++ below.flatten

theorem selectors_eq (e : Expr) :
    e.selectors = e.shape.selector?.toList ++ e.children.flatMap selectors := by
  rw [selectors, fold_eq, List.flatMap_def]
  rfl

end Expr

namespace Pattern

def constraints (p : Pattern) : List LabelMatcher :=
  (p.name.map LabelMatcher.metric).toList ++ p.matchers

/-- The selector has the name of the pattern and what it asks for. Lost is only that there is no
name, which a pattern with a name does not ask for. -/
structure KeptBy (p : Pattern) (s : Selector) : Prop where
  name : s.name = p.name.getD ""
  constraints : s.constraints = p.constraints.filter (· ≠ .metric "")
  named : p.name.isSome → s.constraints = p.constraints

variable {p : Pattern} {m : Modifiers} {s : Selector}

theorem matchers_selector? (h : p.selector? m = .ok s) :
    s.name = p.name.getD "" ∧ s.matchers = p.matchers.filter (· ≠ .metric (p.name.getD "")) := by
  rw [selector?_eq] at h
  split at h
  · contradiction
  · obtain rfl := Except.ok.inj h
    exact ⟨rfl, List.filter_congr fun m _ => by simp [LabelMatcher.repeats_eq]⟩

theorem keptBy_selector? (hp : p.isUsable) (hname : p.name ≠ some "")
    (h : p.selector? m = .ok s) : p.KeptBy s := by
  obtain ⟨hsame, hmatchers⟩ := matchers_selector? h
  obtain ⟨_ | name, ms, alternatives⟩ := p
  · refine ⟨hsame, ?_, fun hsome => absurd hsome Bool.false_ne_true⟩
    simpa [Selector.constraints, Pattern.constraints, hsame] using hmatchers
  · simp only [isUsable, Bool.and_eq_true, List.all_eq_true, bne_iff_ne] at hp
    have hother (name' : String) : ∀ m ∈ ms, m ≠ .metric name' := by
      rintro m hm rfl
      exact hp.2 _ hm rfl
    have hall : s.matchers = ms :=
      hmatchers.trans (List.filter_eq_self.mpr fun m hm => decide_eq_true (hother _ m hm))
    have hne : name ≠ "" := mt (congrArg some) hname
    have hconstraints : s.constraints = .metric name :: ms := by
      simp [Selector.constraints, hsame, hall, hne]
    refine ⟨hsame, ?_, fun _ => hconstraints⟩
    rw [hconstraints, eq_comm]
    refine List.filter_eq_self.mpr (List.forall_mem_cons.mpr ⟨?_, ?_⟩)
    · simpa [LabelMatcher.metric] using hne
    · exact fun m hm => decide_eq_true (hother _ m hm)

end Pattern

namespace Term

def pattern? : Term → Option Pattern
  | .selector p _ | .matrix p _ _ => some p
  | _ => none

theorem patterns_eq (t : Term) :
    t.patterns = t.pattern?.toList ++ t.children.flatMap patterns := by
  cases t <;> simp [patterns, pattern?, children, patternsAll_eq]

variable {t : Term} {e : Expr}

theorem keptBy_pattern? (hw : t.isWellTyped) (hname : t.IsWritten) (h : t.toExpr = .ok e) :
    List.Forall₂ Pattern.KeptBy t.pattern?.toList e.shape.selector?.toList := by
  cases means_of_toExpr h with
  | selector hs | matrix hs => exact .cons (Pattern.keptBy_selector? hw hname hs) .nil
  | _ => exact .nil

theorem keptBy_toExpr (hw : t.isWellTyped) (hname : t.Everywhere IsWritten)
    (h : t.toExpr = .ok e) : List.Forall₂ Pattern.KeptBy t.patterns e.selectors := by
  induction t using induct generalizing e with
  | node t ih =>
    rw [patterns_eq, Expr.selectors_eq]
    refine List.rel_append (keptBy_pattern? hw hname.own h) ?_
    refine List.rel_flatMap (forall₂_children h fun c hc => ?_) fun _ _ hkept => hkept
    exact ih c hc (isWellTyped_of_mem_children hw hc) (hname.of_mem hc)

end Term

namespace Query

/-- Parsing keeps what the selectors of a text ask for, except that a selector without a name loses
the matchers that ask for an empty name. -/
theorem exists_keptBy_of_parse {text : String} {e : Expr} (h : parse text = .ok e) :
    ∃ ts t, Token.list? text = some ts ∧ read text = .ok t ∧ Token.Mentions ts t.patterns ∧
      List.Forall₂ Pattern.KeptBy t.patterns e.selectors := by
  obtain ⟨t, hread, hw, he⟩ := parse_eq_ok_iff.mp h
  obtain ⟨ts, hts, hmentions⟩ := exists_mentions_of_read hread
  have hname := Term.everywhere_isWritten_foldSigns (everywhere_isWritten_of_read hread)
  have hkept := Term.keptBy_toExpr hw hname he
  rw [t.patterns_foldSigns] at hkept
  exact ⟨ts, t, hts, hread, hmentions, hkept⟩

theorem exists_keptBy_of_parse_quotient :
    let text := "up\x7bjob!=\"\"\x7d / \x7b\"down\"\x7d"
    ∃ e, parse text = .ok e ∧ ∃ t, read text = .ok t ∧
      List.Forall₂ Pattern.KeptBy t.patterns e.selectors ∧
      e.selectors.map Selector.constraints =
        [[.metric "up", ⟨.notEqual, "job", ""⟩], [.metric "down"]] := by
  intro text
  let e : Expr := .binary .div (some ⟨false, [], .oneToOne, []⟩) false
    (.vectorSelector ⟨"up", [⟨.notEqual, "job", ""⟩], .zero⟩)
    (.vectorSelector ⟨"", [.metric "down"], .zero⟩)
  have htokens : Token.list? text = some [.word "up", .leftBrace, .word "job",
      .matchOperator .notEqual, .string "", .rightBrace, .operator .div, .leftBrace,
      .string "down", .rightBrace] := by decide +kernel
  have hread : read text = .ok (.binary .div ⟨false, none, none⟩
      (.selector ⟨some "up", [⟨.notEqual, "job", ""⟩], false⟩ .absent)
      (.selector ⟨none, [.metric "down"], false⟩ .absent)) := by
    rw [read, htokens]
    cbv
  have hparse : parse text = .ok e := parse_eq_ok_iff.mpr ⟨_, hread, by decide, rfl⟩
  obtain ⟨ts, t, -, ht, -, hkept⟩ := exists_keptBy_of_parse hparse
  exact ⟨e, hparse, t, ht, hkept, by decide⟩

/-- The matcher is lost that keeps metrics with a name away. -/
theorem parse_emptyName :
    let text := "\x7b__name__=\"\",job=\"api\"\x7d"
    ∃ e t, parse text = .ok e ∧ read text = .ok t ∧
      t.patterns.map Pattern.constraints =
        [[⟨.equal, "__name__", ""⟩, ⟨.equal, "job", "api"⟩]] ∧
      e.selectors.map Selector.constraints = [[⟨.equal, "job", "api"⟩]] := by
  intro text
  have htokens : Token.list? text = some [.leftBrace, .word "__name__", .matchOperator .equal,
      .string "", .comma, .word "job", .matchOperator .equal, .string "api", .rightBrace] := by
    decide +kernel
  have hread : read text = .ok (.selector
      ⟨none, [⟨.equal, "__name__", ""⟩, ⟨.equal, "job", "api"⟩], false⟩ .absent) := by
    rw [read, htokens]
    cbv
  have hparse : parse text = .ok (.vectorSelector ⟨"", [⟨.equal, "job", "api"⟩], .zero⟩) :=
    parse_eq_ok_iff.mpr ⟨_, hread, by decide, rfl⟩
  exact ⟨_, _, hparse, hread, by decide, by decide⟩

end Query

end PromTree
