import PromTree.Proofs.Duration
import PromTree.Proofs.Expr.Spelling
import PromTree.Proofs.Query.Constraints

namespace PromTree

namespace Token

variable {place place₁ place₂ : Place} {cs rest₁ rest₂ : List Char} {ts ts' : List Token}

theorem Scans.prefix_or_prefix (h : Scans place cs ts place₁ rest₁)
    (h' : Scans place cs ts' place₂ rest₂) : ts <+: ts' ∨ ts' <+: ts := by
  -- A step has one result, so that either scan goes on from where the other ends.
  induction h generalizing ts' with
  | done => exact .inl List.nil_prefix
  | blank hstep _ _ ih =>
    cases h' with
    | done => exact .inr List.nil_prefix
    | blank hstep' _ h' =>
      cases hstep.symm.trans hstep'
      exact ih h'
    | token hstep' => cases hstep.symm.trans hstep'
  | token hstep _ _ ih =>
    cases h' with
    | done => exact .inr List.nil_prefix
    | blank hstep' => cases hstep.symm.trans hstep'
    | token hstep' _ h' =>
      cases hstep.symm.trans hstep'
      simpa [List.cons_prefix_cons] using ih h'

def bracesTokens (ms : List LabelMatcher) : List Token :=
  .leftBrace :: separated (ms.map LabelMatcher.tokens) ++ [.rightBrace]

theorem matchers_of_prefix {ms ms' : List LabelMatcher} (h : bracesTokens ms <+: bracesTokens ms') :
    ms = ms' := by
  obtain ⟨rest, hrest⟩ := h
  have hread := matchers_separated ms rest
  have hread' := matchers_separated ms' []
  have hsame : .leftBrace :: separated (ms.map LabelMatcher.tokens) ++ .rightBrace :: rest =
      bracesTokens ms' := by
    rw [← hrest, bracesTokens, List.append_assoc, List.singleton_append]
  rw [hsame, bracesTokens, hread'] at hread
  obtain ⟨hms, -⟩ := Prod.mk.inj (Except.ok.inj hread)
  exact (Prod.mk.inj hms).1.symm

end Token

theorem filter_eq_filter_iff {α : Type} {p q : α → Bool} {as : List α} :
    as.filter p = as.filter q ↔ ∀ a ∈ as, p a = q a := by
  constructor
  · intro h a ha
    have hmem : a ∈ as.filter p ↔ a ∈ as.filter q := by rw [h]
    simpa [ha, ← Bool.eq_iff_iff] using hmem
  · exact List.filter_congr

namespace Selector

variable {s s' : Selector}

def neededMatchers (s : Selector) : List LabelMatcher :=
  s.matchers.filter fun m => s.name = "" ∨ m ≠ .metric s.name

theorem statedMatchers_eq_neededMatchers_iff : s.statedMatchers = s.neededMatchers ↔
    ∀ m ∈ s.matchers, m.name = "__name__" → m.value = s.name → s.name ≠ "" →
      m.matchType = .equal := by
  rw [statedMatchers, neededMatchers, filter_eq_filter_iff]
  refine forall₂_congr fun m _ => ?_
  obtain ⟨type, name, value⟩ := m
  rw [Bool.eq_iff_iff]
  simp only [repeatsName, LabelMatcher.metric, Bool.not_eq_true', Bool.and_eq_false_iff,
    beq_eq_false_iff_ne, bne_eq_false_iff_eq, decide_eq_true_iff, ne_eq, LabelMatcher.mk.injEq]
  tauto

def bracesText (ms : List LabelMatcher) : String :=
  "\x7b" ++ String.intercalate "," (ms.map LabelMatcher.text) ++ "\x7d"

def HasLabels (s : Selector) : Prop := ∀ m ∈ s.matchers, Token.isIdentifier m.name

theorem HasLabels.stated (h : s.HasLabels) : ∀ m ∈ s.statedMatchers, Token.isIdentifier m.name :=
  fun m hm => h m (List.mem_of_mem_filter hm)

theorem matchers_of_bracesText {ms ms' : List LabelMatcher} {cs cs' : List Char}
    (hms : ∀ m ∈ ms, Token.isIdentifier m.name) (hms' : ∀ m ∈ ms', Token.isIdentifier m.name)
    (hcs : Avoids Token.goesOn cs) (hcs' : Avoids Token.goesOn cs')
    (h : (bracesText ms).toList ++ cs = (bracesText ms').toList ++ cs') : ms = ms' := by
  have hscan : Token.Scans .outside ((bracesText ms).toList ++ cs) (Token.bracesTokens ms)
      .outside cs := spells_braces hms cs hcs
  have hscan' : Token.Scans .outside ((bracesText ms').toList ++ cs') (Token.bracesTokens ms')
      .outside cs' := spells_braces hms' cs' hcs'
  rw [h] at hscan
  rcases hscan.prefix_or_prefix hscan' with hle | hle
  · exact Token.matchers_of_prefix hle
  · exact (Token.matchers_of_prefix hle).symm

def EndsSelector (cs : List Char) : Prop := Avoids (fun c => Token.goesOn c || c == '\x7b') cs

def listText (s : Selector) : String :=
  if s.statedMatchers.isEmpty && s.name != "" then "" else bracesText s.statedMatchers

theorem text_eq_name_append (s : Selector) : s.text = s.name ++ s.listText := s.text_eq

theorem statedMatchers_of_text {cs cs' : List Char} (hname : s.name = s'.name) (hs : s.HasLabels)
    (hs' : s'.HasLabels) (hcs : EndsSelector cs) (hcs' : EndsSelector cs')
    (h : s.text.toList ++ cs = s'.text.toList ++ cs') : s.statedMatchers = s'.statedMatchers := by
  have hgoesOn {cs : List Char} (hcs : EndsSelector cs) : Avoids Token.goesOn cs :=
    hcs.mono fun c hc => by simp [hc]
  have hbrace {cs cs' : List Char} {ms : List LabelMatcher} (hcs : EndsSelector cs) :
      cs ≠ (bracesText ms).toList ++ cs' := by
    rintro rfl
    rw [bracesText, String.toList_append, String.toList_append] at hcs
    exact absurd (Avoids.cons.mp hcs) (by decide)
  rw [text_eq_name_append, text_eq_name_append, hname, String.toList_append, String.toList_append,
    List.append_assoc, List.append_assoc, List.append_cancel_left_eq, listText, listText] at h
  split_ifs at h with hnone hnone' hnone'
  · simp only [Bool.and_eq_true, List.isEmpty_iff] at hnone hnone'
    rw [hnone.1, hnone'.1]
  · exact absurd h (hbrace hcs)
  · exact absurd h.symm (hbrace hcs')
  · exact matchers_of_bracesText hs.stated hs'.stated (hgoesOn hcs) (hgoesOn hcs') h

theorem text_congr (hname : s.name = s'.name) (h : s.statedMatchers = s'.statedMatchers) :
    s.text = s'.text := by
  rw [text_eq_name_append, text_eq_name_append, listText, listText, hname, h]

end Selector

namespace Expr

def selecting (s : Selector) : Option UInt64 → Expr
  | some range => .matrixSelector s range
  | none => .vectorSelector s

def rangeText : Option UInt64 → String
  | some range => "[" ++ Duration.text range.toNat ++ "]"
  | none => ""

theorem rangeText_injective {r r' : Option UInt64} (h : rangeText r = rangeText r') : r = r' := by
  have hbracket (text : String) : "[" ++ text ++ "]" ≠ "" := by
    intro hempty
    have hlength := congrArg String.length hempty
    simp at hlength
  cases r with
  | none =>
    cases r' with
    | none => rfl
    | some range' => exact absurd h.symm (hbracket _)
  | some range =>
    cases r' with
    | none => exact absurd h (hbracket _)
    | some range' =>
      rw [rangeText, rangeText, String.append_left_inj, String.append_right_inj] at h
      exact congrArg some (UInt64.toNat_inj.mp (Duration.text_injective h))

theorem endsSelector_rangeText (r : Option UInt64) :
    Selector.EndsSelector (rangeText r).toList := by
  cases r with
  | none => exact .nil _
  | some range =>
    rw [rangeText, String.toList_append, String.toList_append]
    exact Avoids.cons.mpr (by decide)

variable {s s' : Selector}

theorem render_selecting (l : Layout) (level : Nat) (s : Selector) (r : Option UInt64) :
    (selecting s r).render l level = l.indent level ++ s.text ++ rangeText r ++ s.shift.text := by
  cases r with
  | none => rw [selecting, render, rangeText, String.append_empty]
  | some range => simp only [selecting, render, rangeText, String.append_assoc]

theorem render_selecting_eq_iff (l : Layout) (level : Nat) {r r' : Option UInt64}
    (hname : s.name = s'.name) (hshift : s.shift = s'.shift) (hs : s.HasLabels)
    (hs' : s'.HasLabels) : (selecting s r).render l level = (selecting s' r').render l level ↔
      s.statedMatchers = s'.statedMatchers ∧ r = r' := by
  rw [render_selecting, render_selecting, hshift, String.append_left_inj, String.append_assoc,
    String.append_assoc, String.append_right_inj]
  constructor
  · intro h
    have hlist := congrArg String.toList h
    rw [String.toList_append, String.toList_append] at hlist
    have hstated := Selector.statedMatchers_of_text hname hs hs' (endsSelector_rangeText r)
      (endsSelector_rangeText r') hlist
    rw [Selector.text_congr hname hstated, String.append_right_inj] at h
    exact ⟨hstated, rangeText_injective h⟩
  · rintro ⟨hstated, rfl⟩
    rw [Selector.text_congr hname hstated]

/-- The text of a selector lists its matchers in their order, but for those on the metric name whose
value is the selector's own name. Selectors of one name and one time that have the same text list
the same matchers. -/
theorem render_selecting_states (l : Layout) (level : Nat) (s : Selector) (r : Option UInt64) :
    (selecting s r).render l level =
        l.indent level ++ (s.name ++ s.listText) ++ rangeText r ++ s.shift.text ∧
      (s.statedMatchers = s.neededMatchers ↔ ∀ m ∈ s.matchers, m.name = "__name__" →
        m.value = s.name → s.name ≠ "" → m.matchType = .equal) ∧
      ∀ (s' : Selector) (r' : Option UInt64), s.name = s'.name → s.shift = s'.shift →
        s.HasLabels → s'.HasLabels →
        ((selecting s r).render l level = (selecting s' r').render l level ↔
          s.statedMatchers = s'.statedMatchers ∧ r = r') := by
  refine ⟨?_, Selector.statedMatchers_eq_neededMatchers_iff, ?_⟩
  · rw [render_selecting, Selector.text_eq_name_append]
  · intro s' r' hname hshift hs hs'
    exact render_selecting_eq_iff l level hname hshift hs hs'

theorem render_selecting_states_redundant :
    let up (ms : List LabelMatcher) : Expr := selecting ⟨"up", ms, .zero⟩ (some 300000)
    let job : LabelMatcher := ⟨.equal, "job", "a\"b"⟩
    (up [.metric "up", job]).text = (up [job]).text ∧
      (up [⟨.regexp, "env", "x|y"⟩, job]).text ≠ (up [job]).text := by
  intro up job
  have hstates (ms : List LabelMatcher) (hms : ∀ m ∈ ms, Token.isIdentifier m.name) :=
    (render_selecting_states .canonical 0 ⟨"up", ms, .zero⟩ (some 300000)).2.2 ⟨"up", [job], .zero⟩
      (some 300000) rfl rfl hms (show ∀ m ∈ [job], Token.isIdentifier m.name by decide)
  refine ⟨(hstates _ (by decide)).mpr (by decide), ?_⟩
  exact mt (hstates _ (by decide)).mp (by decide)

/-- A matcher that excludes the selector's own name is lost. -/
theorem text_excludedName :
    let s : Selector := ⟨"up", [⟨.notEqual, "__name__", "up"⟩], .zero⟩
    let s' : Selector := ⟨"up", [], .zero⟩
    s.neededMatchers ≠ s'.neededMatchers ∧
      (vectorSelector s).text = "up" ∧ (vectorSelector s').text = "up" := by
  refine ⟨by decide, by decide +kernel, by decide +kernel⟩

end Expr

end PromTree
