import PromTree.Proofs.Expr.Tokens
import PromTree.Proofs.Query.Clauses

namespace PromTree

open Token

theorem Duration.spells_text {ms : Nat} (h : Span.IsPrintable ms) :
    Spells (text ms).toList [.span (.ofMilliseconds ms)] := by
  intro rest hrest
  obtain ⟨c, cs, hchars, hdigit⟩ := exists_cons_chars h
  have hnumber := number?_duration h
  rw [hchars] at hnumber
  rw [text, String.toList_ofList, hchars]
  exact .token (outside?_number (by rw [hdigit]; rfl) hnumber
    (hrest.mono fun _ => goesOn_of_isNumberChar)) (by simp) (.done _ rest)

theorem Duration.scans_text_brackets {ms : Nat} (h : Span.IsPrintable ms) (colonSeen : Bool)
    {rest : List Char} (hrest : Avoids isNumberChar rest) :
    Scans (.brackets colonSeen) ((text ms).toList ++ rest) [.span (.ofMilliseconds ms)]
      (.brackets colonSeen) rest := by
  obtain ⟨c, cs, hchars, hdigit⟩ := exists_cons_chars h
  have hnumber := number?_duration h
  rw [hchars] at hnumber
  rw [text, String.toList_ofList, hchars]
  exact .token (inBrackets?_number hdigit hnumber hrest) (by simp) (.done _ rest)

theorem Token.spells_numeric {cs : List Char} {t : Token} (ht : ofChars? cs = some t)
    (hn : t.numeric?.isSome) : Spells cs [t] := by
  intro rest hrest
  cases cs with
  | nil => contradiction
  | cons c cs => exact .token (outside?_of_numeric ht hn hrest) (by simp) (.done _ rest)

namespace TimeShift

variable {s : TimeShift}

theorem exists_numeric_of_evalTime {t : Token} {ms : Int64}
    (h : evalTime [t] = .ok (.fixed ms, [])) : ∃ x, t.numeric? = some x ∧ timeOf x = .ok ms := by
  cases hx : t.numeric? with
  | some x =>
    refine ⟨x, rfl, ?_⟩
    simp only [evalTime, hx, bind_eq_ok_iff, Except.ok.injEq, Prod.mk.injEq, EvalTime.fixed.injEq,
      and_true, exists_eq_right] at h
    exact h
  | none =>
    simp only [evalTime, hx] at h
    split at h <;> simp_all [fail]

theorem exists_numeric_of_evalTime_sub {t : Token} {ms : Int64}
    (h : evalTime [.operator .sub, t] = .ok (.fixed ms, [])) :
    ∃ x, t.numeric? = some x ∧ timeOf x.neg = .ok ms := by
  cases hx : t.numeric? with
  | some x =>
    refine ⟨x, rfl, ?_⟩
    simp only [evalTime, hx, bind_eq_ok_iff, Except.ok.injEq, Prod.mk.injEq, EvalTime.fixed.injEq,
      and_true, exists_eq_right] at h
    exact h
  | none => simp [evalTime, hx, fail] at h

theorem exists_numeric {ms : Int64} (h : ReadsBack ms) :
    ∃ t x, t.numeric? = some x ∧
      ((∃ cs, (timestampText ms).toList = '-' :: cs ∧ ofChars? cs = some t ∧
          timestampTokens ms = [.operator .sub, t] ∧ timeOf x.neg = .ok ms) ∨
        (ofChars? (timestampText ms).toList = some t ∧ timestampTokens ms = [t] ∧
          timeOf x = .ok ms)) := by
  unfold ReadsBack timestampTokens at h
  unfold timestampTokens
  split at h
  · rename_i cs hcs
    cases ht : ofChars? cs with
    | none => simp [ht, evalTime, numeric?, keyword?, fail] at h
    | some t =>
      rw [ht] at h
      obtain ⟨x, hx, htime⟩ := exists_numeric_of_evalTime_sub h
      exact ⟨t, x, hx, .inl ⟨cs, hcs, ht, rfl, htime⟩⟩
  · rename_i cs hcs
    cases ht : ofChars? (timestampText ms).toList with
    | none => simp [ht, evalTime, fail] at h
    | some t =>
      rw [ht] at h
      obtain ⟨x, hx, htime⟩ := exists_numeric_of_evalTime h
      exact ⟨t, x, hx, .inr ⟨rfl, by simp, htime⟩⟩

theorem spells_timestamp {ms : Int64} (h : ReadsBack ms) :
    Spells (timestampText ms).toList (timestampTokens ms) := by
  obtain ⟨t, x, hx, ⟨cs, hcs, ht, htokens, -⟩ | ⟨ht, htokens, -⟩⟩ := exists_numeric h
  · rw [hcs, htokens]
    exact fun rest hrest => .token rfl le_rfl (spells_numeric ht (by simp [hx]) rest hrest)
  · rw [htokens]
    exact spells_numeric ht (by simp [hx])

theorem spells_rangeEnd (e : RangeEnd) :
    Spells (e.name ++ "()").toList [.word e.name, .leftParen, .rightParen] := by
  have hname : Spells e.name.toList [.word e.name] := by
    cases e
    · exact spells_keyword "start" .start (by decide)
    · exact spells_keyword "end" .finish (by decide)
  have hparens : Spells "()".toList [.leftParen, .rightParen] := fun rest hrest =>
    .token rfl le_rfl (spells_rightParen rest hrest)
  rw [String.toList_append]
  exact hname.append hparens (Avoids.cons.mpr (by decide))

theorem spells_at {text : String} {ts : List Token} (h : Spells text.toList ts) :
    Spells (" @ " ++ text).toList (.at :: ts) := by
  rw [String.toList_append]
  exact fun rest hrest => .blank rfl le_rfl (.token rfl le_rfl (h.blank rest hrest))

theorem spells_offset {text : String} {ts : List Token} (h : Spells text.toList ts) :
    Spells (" offset " ++ text).toList (.word "offset" :: ts) := by
  have hword := spells_keyword "offset" .offset (by decide)
  rw [String.toList_append]
  exact Spells.blank (hword.append h.blank (Avoids.cons.mpr (by decide)))

theorem spells_minus {text : String} {ts : List Token} (h : Spells text.toList ts) :
    Spells ("-" ++ text).toList (.operator .sub :: ts) := by
  rw [String.toList_append]
  exact fun rest hrest => .token rfl le_rfl (h rest hrest)

theorem spells_offsetText (h : s.offset = 0 ∨ Span.IsPrintable s.offset.toInt.natAbs) :
    Spells (offsetText s.offset).toList s.offsetTokens := by
  rcases h with h | h
  · rw [offsetTokens, signedOffset?, h]
    exact Spells.nil
  have hspan := Duration.spells_text h
  rw [offsetText, offsetTokens, signedOffset?]
  split_ifs
  · exact spells_offset hspan
  · have hminus := spells_offset (spells_minus hspan)
    rwa [← String.append_assoc] at hminus
  · exact .nil

def timeText (s : TimeShift) : String :=
  match s.timestamp, s.rangeEnd with
  | some ms, _ => " @ " ++ timestampText ms
  | none, some e => " @ " ++ (e.name ++ "()")
  | none, none => ""

theorem text_eq (s : TimeShift) : s.text = s.timeText ++ offsetText s.offset := by
  rcases s with ⟨offset, _ | ms, _ | e⟩
  · rfl
  · cases e <;> rfl
  · rfl
  · rfl

theorem spells_timeText (h : s.IsReadable) : Spells s.timeText.toList s.timeTokens := by
  rcases s with ⟨offset, _ | ms, _ | e⟩
  · exact .nil
  · exact spells_at (spells_rangeEnd e)
  · exact spells_at (spells_timestamp (h.2 ms rfl))
  · exact spells_at (spells_timestamp (h.2 ms rfl))

theorem avoids_offsetText (offset : Int64) : Avoids goesOn (offsetText offset).toList := by
  rw [offsetText]
  split_ifs
  · exact String.toList_append ▸ Avoids.cons.mpr (by decide)
  · exact String.toList_append ▸ Avoids.cons.mpr (by decide)
  · exact .nil _

theorem spells_text (h : s.IsReadable) : Spells s.text.toList s.tokens := by
  rw [text_eq, String.toList_append]
  exact (spells_timeText h).append (spells_offsetText h.1) (avoids_offsetText s.offset)

theorem avoids_text (s : TimeShift) : Avoids goesOn s.text.toList := by
  rw [text_eq, String.toList_append]
  rcases s with ⟨offset, _ | ms, _ | e⟩
  · exact avoids_offsetText offset
  all_goals
    rw [timeText, String.toList_append]
    exact Avoids.cons.mpr (by decide)

end TimeShift

namespace LabelMatcher

theorem scans_symbol (type : MatchType) (rest : List Char) :
    Scans .braces (type.symbol.toList ++ '"' :: rest) [.matchOperator type] .braces
      ('"' :: rest) := by
  cases type <;> exact .token rfl (by simp) (.done _ _)

theorem scans_name {name : String} (h : isIdentifier name) {rest : List Char}
    (hrest : Avoids Literal.isWordChar rest) (hspace : rest.head? ≠ some ' ') :
    Scans .braces (name.toList ++ rest) [.word name] .braces rest := by
  simp only [isIdentifier, Bool.and_eq_true, List.all_eq_true] at h
  cases hcs : name.toList with
  | nil => simp [hcs] at h
  | cons c cs =>
    rw [hcs] at h
    have hword := inBraces?_word h.1 h.2 hrest hspace
    rw [← hcs, String.ofList_toList] at hword
    exact .token hword (by simp) (.done _ rest)

theorem scans_text {m : LabelMatcher} (h : isIdentifier m.name) (rest : List Char) :
    Scans .braces (m.text.toList ++ rest) m.tokens .braces rest := by
  have hend : Avoids Literal.isWordChar
      (m.matchType.symbol.toList ++ ((quoteString m.value).toList ++ rest)) := by
    cases m.matchType <;> exact Avoids.cons.mpr (by decide)
  have hname := scans_name h hend (by cases m.matchType <;> exact fun h => nomatch h)
  have hsymbol := scans_symbol m.matchType (m.value.toList.flatMap escapeChar ++ ['"'] ++ rest)
  rw [← List.cons_append, ← toList_quoteString] at hsymbol
  rw [text, String.toList_append, String.toList_append, List.append_assoc, List.append_assoc]
  exact hname.trans (hsymbol.trans (scans_quoteString_braces m.value rest))

end LabelMatcher

namespace Selector

variable {s : Selector}

theorem spells_braces {matchers : List LabelMatcher} (h : ∀ m ∈ matchers, isIdentifier m.name) :
    Spells ("\x7b" ++ String.intercalate "," (matchers.map LabelMatcher.text) ++ "\x7d").toList
      (.leftBrace :: separated (matchers.map LabelMatcher.tokens) ++ [.rightBrace]) := by
  intro rest hrest
  have hcomma (rest : List Char) : Scans .braces (",".toList ++ rest) [.comma] .braces rest :=
    .token rfl (by simp) (.done _ rest)
  have hend : Scans .braces ('\x7d' :: rest) [.rightBrace] .outside rest :=
    .token rfl le_rfl (.done _ rest)
  have hbrace : Avoids (fun _ => false) ('\x7d' :: rest) := fun _ _ => rfl
  have hitems := scans_separated hcomma (fun _ _ _ => rfl)
    (fun m hm rest _ => LabelMatcher.scans_text (h m hm) rest) hbrace
  simp only [String.toList_append, String.toList_intercalate, List.map_map, List.append_assoc]
  exact .token rfl (by simp) (hitems.trans hend)

theorem text_eq (s : Selector) : s.text = s.name ++
    if s.statedMatchers.isEmpty && s.name != "" then ""
    else "\x7b" ++ String.intercalate "," (s.statedMatchers.map LabelMatcher.text) ++ "\x7d" := by
  rw [text, List.isEmpty_map]
  change (if s.statedMatchers.isEmpty && s.name != "" then _ else _) = _
  split_ifs
  · rw [String.append_empty]
  · simp only [String.append_assoc, statedMatchers]

theorem spells_text (h : s.IsReadable) : Spells s.text.toList s.tokens := by
  have hname : Spells s.name.toList s.nameTokens := by
    rw [nameTokens]
    split_ifs with hempty
    · rw [hempty]
      exact .nil
    · exact spells_name (Bool.and_eq_true _ _ |>.mp (h.1.resolve_left hempty)).1
  rw [text_eq, tokens, matcherTokens, String.toList_append]
  split_ifs
  · exact hname.append .nil (.nil _)
  · refine hname.append (spells_braces h.2.1) ?_
    rw [String.toList_append, String.toList_append]
    exact Avoids.cons.mpr (by decide)

end Selector

def BlankFirst (cs : List Char) : Prop := Avoids (· != ' ') cs

theorem BlankFirst.avoids {cs : List Char} (h : BlankFirst cs) : Avoids goesOn cs :=
  h.mono fun c hc => by
    rw [bne_iff_ne]
    rintro rfl
    contradiction

theorem blankFirst_append (text : String) : BlankFirst (" " ++ text).toList :=
  String.toList_append ▸ Avoids.cons.mpr rfl

theorem BlankFirst.exists_cons {cs : List Char} (h : BlankFirst cs) (cs' : List Char) :
    ∃ rest, cs ++ ' ' :: cs' = ' ' :: rest := by
  cases cs with
  | nil => exact ⟨cs', rfl⟩
  | cons c cs =>
    obtain rfl : c = ' ' := by simpa using Avoids.cons.mp h
    exact ⟨cs ++ ' ' :: cs', rfl⟩

theorem BinaryOp.scans_symbol (op : BinaryOp) (rest : List Char) :
    Scans .outside (op.symbol.toList ++ ' ' :: rest) [op.token] .outside (' ' :: rest) := by
  have hblank : Avoids goesOn (' ' :: rest) := Avoids.cons.mpr (by decide)
  cases op with
  | and => exact spells_keyword "and" .and (by decide) _ hblank
  | or => exact spells_keyword "or" .or (by decide) _ hblank
  | «unless» => exact spells_keyword "unless" .unless (by decide) _ hblank
  | atan2 => exact spells_keyword "atan2" .atan2 (by decide) _ hblank
  | _ => exact .token rfl (by simp) (.done _ _)

theorem Token.spells_clause (word : String) (k : Keyword) (h : (word, k) ∈ Keyword.table)
    {labels : List String} (hl : ∀ l ∈ labels, isLabel l) :
    Spells (" " ++ word ++ "(" ++ String.intercalate ", " labels ++ ")").toList
      (.word word :: labelList labels) := by
  have hlabels := spells_labelList hl
  simp only [String.toList_append, List.append_assoc] at hlabels ⊢
  exact Spells.blank ((spells_keyword word k h).append hlabels (Avoids.cons.mpr (by decide)))

namespace VectorMatching

variable {m : VectorMatching}

def labelText (m : VectorMatching) : String :=
  if m.statesLabels then
    " " ++ (if m.on then "on" else "ignoring") ++ "(" ++ String.intercalate ", " m.labels ++ ")"
  else ""

def groupText (m : VectorMatching) : String :=
  match m.cardinality with
  | .manyToOne => " " ++ "group_left" ++ "(" ++ String.intercalate ", " m.included ++ ")"
  | .oneToMany => " " ++ "group_right" ++ "(" ++ String.intercalate ", " m.included ++ ")"
  | .oneToOne | .manyToMany => ""

theorem text_eq (m : VectorMatching) : m.text = m.labelText ++ m.groupText := by
  have hon : (if m.on then " on(" else " ignoring(") =
      " " ++ (if m.on then "on" else "ignoring") ++ "(" := by
    cases m.on <;> rfl
  rw [text, hon, groupText]
  cases m.cardinality <;> rfl

theorem spells_labelText (h : m.IsReadable) : Spells m.labelText.toList m.labelTokens := by
  rw [labelText, labelTokens]
  split_ifs
  · exact spells_clause "on" .on (by decide) h.1
  · exact spells_clause "ignoring" .ignoring (by decide) h.1
  · exact .nil

theorem spells_groupText (h : m.IsReadable) : Spells m.groupText.toList m.groupTokens := by
  rw [groupText, groupTokens]
  cases hc : m.cardinality with
  | manyToOne =>
    exact spells_clause "group_left" .groupLeft (by decide) (h.2 (by rw [isGrouped, hc]; rfl))
  | oneToMany =>
    exact spells_clause "group_right" .groupRight (by decide) (h.2 (by rw [isGrouped, hc]; rfl))
  | oneToOne | manyToMany => exact .nil

theorem blankFirst_groupText (m : VectorMatching) : BlankFirst m.groupText.toList := by
  rw [groupText]
  cases m.cardinality with
  | manyToOne | oneToMany =>
    simp only [String.append_assoc]
    exact blankFirst_append _
  | oneToOne | manyToMany => exact .nil _

theorem blankFirst_labelText (m : VectorMatching) : BlankFirst m.labelText.toList := by
  rw [labelText]
  split
  · simp only [String.append_assoc]
    exact blankFirst_append _
  · exact .nil _

theorem blankFirst_text (m : VectorMatching) : BlankFirst m.text.toList := by
  rw [text_eq, String.toList_append]
  exact m.blankFirst_labelText.append m.blankFirst_groupText

theorem spells_text (h : m.IsReadable) : Spells m.text.toList m.tokens := by
  rw [text_eq, String.toList_append]
  exact (spells_labelText h).append (spells_groupText h) m.blankFirst_groupText.avoids

end VectorMatching

def clauseText (matching : Option VectorMatching) (returnBool : Bool) : String :=
  (if returnBool then " bool" else "") ++ matching.elim "" VectorMatching.text

theorem blankFirst_clauseText (matching : Option VectorMatching) (returnBool : Bool) :
    BlankFirst (clauseText matching returnBool).toList := by
  have hbool : BlankFirst (if returnBool then " bool" else "").toList := by
    cases returnBool
    · exact .nil _
    · exact Avoids.cons.mpr rfl
  have hmatching : BlankFirst (matching.elim "" VectorMatching.text).toList := by
    cases matching with
    | none => exact .nil _
    | some m => exact m.blankFirst_text
  rw [clauseText, String.toList_append]
  exact hbool.append hmatching

theorem spells_clauseText {matching : Option VectorMatching} (returnBool : Bool)
    (h : ∀ m ∈ matching, m.IsReadable) :
    Spells (clauseText matching returnBool).toList (clauseTokens matching returnBool) := by
  have hbool : Spells (if returnBool then " bool" else "").toList
      (if returnBool then [.word "bool"] else []) := by
    split
    · exact (spells_keyword "bool" .bool (by decide)).blank
    · exact .nil
  rw [clauseText, clauseTokens, String.toList_append]
  cases matching with
  | none => exact hbool.append .nil (.nil _)
  | some m =>
    exact hbool.append (VectorMatching.spells_text (h m rfl)) m.blankFirst_text.avoids

theorem scans_operatorText (op : BinaryOp) {matching : Option VectorMatching} (returnBool : Bool)
    (h : ∀ m ∈ matching, m.IsReadable) (rest : List Char) :
    Scans .outside ((" " ++ operatorText op matching returnBool ++ " ").toList ++ rest)
      (op.token :: clauseTokens matching returnBool) .outside rest := by
  have hclauses := (spells_clauseText returnBool h (' ' :: rest) (Avoids.cons.mpr rfl)).trans
    (scans_blank rest)
  rw [List.append_nil] at hclauses
  obtain ⟨rest', hrest⟩ := (blankFirst_clauseText matching returnBool).exists_cons rest
  have hop := op.scans_symbol rest'
  rw [← hrest] at hop
  have htext : operatorText op matching returnBool = op.symbol ++ clauseText matching returnBool :=
    String.append_assoc ..
  simp only [htext, String.toList_append, List.append_assoc]
  exact .blank rfl le_rfl (hop.trans hclauses)

namespace Grouping

variable {g : Grouping}

theorem text_eq (g : Grouping) : g.text =
    if g.without || !g.labels.isEmpty then
      " " ++ (if g.without then "without" else "by") ++ "(" ++ String.intercalate ", " g.labels ++
        ")" ++ " "
    else "" := by
  rw [text]
  cases g.without
  · cases g.labels <;> simp [String.append_assoc]
  · simp [String.append_assoc]

theorem blankFirst_text (g : Grouping) : BlankFirst g.text.toList := by
  rw [text_eq]
  split
  · simp only [String.append_assoc]
    exact blankFirst_append _
  · exact .nil _

theorem scans_text (h : ∀ l ∈ g.labels, isLabel l) (rest : List Char) :
    Scans .outside (g.text.toList ++ rest) g.tokens .outside rest := by
  have hclause : Spells (" " ++ (if g.without then "without" else "by") ++ "(" ++
      String.intercalate ", " g.labels ++ ")").toList
        (.word (if g.without then "without" else "by") :: labelList g.labels) := by
    cases g.without
    · exact spells_clause "by" .by (by decide) h
    · exact spells_clause "without" .without (by decide) h
  rw [text_eq, tokens, stated?]
  split
  · have hscan := (hclause (' ' :: rest) (Avoids.cons.mpr rfl)).trans (scans_blank rest)
    rw [List.append_nil] at hscan
    rw [String.toList_append, List.append_assoc]
    exact hscan
  · exact .done _ rest

end Grouping

theorem scans_rightBracket (colonSeen : Bool) (rest : List Char) :
    Scans (.brackets colonSeen) (']' :: rest) [.rightBracket] .outside rest := by
  refine .token ?_ le_rfl (.done _ rest)
  simp [step?, inBrackets?, isSpace]

theorem spells_range {ms : Nat} (h : Span.IsPrintable ms) :
    Spells ('[' :: (Duration.text ms).toList ++ [']'])
      [.leftBracket, .span (.ofMilliseconds ms), .rightBracket] := by
  intro rest hrest
  have hend : Avoids isNumberChar (']' :: rest) := Avoids.cons.mpr (by decide)
  have hrange := Duration.scans_text_brackets h false hend
  simp only [List.cons_append, List.append_assoc, List.nil_append]
  exact .token rfl (by simp) (hrange.trans (scans_rightBracket false rest))

namespace Window

variable {w : Window}

def stepText (w : Window) : String := if w.step = 0 then "" else Duration.text w.step.toNat

theorem scans_stepText (h : w.IsReadable) (rest : List Char) :
    Scans (.brackets true) (w.stepText.toList ++ ']' :: rest)
      (w.statedStep?.elim [] fun step => [.span step]) (.brackets true) (']' :: rest) := by
  rw [stepText, statedStep?]
  split_ifs with hzero
  · exact .done _ _
  · exact Duration.scans_text_brackets (h.2.1.resolve_left hzero) true (Avoids.cons.mpr (by decide))

theorem spells_brackets (h : w.IsReadable) :
    Spells ('[' :: (Duration.text w.range.toNat).toList ++ ':' :: w.stepText.toList ++ [']'])
      (.leftBracket :: w.bracketTokens) := by
  intro rest hrest
  have hcolon : Scans (.brackets false) (':' :: (w.stepText.toList ++ ']' :: rest)) [.colon]
      (.brackets true) (w.stepText.toList ++ ']' :: rest) := .token rfl le_rfl (.done _ _)
  have hend : Avoids isNumberChar (':' :: (w.stepText.toList ++ ']' :: rest)) :=
    Avoids.cons.mpr (by decide)
  have hspan := Duration.scans_text_brackets h.1 false hend
  have hscan := hspan.trans (hcolon.trans ((scans_stepText h rest).trans
    (scans_rightBracket true rest)))
  simp only [List.cons_append, List.append_assoc, List.nil_append] at hscan ⊢
  exact .token rfl (by simp) hscan

end Window

def StartsVisibly (cs : List Char) : Prop := ∃ c cs', cs = c :: cs' ∧ isBlank c = false

theorem StartsVisibly.append {cs : List Char} (h : StartsVisibly cs) (cs' : List Char) :
    StartsVisibly (cs ++ cs') := by
  obtain ⟨c, ds, rfl, hc⟩ := h
  exact ⟨c, ds ++ cs', rfl, hc⟩

theorem isBlank_of_goesOn {c : Char} (h : goesOn c) : isBlank c = false := by
  have hcode : 32 < c.toNat ∧ c.toNat < 128 := by
    simp only [goesOn, isNumberChar, Literal.isWordChar, Char.isAlphanum, isAlpha_iff, isDigit_iff,
      Bool.or_eq_true, beq_iff_eq] at h
    rcases h with (((((h | h) | rfl) | rfl) | rfl) | rfl) | rfl
    case inl.inl.inl.inl.inl.inl | inl.inl.inl.inl.inl.inr => omega
    all_goals decide
  simp only [isBlank, blankRanges, List.any_cons, List.any_nil, Bool.or_false, Bool.or_eq_false_iff,
    Bool.and_eq_false_iff, decide_eq_false_iff_not]
  omega

theorem isWord_of_isFunctionName {text : String} (h : isFunctionName text) : isWord text :=
  (Bool.and_eq_true _ _ |>.mp h).1

theorem isName_of_isFunctionName {text : String} (h : isFunctionName text) : isName text :=
  (Bool.and_eq_true _ _ |>.mp (isWord_of_isFunctionName h)).1

theorem Literal.exists_of_value? {text : String} (h : (value? text).isSome) :
    ∃ t, ofChars? text.toList = some t ∧ t.numeric?.isSome := by
  obtain ⟨x, hx⟩ := Option.isSome_iff_exists.mp h
  obtain ⟨t, ht, hn⟩ := Option.bind_eq_some_iff.mp hx
  exact ⟨t, ht, by rw [hn]; rfl⟩

theorem startsVisibly_of_isName {text : String} (h : isName text) :
    StartsVisibly text.toList := by
  simp only [isName, Bool.and_eq_true, List.all_eq_true] at h
  cases hcs : text.toList with
  | nil => simp [hcs] at h
  | cons c cs =>
    exact ⟨c, cs, rfl, isBlank_of_goesOn (goesOn_of_isNameChar (h.2 c (hcs ▸ List.mem_cons_self)))⟩

theorem startsVisibly_of_numeric {cs : List Char} {t : Token} (ht : ofChars? cs = some t)
    (hn : t.numeric?.isSome) : StartsVisibly cs := by
  cases cs with
  | nil => contradiction
  | cons c cs =>
    refine ⟨c, cs, rfl, isBlank_of_goesOn ?_⟩
    rw [ofChars?] at ht
    split at ht
    · rename_i t' hout
      obtain rfl := Option.some.inj ht
      cases hword : isWordStart c || c == ':' with
      | true =>
        exact goesOn_of_isNameChar ((eq_ofWord_of_outside? hword hout).2 c List.mem_cons_self)
      | false =>
        cases hnumber : c.isDigit || (c == '.' && cs.head?.any Char.isDigit) with
        | true =>
          rcases Bool.or_eq_true _ _ |>.mp hnumber with hdigit | hpoint
          · simp [goesOn, isNumberChar, Literal.isWordChar, Char.isAlphanum, hdigit]
          · simp [goesOn, isNumberChar, (Bool.and_eq_true _ _ |>.mp hpoint).1]
        | false =>
          rw [not_numeric_of_symbol hword hnumber hout] at hn
          contradiction
    · contradiction

namespace Expr

theorem startsVisibly_parenthesizedIf {text : String} (h : StartsVisibly text.toList)
    (wrapped : Bool) : StartsVisibly (parenthesizedIf wrapped text).toList := by
  cases wrapped
  · exact h
  · rw [parenthesizedIf, if_pos rfl, String.append_assoc, String.toList_append]
    exact ⟨'(', _, rfl, rfl⟩

theorem startsVisibly_selector {s : Selector} (h : s.IsReadable) : StartsVisibly s.text.toList := by
  rw [Selector.text_eq, String.toList_append]
  rcases h.1 with hname | hname
  · rw [hname, bne_self_eq_false, Bool.and_false, if_neg Bool.false_ne_true, String.append_assoc,
      String.toList_append]
    exact ⟨'\x7b', _, rfl, rfl⟩
  · exact (startsVisibly_of_isName (Bool.and_eq_true _ _ |>.mp hname).1).append _

theorem startsVisibly_text {e : Expr} (h : e.IsReadable) : StartsVisibly e.text.toList := by
  induction e with
  | node e ih =>
    obtain ⟨hown, hchildren⟩ := e.isReadable_iff.mp h
    cases e with
    | aggregation op grouping param body =>
      simp only [text_aggregation, String.toList_append, List.append_assoc]
      exact StartsVisibly.append (by cases op <;> exact ⟨_, _, rfl, rfl⟩) _
    | binary op matching returnBool lhs rhs =>
      have hlhs := ih lhs (by simp [children]) (hchildren lhs (by simp [children]))
      simp only [text_binary, String.toList_append, List.append_assoc]
      exact (startsVisibly_parenthesizedIf hlhs _).append _
    | call func args =>
      simp only [text_call, String.toList_append, List.append_assoc]
      exact (startsVisibly_of_isName (isName_of_isFunctionName hown)).append _
    | matrixSelector selector range =>
      simp only [text_matrixSelector, String.toList_append, List.append_assoc]
      exact (startsVisibly_selector hown.1).append _
    | vectorSelector selector =>
      simp only [text_vectorSelector, String.toList_append]
      exact (startsVisibly_selector hown).append _
    | subquery window body =>
      have hbody := ih body (by simp [children]) (hchildren body (by simp [children]))
      simp only [text_subquery, String.toList_append, List.append_assoc]
      exact (startsVisibly_parenthesizedIf hbody _).append _
    | number text =>
      obtain ⟨t, ht, hn⟩ := Literal.exists_of_value? hown
      exact startsVisibly_of_numeric ht hn
    | paren body =>
      simp only [text_paren, String.toList_append, List.append_assoc]
      exact ⟨'(', _, rfl, rfl⟩
    | string value => exact ⟨'"', _, toList_quoteString value, rfl⟩
    | unary sign body =>
      simp only [text_unary, String.toList_append]
      exact StartsVisibly.append (by cases sign <;> exact ⟨_, _, rfl, rfl⟩) _
    | placeholder => contradiction

theorem dropLeadingBlanks_text {e : Expr} (h : e.IsReadable) :
    dropLeadingBlanks e.text = e.text := by
  obtain ⟨c, cs, hcs, hc⟩ := startsVisibly_text h
  rw [dropLeadingBlanks, hcs, List.dropWhile_cons_of_neg (by simp [hc]), ← hcs, String.ofList_toList]

theorem avoids_application (args : String) : Avoids goesOn ("(" ++ args ++ ")").toList := by
  simp only [String.toList_append, List.append_assoc]
  exact Avoids.cons.mpr (by decide)

theorem spells_application {es : List Expr} (h : ∀ e ∈ es, Spells e.text.toList e.tokens) :
    Spells ("(" ++ String.intercalate ", " (es.map text) ++ ")").toList
      (.leftParen :: separated (es.map tokens) ++ [.rightParen]) := by
  have hlist := spells_list h
  simp only [String.toList_append, String.toList_intercalate, List.map_map]
  exact hlist

theorem spells_aggregation {op : Aggregator} {grouping : Grouping} {es : List Expr}
    (hg : ∀ l ∈ grouping.labels, isLabel l) (h : ∀ e ∈ es, Spells e.text.toList e.tokens) :
    Spells (op.name.toList ++ (grouping.text.toList ++
      ("(" ++ String.intercalate ", " (es.map text) ++ ")").toList))
      (.word op.name :: (grouping.tokens ++
        (.leftParen :: separated (es.map tokens) ++ [.rightParen]))) := by
  have hname := spells_keyword op.name (.aggregator op) (by cases op <;> decide)
  have hargs := spells_application h
  refine hname.append ?_ (grouping.blankFirst_text.avoids.append (avoids_application _))
  intro rest hrest
  rw [List.append_assoc]
  exact (Grouping.scans_text hg _).trans (hargs rest hrest)

theorem spells_binary {op : BinaryOp} {matching : Option VectorMatching} (returnBool : Bool)
    {ls rs : List Char} {lhs rhs : List Token} (hm : ∀ m ∈ matching, m.IsReadable)
    (hl : Spells ls lhs) (hr : Spells rs rhs) :
    Spells (ls ++ ((" " ++ operatorText op matching returnBool ++ " ").toList ++ rs))
      (lhs ++ op.token :: clauseTokens matching returnBool ++ rhs) := by
  intro rest hrest
  have havoids : Avoids goesOn
      ((" " ++ operatorText op matching returnBool ++ " ").toList ++ (rs ++ rest)) := by
    simp only [String.toList_append]
    exact Avoids.cons.mpr rfl
  have hop := scans_operatorText op returnBool hm (rs ++ rest)
  simpa using (hl _ havoids).trans (hop.trans (hr rest hrest))

theorem spells_text {e : Expr} (hr : e.IsReadable) (hg : e.IsGrouped) :
    Spells e.text.toList e.tokens := by
  induction e with
  | node e ih =>
    obtain ⟨hown, hchildren⟩ := e.isReadable_iff.mp hr
    replace ih (c : Expr) (hc : c ∈ e.children) := ih c hc (hchildren c hc) (hg.of_mem hc)
    cases e with
    | aggregation op grouping param body =>
      rw [tokens_eq, text_aggregation]
      simpa [shape, children, Shape.tokens, String.toList_append] using spells_aggregation hown ih
    | binary op matching returnBool lhs rhs =>
      obtain ⟨⟨hlhs, hrhs⟩, -⟩ := isGrouped_binary.mp hg
      have hl := ih lhs (by simp [children])
      have hr := ih rhs (by simp [children])
      rw [tokens_eq, text_binary, hlhs, hrhs]
      simpa [parenthesizedIf, shape, children, Shape.tokens, String.toList_append] using
        spells_binary returnBool hown hl hr
    | call func args =>
      have hname := spells_word (isWord_of_isFunctionName hown)
      rw [tokens_eq, text_call]
      simpa [shape, children, Shape.tokens, String.toList_append] using
        hname.append (spells_application ih) (avoids_application _)
    | matrixSelector selector range =>
      have hselector := (Selector.spells_text hown.1).append (spells_range hown.2)
        (Avoids.cons.mpr (by decide))
      rw [tokens_eq, text_matrixSelector]
      simpa [shape, children, Shape.tokens, String.toList_append] using
        hselector.append (TimeShift.spells_text hown.1.2.2) selector.shift.avoids_text
    | subquery window body =>
      obtain ⟨hbody, -⟩ := isGrouped_subquery.mp hg
      have hbrackets := (ih body (by simp [children])).append
        (Window.spells_brackets hown) (Avoids.cons.mpr (by decide))
      rw [tokens_eq, text_subquery, hbody]
      simpa [parenthesizedIf, Window.stepText, shape, children, Shape.tokens, String.toList_append] using
        hbrackets.append (TimeShift.spells_text hown.2.2) window.shift.avoids_text
    | number text =>
      obtain ⟨t, ht, hn⟩ := Literal.exists_of_value? hown
      change Spells text.toList (ofChars? text.toList).toList
      rw [ht]
      exact spells_numeric ht hn
    | paren body =>
      rw [text_paren]
      have hbody : ∀ c ∈ [body], Spells c.text.toList c.tokens := ih
      rw [tokens_eq]
      simpa [shape, children, Shape.tokens, separated, String.toList_append,
        String.toList_intercalate] using spells_application hbody
    | string value => exact spells_quoteString value
    | unary sign body =>
      obtain ⟨hbody, -⟩ := isGrouped_unary.mp hg
      have hbare := ih body (by simp [children])
      rw [text_unary, hbody, parenthesizedIf, if_neg Bool.false_ne_true,
        dropLeadingBlanks_text (hchildren body (by simp [children])), String.toList_append]
      intro rest hrest
      cases sign <;> exact .token rfl le_rfl (hbare rest hrest)
    | vectorSelector selector =>
      rw [text_vectorSelector, String.toList_append]
      exact (Selector.spells_text hown).append (TimeShift.spells_text hown.2.2)
        selector.shift.avoids_text
    | placeholder => contradiction

end Expr

end PromTree
