import Mathlib
import PromTree.Proofs.Expr.Spelling
import PromTree.Proofs.Query.Reading
import PromTree.Query

namespace PromTree

open Token Term Term.Reader

variable {fs : List Frame} {rest : List Token}

structure TakesModifiers (make : Modifiers → Term) : Prop where
  addTime : ∀ time, (make .absent).addTime time = .ok (make ⟨none, some time⟩)
  addOffset : ∀ offset time, (make ⟨none, time⟩).addOffset offset = .ok (make ⟨some offset, time⟩)

theorem takesModifiers_selector (p : Pattern) : TakesModifiers (.selector p) :=
  ⟨fun _ => rfl, fun _ _ => rfl⟩

theorem takesModifiers_matrix (p : Pattern) (range : Span) : TakesModifiers (.matrix p range) :=
  ⟨fun _ => rfl, fun _ _ => rfl⟩

theorem takesModifiers_subquery (body : Term) (range : Span) (step : Option Span) :
    TakesModifiers (.subquery body range step) := ⟨fun _ => rfl, fun _ _ => rfl⟩

namespace TimeShift

variable {s : TimeShift} {make : Modifiers → Term}

theorem evalTime_timestampTokens {ms : Int64} (h : ReadsBack ms) (rest : List Token) :
    evalTime (timestampTokens ms ++ rest) = .ok (.fixed ms, rest) := by
  obtain ⟨t, x, hx, ⟨cs, -, -, htokens, htime⟩ | ⟨-, htokens, htime⟩⟩ := exists_numeric h
  · simp [htokens, evalTime, hx, htime, bind, Except.bind]
  · rw [htokens, List.cons_append, List.nil_append, evalTime_numeric hx, htime]
    rfl

theorem evalTime_rangeEnd (e : RangeEnd) (rest : List Token) :
    evalTime (.word e.name :: .leftParen :: .rightParen :: rest) = .ok (.rangeEnd e, rest) := by
  cases e with
  | start =>
    have hkeyword := keyword?_word "start" .start (by decide)
    simp [evalTime, RangeEnd.name, numeric?, hkeyword]
  | finish =>
    have hkeyword := keyword?_word "end" .finish (by decide)
    simp [evalTime, RangeEnd.name, numeric?, hkeyword]

theorem steps_at (hmake : TakesModifiers make) {ts : List Token} {time : EvalTime}
    (h : evalTime (ts ++ rest) = .ok (time, rest)) :
    Steps ⟨fs, some (make .absent)⟩ (.at :: ts ++ rest) ⟨fs, some (make ⟨none, some time⟩)⟩
      rest := by
  refine .single ?_ (by simp)
  simp [Reader.step, stepOperator, h, hmake.addTime, bind, Except.bind]

theorem steps_timeTokens (hmake : TakesModifiers make) (h : s.IsReadable) :
    Steps ⟨fs, some (make .absent)⟩ (s.timeTokens ++ rest)
      ⟨fs, some (make ⟨none, s.evalTime?⟩)⟩ rest := by
  rcases s with ⟨offset, _ | ms, _ | e⟩
  · exact .done _ _
  · exact steps_at hmake (evalTime_rangeEnd e rest)
  · exact steps_at hmake (evalTime_timestampTokens (h.2 ms rfl) rest)
  · exact steps_at hmake (evalTime_timestampTokens (h.2 ms rfl) rest)

theorem steps_offset (hmake : TakesModifiers make) {ts : List Token} {offset : SignedSpan}
    (time : Option EvalTime) (h : Token.offset (ts ++ rest) = .ok (offset, rest)) :
    Steps ⟨fs, some (make ⟨none, time⟩)⟩ (.word "offset" :: ts ++ rest)
      ⟨fs, some (make ⟨some offset, time⟩)⟩ rest := by
  have hkeyword := ofWord?_of_mem_table ("offset", .offset) (by decide)
  refine .single ?_ (by simp)
  simp [Reader.step, stepOperator, binaryOp?, groupingKind?, keyword?, hkeyword, h,
    hmake.addOffset, bind, Except.bind]

theorem steps_offsetTokens (hmake : TakesModifiers make) (time : Option EvalTime) :
    Steps ⟨fs, some (make ⟨none, time⟩)⟩ (s.offsetTokens ++ rest)
      ⟨fs, some (make ⟨s.signedOffset?, time⟩)⟩ rest := by
  rw [offsetTokens]
  split
  · rename_i span hoffset
    exact hoffset ▸ steps_offset hmake time rfl
  · rename_i span hoffset
    exact hoffset ▸ steps_offset hmake time rfl
  · rename_i hoffset
    exact hoffset ▸ .done _ _

theorem steps_tokens (fs : List Frame) (rest : List Token) (hmake : TakesModifiers make)
    (h : s.IsReadable) :
    Steps ⟨fs, some (make .absent)⟩ (s.tokens ++ rest) ⟨fs, some (make s.modifiers)⟩ rest := by
  rw [tokens, List.append_assoc]
  exact (steps_timeTokens hmake h).trans (steps_offsetTokens hmake s.evalTime?)

end TimeShift

namespace Selector

variable {s : Selector}

theorem matchers_matcherTokens (s : Selector) (h : EndsOperand rest) :
    Token.matchers (s.matcherTokens ++ rest) = .ok ((s.statedMatchers, false), rest) := by
  rw [matcherTokens]
  split_ifs with hnone
  · rw [Bool.and_eq_true, List.isEmpty_iff] at hnone
    rw [hnone.1, List.nil_append, matchers_of_ne h.2]
  · rw [List.append_assoc]
    exact matchers_separated s.statedMatchers rest

theorem endsName_matcherTokens (s : Selector) (h : EndsOperand rest) :
    EndsName (s.matcherTokens ++ rest) := by
  rw [matcherTokens]
  split_ifs
  · exact h.1
  · rintro t ⟨⟩
    exact ⟨by simp, rfl⟩

theorem namedSelector_matcherTokens (fs : List Frame) (s : Selector) (hname : s.name ≠ "")
    (h : EndsOperand rest) :
    namedSelector fs s.name (s.matcherTokens ++ rest) =
      .ok (⟨fs, some (.selector s.pattern .absent)⟩, rest) := by
  rw [namedSelector, matchers_matcherTokens s h, pattern, if_neg hname]
  rfl

theorem steps_tokens (fs : List Frame) (hs : s.IsReadable) (h : EndsOperand rest) :
    Steps ⟨fs, none⟩ (s.tokens ++ rest) ⟨fs, some (.selector s.pattern .absent)⟩ rest := by
  have hmatchers := s.matchers_matcherTokens h
  rw [tokens, nameTokens, List.append_assoc]
  by_cases hname : s.name = ""
  · have htokens : s.matcherTokens ++ rest =
        .leftBrace :: (separated (s.statedMatchers.map LabelMatcher.tokens) ++ .rightBrace :: rest) := by
      simp [matcherTokens, hname]
    rw [if_pos hname, List.nil_append, htokens]
    rw [htokens] at hmatchers
    refine .single ?_ (by simp; omega)
    simp only [Reader.step, stepOperand, hmatchers, pattern, if_pos hname, bind, Except.bind]
  · have hselector := s.namedSelector_matcherTokens fs hname h
    rw [if_neg hname]
    rcases ofWord_of_isMetricName (hs.1.resolve_left hname) with hword | ⟨hword, hkeyword⟩
    · rw [hword]
      exact .single hselector (by simp)
    · rw [hword]
      have hname := stepOperand_name fs (s.endsName_matcherTokens h) hkeyword
      exact .single (hname.trans hselector) (by simp)

end Selector

theorem matchingKind?_word (on : Bool) :
    (word (if on then "on" else "ignoring")).matchingKind? = some on := by
  cases on with
  | false => simp [matchingKind?, keyword?_word "ignoring" .ignoring (by decide)]
  | true => simp [matchingKind?, keyword?_word "on" .on (by decide)]

namespace VectorMatching

variable {m : VectorMatching}

theorem groupClause_groupTokens (hm : m.IsReadable) (h : StartsOperand rest) :
    Token.groupClause (m.groupTokens ++ rest) = .ok (m.groupClause?, rest) := by
  have hleft : (word "group_left").groupSide? = some .manyToOne := by
    simp [groupSide?, keyword?_word "group_left" .groupLeft (by decide)]
  have hright : (word "group_right").groupSide? = some .oneToMany := by
    simp [groupSide?, keyword?_word "group_right" .groupRight (by decide)]
  rw [groupTokens, groupClause?, isGrouped]
  cases hc : m.cardinality with
  | oneToOne | manyToMany => exact h.groupClause
  | manyToOne | oneToMany =>
    have hlabels := labelsRest_separated (hm.2 (by rw [isGrouped, hc]; rfl)) rest
    simp [Token.groupClause, labelList, hleft, hright, hlabels, bind, Except.bind]

theorem tokens_of_not_statesLabels (h : ¬m.statesLabels) :
    m.tokens = [] ∧ m.labelClause? = none ∧ m.groupClause? = none := by
  have hgrouped : m.isGrouped = false := by
    simp only [statesLabels, Bool.or_eq_true, not_or, Bool.not_eq_true] at h
    exact h.2
  have hnone : m.groupTokens = [] := by
    rw [groupTokens]
    rw [isGrouped] at hgrouped
    cases hc : m.cardinality <;> simp_all
  exact ⟨by rw [tokens, labelTokens, if_neg h, hnone]; rfl, if_neg h, if_neg (by simp [hgrouped])⟩

theorem matchingClauses_tokens (hm : m.IsReadable) (h : StartsOperand rest) (returnBool : Bool) :
    matchingClauses returnBool (m.tokens ++ rest) =
      .ok (⟨returnBool, m.labelClause?, m.groupClause?⟩, rest) := by
  by_cases hstates : m.statesLabels
  · have hgroup := groupClause_groupTokens hm h
    have hlabels := labels_labelList hm.1 (m.groupTokens ++ rest)
    rw [tokens, labelTokens, labelClause?, if_pos hstates, if_pos hstates]
    simp only [List.append_assoc, List.cons_append, matchingClauses, matchingKind?_word, hlabels,
      hgroup, bind, Except.bind]
  · obtain ⟨htokens, hlabel, hgroup⟩ := tokens_of_not_statesLabels hstates
    rw [htokens, hlabel, hgroup]
    exact h.matchingClauses returnBool

theorem takeBool_tokens (m : VectorMatching) (h : StartsOperand rest) :
    takeBool (m.tokens ++ rest) = (false, m.tokens ++ rest) := by
  by_cases hstates : m.statesLabels
  · have hkeyword : (word (if m.on then "on" else "ignoring")).keyword? ≠ some .bool := by
      cases m.on with
      | false => simp [keyword?_word "ignoring" .ignoring (by decide)]
      | true => simp [keyword?_word "on" .on (by decide)]
    rw [tokens, labelTokens, if_pos hstates]
    exact if_neg hkeyword
  · rw [(tokens_of_not_statesLabels hstates).1]
    exact h.takeBool

end VectorMatching

theorem operatorClauses_clauseTokens {matching : Option VectorMatching}
    (hm : ∀ m ∈ matching, m.IsReadable) (h : StartsOperand rest) (returnBool : Bool) :
    operatorClauses (clauseTokens matching returnBool ++ rest) =
      .ok (.ofMatching returnBool matching, rest) := by
  have hmatching : matchingClauses returnBool (matching.elim [] VectorMatching.tokens ++ rest) =
      .ok (.ofMatching returnBool matching, rest) := by
    cases matching with
    | none => exact h.matchingClauses returnBool
    | some m => exact VectorMatching.matchingClauses_tokens (hm m rfl) h returnBool
  have htake : takeBool (clauseTokens matching returnBool ++ rest) =
      (returnBool, matching.elim [] VectorMatching.tokens ++ rest) := by
    cases returnBool with
    | true => exact if_pos (keyword?_word "bool" .bool (by decide))
    | false =>
      cases matching with
      | none => exact h.takeBool
      | some m => exact m.takeBool_tokens h
  rw [operatorClauses, htake, hmatching]

namespace Shape

def floor : Shape → Nat
  | .binary op .. => min op.precedence Sign.precedence
  | .unary _ => Sign.precedence
  | _ => 7

def Waits : Shape → List Frame → Prop
  | .binary op .., fs => Holds (closesBefore op) fs
  | _, _ => True

variable {s : Shape} {op op' : BinaryOp}

theorem needsParens_binary {matching : Option VectorMatching} {returnBool isRight : Bool} :
    (binary op' matching returnBool).needsParens op isRight = false ↔
      op.precedence ≤ op'.precedence ∧
        (op'.precedence = op.precedence → (isRight = true ↔ op.precedence = 6)) := by
  rw [← isRightAssociative_iff]
  cases isRight <;> simp [needsParens]

theorem needsParens_unary {sign : Sign} :
    (unary sign).needsParens op false = false ↔ op.precedence ≠ 6 := by
  rw [needsParens]
  cases op <;> decide

theorem waits_left (hparens : s.needsParens op false = false) {fs : List Frame}
    (h : Holds (closesBefore op) fs) : s.Waits fs := by
  cases s with
  | binary op' matching returnBool =>
    obtain ⟨hle, heq⟩ := needsParens_binary.mp hparens
    refine h.mono fun p hp => ?_
    rw [closesBefore_iff] at hp ⊢
    grind
  | _ => trivial

theorem closesBefore_floor (hparens : s.needsParens op false = false) :
    closesBefore op s.floor := by
  have hle := precedence_le op
  have hsign : Sign.precedence = 5 := rfl
  rw [closesBefore_iff]
  cases s with
  | binary op' matching returnBool =>
    obtain ⟨hle', heq⟩ := needsParens_binary.mp hparens
    have hle'' := precedence_le op'
    simp only [floor, hsign]
    grind
  | unary sign =>
    have hpow := needsParens_unary.mp hparens
    simp only [floor, hsign]
    omega
  | _ =>
    simp only [floor]
    omega

theorem waits_right (hparens : s.needsParens op true = false) (lhs : Term)
    (clauses : OperatorClauses) (fs : List Frame) : s.Waits (.operator lhs op clauses :: fs) := by
  cases s with
  | binary op' matching returnBool =>
    obtain ⟨hle, heq⟩ := needsParens_binary.mp hparens
    change closesBefore op' op.precedence = false
    rw [← Bool.not_eq_true, closesBefore_iff]
    grind
  | _ => trivial

theorem floor_right (hparens : s.needsParens op true = false) :
    min op.precedence Sign.precedence ≤ s.floor := by
  have hle := precedence_le op
  have hsign : Sign.precedence = 5 := rfl
  cases s with
  | binary op' matching returnBool =>
    obtain ⟨hle', -⟩ := needsParens_binary.mp hparens
    simp only [floor]
    omega
  | _ =>
    simp only [floor]
    omega

theorem needsParensAfterSign_binary {matching : Option VectorMatching} {returnBool : Bool} :
    (binary op' matching returnBool).needsParensAfterSign = false ↔ 6 ≤ op'.precedence := by
  have hpow : BinaryOp.pow.precedence = 6 := rfl
  simp [needsParensAfterSign, hpow]

theorem waits_sign (hparens : s.needsParensAfterSign = false) (negative : Bool)
    (fs : List Frame) : s.Waits (.sign negative :: fs) := by
  cases s with
  | binary op' matching returnBool =>
    have hle := needsParensAfterSign_binary.mp hparens
    have hsign : Sign.precedence = 5 := rfl
    change closesBefore op' Sign.precedence = false
    rw [← Bool.not_eq_true, closesBefore_iff]
    omega
  | _ => trivial

theorem floor_sign (hparens : s.needsParensAfterSign = false) : Sign.precedence ≤ s.floor := by
  have hsign : Sign.precedence = 5 := rfl
  cases s with
  | binary op' matching returnBool =>
    have hle := needsParensAfterSign_binary.mp hparens
    simp only [floor]
    omega
  | _ =>
    simp only [floor]
    omega

theorem floor_subquery (hparens : s.needsParensInSubquery = false) :
    s.floor = 7 ∧ ∀ fs, s.Waits fs := by
  cases s with
  | binary | unary => contradiction
  | _ => exact ⟨rfl, fun _ => trivial⟩

end Shape

/-- After these tokens the reader has the operand `t`, once enough is closed. -/
def Reads (s : Shape) (ts : List Token) (t : Term) : Prop :=
  ∀ fs rest, s.Waits fs → EndsOperand rest → ∃ fs' u,
    Steps ⟨fs, none⟩ (ts ++ rest) ⟨fs', some u⟩ rest ∧ Leads s.floor fs' u fs t

theorem Shape.waits_of_holds {s : Shape} {fs : List Frame} (h : ∀ closes, Holds closes fs) :
    s.Waits fs := by
  cases s with
  | binary => exact h _
  | _ => trivial

namespace Term.Reader.TakesArguments

variable {frame : List Term → Frame} {result : List Term → Term}

theorem steps_separated (h : TakesArguments frame result) (es : List Expr) (e : Expr)
    (hes : ∀ c ∈ e :: es, Reads c.shape c.tokens c.term) (args : List Term) :
    Steps ⟨frame args :: fs, none⟩
      (separated ((e :: es).map Expr.tokens) ++ .rightParen :: rest)
      ⟨fs, some (result (args ++ (e :: es).map Expr.term))⟩ rest := by
  induction es generalizing e args with
  | nil =>
    have hends : EndsOperand (.rightParen :: rest) := endsOperand_cons.mpr (by decide)
    obtain ⟨fs', u, hsteps, hleads⟩ := hes e List.mem_cons_self (frame args :: fs) _
      (Shape.waits_of_holds fun closes => h.holds closes args fs) hends
    have hclose := h.close (hleads.collapseAll (h.holds _ args fs))
    simp only [separated, List.map_cons, List.map_nil, List.intercalate_singleton]
    refine hsteps.trans (.single ?_ le_rfl)
    simp [Reader.step, stepOperator, hclose, bind, Except.bind]
  | cons e' es ih =>
    have htail := ih e' (fun c hc => hes c (List.mem_cons_of_mem e hc)) (args ++ [e.term])
    simp only [separated, List.map_cons, List.intercalate_cons_cons, List.append_assoc,
      List.cons_append, List.nil_append] at htail ⊢
    have hends (ts : List Token) : EndsOperand (.comma :: ts) := endsOperand_cons.mpr (by decide)
    obtain ⟨fs', u, hsteps, hleads⟩ := hes e List.mem_cons_self (frame args :: fs) _
      (Shape.waits_of_holds fun closes => h.holds closes args fs) (hends _)
    have hadd := h.addArgument (hleads.collapseAll (h.holds _ args fs))
    refine hsteps.trans (.step ?_ le_rfl htail)
    simp [Reader.step, stepOperator, hadd, bind, Except.bind]

theorem steps (h : TakesArguments frame result) (fs : List Frame) (rest : List Token)
    {es : List Expr} (hes : ∀ c ∈ es, Reads c.shape c.tokens c.term) :
    Steps ⟨frame [] :: fs, none⟩ (separated (es.map Expr.tokens) ++ .rightParen :: rest)
      ⟨fs, some (result (es.map Expr.term))⟩ rest := by
  cases es with
  | nil =>
    refine .single ?_ le_rfl
    simp [Reader.step, stepOperand, h.closeEmpty, bind, Except.bind]
  | cons e es => exact h.steps_separated es e hes []

end Term.Reader.TakesArguments

theorem Grouping.steps_tokens (fs : List Frame) (rest : List Token) {g : Grouping}
    (hg : ∀ l ∈ g.labels, isLabel l) (op : Aggregator) :
    Steps ⟨fs, none⟩ (.word op.name :: g.tokens ++ .leftParen :: rest)
      ⟨.aggregate (.known op) g.stated? [] :: fs, none⟩ rest := by
  have hname : Keyword.ofWord? op.name = some (.aggregator op) :=
    ofWord?_of_mem_table (op.name, .aggregator op) (by cases op <;> decide)
  have hkind : (word (if g.without then "without" else "by")).groupingKind? = some g.without := by
    cases g.without with
    | false => simp [groupingKind?, keyword?_word "by" .by (by decide)]
    | true => simp [groupingKind?, keyword?_word "without" .without (by decide)]
  refine .single ?_ (by simp; omega)
  change stepOperand fs (.word op.name) (g.tokens ++ .leftParen :: rest) = _
  simp only [stepOperand, hname]
  rw [tokens, stated?]
  split
  · have hlabels := labels_labelList hg (.leftParen :: rest)
    rw [Option.elim_some, List.cons_append, aggregation, hkind]
    · simp only [hlabels, bind, Except.bind]
    · simp
  · rfl

theorem BinaryOp.binaryOp?_token (op : BinaryOp) : op.token.binaryOp? = some op := by
  have hand := ofWord?_of_mem_table ("and", .and) (by decide)
  have hor := ofWord?_of_mem_table ("or", .or) (by decide)
  have hunless := ofWord?_of_mem_table ("unless", .unless) (by decide)
  have hatan2 := ofWord?_of_mem_table ("atan2", .atan2) (by decide)
  cases op <;> simp [BinaryOp.token, binaryOp?, hand, hor, hunless, hatan2]

theorem BinaryOp.endsOperand_token (op : BinaryOp) (ts : List Token) :
    EndsOperand (op.token :: ts) := by
  have hand := ofWord?_of_mem_table ("and", .and) (by decide)
  have hor := ofWord?_of_mem_table ("or", .or) (by decide)
  have hunless := ofWord?_of_mem_table ("unless", .unless) (by decide)
  have hatan2 := ofWord?_of_mem_table ("atan2", .atan2) (by decide)
  rw [endsOperand_cons]
  cases op <;> simp [BinaryOp.token, groupingKind?, keyword?, hand, hor, hunless, hatan2]

theorem BinaryOp.stepOperator_token (op : BinaryOp) (fs : List Frame) (operand : Term)
    {clauses : OperatorClauses}
    {ts : List Token} (h : operatorClauses ts = .ok (clauses, rest)) :
    stepOperator fs operand op.token ts = .ok
      (⟨.operator (collapse (closesBefore op) fs operand).2 op clauses ::
        (collapse (closesBefore op) fs operand).1, none⟩, rest) := by
  have htoken : stepOperator fs operand op.token ts = (operatorClauses ts >>= fun p =>
      .ok (⟨.operator (collapse (closesBefore op) fs operand).2 op p.1 ::
        (collapse (closesBefore op) fs operand).1, none⟩, p.2)) := by
    rw [stepOperator, op.binaryOp?_token]
    all_goals cases op <;> simp [BinaryOp.token]
  rw [htoken, h]
  rfl

theorem Window.brackets_tokens (w : Window) (rest : List Token) :
    brackets (w.bracketTokens ++ rest) =
      .ok (.steps (.ofMilliseconds w.range.toNat) w.statedStep?, rest) := by
  rw [bracketTokens, statedStep?]
  split <;> rfl

theorem endsOperand_timeShift (s : TimeShift) (h : EndsOperand rest) :
    EndsOperand (s.tokens ++ rest) := by
  rw [TimeShift.tokens, TimeShift.timeTokens, TimeShift.offsetTokens, List.append_assoc]
  split
  · exact endsOperand_cons.mpr (by decide)
  · exact endsOperand_cons.mpr (by decide)
  · have hoffset (ts : List Token) : EndsOperand (.word "offset" :: ts) :=
      endsOperand_cons.mpr (by
        simp [groupingKind?, keyword?_word "offset" .offset (by decide)])
    split
    · exact hoffset _
    · exact hoffset _
    · exact h

namespace Reads

variable {lhs rhs body : Term} {ls rs ts : List Token} {s s' : Shape}

theorem of_steps {t : Term} (h : ∀ fs rest, EndsOperand rest →
    Steps ⟨fs, none⟩ (ts ++ rest) ⟨fs, some t⟩ rest) : Reads s ts t :=
  fun fs rest _ hends => ⟨fs, t, h fs rest hends, .refl _ _ _⟩

theorem aggregation {op : Aggregator} {grouping : Grouping} {es : List Expr}
    (hg : ∀ l ∈ grouping.labels, isLabel l) (hes : ∀ c ∈ es, Reads c.shape c.tokens c.term) :
    Reads (.aggregation op grouping) (Shape.tokens (.aggregation op grouping) (es.map Expr.tokens))
      (Shape.term (.aggregation op grouping) (es.map Expr.term)) := by
  refine .of_steps fun fs rest _ => ?_
  have hhead := Grouping.steps_tokens fs (separated (es.map Expr.tokens) ++ .rightParen :: rest)
    hg op
  have hargs := (takesArguments_aggregate (.known op) grouping.stated?).steps fs rest hes
  simpa [Shape.tokens, Shape.term] using hhead.trans hargs

theorem call {func : Signature} {es : List Expr} (hname : Keyword.ofWord? func.name = none)
    (hes : ∀ c ∈ es, Reads c.shape c.tokens c.term) :
    Reads (.call func) (Shape.tokens (.call func) (es.map Expr.tokens))
      (Shape.term (.call func) (es.map Expr.term)) := by
  refine .of_steps fun fs rest _ => ?_
  have hargs := (takesArguments_call func.name).steps fs rest hes
  simp only [Shape.tokens, Shape.term, List.cons_append, List.append_assoc, List.nil_append]
  refine .step ?_ (by simp) hargs
  simp only [Reader.step, stepOperand, hname]

theorem binary {op : BinaryOp} {matching : Option VectorMatching} {returnBool : Bool}
    (hl : Reads s ls lhs) (hr : Reads s' rs rhs) (hlhs : s.needsParens op false = false)
    (hrhs : s'.needsParens op true = false) (hm : ∀ m ∈ matching, m.IsReadable)
    (hstarts : ∀ rest, StartsOperand (rs ++ rest)) :
    Reads (.binary op matching returnBool) (Shape.tokens (.binary op matching returnBool) [ls, rs])
      (Shape.term (.binary op matching returnBool) [lhs, rhs]) := by
  intro fs rest hwaits hends
  have hclauses := operatorClauses_clauseTokens hm (hstarts rest) returnBool
  have hop : EndsOperand (op.token :: (clauseTokens matching returnBool ++ (rs ++ rest))) :=
    op.endsOperand_token _
  obtain ⟨fs', u, hsteps, hleads⟩ := hl fs _ (Shape.waits_left hlhs hwaits) hop
  have hcollapse := (hleads _ (isUpward_closesBefore op) (Shape.closesBefore_floor hlhs)).trans
    (Holds.collapse hwaits _)
  have hstep := op.stepOperator_token fs' u hclauses
  rw [hcollapse] at hstep
  obtain ⟨fs'', v, hsteps', hleads'⟩ := hr
    (.operator lhs op (.ofMatching returnBool matching) :: fs) rest
    (Shape.waits_right hrhs _ _ _) hends
  refine ⟨fs'', v, ?_, fun closes hup hcloses => ?_⟩
  · have hall := hsteps.trans (.step hstep (by simp) hsteps')
    simpa [Shape.tokens] using hall
  · have hclosed : closes op.precedence := hup _ _ (Nat.min_le_left _ _) hcloses
    rw [hleads' closes hup (hup _ _ (Shape.floor_right hrhs) hcloses)]
    exact if_pos hclosed

theorem matrixSelector {selector : Selector} (range : UInt64) (h : selector.IsReadable) :
    Reads (.matrixSelector selector range) (Shape.tokens (.matrixSelector selector range) [])
      (Shape.term (.matrixSelector selector range) []) := by
  refine .of_steps fun fs rest _ => ?_
  have hbracket : EndsOperand (.leftBracket :: .span (.ofMilliseconds range.toNat) ::
      .rightBracket :: (selector.shift.tokens ++ rest)) := endsOperand_cons.mpr (by decide)
  have hselector := Selector.steps_tokens fs h hbracket
  have hrange : Reader.step ⟨fs, some (.selector selector.pattern .absent)⟩ .leftBracket
      (.span (.ofMilliseconds range.toNat) :: .rightBracket :: (selector.shift.tokens ++ rest)) =
        .ok (⟨fs, some (.matrix selector.pattern (.ofMilliseconds range.toNat) .absent)⟩,
          selector.shift.tokens ++ rest) := rfl
  have hshift := TimeShift.steps_tokens fs rest
    (takesModifiers_matrix selector.pattern (.ofMilliseconds range.toNat)) h.2.2
  simpa [Shape.tokens, Shape.term] using
    hselector.trans (.step hrange (by simp; omega) hshift)

theorem vectorSelector {selector : Selector} (h : selector.IsReadable) :
    Reads (.vectorSelector selector) (Shape.tokens (.vectorSelector selector) [])
      (Shape.term (.vectorSelector selector) []) := by
  refine .of_steps fun fs rest hends => ?_
  have hselector := Selector.steps_tokens fs h (endsOperand_timeShift selector.shift hends)
  have hshift := TimeShift.steps_tokens fs rest (takesModifiers_selector selector.pattern) h.2.2
  simpa [Shape.tokens, Shape.term] using hselector.trans hshift

theorem subquery {window : Window} (hbody : Reads s ts body)
    (hparens : s.needsParensInSubquery = false) (h : window.shift.IsReadable) :
    Reads (.subquery window) (Shape.tokens (.subquery window) [ts])
      (Shape.term (.subquery window) [body]) := by
  refine .of_steps fun fs rest _ => ?_
  obtain ⟨hfloor, hwaits⟩ := Shape.floor_subquery hparens
  have hwindow := window.brackets_tokens (window.shift.tokens ++ rest)
  have hbracket : EndsOperand (.leftBracket ::
      (window.bracketTokens ++ (window.shift.tokens ++ rest))) := endsOperand_cons.mpr (by decide)
  obtain ⟨fs', u, hsteps, hleads⟩ := hbody fs _ (hwaits fs) hbracket
  rw [hfloor] at hleads
  obtain ⟨rfl, rfl⟩ := hleads.eq
  have hshift := TimeShift.steps_tokens fs' rest
    (takesModifiers_subquery u (.ofMilliseconds window.range.toNat) window.statedStep?) h
  simp only [Shape.tokens, Shape.term, List.append_assoc, List.cons_append]
  refine hsteps.trans (.step ?_ (by simp) hshift)
  simp [Reader.step, stepOperator, hwindow, addBrackets, bind, Except.bind]

theorem number {text : String} (h : (Literal.value? text).isSome) :
    Reads (.number text) (Shape.tokens (.number text) []) (Shape.term (.number text) []) := by
  refine .of_steps fun fs rest _ => ?_
  obtain ⟨t, ht, hn⟩ := Literal.exists_of_value? h
  obtain ⟨x, hx⟩ := Option.isSome_iff_exists.mp hn
  have hvalue : Literal.value? text = some x := by rw [Literal.value?, ht, Option.bind_some, hx]
  simp only [Shape.tokens, Shape.term, ht, hvalue, Option.toList_some, Option.getD_some,
    List.cons_append, List.nil_append]
  refine .single ?_ le_rfl
  cases t with
  | number | span =>
    obtain rfl := Option.some.inj hx
    rfl
  | _ => contradiction

theorem paren (hbody : Reads s ts body) :
    Reads .paren (Shape.tokens .paren [ts]) (Shape.term .paren [body]) := by
  refine .of_steps fun fs rest _ => ?_
  have hparen : EndsOperand (.rightParen :: rest) := endsOperand_cons.mpr (by decide)
  obtain ⟨fs', u, hsteps, hleads⟩ := hbody (.paren :: fs) _ (Shape.waits_of_holds fun _ => trivial)
    hparen
  have hclose : close fs' u = .ok ⟨fs, some (.paren body)⟩ := by
    rw [close, hleads.collapseAll trivial]
  simp only [Shape.tokens, Shape.term, List.cons_append, List.append_assoc, List.nil_append]
  refine .step rfl le_rfl (hsteps.trans (.single ?_ le_rfl))
  simp [Reader.step, stepOperator, hclose, bind, Except.bind]

theorem unary (sign : Sign) (hbody : Reads s ts body) (hparens : s.needsParensAfterSign = false) :
    Reads (.unary sign) (Shape.tokens (.unary sign) [ts]) (Shape.term (.unary sign) [body]) := by
  intro fs rest _ hends
  obtain ⟨fs', u, hsteps, hleads⟩ := hbody (.sign (sign == .minus) :: fs) rest
    (Shape.waits_sign hparens _ fs) hends
  refine ⟨fs', u, .step ?_ le_rfl hsteps, fun closes hup hcloses => ?_⟩
  · cases sign <;> rfl
  · rw [hleads closes hup (hup _ _ (Shape.floor_sign hparens) hcloses)]
    exact if_pos hcloses

end Reads

namespace Expr

theorem keyword?_ofWord {name : String} (h : isMetricName name) :
    (ofWord name.toList).keyword?.all Keyword.isMetricName := by
  rcases ofWord_of_isMetricName h with hword | ⟨hword, hkeyword⟩
  · rw [hword]
    rfl
  · rw [hword]
    exact hkeyword

theorem exists_first_token {e : Expr} (h : e.IsReadable) :
    ∃ t ts, e.tokens = t :: ts ∧ t.keyword?.all Keyword.isMetricName := by
  have hselector (s : Selector) (hs : s.IsReadable) :
      ∃ t ts, s.tokens = t :: ts ∧ t.keyword?.all Keyword.isMetricName := by
    rw [Selector.tokens, Selector.nameTokens, Selector.matcherTokens]
    split_ifs with hname hnone
    · simp [hname] at hnone
    · exact ⟨_, _, rfl, rfl⟩
    all_goals exact ⟨_, _, rfl, keyword?_ofWord (hs.1.resolve_left hname)⟩
  induction e with
  | node e ih =>
    obtain ⟨hown, hchildren⟩ := e.isReadable_iff.mp h
    cases e with
    | aggregation op grouping param body =>
      have hname := ofWord?_of_mem_table (op.name, .aggregator op) (by cases op <;> decide)
      refine ⟨.word op.name, _, tokens_eq _, ?_⟩
      rw [keyword?, hname]
      rfl
    | binary op matching returnBool lhs rhs =>
      obtain ⟨t, ts, htokens, ht⟩ := ih lhs (by simp [children]) (hchildren lhs (by simp [children]))
      refine ⟨t, ts ++ op.token :: clauseTokens matching returnBool ++ rhs.tokens, ?_, ht⟩
      simp [tokens_eq (binary _ _ _ _ _), shape, children, Shape.tokens, htokens]
    | call func args =>
      refine ⟨.word func.name, _, tokens_eq _, ?_⟩
      have hname := (Bool.and_eq_true _ _ |>.mp hown).2
      rw [keyword?, Option.isNone_iff_eq_none.mp hname]
      rfl
    | matrixSelector selector range =>
      obtain ⟨t, ts, htokens, ht⟩ := hselector selector hown.1
      exact ⟨t, _, by rw [tokens_eq]; simp only [shape, Shape.tokens, htokens]; rfl, ht⟩
    | vectorSelector selector =>
      obtain ⟨t, ts, htokens, ht⟩ := hselector selector hown
      exact ⟨t, _, by rw [tokens_eq]; simp only [shape, Shape.tokens, htokens]; rfl, ht⟩
    | subquery window body =>
      obtain ⟨t, ts, htokens, ht⟩ := ih body (by simp [children])
        (hchildren body (by simp [children]))
      exact ⟨t, _, by rw [tokens_eq]; simp only [shape, children, List.map_cons, List.map_nil,
        Shape.tokens, htokens]; rfl, ht⟩
    | number text =>
      obtain ⟨t, ht, hn⟩ := Literal.exists_of_value? hown
      refine ⟨t, [], ?_, ?_⟩
      · rw [tokens_eq]
        simp only [shape, Shape.tokens, ht, Option.toList_some]
      · cases t with
        | number | span => rfl
        | _ => contradiction
    | paren body => exact ⟨_, _, tokens_eq _, rfl⟩
    | string value => exact ⟨_, _, tokens_eq _, rfl⟩
    | unary sign body => exact ⟨_, _, tokens_eq _, by cases sign <;> rfl⟩
    | placeholder => contradiction

theorem startsOperand_tokens {e : Expr} (h : e.IsReadable) (rest : List Token) :
    StartsOperand (e.tokens ++ rest) := by
  obtain ⟨t, ts, htokens, ht⟩ := exists_first_token h
  rw [htokens]
  rintro t' ⟨⟩
  exact ht

theorem reads_tokens {e : Expr} (hr : e.IsReadable) (hg : e.IsGrouped) :
    Reads e.shape e.tokens e.term := by
  induction e with
  | node e ih =>
    obtain ⟨hown, hchildren⟩ := e.isReadable_iff.mp hr
    replace ih (c : Expr) (hc : c ∈ e.children) := ih c hc (hchildren c hc) (hg.of_mem hc)
    rw [tokens_eq, term_eq]
    cases e with
    | aggregation op grouping param body => exact .aggregation hown ih
    | binary op matching returnBool lhs rhs =>
      obtain ⟨⟨hlhs, hrhs⟩, -⟩ := isGrouped_binary.mp hg
      have hstarts := startsOperand_tokens (hchildren rhs (by simp [children]))
      exact .binary (ih lhs (by simp [children])) (ih rhs (by simp [children])) hlhs hrhs hown
        hstarts
    | call func args =>
      have hname : Keyword.ofWord? func.name = none := by
        simpa using (Bool.and_eq_true _ _ |>.mp hown).2
      exact .call hname ih
    | matrixSelector selector range => exact .matrixSelector range hown.1
    | subquery window body =>
      have hparens := (isGrouped_subquery.mp hg).1
      exact .subquery (ih body (by simp [children])) hparens hown.2.2
    | number text => exact .number hown
    | paren body => exact .paren (ih body (by simp [children]))
    | string value => exact .of_steps fun fs rest _ => .single rfl le_rfl
    | unary sign body =>
      have hparens := (isGrouped_unary.mp hg).1
      exact .unary sign (ih body (by simp [children])) hparens
    | vectorSelector selector => exact .vectorSelector hown
    | placeholder => contradiction

theorem ofTokens_tokens {e : Expr} (hr : e.IsReadable) (hg : e.IsGrouped) :
    Term.ofTokens e.tokens = .ok e.term := by
  have hwaits : e.shape.Waits [] := Shape.waits_of_holds fun _ => trivial
  obtain ⟨fs, u, hsteps, hleads⟩ := reads_tokens hr hg [] [] hwaits .nil
  rw [List.append_nil] at hsteps
  have hfinish : Reader.finish ⟨fs, some u⟩ = .ok e.term := by
    simp only [Reader.finish, hleads.collapseAll trivial]
  rw [Term.ofTokens, start, hsteps.run le_rfl]
  exact hfinish

theorem read_text_of_isGrouped {e : Expr} (hr : e.IsReadable) (hg : e.IsGrouped) :
    Query.read e.text = .ok e.term := by
  have hlist := (spells_text hr hg) [] (.nil _)
  rw [List.append_nil] at hlist
  rw [Query.read, hlist.list?]
  exact ofTokens_tokens hr hg

theorem read_text {e : Expr} (h : e.IsReadable) :
    Query.read e.text = .ok e.parenthesized.term := by
  rw [← e.text_parenthesized]
  exact read_text_of_isGrouped (isReadable_parenthesized h) e.isGrouped_parenthesized

/-- The parentheses that the text adds keep operators and operands together: read by the grammar it
is the same term up to parentheses. That leaves out trees with parts that no query writes as the
text does: names that need quotes, a range of zero, durations with a count beyond 32 bits,
timestamps that are rounded, and numbers that are none. -/
theorem exists_read_text {e : Expr} (h : e.IsReadable) :
    ∃ t, Query.read e.text = .ok t ∧ t.withoutParens = e.term.withoutParens :=
  ⟨e.parenthesized.term, read_text h, e.withoutParens_term_parenthesized⟩

def mixedOperands : Expr :=
  let selector (name : String) : Expr := .vectorSelector ⟨name, [], .zero⟩
  .binary .pow none false
    (.binary .mul none false
      (.binary .pow none false (selector "a") (.unary .minus (selector "b")))
      (.binary .add none false (.number "1")
        (.subquery ⟨300000, 0, .zero⟩ (.unary .minus (selector "c")))))
    (.unary .minus (.binary .sub none false (selector "d") (selector "e")))

theorem exists_read_text_mixedOperands :
    mixedOperands.IsReadable ∧ mixedOperands.text = "(a ^ -b * (1 + (-c)[5m:])) ^ -(d - e)" ∧
      ∃ t, Query.read mixedOperands.text = .ok t ∧
        t.withoutParens = mixedOperands.term.withoutParens :=
  ⟨by decide +kernel, by decide +kernel, exists_read_text (by decide +kernel)⟩

/-- A label that needs quotes, a subquery over no time at all, and one over a time that is longer
than what is read of it. -/
theorem not_read_text :
    let up : Expr := .vectorSelector ⟨"up", [], .zero⟩
    let label : Expr := .binary .add (some ⟨true, ["a b"], .oneToOne, []⟩) false up up
    let empty : Expr := .subquery ⟨0, 0, .zero⟩ up
    let long : Expr := .subquery ⟨400000000000000500, 0, .zero⟩ up
    (Query.read "up + on(\"a b\") up" = .ok label.term ∧ label.text = "up + on(a b) up" ∧
      ¬∃ t, Query.read label.text = .ok t ∧ t.withoutParens = label.term.withoutParens) ∧
    (empty.text = "up[0s:]" ∧
      ¬∃ t, Query.read empty.text = .ok t ∧ t.withoutParens = empty.term.withoutParens) ∧
    (long.text = "up[4629629629d15h6m40s500ms:]" ∧
      ¬∃ t, Query.read long.text = .ok t ∧ t.withoutParens = long.term.withoutParens) := by
  intro up label empty long
  have hlabel : Query.read label.text = .error .malformed := by cbv
  have hempty : Query.read empty.text = .error .malformed := by cbv
  have hlong : Query.read long.text =
      .ok (.subquery up.term (.ofMilliseconds 54400500) none ⟨none, none⟩) := by cbv
  refine ⟨⟨by cbv, by decide +kernel, ?_⟩, ⟨by decide +kernel, ?_⟩, ⟨by decide +kernel, ?_⟩⟩
  · simp [hlabel]
  · simp [hempty]
  · simp only [hlong, Except.ok.injEq, exists_eq_left']
    intro h
    injection h with _ hrange
    exact absurd hrange (by decide)

end Expr

end PromTree
