import PromTree.Proofs.Query.Taken
import PromTree.Query

/-!
What a step of the reader can do, with the tokens that it takes. What every such move keeps holds of
all that is read.
-/

namespace PromTree

namespace Term

inductive Modifies (m m' : Modifiers) : Term → Term → Prop where
  | selector (p : Pattern) : Modifies m m' (.selector p m) (.selector p m')
  | matrix (p : Pattern) (range : Span) : Modifies m m' (.matrix p range m) (.matrix p range m')
  | subquery (body : Term) (range : Span) (step : Option Span) :
    Modifies m m' (.subquery body range step m) (.subquery body range step m')

inductive Bracketed : Token.Brackets → Term → Term → Prop where
  | matrix (p : Pattern) (range : Span) :
    Bracketed (.range range) (.selector p .absent) (.matrix p range .absent)
  | subquery (body : Term) (range : Span) (step : Option Span) :
    Bracketed (.steps range step) body (.subquery body range step .absent)

variable {t t' : Term}

theorem exists_modifies_of_addTime {time : EvalTime} (h : t.addTime time = .ok t') :
    ∃ offset, Modifies ⟨offset, none⟩ ⟨offset, some time⟩ t t' := by
  revert h
  fun_cases addTime time t with
  | case1 p offset =>
    intro h
    cases h
    exact ⟨_, .selector p⟩
  | case2 p range offset =>
    intro h
    cases h
    exact ⟨_, .matrix p range⟩
  | case3 body range step offset =>
    intro h
    cases h
    exact ⟨_, .subquery body range step⟩
  | case4 =>
    intro h
    contradiction

theorem exists_modifies_of_addOffset {o : SignedSpan} (h : t.addOffset o = .ok t') :
    ∃ time, Modifies ⟨none, time⟩ ⟨some o, time⟩ t t' := by
  revert h
  fun_cases addOffset o t with
  | case1 p time =>
    intro h
    cases h
    exact ⟨_, .selector p⟩
  | case2 p range time =>
    intro h
    cases h
    exact ⟨_, .matrix p range⟩
  | case3 body range step time =>
    intro h
    cases h
    exact ⟨_, .subquery body range step⟩
  | case4 =>
    intro h
    contradiction

theorem bracketed_of_addBrackets {b : Token.Brackets} (h : t.addBrackets b = .ok t') :
    Bracketed b t t' := by
  revert h
  fun_cases addBrackets b t with
  | case1 range p =>
    intro h
    cases h
    exact .matrix p range
  | case2 =>
    intro h
    contradiction
  | case3 range step =>
    intro h
    cases h
    exact .subquery t range step

namespace Frame

def IsFresh : Frame → Prop
  | .sign _ | .paren | .call _ [] | .aggregate _ _ [] => True
  | .operator .. | .call .. | .aggregate .. => False

inductive Collects : Frame → Term → Frame → Prop where
  | call (name : String) (args : List Term) (t : Term) :
    Collects (.call name args) t (.call name (args ++ [t]))
  | aggregate (op : AggregatorWord) (grouping : Option Grouping) (args : List Term) (t : Term) :
    Collects (.aggregate op grouping args) t (.aggregate op grouping (args ++ [t]))

inductive Closes : Frame → Option Term → Term → Prop where
  | paren (t : Term) : Closes .paren (some t) (.paren t)
  | call (name : String) (args : List Term) (t : Term) :
    Closes (.call name args) (some t) (.call name (args ++ [t]))
  | aggregate (op : AggregatorWord) (grouping : Option Grouping) (args : List Term) (t : Term) :
    Closes (.aggregate op grouping args) (some t) (.aggregate op grouping (args ++ [t]))
  | emptyCall (name : String) : Closes (.call name []) none (.call name [])
  | emptyAggregate (op : AggregatorWord) (grouping : Option Grouping) :
    Closes (.aggregate op grouping []) none (.aggregate op grouping [])

end Frame

namespace Reader

variable {fs fs' : List Frame} {r r' : Reader}

theorem exists_closes_of_close (h : close fs t = .ok r) :
    ∃ f gs u v, collapseAll fs t = (f :: gs, u) ∧ f.Closes (some u) v ∧ r = ⟨gs, some v⟩ := by
  revert h
  fun_cases close fs t with
  | case1 gs u hc =>
    intro h
    exact ⟨_, _, _, _, hc, .paren u, (Except.ok.inj h).symm⟩
  | case2 name args gs u hc =>
    intro h
    exact ⟨_, _, _, _, hc, .call name args u, (Except.ok.inj h).symm⟩
  | case3 op grouping args gs u hc =>
    intro h
    exact ⟨_, _, _, _, hc, .aggregate op grouping args u, (Except.ok.inj h).symm⟩
  | case4 =>
    intro h
    contradiction

theorem exists_closes_of_closeEmpty (h : closeEmpty fs = .ok r) :
    ∃ f gs v, fs = f :: gs ∧ f.Closes none v ∧ r = ⟨gs, some v⟩ := by
  revert h
  fun_cases closeEmpty fs with
  | case1 name gs =>
    intro h
    exact ⟨_, _, _, rfl, .emptyCall name, (Except.ok.inj h).symm⟩
  | case2 op grouping gs =>
    intro h
    exact ⟨_, _, _, rfl, .emptyAggregate op grouping, (Except.ok.inj h).symm⟩
  | case3 =>
    intro h
    contradiction

theorem exists_collects_of_addArgument (h : addArgument fs t = .ok fs') :
    ∃ f f' gs u, collapseAll fs t = (f :: gs, u) ∧ f.Collects u f' ∧ fs' = f' :: gs := by
  revert h
  fun_cases addArgument fs t with
  | case1 name args gs u hc =>
    intro h
    exact ⟨_, _, _, _, hc, .call name args u, (Except.ok.inj h).symm⟩
  | case2 op grouping args gs u hc =>
    intro h
    exact ⟨_, _, _, _, hc, .aggregate op grouping args u, (Except.ok.inj h).symm⟩
  | case3 =>
    intro h
    contradiction

theorem exists_of_finish (h : r.finish = .ok t) :
    ∃ fs u, r = ⟨fs, some u⟩ ∧ collapseAll fs u = ([], t) := by
  obtain ⟨fs, _ | u⟩ := r
  · contradiction
  · rw [finish] at h
    dsimp only at h
    split at h
    · rename_i v hc
      obtain rfl : v = t := Except.ok.inj h
      exact ⟨fs, u, rfl, hc⟩
    · contradiction

/-- All that a step can do, from the tokens on the left to those that are left. -/
inductive Moves : Reader → List Token → Reader → List Token → Prop where
  | number {fs : List Frame} {first : Token} {x : Binary64} {ts : List Token}
    (hx : first.numeric? = some x) :
    Moves ⟨fs, none⟩ (first :: ts) ⟨fs, some (.number x)⟩ ts
  | string {fs : List Frame} {s : String} {ts : List Token} :
    Moves ⟨fs, none⟩ (.string s :: ts) ⟨fs, some (.string s)⟩ ts
  | selector {fs : List Frame} {p : Pattern} {written rest : List Token}
    (hp : p.IsWrittenAs written) :
    Moves ⟨fs, none⟩ (written ++ rest) ⟨fs, some (.selector p .absent)⟩ rest
  | opens {f : Frame} {fs : List Frame} {ts rest : List Token} (hf : f.IsFresh)
    (hts : Token.Passes ts rest) : Moves ⟨fs, none⟩ ts ⟨f :: fs, none⟩ rest
  | closesEmpty {f : Frame} {fs : List Frame} {t : Term} {ts : List Token} (hf : f.Closes none t) :
    Moves ⟨f :: fs, none⟩ (.rightParen :: ts) ⟨fs, some t⟩ ts
  | closes {f : Frame} {fs gs : List Frame} {t u v : Term} {ts : List Token}
    (hc : collapseAll fs t = (f :: gs, u)) (hf : f.Closes (some u) v) :
    Moves ⟨fs, some t⟩ (.rightParen :: ts) ⟨gs, some v⟩ ts
  | argument {f f' : Frame} {fs gs : List Frame} {t u : Term} {ts : List Token}
    (hc : collapseAll fs t = (f :: gs, u)) (hf : f.Collects u f') :
    Moves ⟨fs, some t⟩ (.comma :: ts) ⟨f' :: gs, none⟩ ts
  | operator {fs gs : List Frame} {t lhs : Term} {first : Token} {op : BinaryOp}
    {clauses : OperatorClauses} {ts rest : List Token} (hop : first.binaryOp? = some op)
    (hclauses : Token.operatorClauses ts = .ok (clauses, rest))
    (hc : collapse (closesBefore op) fs t = (gs, lhs)) :
    Moves ⟨fs, some t⟩ (first :: ts) ⟨.operator lhs op clauses :: gs, none⟩ rest
  | brackets {fs : List Frame} {t t' : Term} {b : Token.Brackets} {written rest : List Token}
    (hb : b.IsWrittenAs written) (ht : Bracketed b t t') :
    Moves ⟨fs, some t⟩ (.leftBracket :: (written ++ rest)) ⟨fs, some t'⟩ rest
  | time {fs : List Frame} {t t' : Term} {offset : Option SignedSpan} {time : EvalTime}
    {ts rest : List Token} (hts : Token.Passes ts rest)
    (ht : Modifies ⟨offset, none⟩ ⟨offset, some time⟩ t t') :
    Moves ⟨fs, some t⟩ ts ⟨fs, some t'⟩ rest
  | offset {fs : List Frame} {t t' : Term} {o : SignedSpan} {time : Option EvalTime} {k : Token}
    {written rest : List Token} (hk : k.keyword? = some .offset) (ho : o.IsWrittenAs written)
    (ht : Modifies ⟨none, time⟩ ⟨some o, time⟩ t t') :
    Moves ⟨fs, some t⟩ (k :: (written ++ rest)) ⟨fs, some t'⟩ rest
  | grouping {fs : List Frame} {op : AggregatorWord} {grouping : Option Grouping}
    {args : List Term} {ts rest : List Token} (hts : Token.Passes ts rest) :
    Moves ⟨fs, some (.aggregate op none args)⟩ ts ⟨fs, some (.aggregate op grouping args)⟩ rest

variable {first : Token} {ts rest : List Token}

theorem moves_namedSelector {name : String} (hfirst : first.name? = some name)
    (h : namedSelector fs name ts = .ok (r, rest)) : Moves ⟨fs, none⟩ (first :: ts) r rest := by
  obtain ⟨⟨⟨ms, alternatives⟩, ts'⟩, hms, h⟩ := bind_eq_ok_iff.mp h
  cases h
  obtain ⟨written, hts, hw⟩ := Token.exists_of_named hfirst hms
  rw [hts]
  exact .selector hw

theorem moves_aggregation {op : AggregatorWord} {text : String} {k : Keyword}
    {name : Option String} (hk : Keyword.ofWord? text = some k) (hoffset : k ≠ .offset)
    (hname : ∀ n ∈ name, n = text) (h : aggregation fs op name ts = .ok (r, rest)) :
    Moves ⟨fs, none⟩ (.word text :: ts) r rest := by
  revert h
  fun_cases aggregation fs op name ts with
  | case1 ts =>
    intro h
    cases h
    exact .opens trivial (.function (.refl _))
  | case2 =>
    rename_i hwithout
    intro h
    obtain ⟨⟨ls, ts'⟩, hls, h⟩ := bind_eq_ok_iff.mp h
    dsimp only at h
    split at h
    · cases h
      refine .opens trivial (.skip (Token.isPassed_of_keyword? hk hoffset) ?_)
      exact Token.passes_of_labels (by simp [Token.takesLabels, hwithout]) hls
        (.skip rfl (.refl _))
    · contradiction
  | case3 | case5 =>
    obtain rfl := hname _ rfl
    exact moves_namedSelector rfl
  | case4 | case6 =>
    intro h
    contradiction

theorem moves_stepOperand (h : stepOperand fs first ts = .ok (r, rest)) :
    Moves ⟨fs, none⟩ (first :: ts) r rest := by
  revert h
  fun_cases stepOperand fs first ts with
  | case1 | case2 =>
    intro h
    cases h
    exact .number rfl
  | case3 =>
    intro h
    cases h
    exact .string
  | case4 => exact moves_namedSelector rfl
  | case5 =>
    intro h
    obtain ⟨⟨⟨ms, alternatives⟩, ts'⟩, hms, h⟩ := bind_eq_ok_iff.mp h
    cases h
    obtain ⟨written, hts, hw⟩ := Token.exists_of_leftBrace hms
    rw [hts]
    exact .selector (.nameless hw)
  | case6 | case8 | case9 =>
    intro h
    cases h
    exact .opens trivial (.skip rfl (.refl _))
  | case7 =>
    intro h
    obtain ⟨r', hr, h⟩ := bind_eq_ok_iff.mp h
    cases h
    obtain ⟨f, gs, v, rfl, hf, rfl⟩ := exists_closes_of_closeEmpty hr
    exact .closesEmpty hf
  | case10 | case11 | case12 =>
    rename_i hk
    exact moves_aggregation hk (by simp) (by simp)
  | case13 | case16 => exact moves_namedSelector rfl
  -- the name of a function, which is no selector
  | case15 =>
    intro h
    cases h
    exact .opens trivial (.function (.refl _))
  | case14 | case17 =>
    intro h
    contradiction

theorem moves_trailingGrouping {without : Bool} (hfirst : first.groupingKind? = some without)
    (h : trailingGrouping fs without ts t = .ok (r, rest)) :
    Moves ⟨fs, some t⟩ (first :: ts) r rest := by
  revert h
  fun_cases trailingGrouping fs without ts t with
  | case1 op args =>
    intro h
    obtain ⟨⟨ls, ts'⟩, hls, h⟩ := bind_eq_ok_iff.mp h
    cases h
    exact .grouping (Token.passes_of_labels (by simp [Token.takesLabels, hfirst]) hls (.refl _))
  | case2 =>
    intro h
    contradiction

theorem moves_stepOperator (h : stepOperator fs t first ts = .ok (r, rest)) :
    Moves ⟨fs, some t⟩ (first :: ts) r rest := by
  revert h
  fun_cases stepOperator fs t first ts with
  | case1 =>
    intro h
    obtain ⟨r', hr, h⟩ := bind_eq_ok_iff.mp h
    cases h
    obtain ⟨f, gs, u, v, hc, hf, rfl⟩ := exists_closes_of_close hr
    exact .closes hc hf
  | case2 =>
    intro h
    obtain ⟨fs', hadd, h⟩ := bind_eq_ok_iff.mp h
    cases h
    obtain ⟨f, f', gs, u, hc, hf, rfl⟩ := exists_collects_of_addArgument hadd
    exact .argument hc hf
  | case3 =>
    intro h
    obtain ⟨⟨b, ts'⟩, hb, h⟩ := bind_eq_ok_iff.mp h
    obtain ⟨t', ht, h⟩ := bind_eq_ok_iff.mp h
    cases h
    obtain ⟨written, rfl, hw⟩ := Token.exists_of_brackets hb
    exact .brackets hw (bracketed_of_addBrackets ht)
  | case4 =>
    intro h
    obtain ⟨⟨time, ts'⟩, htime, h⟩ := bind_eq_ok_iff.mp h
    obtain ⟨t', ht, h⟩ := bind_eq_ok_iff.mp h
    cases h
    obtain ⟨offset, ht⟩ := exists_modifies_of_addTime ht
    exact .time (.skip rfl (Token.passes_evalTime htime)) ht
  | case5 =>
    rename_i hop
    intro h
    obtain ⟨⟨clauses, ts'⟩, hclauses, h⟩ := bind_eq_ok_iff.mp h
    cases h
    exact .operator hop hclauses rfl
  | case6 =>
    rename_i hwithout _
    exact moves_trailingGrouping hwithout
  | case7 =>
    rename_i hk
    intro h
    obtain ⟨⟨o, ts'⟩, ho, h⟩ := bind_eq_ok_iff.mp h
    obtain ⟨t', ht, h⟩ := bind_eq_ok_iff.mp h
    cases h
    obtain ⟨written, rfl, hw⟩ := Token.exists_of_offset ho
    obtain ⟨time, ht⟩ := exists_modifies_of_addOffset ht
    exact .offset hk hw ht
  | case8 =>
    intro h
    contradiction

theorem moves_step (h : r.step first ts = .ok (r', rest)) : Moves r (first :: ts) r' rest := by
  obtain ⟨fs, operand⟩ := r
  cases operand with
  | none => exact moves_stepOperand h
  | some operand => exact moves_stepOperator h

theorem Moves.subset (h : Moves r ts r' rest) : rest ⊆ ts := by
  cases h with
  | number | string | closesEmpty | closes | argument => exact List.subset_cons_self _ _
  | selector => exact List.subset_append_right _ _
  | opens _ hts | time hts _ | grouping hts => exact hts.subset
  | operator _ hclauses _ =>
    exact List.subset_cons_of_subset _ (Token.passes_operatorClauses hclauses).subset
  | brackets | offset => exact List.subset_cons_of_subset _ (List.subset_append_right _ _)

theorem run_induct (I : Reader → List Token → Prop) (done : I r' [])
    (move : ∀ {r ts r₁ rest}, Moves r ts r₁ rest → I r₁ rest → I r ts) {fuel : Nat}
    (h : run fuel r ts = .ok r') : I r ts := by
  induction fuel generalizing r ts with
  | zero =>
    cases ts with
    | nil => exact Except.ok.inj h ▸ done
    | cons => contradiction
  | succ fuel ih =>
    cases ts with
    | nil => exact Except.ok.inj h ▸ done
    | cons first ts =>
      obtain ⟨⟨r₁, rest⟩, hstep, hrun⟩ := bind_eq_ok_iff.mp h
      exact move (moves_step hstep) (ih hrun)

end Reader

end Term

namespace Query

theorem exists_ofTokens_of_read {text : String} {t : Term} (h : read text = .ok t) :
    ∃ ts, Token.list? text = some ts ∧ Term.ofTokens ts = .ok t := by
  rw [read] at h
  split at h
  · contradiction
  · rename_i ts hts
    exact ⟨ts, hts, h⟩

theorem holds_of_read {P : Token → Prop} {I : Term.Reader → Prop} {J : Term → Prop}
    (start : I .start)
    (keeps : ∀ {r ts r' rest}, (∀ t ∈ ts, P t) → Term.Reader.Moves r ts r' rest → I r → I r')
    (finish : ∀ {r t}, I r → r.finish = .ok t → J t) {text : String} {t : Term}
    (tokens : ∀ {ts}, Token.list? text = some ts → ∀ t ∈ ts, P t) (h : read text = .ok t) :
    J t := by
  obtain ⟨ts, hts, h⟩ := exists_ofTokens_of_read h
  obtain ⟨r, hrun, hfinish⟩ := bind_eq_ok_iff.mp h
  refine finish ?_ hfinish
  refine Term.Reader.run_induct (fun r₀ ts => (∀ t ∈ ts, P t) → I r₀ → I r) (fun _ hr => hr) ?_
    hrun (tokens hts) start
  intro r₀ ts r₁ rest hmoves ih htokens hr
  exact ih (fun t ht => htokens t (hmoves.subset ht)) (keeps htokens hmoves hr)

end Query

end PromTree
