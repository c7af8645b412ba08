import PromTree.Proofs.Query.Clauses
import PromTree.Proofs.Query.Spelling

/-!
What the reader makes of tokens that others follow. Signs and operators stay open until something
closes them, so that an operand is known only up to what the next token closes.
-/

namespace PromTree

namespace Token

variable {ts rest : List Token}

theorem ofWord?_of_mem_table : ∀ k ∈ Keyword.table, Keyword.ofWord? k.1 = some k.2 := by
  decide +kernel

theorem keyword?_word (text : String) (k : Keyword) (h : (text, k) ∈ Keyword.table) :
    (word text).keyword? = some k := ofWord?_of_mem_table (text, k) h

theorem label?_word {l : String} (h : isLabel l) : (word l).label? = some l :=
  if_pos (Bool.and_eq_true _ _ |>.mp h).2

theorem labelsRest_separated {labels : List String} (h : ∀ l ∈ labels, isLabel l)
    (rest : List Token) : labelsRest (separated (labels.map fun l => [.word l]) ++
      .rightParen :: rest) = .ok (labels, rest) := by
  induction labels with
  | nil => rfl
  | cons l labels ih =>
    have hlabel := label?_word (h l List.mem_cons_self)
    have hrest := ih fun l' hl' => h l' (List.mem_cons_of_mem l hl')
    cases labels with
    | nil =>
      simp only [separated, List.map_cons, List.map_nil, List.intercalate_singleton,
        List.cons_append, List.nil_append]
      rw [labelsRest, hlabel]
      simp
    | cons l' labels =>
      simp only [separated, List.map_cons, List.intercalate_cons_cons, List.cons_append,
        List.nil_append] at hrest ⊢
      rw [labelsRest, hlabel]
      · simp only [hrest, bind, Except.bind]
      · simp

theorem labels_labelList {labels : List String} (h : ∀ l ∈ labels, isLabel l)
    (rest : List Token) : Token.labels (labelList labels ++ rest) = .ok (labels, rest) := by
  simp only [labelList, List.cons_append, List.append_assoc, List.nil_append, Token.labels]
  exact labelsRest_separated h rest

theorem matchersRest_separated (m : LabelMatcher) (ms : List LabelMatcher) (rest : List Token) :
    matchersRest (separated ((m :: ms).map LabelMatcher.tokens) ++ .rightBrace :: rest) =
      .ok ((m :: ms, false), rest) := by
  induction ms generalizing m with
  | nil => rfl
  | cons m' ms ih =>
    have hrest := ih m'
    simp only [separated, List.map_cons, List.intercalate_cons_cons, List.append_assoc] at hrest ⊢
    rw [LabelMatcher.tokens, List.cons_append, List.cons_append, List.cons_append, matchersRest,
      List.nil_append, List.cons_append, List.nil_append, matcherEnd]
    · rw [hrest]
      rfl
    · intro ts
      cases ms <;> simp [LabelMatcher.tokens]

theorem matchers_separated (ms : List LabelMatcher) (rest : List Token) :
    matchers (.leftBrace :: separated (ms.map LabelMatcher.tokens) ++ .rightBrace :: rest) =
      .ok ((ms, false), rest) := by
  cases ms with
  | nil => rfl
  | cons m ms =>
    have hrest := matchersRest_separated m ms rest
    rw [List.cons_append, matchers, hrest]
    intro ts
    cases ms <;> simp [separated, LabelMatcher.tokens]

theorem matchers_of_ne {ts : List Token} (h : ts.head? ≠ some .leftBrace) :
    matchers ts = .ok (([], false), ts) := by
  fun_cases matchers ts with
  | case1 | case2 => exact absurd rfl h
  | case3 => rfl

theorem evalTime_numeric {t : Token} {x : Binary64} (hx : t.numeric? = some x)
    (rest : List Token) :
    evalTime (t :: rest) = timeOf x >>= fun ms => .ok (.fixed ms, rest) := by
  cases t with
  | number | span =>
    obtain rfl := Option.some.inj hx
    rfl
  | _ => contradiction

def EndsName (ts : List Token) : Prop :=
  ∀ t ∈ ts.head?, t ≠ .leftParen ∧ t.groupingKind? = none

def EndsOperand (ts : List Token) : Prop := EndsName ts ∧ ts.head? ≠ some .leftBrace

def StartsOperand (ts : List Token) : Prop :=
  ∀ t ∈ ts.head?, t.keyword?.all Keyword.isMetricName

theorem EndsOperand.nil : EndsOperand [] := ⟨nofun, nofun⟩

theorem endsOperand_cons {t : Token} {ts : List Token} :
    EndsOperand (t :: ts) ↔ (t ≠ .leftParen ∧ t.groupingKind? = none) ∧ t ≠ .leftBrace := by
  simp [EndsOperand, EndsName]

namespace StartsOperand

theorem keyword?_ne (h : StartsOperand ts) {k : Keyword} (hk : k.isMetricName = false) {t : Token}
    (ht : t ∈ ts.head?) : t.keyword? ≠ some k := by
  intro he
  have hall := h t ht
  rw [he, Option.all_some, hk] at hall
  contradiction

theorem takeBool (h : StartsOperand ts) : Token.takeBool ts = (false, ts) := by
  cases ts with
  | nil => rfl
  | cons t ts => rw [Token.takeBool, if_neg (h.keyword?_ne rfl rfl)]

theorem groupClause (h : StartsOperand ts) : Token.groupClause ts = .ok (none, ts) := by
  cases ts with
  | nil => rfl
  | cons t ts =>
    have hleft := h.keyword?_ne (k := .groupLeft) rfl rfl
    have hright := h.keyword?_ne (k := .groupRight) rfl rfl
    have hside : groupSide? t = none := by
      rw [groupSide?]
      split <;> simp_all
    simp only [Token.groupClause, hside]

theorem matchingClauses (h : StartsOperand ts) (returnBool : Bool) :
    Token.matchingClauses returnBool ts = .ok (⟨returnBool, none, none⟩, ts) := by
  cases ts with
  | nil => rfl
  | cons t ts =>
    have hon := h.keyword?_ne (k := .on) rfl rfl
    have hignoring := h.keyword?_ne (k := .ignoring) rfl rfl
    have hkind : matchingKind? t = none := by
      rw [matchingKind?]
      split <;> simp_all
    rw [Token.matchingClauses, hkind]

end StartsOperand

end Token

namespace Term

namespace Reader

inductive Steps : Reader → List Token → Reader → List Token → Prop where
  | done (r : Reader) (ts : List Token) : Steps r ts r ts
  | step {r r' r'' : Reader} {t : Token} {ts ts' ts'' : List Token}
    (h : r.step t ts = .ok (r', ts')) (shorter : ts'.length ≤ ts.length)
    (steps : Steps r' ts' r'' ts'') : Steps r (t :: ts) r'' ts''

namespace Steps

variable {r r' r'' : Reader} {t : Token} {ts ts' ts'' : List Token}

theorem trans (h : Steps r ts r' ts') (h' : Steps r' ts' r'' ts'') : Steps r ts r'' ts'' := by
  induction h with
  | done => exact h'
  | step h shorter _ ih => exact .step h shorter (ih h')

theorem single (h : r.step t ts = .ok (r', ts')) (shorter : ts'.length ≤ ts.length) :
    Steps r (t :: ts) r' ts' := .step h shorter (.done r' ts')

theorem run (h : Steps r ts r' []) {fuel : Nat} (hf : ts.length ≤ fuel) :
    Reader.run fuel r ts = .ok r' := by
  generalize hrest : [] = rest at h
  induction h generalizing fuel with
  | done =>
    subst hrest
    cases fuel <;> rfl
  | step h shorter _ ih =>
    cases fuel with
    | zero => contradiction
    | succ fuel =>
      rw [List.length_cons, Nat.succ_le_succ_iff] at hf
      rw [Reader.run, h]
      exact ih (shorter.trans hf) hrest

end Steps

def IsUpward (closes : Nat → Bool) : Prop := ∀ p q, p ≤ q → closes p → closes q

theorem isUpward_true : IsUpward fun _ => true := fun _ _ _ _ => rfl

theorem isUpward_le (n : Nat) : IsUpward fun p => n ≤ p := by
  intro p q hpq hp
  exact decide_eq_true ((of_decide_eq_true hp).trans hpq)

theorem isRightAssociative_iff (op : BinaryOp) :
    op.isRightAssociative = true ↔ op.precedence = 6 := by
  cases op <;> decide

theorem closesBefore_iff {op : BinaryOp} {p : Nat} : closesBefore op p ↔
    op.precedence < p ∨ op.precedence = p ∧ op.precedence ≠ 6 := by
  simp [closesBefore, ← isRightAssociative_iff]

theorem isUpward_closesBefore (op : BinaryOp) : IsUpward (closesBefore op) := by
  intro p q hpq hp
  rw [closesBefore_iff] at hp ⊢
  omega

theorem precedence_le (op : BinaryOp) : op.precedence ≤ 6 := by
  cases op <;> decide

def Holds (closes : Nat → Bool) : List Frame → Prop
  | .sign _ :: _ => closes Sign.precedence = false
  | .operator _ op _ :: _ => closes op.precedence = false
  | _ => True

theorem Holds.collapse {closes : Nat → Bool} {fs : List Frame} (h : Holds closes fs) (t : Term) :
    collapse closes fs t = (fs, t) := by
  rcases fs with _ | ⟨f, fs⟩
  · rfl
  · cases f with
    | sign negative => exact if_neg (ne_true_of_eq_false h)
    | operator lhs op clauses => exact if_neg (ne_true_of_eq_false h)
    | paren | call | aggregate => rfl

theorem Holds.mono {closes closes' : Nat → Bool} {fs : List Frame} (h : Holds closes fs)
    (hc : ∀ p, closes' p → closes p) : Holds closes' fs := by
  have hfalse (p : Nat) (hp : closes p = false) : closes' p = false := by
    rw [← Bool.not_eq_true] at hp ⊢
    exact fun hp' => hp (hc p hp')
  rcases fs with _ | ⟨f, fs⟩
  · trivial
  · cases f with
    | sign | operator => exact hfalse _ h
    | paren | call | aggregate => trivial

theorem holds_le (fs : List Frame) : Holds (fun p => 7 ≤ p) fs := by
  rcases fs with _ | ⟨f, fs⟩
  · trivial
  · cases f with
    | sign negative => exact decide_eq_false (precedence_le .mul).not_gt
    | operator lhs op clauses => exact decide_eq_false (precedence_le op).not_gt
    | paren | call | aggregate => trivial

variable {fs : List Frame} {rest : List Token}

theorem aggregation_name (fs : List Frame) {ts : List Token} (h : Token.EndsName ts)
    (op : AggregatorWord)
    (name : String) : aggregation fs op (some name) ts = namedSelector fs name ts := by
  cases ts with
  | nil => rfl
  | cons t ts =>
    obtain ⟨hparen, hgrouping⟩ := h t rfl
    rw [aggregation, hgrouping]
    exact hparen

theorem stepOperand_name (fs : List Frame) {ts : List Token} (h : Token.EndsName ts) {text : String}
    (hk : (Keyword.ofWord? text).all Keyword.isMetricName) :
    stepOperand fs (.word text) ts = namedSelector fs text ts := by
  cases hword : Keyword.ofWord? text with
  | none =>
    have hparen : ∀ ts', ts ≠ .leftParen :: ts' := by
      rintro ts' rfl
      exact (h _ rfl).1 rfl
    simp only [stepOperand, hword]
  | some k =>
    rw [hword, Option.all_some] at hk
    cases k with
    | aggregator op =>
      simp only [stepOperand, hword]
      exact aggregation_name fs h _ text
    | limitk | limitRatio => contradiction
    | _ => simp only [stepOperand, hword, hk, ↓reduceIte]

structure TakesArguments (frame : List Term → Frame) (result : List Term → Term) : Prop where
  holds : ∀ closes args fs, Holds closes (frame args :: fs)
  addArgument : ∀ {fs fs' args t u}, collapseAll fs' u = (frame args :: fs, t) →
    addArgument fs' u = .ok (frame (args ++ [t]) :: fs)
  close : ∀ {fs fs' args t u}, collapseAll fs' u = (frame args :: fs, t) →
    close fs' u = .ok ⟨fs, some (result (args ++ [t]))⟩
  closeEmpty : ∀ fs, closeEmpty (frame [] :: fs) = .ok ⟨fs, some (result [])⟩

theorem takesArguments_call (name : String) : TakesArguments (.call name) (.call name) where
  holds _ _ _ := trivial
  addArgument h := by rw [addArgument, h]
  close h := by rw [close, h]
  closeEmpty _ := rfl

theorem takesArguments_aggregate (op : AggregatorWord) (grouping : Option Grouping) :
    TakesArguments (.aggregate op grouping) (.aggregate op grouping) where
  holds _ _ _ := trivial
  addArgument h := by rw [addArgument, h]
  close h := by rw [close, h]
  closeEmpty _ := rfl

def Leads (floor : Nat) (fs' : List Frame) (u : Term) (fs : List Frame) (t : Term) : Prop :=
  ∀ closes, IsUpward closes → closes floor → collapse closes fs' u = collapse closes fs t

theorem Leads.refl (floor : Nat) (fs : List Frame) (t : Term) : Leads floor fs t fs t :=
  fun _ _ _ => rfl

theorem Leads.eq {fs' : List Frame} {u t : Term} (h : Leads 7 fs' u fs t) :
    fs' = fs ∧ u = t := by
  have heq := h (fun p => 7 ≤ p) (isUpward_le 7) (by decide)
  rw [(holds_le fs').collapse, (holds_le fs).collapse] at heq
  exact Prod.mk.inj heq

theorem Leads.collapseAll {floor : Nat} {fs' : List Frame} {u t : Term}
    (h : Leads floor fs' u fs t) (hfs : Holds (fun _ => true) fs) :
    collapseAll fs' u = (fs, t) :=
  (h _ isUpward_true rfl).trans (hfs.collapse t)

end Reader

end Term

end PromTree
