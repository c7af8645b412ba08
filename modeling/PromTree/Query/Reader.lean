import PromTree.Query.Lexer
import PromTree.Query.Term

/-!
Reading tokens into a term. The reader goes through the tokens once and keeps what is open in a list
of frames: parentheses, calls, signs and operators that wait for their right operand. An operator
first closes those before it that bind at least as tight.
-/

namespace PromTree

namespace Token

def fail : Parsed α := .error .malformed

def label? : Token → Option String
  | .word text => if (Keyword.ofWord? text).all Keyword.isLabelName then some text else none
  | .string value => some value
  | _ => none

def labelsRest : List Token → Parsed ((List String) × List Token)
  | .rightParen :: ts => .ok ([], ts)
  | t :: .rightParen :: ts =>
    match label? t with
    | some l => .ok ([l], ts)
    | none => fail
  | t :: .comma :: ts =>
    match label? t with
    | some l => do
      let (ls, ts) ← labelsRest ts
      .ok (l :: ls, ts)
    | none => fail
  | _ => fail

def labels : List Token → Parsed ((List String) × List Token)
  | .leftParen :: ts => labelsRest ts
  | _ => fail

def keyword? : Token → Option Keyword
  | .word text => Keyword.ofWord? text
  | _ => none

def span? : Token → Parsed Span
  | .span s => .ok s
  | .number x =>
    match Span.ofSeconds? x with
    | some s => .ok s
    | none => .error .unrepresentableSpan
  | _ => fail

def numeric? : Token → Option Binary64
  | .number x => some x
  | .span s => some s.seconds
  | _ => none

mutual

def matchersRest : List Token → Parsed ((List LabelMatcher × Bool) × List Token)
  | .string name :: .matchOperator type :: .string value :: ts => matcherEnd ⟨type, name, value⟩ ts
  | .word name :: .matchOperator type :: .string value :: ts => matcherEnd ⟨type, name, value⟩ ts
  | .string name :: ts => matcherEnd ⟨.equal, "__name__", name⟩ ts
  | _ => fail

def matcherEnd (m : LabelMatcher) :
    List Token → Parsed ((List LabelMatcher × Bool) × List Token)
  | .rightBrace :: ts => .ok (([m], false), ts)
  | .comma :: .rightBrace :: ts => .ok (([m], false), ts)
  | .comma :: ts => do
    let ((ms, alternatives), ts) ← matchersRest ts
    .ok ((m :: ms, alternatives), ts)
  | .alternative :: ts => do
    let ((ms, _), ts) ← matchersRest ts
    .ok ((m :: ms, true), ts)
  | _ => fail

end

def matchers : List Token → Parsed ((List LabelMatcher × Bool) × List Token)
  | .leftBrace :: .rightBrace :: ts => .ok (([], false), ts)
  | .leftBrace :: ts => matchersRest ts
  | ts => .ok (([], false), ts)

def groupSide? (t : Token) : Option Cardinality :=
  match t.keyword? with
  | some .groupLeft => some .manyToOne
  | some .groupRight => some .oneToMany
  | _ => none

def groupClause : List Token → Parsed ((Option GroupClause) × List Token)
  | t :: ts =>
    match groupSide? t, ts with
    | some side, .leftParen :: ts => do
      let (ls, ts) ← labelsRest ts
      .ok (some ⟨side, ls⟩, ts)
    | some side, ts => .ok (some ⟨side, []⟩, ts)
    | none, ts => .ok (none, t :: ts)
  | [] => .ok (none, [])

def matchingKind? (t : Token) : Option Bool :=
  match t.keyword? with
  | some .on => some true
  | some .ignoring => some false
  | _ => none

def takeBool : List Token → Bool × List Token
  | t :: ts => if t.keyword? = some .bool then (true, ts) else (false, t :: ts)
  | [] => (false, [])

def matchingClauses (returnBool : Bool) : List Token → Parsed (OperatorClauses × List Token)
  | t :: ts =>
    match matchingKind? t with
    | some on => do
      let (ls, ts) ← labels ts
      let (group, ts) ← groupClause ts
      .ok (⟨returnBool, some (on, ls), group⟩, ts)
    | none => .ok (⟨returnBool, none, none⟩, t :: ts)
  | [] => .ok (⟨returnBool, none, none⟩, [])

def operatorClauses (ts : List Token) : Parsed (OperatorClauses × List Token) :=
  matchingClauses (takeBool ts).1 (takeBool ts).2

/-- The milliseconds of a time in seconds, a half going away from zero. The count is cut to 64 bits
before its sign counts. -/
def timeOf (x : Binary64) : Parsed Int64 :=
  match x with
  | .finite negative m e =>
    if m + 1 = 2 * Binary64.leastNormal ∧ e = Binary64.maxExponent then fail
    else
      let count := match Binary64.ofRat false (Binary64.scaled m e * 1000) with
        | .finite _ m e => min (roundHalfUp (Binary64.scaled m e)) (UInt64.size - 1)
        | _ => UInt64.size - 1
      let milliseconds := Int64.ofNat count
      .ok (if negative then -milliseconds else milliseconds)
  | _ => fail

def evalTime : List Token → Parsed (EvalTime × List Token)
  | .operator .sub :: t :: ts =>
    match t.numeric? with
    | some x => do .ok (.fixed (← timeOf x.neg), ts)
    | none => fail
  | .operator .add :: t :: ts =>
    match t.numeric? with
    | some x => do .ok (.fixed (← timeOf x), ts)
    | none => fail
  | t :: ts =>
    match t.numeric?, t.keyword?, ts with
    | some x, _, ts => do .ok (.fixed (← timeOf x), ts)
    | none, some .start, .leftParen :: .rightParen :: ts => .ok (.rangeEnd .start, ts)
    | none, some .finish, .leftParen :: .rightParen :: ts => .ok (.rangeEnd .finish, ts)
    | _, _, _ => fail
  | [] => fail

def offset : List Token → Parsed (SignedSpan × List Token)
  | .operator .sub :: t :: ts => do .ok (⟨true, ← t.span?⟩, ts)
  | .operator .add :: t :: ts => do .ok (⟨false, ← t.span?⟩, ts)
  | t :: ts => do .ok (⟨false, ← t.span?⟩, ts)
  | [] => fail

inductive Brackets where
  | range (range : Span)
  | steps (range : Span) (step : Option Span)

def brackets : List Token → Parsed (Brackets × List Token)
  | t :: .rightBracket :: ts => do .ok (.range (← t.span?), ts)
  | t :: .colon :: ts => do
    let range ← t.span?
    match ts with
    | .rightBracket :: ts => .ok (.steps range none, ts)
    | t :: .rightBracket :: ts => do .ok (.steps range (some (← t.span?)), ts)
    | _ => fail
  | _ => fail

def binaryOp? : Token → Option BinaryOp
  | .operator op => some op
  | .word text =>
    match Keyword.ofWord? text with
    | some .and => some .and
    | some .or => some .or
    | some .unless => some .unless
    | some .atan2 => some .atan2
    | _ => none
  | _ => none

def groupingKind? (t : Token) : Option Bool :=
  match t.keyword? with
  | some .by => some false
  | some .without => some true
  | _ => none

end Token

namespace Term

def signed (negative : Bool) (t : Term) : Term := if negative then .minus t else t

def addOffset (o : SignedSpan) : Term → Parsed Term
  | .selector p ⟨none, time⟩ => .ok (.selector p ⟨some o, time⟩)
  | .matrix p r ⟨none, time⟩ => .ok (.matrix p r ⟨some o, time⟩)
  | .subquery b r s ⟨none, time⟩ => .ok (.subquery b r s ⟨some o, time⟩)
  | _ => .error .malformed

def addTime (t : EvalTime) : Term → Parsed Term
  | .selector p ⟨offset, none⟩ => .ok (.selector p ⟨offset, some t⟩)
  | .matrix p r ⟨offset, none⟩ => .ok (.matrix p r ⟨offset, some t⟩)
  | .subquery b r s ⟨offset, none⟩ => .ok (.subquery b r s ⟨offset, some t⟩)
  | _ => .error .malformed

def addBrackets : Token.Brackets → Term → Parsed Term
  | .range r, .selector p ⟨none, none⟩ => .ok (.matrix p r .absent)
  | .range _, _ => .error .malformed
  | .steps r s, t => .ok (.subquery t r s .absent)

inductive Frame where
  | sign (negative : Bool)
  | operator (lhs : Term) (op : BinaryOp) (clauses : OperatorClauses)
  | paren
  | call (name : String) (args : List Term)
  | aggregate (op : AggregatorWord) (grouping : Option Grouping) (args : List Term)

/-- The open frames, innermost first, and the operand read last; without one an operand has to
follow. -/
structure Reader where
  frames : List Frame
  operand : Option Term

namespace Reader

def start : Reader := ⟨[], none⟩

def collapse (closes : Nat → Bool) : List Frame → Term → List Frame × Term
  | .sign negative :: fs, t =>
    if closes Sign.precedence then collapse closes fs (signed negative t)
    else (.sign negative :: fs, t)
  | .operator lhs op clauses :: fs, t =>
    if closes op.precedence then collapse closes fs (.binary op clauses lhs t)
    else (.operator lhs op clauses :: fs, t)
  | fs, t => (fs, t)

def closesBefore (op : BinaryOp) (precedence : Nat) : Bool :=
  op.precedence < precedence || (op.precedence == precedence && !op.isRightAssociative)

def collapseAll : List Frame → Term → List Frame × Term := collapse fun _ => true

def addArgument (fs : List Frame) (t : Term) : Parsed (List Frame) :=
  match collapseAll fs t with
  | (.call name args :: fs, t) => .ok (.call name (args ++ [t]) :: fs)
  | (.aggregate op grouping args :: fs, t) => .ok (.aggregate op grouping (args ++ [t]) :: fs)
  | _ => .error .malformed

def close (fs : List Frame) (t : Term) : Parsed Reader :=
  match collapseAll fs t with
  | (.paren :: fs, t) => .ok ⟨fs, some (.paren t)⟩
  | (.call name args :: fs, t) => .ok ⟨fs, some (.call name (args ++ [t]))⟩
  | (.aggregate op grouping args :: fs, t) => .ok ⟨fs, some (.aggregate op grouping (args ++ [t]))⟩
  | _ => .error .malformed

def closeEmpty : List Frame → Parsed Reader
  | .call name [] :: fs => .ok ⟨fs, some (.call name [])⟩
  | .aggregate op grouping [] :: fs => .ok ⟨fs, some (.aggregate op grouping [])⟩
  | _ => .error .malformed

def namedSelector (fs : List Frame) (name : String) (ts : List Token) : Parsed (Reader × List Token) := do
  let ((matchers, alternatives), ts) ← Token.matchers ts
  .ok (⟨fs, some (.selector ⟨some name, matchers, alternatives⟩ .absent)⟩, ts)

def aggregation (fs : List Frame) (op : AggregatorWord) (name : Option String) :
    List Token → Parsed (Reader × List Token)
  | .leftParen :: ts => .ok (⟨.aggregate op none [] :: fs, none⟩, ts)
  | t :: ts =>
    match t.groupingKind? with
    | some without => do
      let (ls, ts) ← Token.labels ts
      match ts with
      | .leftParen :: ts => .ok (⟨.aggregate op (some ⟨ls, without⟩) [] :: fs, none⟩, ts)
      | _ => Token.fail
    | none => match name with
      | some name => namedSelector fs name (t :: ts)
      | none => Token.fail
  | [] => match name with
    | some name => namedSelector fs name []
    | none => Token.fail

def stepOperand (fs : List Frame) : Token → List Token → Parsed (Reader × List Token)
  | .number x, ts => .ok (⟨fs, some (.number x)⟩, ts)
  | .span s, ts => .ok (⟨fs, some (.number s.seconds)⟩, ts)
  | .string s, ts => .ok (⟨fs, some (.string s)⟩, ts)
  | .metric name, ts => namedSelector fs name ts
  | .leftBrace, ts => do
    let ((matchers, alternatives), ts) ← Token.matchers (.leftBrace :: ts)
    .ok (⟨fs, some (.selector ⟨none, matchers, alternatives⟩ .absent)⟩, ts)
  | .leftParen, ts => .ok (⟨.paren :: fs, none⟩, ts)
  | .rightParen, ts => do .ok (← closeEmpty fs, ts)
  | .operator .add, ts => .ok (⟨.sign false :: fs, none⟩, ts)
  | .operator .sub, ts => .ok (⟨.sign true :: fs, none⟩, ts)
  | .word text, ts =>
    match Keyword.ofWord? text with
    | some (.aggregator op) => aggregation fs (.known op) (some text) ts
    | some .limitk => aggregation fs .limitk none ts
    | some .limitRatio => aggregation fs .limitRatio none ts
    | some k => if k.isMetricName then namedSelector fs text ts else Token.fail
    | none => match ts with
      | .leftParen :: ts => .ok (⟨.call text [] :: fs, none⟩, ts)
      | ts => namedSelector fs text ts
  | _, _ => Token.fail

def trailingGrouping (fs : List Frame) (without : Bool) (ts : List Token) :
    Term → Parsed (Reader × List Token)
  | .aggregate op none args => do
    let (ls, ts) ← Token.labels ts
    .ok (⟨fs, some (.aggregate op (some ⟨ls, without⟩) args)⟩, ts)
  | _ => Token.fail

def stepOperator (fs : List Frame) (operand : Term) : Token → List Token → Parsed (Reader × List Token)
  | .rightParen, ts => do .ok (← close fs operand, ts)
  | .comma, ts => do .ok (⟨← addArgument fs operand, none⟩, ts)
  | .leftBracket, ts => do
    let (b, ts) ← Token.brackets ts
    .ok (⟨fs, some (← operand.addBrackets b)⟩, ts)
  | .at, ts => do
    let (time, ts) ← Token.evalTime ts
    .ok (⟨fs, some (← operand.addTime time)⟩, ts)
  | t, ts =>
    match t.binaryOp?, t.groupingKind? with
    | some op, _ => do
      let (clauses, ts) ← Token.operatorClauses ts
      let (fs, lhs) := collapse (closesBefore op) fs operand
      .ok (⟨.operator lhs op clauses :: fs, none⟩, ts)
    | none, some without => trailingGrouping fs without ts operand
    | none, none =>
      if t.keyword? = some .offset then do
        let (o, ts) ← Token.offset ts
        .ok (⟨fs, some (← operand.addOffset o)⟩, ts)
      else Token.fail

def step (r : Reader) (t : Token) (ts : List Token) : Parsed (Reader × List Token) :=
  match r.operand with
  | none => stepOperand r.frames t ts
  | some operand => stepOperator r.frames operand t ts

def run : Nat → Reader → List Token → Parsed Reader
  | _, r, [] => .ok r
  | 0, _, _ :: _ => .error .malformed
  | fuel + 1, r, t :: ts => do
    let (r, ts) ← r.step t ts
    run fuel r ts

def finish (r : Reader) : Parsed Term :=
  match r.operand with
  | none => .error .malformed
  | some t =>
    match collapseAll r.frames t with
    | ([], t) => .ok t
    | _ => .error .malformed

end Reader

def ofTokens (ts : List Token) : Parsed Term := do
  (← Reader.run ts.length .start ts).finish

end Term

end PromTree
