import PromTree.Query.Typing
import PromTree.SampleValue

namespace PromTree

namespace Span

def range (s : Span) : UInt64 := UInt64.ofNat s.milliseconds

end Span

namespace SignedSpan

/-- Whole milliseconds with their sign, cut to 64 bits before the sign counts. -/
def offset (o : SignedSpan) : Int64 :=
  let milliseconds := Int64.ofNat o.span.milliseconds
  if o.negative then -milliseconds else milliseconds

end SignedSpan

namespace Modifiers

def shift (m : Modifiers) : TimeShift :=
  let offset := m.offset.elim 0 SignedSpan.offset
  match m.time with
  | some (.fixed ms) => ⟨offset, some ms, none⟩
  | some (.rangeEnd e) => ⟨offset, none, some e⟩
  | none => ⟨offset, none, none⟩

end Modifiers

namespace Pattern

def selector? (p : Pattern) (m : Modifiers) : Parsed Selector :=
  let name := p.name.getD ""
  if p.hasAlternatives then .error (.unsupported "\"or\" label matchers")
  else
    let repeats (m : LabelMatcher) : Bool :=
      m.name == "__name__" && m.matchType == .equal && m.value == name
    .ok ⟨name, p.matchers.filter (!repeats ·), m.shift⟩

end Pattern

namespace OperatorClauses

def vectorMatching (c : OperatorClauses) (op : BinaryOp) : VectorMatching :=
  let default := VectorMatching.default op
  let (on, labels) := c.matching.getD (default.on, default.labels)
  match c.group with
  | some g =>
    if op.isSetOperator then ⟨on, labels, default.cardinality, default.included⟩
    else ⟨on, labels, g.side, g.labels⟩
  | none => ⟨on, labels, default.cardinality, default.included⟩

end OperatorClauses

namespace AggregatorWord

def unsupportedName (op : AggregatorWord) : String :=
  "aggregation TokenType(" ++ Nat.repr op.tokenNumber ++ ")"

end AggregatorWord

namespace Signature

def ofCall (name : String) : Signature :=
  match find? name, callable? name with
  | some f, _ => f
  | none, some f => ⟨f.name, f.argTypes, 0, f.returnType⟩
  | none, none => ⟨name, [], 0, .none⟩

end Signature

namespace Term

mutual

def toExpr : Term → Parsed Expr
  | .number x => .ok (.number (SampleValue.text x))
  | .string s => .ok (.string s)
  | .selector p m => do .ok (.vectorSelector (← p.selector? m))
  | .matrix p r m => do .ok (.matrixSelector (← p.selector? m) r.range)
  | .subquery body r step m => do
    let body ← body.toExpr
    .ok (.subquery ⟨r.range, step.elim 0 Span.range, m.shift⟩ body)
  | .paren body => do .ok (.paren (← body.toExpr))
  | .minus body => do .ok (.unary .minus (← body.toExpr))
  | .binary op clauses lhs rhs => do
    let lhs ← lhs.toExpr
    let rhs ← rhs.toExpr
    let matching :=
      if lhs.valueType = .vector ∧ rhs.valueType = .vector then some (clauses.vectorMatching op)
      else none
    .ok (.binary op matching clauses.returnBool lhs rhs)
  | .call name args => do .ok (.call (.ofCall name) (← toExprs args))
  | .aggregate (.known op) grouping [body] => do
    .ok (.aggregation op (grouping.getD ⟨[], false⟩) none (← body.toExpr))
  | .aggregate (.known op) grouping [param, body] => do
    let param ← param.toExpr
    .ok (.aggregation op (grouping.getD ⟨[], false⟩) (some param) (← body.toExpr))
  | .aggregate op _ (param :: _) => do
    let _ ← param.toExpr
    .error (.unsupported op.unsupportedName)
  | .aggregate op _ [] => .error (.unsupported op.unsupportedName)

def toExprs : List Term → Parsed (List Expr)
  | [] => .ok []
  | t :: ts => do
    let e ← t.toExpr
    .ok (e :: (← toExprs ts))

end

end Term

end PromTree
