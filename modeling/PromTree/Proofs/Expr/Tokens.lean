import PromTree.Proofs.Expr.Term
import PromTree.Proofs.Query.Spelling

/-!
The tokens that an expression is written with. Only an expression whose names, durations and numbers
are tokens of their own can be read back at all.
-/

namespace PromTree

def BinaryOp.token : BinaryOp → Token
  | .and => .word "and"
  | .or => .word "or"
  | .unless => .word "unless"
  | .atan2 => .word "atan2"
  | op => .operator op

def Sign.token : Sign → Token
  | .plus => .operator .add
  | .minus => .operator .sub

namespace TimeShift

def timestampTokens (ms : Int64) : List Token :=
  match (timestampText ms).toList with
  | '-' :: cs => .operator .sub :: (Token.ofChars? cs).toList
  | cs => (Token.ofChars? cs).toList

def timeTokens (s : TimeShift) : List Token :=
  match s.timestamp, s.rangeEnd with
  | some ms, _ => .at :: timestampTokens ms
  | none, some e => [.at, .word e.name, .leftParen, .rightParen]
  | none, none => []

def offsetTokens (s : TimeShift) : List Token :=
  match s.signedOffset? with
  | some ⟨true, span⟩ => [.word "offset", .operator .sub, .span span]
  | some ⟨false, span⟩ => [.word "offset", .span span]
  | none => []

def tokens (s : TimeShift) : List Token := s.timeTokens ++ s.offsetTokens

end TimeShift

namespace Selector

def nameTokens (s : Selector) : List Token :=
  if s.name = "" then [] else [Token.ofWord s.name.toList]

def matcherTokens (s : Selector) : List Token :=
  if s.statedMatchers.isEmpty && s.name != "" then []
  else .leftBrace :: Token.separated (s.statedMatchers.map LabelMatcher.tokens) ++ [.rightBrace]

def tokens (s : Selector) : List Token := s.nameTokens ++ s.matcherTokens

end Selector

namespace VectorMatching

def labelTokens (m : VectorMatching) : List Token :=
  if m.statesLabels then
    .word (if m.on then "on" else "ignoring") :: Token.labelList m.labels
  else []

def groupTokens (m : VectorMatching) : List Token :=
  match m.cardinality with
  | .manyToOne => .word "group_left" :: Token.labelList m.included
  | .oneToMany => .word "group_right" :: Token.labelList m.included
  | .oneToOne | .manyToMany => []

def tokens (m : VectorMatching) : List Token := m.labelTokens ++ m.groupTokens

end VectorMatching

def clauseTokens (matching : Option VectorMatching) (returnBool : Bool) : List Token :=
  (if returnBool then [.word "bool"] else []) ++ matching.elim [] VectorMatching.tokens

def Window.bracketTokens (w : Window) : List Token :=
  .span (.ofMilliseconds w.range.toNat) :: .colon ::
    (w.statedStep?.elim [] fun step => [.span step]) ++ [.rightBracket]

def Grouping.tokens (g : Grouping) : List Token :=
  g.stated?.elim [] fun g => .word (if g.without then "without" else "by") :: Token.labelList g.labels

def Shape.tokens : Shape → List (List Token) → List Token
  | .aggregation op grouping, args =>
    .word op.name :: grouping.tokens ++ .leftParen :: Token.separated args ++ [.rightParen]
  | .binary op matching returnBool, [lhs, rhs] =>
    lhs ++ op.token :: clauseTokens matching returnBool ++ rhs
  | .call func, args => .word func.name :: .leftParen :: Token.separated args ++ [.rightParen]
  | .matrixSelector selector range, _ =>
    selector.tokens ++ [.leftBracket, .span (.ofMilliseconds range.toNat), .rightBracket] ++
      selector.shift.tokens
  | .subquery window, [body] =>
    body ++ .leftBracket :: window.bracketTokens ++ window.shift.tokens
  | .number text, _ => (Token.ofChars? text.toList).toList
  | .paren, [body] => .leftParen :: body ++ [.rightParen]
  | .unary sign, [body] => sign.token :: body
  | .string value, _ => [.string value]
  | .vectorSelector selector, _ => selector.tokens ++ selector.shift.tokens
  | _, _ => []

def Expr.tokens (e : Expr) : List Token := e.fold Shape.tokens

theorem Expr.tokens_eq (e : Expr) : e.tokens = e.shape.tokens (e.children.map tokens) := fold_eq _ e

namespace TimeShift

def ReadsBack (ms : Int64) : Prop :=
  Token.evalTime (timestampTokens ms) = .ok (.fixed ms, [])

instance (ms : Int64) : Decidable (ReadsBack ms) := inferInstanceAs (Decidable (_ = _))

def IsReadable (s : TimeShift) : Prop :=
  (s.offset = 0 ∨ Span.IsPrintable s.offset.toInt.natAbs) ∧ ∀ ms ∈ s.timestamp, ReadsBack ms

-- Without a name for it the instance would go through every timestamp that there is.
instance (s : TimeShift) : Decidable s.IsReadable :=
  have := Option.decidableForallMem (p := ReadsBack) s.timestamp
  inferInstanceAs (Decidable (_ ∧ _))

end TimeShift

namespace Selector

def IsReadable (s : Selector) : Prop :=
  (s.name = "" ∨ Token.isMetricName s.name) ∧ (∀ m ∈ s.statedMatchers, Token.isIdentifier m.name) ∧
    s.shift.IsReadable

instance (s : Selector) : Decidable s.IsReadable := inferInstanceAs (Decidable (_ ∧ _))

end Selector

namespace Window

def IsReadable (w : Window) : Prop :=
  Span.IsPrintable w.range.toNat ∧ (w.step = 0 ∨ Span.IsPrintable w.step.toNat) ∧
    w.shift.IsReadable

instance (w : Window) : Decidable w.IsReadable := inferInstanceAs (Decidable (_ ∧ _))

end Window

namespace VectorMatching

def IsReadable (m : VectorMatching) : Prop :=
  (∀ l ∈ m.labels, Token.isLabel l) ∧ (m.isGrouped → ∀ l ∈ m.included, Token.isLabel l)

instance (m : VectorMatching) : Decidable m.IsReadable := inferInstanceAs (Decidable (_ ∧ _))

end VectorMatching

namespace Shape

/-- The names, durations and numbers that a shape states can be read as such. -/
def IsReadable : Shape → Prop
  | .aggregation _ grouping => ∀ l ∈ grouping.labels, Token.isLabel l
  | .binary _ matching _ => ∀ m ∈ matching, m.IsReadable
  | .call func => Token.isFunctionName func.name
  | .matrixSelector selector range => selector.IsReadable ∧ Span.IsPrintable range.toNat
  | .subquery window => window.IsReadable
  | .number text => (Literal.value? text).isSome
  | .paren | .string _ | .unary _ => True
  | .vectorSelector selector => selector.IsReadable
  | .placeholder => False

instance : (s : Shape) → Decidable s.IsReadable
  | .aggregation _ grouping => inferInstanceAs (Decidable (∀ l ∈ grouping.labels, Token.isLabel l))
  | .binary _ matching _ => inferInstanceAs (Decidable (∀ m ∈ matching, m.IsReadable))
  | .call func => inferInstanceAs (Decidable (Token.isFunctionName func.name = true))
  | .matrixSelector selector range =>
    inferInstanceAs (Decidable (selector.IsReadable ∧ Span.IsPrintable range.toNat))
  | .subquery window => inferInstanceAs (Decidable window.IsReadable)
  | .number text => inferInstanceAs (Decidable ((Literal.value? text).isSome = true))
  | .paren | .string _ | .unary _ => inferInstanceAs (Decidable True)
  | .vectorSelector selector => inferInstanceAs (Decidable selector.IsReadable)
  | .placeholder => inferInstanceAs (Decidable False)

end Shape

namespace Expr

def IsReadable (e : Expr) : Prop :=
  e.fold (fun s readable => decide s.IsReadable && readable.all id) = true

instance (e : Expr) : Decidable e.IsReadable := inferInstanceAs (Decidable (_ = _))

theorem isReadable_iff (e : Expr) :
    e.IsReadable ↔ e.shape.IsReadable ∧ ∀ c ∈ e.children, c.IsReadable := by
  rw [IsReadable, fold_eq]
  simp [IsReadable]

theorem isReadable_inParensIf {e : Expr} (h : e.IsReadable) (wrapped : Bool) :
    (e.inParensIf wrapped).IsReadable := by
  cases wrapped
  · exact h
  · exact (isReadable_iff _).mpr ⟨trivial, by simpa [inParensIf, children] using h⟩

theorem isReadable_parenthesized {e : Expr} (h : e.IsReadable) : e.parenthesized.IsReadable := by
  induction e with
  | node e ih =>
    obtain ⟨hown, hchildren⟩ := e.isReadable_iff.mp h
    replace ih (c : Expr) (hc : c ∈ e.children) := ih c hc (hchildren c hc)
    rw [isReadable_iff, shape_parenthesized]
    refine ⟨hown, ?_⟩
    cases e with
    | aggregation op grouping param body => cases param <;> simpa [parenthesized, children] using ih
    | binary | subquery | unary | paren =>
      simp only [children, List.mem_cons, List.not_mem_nil, or_false, forall_eq_or_imp, forall_eq,
        parenthesized] at ih ⊢
      simp [ih, isReadable_inParensIf]
    | call | placeholder => simpa [parenthesized, parenthesizedAll_eq, children] using ih
    | _ => simp [parenthesized, children]

end Expr

end PromTree
