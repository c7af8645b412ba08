import PromTree.Expr.Operators

/-!
Expressions of the query language as trees, with a placeholder for what is not filled in yet. An
expression is a `Shape` and its children, and `ofShape?` puts the two together again.
-/

namespace PromTree

structure LabelMatcher where
  matchType : MatchType
  name : String
  value : String
  deriving DecidableEq

structure VectorMatching where
  on : Bool
  labels : List String
  cardinality : Cardinality
  included : List String
  deriving DecidableEq

def VectorMatching.default (op : BinaryOp) : VectorMatching :=
  ⟨false, [], if op.isSetOperator then .manyToMany else .oneToOne, []⟩

/-- The signature of a function. `variadic` counts the optional last arguments, and is negative
where there may be any number of them. -/
structure Signature where
  name : String
  argTypes : List ValueType
  variadic : Int32
  returnType : ValueType
  deriving DecidableEq

structure Grouping where
  labels : List String
  without : Bool
  deriving DecidableEq

/-- When an expression is evaluated: an offset into the past, and a fixed time or end of the
queried range, all in milliseconds. -/
structure TimeShift where
  offset : Int64
  timestamp : Option Int64
  rangeEnd : Option RangeEnd
  deriving DecidableEq

def TimeShift.zero : TimeShift := ⟨0, none, none⟩

structure Selector where
  name : String
  matchers : List LabelMatcher
  shift : TimeShift
  deriving DecidableEq

/-- The time span of a subquery. A step of zero is one that is not given. -/
structure Window where
  range : UInt64
  step : UInt64
  shift : TimeShift
  deriving DecidableEq

/-- The text of a number is kept, and so is the difference between a parenthesized expression and
its body. -/
inductive Expr where
  | aggregation (op : Aggregator) (grouping : Grouping) (param : Option Expr) (body : Expr)
  | binary (op : BinaryOp) (matching : Option VectorMatching) (returnBool : Bool) (lhs rhs : Expr)
  | call (func : Signature) (args : List Expr)
  | matrixSelector (selector : Selector) (range : UInt64)
  | subquery (window : Window) (body : Expr)
  | number (text : String)
  | paren (body : Expr)
  | string (value : String)
  | unary (sign : Sign) (body : Expr)
  | vectorSelector (selector : Selector)
  | placeholder (children : List Expr)

inductive Shape where
  | aggregation (op : Aggregator) (grouping : Grouping)
  | binary (op : BinaryOp) (matching : Option VectorMatching) (returnBool : Bool)
  | call (func : Signature)
  | matrixSelector (selector : Selector) (range : UInt64)
  | subquery (window : Window)
  | number (text : String)
  | paren
  | string (value : String)
  | unary (sign : Sign)
  | vectorSelector (selector : Selector)
  | placeholder
  deriving DecidableEq

namespace Shape

def typeName : Shape → String
  | .aggregation .. => "aggregation"
  | .binary .. => "binaryExpr"
  | .call .. => "call"
  | .matrixSelector .. => "matrixSelector"
  | .subquery .. => "subquery"
  | .number .. => "numberLiteral"
  | .paren => "parenExpr"
  | .string .. => "stringLiteral"
  | .unary .. => "unaryExpr"
  | .vectorSelector .. => "vectorSelector"
  | .placeholder => "placeholder"

def arity? : Shape → Option Nat
  | .aggregation op _ => some (if op.hasParam then 2 else 1)
  | .binary .. => some 2
  | .subquery .. | .paren | .unary .. => some 1
  | .matrixSelector .. | .number .. | .string .. | .vectorSelector .. => some 0
  | .call .. | .placeholder => none

def isPlaceholder : Shape → Bool
  | .placeholder => true
  | _ => false

end Shape

namespace Expr

def empty : Expr := .placeholder []

def shape : Expr → Shape
  | .aggregation op grouping _ _ => .aggregation op grouping
  | .binary op matching returnBool _ _ => .binary op matching returnBool
  | .call func _ => .call func
  | .matrixSelector selector range => .matrixSelector selector range
  | .subquery window _ => .subquery window
  | .number text => .number text
  | .paren _ => .paren
  | .string value => .string value
  | .unary sign _ => .unary sign
  | .vectorSelector selector => .vectorSelector selector
  | .placeholder _ => .placeholder

def children : Expr → List Expr
  | .aggregation _ _ param body => param.toList ++ [body]
  | .binary _ _ _ lhs rhs => [lhs, rhs]
  | .call _ args => args
  | .subquery _ body | .paren body | .unary _ body => [body]
  | .placeholder children => children
  | .matrixSelector .. | .number _ | .string _ | .vectorSelector _ => []

def ofShape? : Shape → List Expr → Option Expr
  | .aggregation op grouping, [param, body] =>
    if op.hasParam then some (.aggregation op grouping (some param) body) else none
  | .aggregation op grouping, [body] =>
    if op.hasParam then none else some (.aggregation op grouping none body)
  | .binary op matching returnBool, [lhs, rhs] => some (.binary op matching returnBool lhs rhs)
  | .call func, args => some (.call func args)
  | .matrixSelector selector range, [] => some (.matrixSelector selector range)
  | .subquery window, [body] => some (.subquery window body)
  | .number text, [] => some (.number text)
  | .paren, [body] => some (.paren body)
  | .string value, [] => some (.string value)
  | .unary sign, [body] => some (.unary sign body)
  | .vectorSelector selector, [] => some (.vectorSelector selector)
  | .placeholder, children => some (.placeholder children)
  | _, _ => none

def mapChildren (f : Expr → Expr) : Expr → Expr
  | .aggregation op grouping param body => .aggregation op grouping (param.map f) (f body)
  | .binary op matching returnBool lhs rhs => .binary op matching returnBool (f lhs) (f rhs)
  | .call func args => .call func (args.map f)
  | .subquery window body => .subquery window (f body)
  | .paren body => .paren (f body)
  | .unary sign body => .unary sign (f body)
  | .placeholder children => .placeholder (children.map f)
  | e => e

mutual

def fold (f : Shape → List α → α) : Expr → α
  | .aggregation op grouping none body => f (.aggregation op grouping) [body.fold f]
  | .aggregation op grouping (some param) body =>
    f (.aggregation op grouping) [param.fold f, body.fold f]
  | .binary op matching returnBool lhs rhs =>
    f (.binary op matching returnBool) [lhs.fold f, rhs.fold f]
  | .call func args => f (.call func) (foldList f args)
  | .matrixSelector selector range => f (.matrixSelector selector range) []
  | .subquery window body => f (.subquery window) [body.fold f]
  | .number text => f (.number text) []
  | .paren body => f .paren [body.fold f]
  | .string value => f (.string value) []
  | .unary sign body => f (.unary sign) [body.fold f]
  | .vectorSelector selector => f (.vectorSelector selector) []
  | .placeholder children => f .placeholder (foldList f children)

def foldList (f : Shape → List α → α) : List Expr → List α
  | [] => []
  | e :: es => e.fold f :: foldList f es

end

theorem foldList_eq_map (f : Shape → List α → α) (es : List Expr) :
    foldList f es = es.map (fold f) := by
  induction es with
  | nil => simp [foldList]
  | cons e es ih => simp [foldList, ih]

theorem fold_eq (f : Shape → List α → α) (e : Expr) :
    e.fold f = f e.shape (e.children.map (fold f)) := by
  cases e with
  | aggregation op grouping param body => cases param <;> simp [fold, shape, children]
  | _ => simp [fold, shape, children, foldList_eq_map]

def typeName (e : Expr) : String := e.shape.typeName

def size (e : Expr) : Nat := e.fold fun _ sizes => sizes.foldr (· + ·) 1

def containsPlaceholder (e : Expr) : Bool :=
  e.fold fun s found => s.isPlaceholder || found.any id

def typeOf : Shape → List ValueType → ValueType
  | .aggregation .., _ | .vectorSelector _, _ => .vector
  | .binary .., types => if types.all (· = .scalar) then .scalar else .vector
  | .call func, _ => func.returnType
  | .matrixSelector .., _ | .subquery _, _ => .matrix
  | .number _, _ => .scalar
  | .string _, _ => .string
  | .paren, types | .unary _, types => types.headD .none
  | .placeholder, _ => .none

def valueType (e : Expr) : ValueType := e.fold typeOf

def selectorName : Expr → Option String
  | .vectorSelector s | .matrixSelector s _ => some s.name
  | _ => none

inductive Defect where
  | missingParam (op : Aggregator)
  | unexpectedParam (op : Aggregator)
  deriving DecidableEq

def Defect.message : Defect → String
  | .missingParam op => op.name ++ " aggregation requires a parameter"
  | .unexpectedParam op => op.name ++ " aggregation takes no parameter"

def ownDefect : Shape → Nat → Option Defect
  | .aggregation op _, count =>
    if op.hasParam && count == 1 then some (.missingParam op)
    else if !op.hasParam && count == 2 then some (.unexpectedParam op)
    else none
  | _, _ => none

def defect? (e : Expr) : Option Defect :=
  e.fold fun s found => (ownDefect s found.length).or (found.findSome? id)

def IsValid (e : Expr) : Prop := e.defect? = none

instance (e : Expr) : Decidable e.IsValid := inferInstanceAs (Decidable (_ = _))

def stripParens : Expr → Expr
  | .paren body => body.stripParens
  | e => e

end Expr

def counterSuffixes : List String := ["_total", "_count", "_sum", "_bucket"]

def hasCounterSuffix (name : String) : Bool :=
  counterSuffixes.any fun s => s.toList.isSuffixOf name.toList

end PromTree
