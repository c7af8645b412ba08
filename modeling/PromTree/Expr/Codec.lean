import PromTree.Expr.Basic
import PromTree.Json.Decoding

namespace PromTree

namespace LabelMatcher

def toJson (m : LabelMatcher) : Json :=
  .ofFields [("type", .string m.matchType.symbol), ("name", .string m.name),
    ("value", .string m.value)]

def ofJson? (j : Json) : Option LabelMatcher := do
  let fields ← j.record? ["type", "name", "value"]
  let matchType ← Json.keptOneOf? MatchType.all MatchType.symbol (Json.field fields "type")
  let name ← (Json.field fields "name").string?
  let value ← (Json.field fields "value").string?
  some ⟨matchType, name, value⟩

end LabelMatcher

namespace VectorMatching

def toJson (m : VectorMatching) : Json :=
  .ofFields [("on", .bool m.on), ("labels", .ofStrings m.labels),
    ("card", .string m.cardinality.name), ("include", .ofStrings m.included)]

def ofJson? (j : Json) : Option VectorMatching := do
  let fields ← j.record? ["on", "labels", "card", "include"]
  let on ← (Json.field fields "on").bool?
  let labels ← (Json.field fields "labels").list? Json.string?
  let cardinality ← Json.keptOneOf? Cardinality.all Cardinality.name (Json.field fields "card")
  let included ← (Json.field fields "include").list? Json.string?
  some ⟨on, labels, cardinality, included⟩

end VectorMatching

namespace ValueType

def toJson (t : ValueType) : Json := .string t.name

def ofJson? : Json → Option ValueType := Json.keptOneOf? all name

end ValueType

namespace Signature

def toJson (f : Signature) : Json :=
  .ofFields [("name", .string f.name), ("argTypes", .ofList ValueType.toJson f.argTypes),
    ("variadic", .ofInt f.variadic.toInt), ("returnType", f.returnType.toJson)]

def ofJson? (j : Json) : Option Signature := do
  let fields ← j.record? ["name", "argTypes", "variadic", "returnType"]
  let name ← (Json.field fields "name").string?
  let argTypes ← (Json.field fields "argTypes").list? ValueType.ofJson?
  let variadic ← (Json.field fields "variadic").int32?
  let returnType ← ValueType.ofJson? (Json.field fields "returnType")
  some ⟨name, argTypes, variadic, returnType⟩

end Signature

namespace TimeShift

def toFields (s : TimeShift) : List (String × Json) :=
  [("offset", .ofInt s.offset.toInt), ("timestamp", .ofOption (fun t => .ofInt t.toInt) s.timestamp),
    ("startOrEnd", .ofOption (fun e => .string e.name) s.rangeEnd)]

def ofFields? (fields : List (String × Json)) : Option TimeShift := do
  let offset ← (Json.field fields "offset").int64?
  let timestamp ← Json.nullable Json.int64? (Json.field fields "timestamp")
  let rangeEnd ←
    Json.nullable (Json.keptOneOf? RangeEnd.all RangeEnd.name) (Json.field fields "startOrEnd")
  some ⟨offset, timestamp, rangeEnd⟩

end TimeShift

namespace Selector

def toFields (s : Selector) : List (String × Json) :=
  ("name", .string s.name) :: ("matchers", .ofList LabelMatcher.toJson s.matchers) ::
    s.shift.toFields

def ofFields? (fields : List (String × Json)) : Option Selector := do
  let name ← (Json.field fields "name").string?
  let matchers ← (Json.field fields "matchers").list? LabelMatcher.ofJson?
  let shift ← TimeShift.ofFields? fields
  some ⟨name, matchers, shift⟩

end Selector

namespace Window

def toFields (w : Window) : List (String × Json) :=
  ("range", .ofNat w.range.toNat) :: ("step", .ofNat w.step.toNat) :: w.shift.toFields

def ofFields? (fields : List (String × Json)) : Option Window := do
  let range ← (Json.field fields "range").uint64?
  let step ← (Json.field fields "step").uint64?
  let shift ← TimeShift.ofFields? fields
  some ⟨range, step, shift⟩

end Window

namespace Shape

def toFields : Shape → List (String × Json)
  | .aggregation op grouping =>
    [("op", .string op.name), ("grouping", .ofStrings grouping.labels),
      ("without", .bool grouping.without)]
  | .binary op matching returnBool =>
    [("op", .string op.symbol), ("matching", .ofOption VectorMatching.toJson matching),
      ("bool", .bool returnBool)]
  | .call func => [("func", func.toJson)]
  | .matrixSelector selector range => ("range", .ofNat range.toNat) :: selector.toFields
  | .subquery window => window.toFields
  | .number text => [("val", .string text)]
  | .string value => [("val", .string value)]
  | .unary sign => [("op", .string sign.symbol)]
  | .vectorSelector selector => selector.toFields
  | .paren | .placeholder => []

def toJsonWith (s : Shape) (childFields : List (String × Json)) : Json :=
  .ofFields (("type", .string s.typeName) :: s.toFields ++ childFields)

def toJson (s : Shape) : Json := s.toJsonWith []

def typeNames : List String :=
  ["aggregation", "binaryExpr", "call", "matrixSelector", "subquery", "numberLiteral", "parenExpr",
    "stringLiteral", "unaryExpr", "vectorSelector", "placeholder"]

def fieldNames? : String → Option (List String)
  | "aggregation" => some ["op", "expr", "param", "grouping", "without"]
  | "binaryExpr" => some ["op", "lhs", "rhs", "matching", "bool"]
  | "call" => some ["func", "args"]
  | "matrixSelector" =>
    some ["name", "matchers", "range", "offset", "timestamp", "startOrEnd"]
  | "subquery" => some ["expr", "range", "offset", "step", "timestamp", "startOrEnd"]
  | "numberLiteral" => some ["val"]
  | "parenExpr" => some ["expr"]
  | "stringLiteral" => some ["val"]
  | "unaryExpr" => some ["op", "expr"]
  | "vectorSelector" => some ["name", "matchers", "offset", "timestamp", "startOrEnd"]
  | "placeholder" => some ["children"]
  | _ => none

end Shape

namespace Expr

def childFields : Shape → List Json → List (String × Json)
  | .aggregation .., [param, body] => [("param", param), ("expr", body)]
  | .aggregation .., [body] => [("param", .null), ("expr", body)]
  | .binary .., [lhs, rhs] => [("lhs", lhs), ("rhs", rhs)]
  | .call _, args => [("args", .array args)]
  | .subquery _, [body] | .paren, [body] | .unary _, [body] => [("expr", body)]
  | .placeholder, children => [("children", .array children)]
  | _, _ => []

def toJson (e : Expr) : Json := e.fold fun s children => s.toJsonWith (childFields s children)

def ofJsonWithin? : Nat → Bool → Json → Option Expr
  | 0, _, _ => none
  | fuel + 1, kept, j => do
    let (type, fields) ← j.tagged? (Json.tag? Shape.typeNames kept) "type" Shape.fieldNames?
    let field := Json.field fields
    match type with
    | "aggregation" => do
      let op ← Json.keptOneOf? Aggregator.all Aggregator.name (field "op")
      let body ← ofJsonWithin? fuel true (field "expr")
      let param ← Json.nullable (ofJsonWithin? fuel true) (field "param")
      let labels ← (field "grouping").list? Json.string?
      let without ← (field "without").bool?
      some (.aggregation op ⟨labels, without⟩ param body)
    | "binaryExpr" => do
      let op ← Json.keptOneOf? BinaryOp.all BinaryOp.symbol (field "op")
      let lhs ← ofJsonWithin? fuel true (field "lhs")
      let rhs ← ofJsonWithin? fuel true (field "rhs")
      let matching ← Json.nullable VectorMatching.ofJson? (field "matching")
      let returnBool ← (field "bool").bool?
      some (.binary op matching returnBool lhs rhs)
    | "call" => do
      let func ← Signature.ofJson? (field "func")
      let args ← (field "args").list? (ofJsonWithin? fuel true)
      some (.call func args)
    | "matrixSelector" => do
      let selector ← Selector.ofFields? fields
      let range ← (field "range").uint64?
      some (.matrixSelector selector range)
    | "subquery" => do
      let body ← ofJsonWithin? fuel true (field "expr")
      let window ← Window.ofFields? fields
      some (.subquery window body)
    | "numberLiteral" => (field "val").string?.map .number
    | "parenExpr" => (ofJsonWithin? fuel true (field "expr")).map .paren
    | "stringLiteral" => (field "val").string?.map .string
    | "unaryExpr" => do
      let sign ← Json.keptOneOf? Sign.all Sign.symbol (field "op")
      let body ← ofJsonWithin? fuel true (field "expr")
      some (.unary sign body)
    | "vectorSelector" => (Selector.ofFields? fields).map .vectorSelector
    | "placeholder" =>
      (Json.fieldOr fields "children" [] (Json.list? (ofJsonWithin? fuel true))).map .placeholder
    | _ => none

def ofJson? (j : Json) : Option Expr := ofJsonWithin? j.size false j

end Expr

end PromTree
