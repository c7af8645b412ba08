import PromTree.Advice
import PromTree.Config
import PromTree.Explanation
import PromTree.Query
import PromTree.Server.Client

namespace PromTree

inductive RequestError where
  | query (error : QueryError)
  | nothingToFormat
  | explain (error : ExplainError)
  deriving DecidableEq

namespace RequestError

def message? : RequestError → Option String
  | .query (.unsupported feature) => some (QueryError.unsupportedMessage feature)
  | .query _ | .explain (.api .malformed) => none
  | .nothingToFormat => some "either expr or ast is required"
  | .explain error => some error.message

def status : RequestError → Nat
  | .query _ | .nothingToFormat => 400
  | .explain error => error.status

def queryMessage? (error : QueryError) : Option String :=
  (message? (.query error)).map ("Expression incomplete or buggy: " ++ ·)

end RequestError

structure FormatRequest where
  text : Option String
  expr : Option Expr
  pretty : Bool

namespace FormatRequest

def ofJson? (j : Json) : Option FormatRequest := do
  let fields ← j.recordWith? 2 ["expr", "ast", "pretty"]
  let text ← Json.nullable Json.string? (Json.field fields "expr")
  let expr ← Json.nullable Expr.ofJson? (Json.field fields "ast")
  let pretty ← Json.fieldOr fields "pretty" false Json.bool?
  some ⟨text, expr, pretty⟩

def target (r : FormatRequest) : Except RequestError Expr :=
  match r.expr, r.text with
  | some e, _ => .ok e
  | none, some text => (Query.parse text).mapError .query
  | none, none => .error .nothingToFormat

def answer (r : FormatRequest) : Except RequestError (String × Bool) := do
  let e ← r.target
  .ok (if r.pretty then e.prettyText else e.text, e.isSubmittable)

end FormatRequest

structure AdviceRequest where
  node : Expr
  parent : Option Expr
  result : Option Summary

namespace AdviceRequest

def ofJson? (j : Json) : Option AdviceRequest := do
  let fields ← j.recordWith? 3 ["node", "parent", "queryResult"]
  let node ← Expr.ofJson? (Json.field fields "node")
  let parent ← Json.nullable Expr.ofJson? (Json.field fields "parent")
  let result ← Json.nullable Summary.ofJson? (Json.field fields "queryResult")
  some ⟨node, parent, result⟩

def answer (r : AdviceRequest) : Advice := .of r.node r.parent r.result

end AdviceRequest

structure ExplainRequest where
  text : String
  time : Option Binary64
  showAll : Bool

namespace ExplainRequest

def ofJson? (j : Json) : Option ExplainRequest := do
  let fields ← j.recordWith? 2 ["expr", "time", "showAll"]
  let text ← (Json.field fields "expr").string?
  let time ← Json.nullable Json.binary64? (Json.field fields "time")
  let showAll ← Json.fieldOr fields "showAll" false Json.bool?
  some ⟨text, time, showAll⟩

def limits (r : ExplainRequest) (c : Config) : MatchLimits :=
  if r.showAll then .unlimited else c.limits

def answer {m : Type → Type} [Monad m] (ask : String → m Reply) (c : Config)
    (r : ExplainRequest) : m (Except RequestError Explanation) :=
  match Query.parse r.text with
  | .error error => pure (.error (.query error))
  | .ok e => do
    pure ((← Explanation.ofExpr ask (r.limits c) e).mapError .explain)

end ExplainRequest

end PromTree
