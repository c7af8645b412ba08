import PromTree.Query.Meaning
import PromTree.Query.Reader

namespace PromTree.Query

def read (text : String) : Parsed Term :=
  match Token.list? text with
  | none => .error .malformed
  | some ts => Term.ofTokens ts

def term (text : String) : Parsed Term := do
  let t := (← read text).foldSigns
  if t.isWellTyped then .ok t else .error .malformed

def parse (text : String) : Parsed Expr := do (← term text).toExpr

end PromTree.Query
