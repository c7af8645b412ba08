import PromTree.Sample.Summary

namespace PromTree

inductive QueryState where
  | running
  | success (summary : Summary)
  | error (message : String)
  | incomplete
  deriving DecidableEq

namespace QueryState

def tag : QueryState → String
  | .running => "running"
  | .success _ => "success"
  | .error _ => "error"
  | .incomplete => "nodeIncomplete"

def toFields : QueryState → List (String × Json)
  | .running | .incomplete => []
  | .success summary => summary.toFields
  | .error message => [("message", .string message)]

def toJson (s : QueryState) : Json := .ofFields (("status", .string s.tag) :: s.toFields)

def fieldNames? : String → Option (List String)
  | "running" | "nodeIncomplete" => some []
  | "success" => some Summary.fieldNames
  | "error" => some ["message"]
  | _ => none

def ofJson? (j : Json) : Option QueryState := do
  let (tag, fields) ← j.tagged? Json.string? "status" fieldNames?
  match tag with
  | "running" => some .running
  | "success" => (Summary.ofFields? fields).map .success
  | "error" => (Json.field fields "message").string?.map .error
  | "nodeIncomplete" => some .incomplete
  | _ => none

end QueryState

end PromTree
