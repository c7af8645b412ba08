import PromTree.Json.Basic

/-!
Reading typed data out of JSON values. A record is an object or, position by position, an array;
an absent field counts as null.
-/

namespace PromTree.Json

def string? : Json → Option String
  | .string s => some s
  | _ => none

def bool? : Json → Option Bool
  | .bool b => some b
  | _ => none

def int? : Json → Option Int
  | .number (.whole n) => some n
  | _ => none

def uint64? (j : Json) : Option UInt64 := do
  let n ← j.int?
  if 0 ≤ n ∧ n.toNat < UInt64.size then some (UInt64.ofNat n.toNat) else none

def nat? (j : Json) : Option Nat := j.uint64?.map UInt64.toNat

def int64? (j : Json) : Option Int64 := do
  let n ← j.int?
  if Int64.minValue.toInt ≤ n ∧ n ≤ Int64.maxValue.toInt then some (Int64.ofInt n) else none

def int32? (j : Json) : Option Int32 := do
  let n ← j.int?
  if Int32.minValue.toInt ≤ n ∧ n ≤ Int32.maxValue.toInt then some (Int32.ofInt n) else none

def list? (decode : Json → Option α) : Json → Option (List α)
  | .array items => items.mapM decode
  | _ => none

def nullable (decode : Json → Option α) : Json → Option (Option α)
  | .null => some none
  | j => (decode j).map some

def name? : Json → Option String
  | .string s => some s
  | .object [(s, .null)] => some s
  | _ => none

/-- What a tagged record holds is kept until its tag is known. In a value that has been kept an
object without fields stands for null after a name. -/
def keptName? : Json → Option String
  | .object [(s, .object [])] => some s
  | j => j.name?

def oneOf? (values : List α) (nameOf : α → String) (j : Json) : Option α := do
  let name ← j.name?
  values.find? fun a => nameOf a = name

def keptOneOf? (values : List α) (nameOf : α → String) (j : Json) : Option α := do
  let name ← j.keptName?
  values.find? fun a => nameOf a = name

def record? (names : List String) : Json → Option (List (String × Json))
  | .object fields => some fields
  | .array items => if items.length ≤ names.length then some (names.zip items) else none
  | _ => none

def recordWith? (required : Nat) (names : List String) (j : Json) :
    Option (List (String × Json)) :=
  match j with
  | .array items => if required ≤ items.length then j.record? names else none
  | _ => j.record? names

def field (fields : List (String × Json)) (name : String) : Json := (fields.lookup name).getD .null

def fieldOr (fields : List (String × Json)) (name : String) (absent : α)
    (decode : Json → Option α) : Option α :=
  match fields.lookup name with
  | none => some absent
  | some j => decode j

/-- A tag is a string. In a value that has been kept it may also be given by its place among the
tags. -/
def tag? (tags : List String) (kept : Bool) : Json → Option String
  | .string tag => some tag
  | j => if kept then j.nat?.bind (tags[·]?) else none

/-- The tag of a tagged record and its fields: an object has the tag among its fields, an array
before them. -/
def tagged? (tag? : Json → Option String) (tagName : String)
    (names? : String → Option (List String)) : Json → Option (String × List (String × Json))
  | .object fields => do
    let tag ← tag? (field fields tagName)
    some (tag, fields)
  | .array (tag :: items) => do
    let tag ← tag? tag
    let fields ← (Json.array items).record? (← names? tag)
    some (tag, fields)
  | _ => none

def getField (j : Json) (name : String) : Json :=
  match j with
  | .object fields => field fields name
  | _ => .null

end PromTree.Json
