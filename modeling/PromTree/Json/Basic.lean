import PromTree.Binary64.Basic

namespace PromTree

inductive JsonNumber where
  | whole (value : Int)
  | binary (value : Binary64)
  deriving DecidableEq

inductive Json where
  | null
  | bool (value : Bool)
  | number (value : JsonNumber)
  | string (value : String)
  | array (items : List Json)
  | object (fields : List (String × Json))

namespace Json

def insertField (name : String) (value : Json) : List (String × Json) → List (String × Json)
  | [] => [(name, value)]
  | (n, v) :: fields =>
    if name < n then (name, value) :: (n, v) :: fields
    else if name = n then (name, value) :: fields
    else (n, v) :: insertField name value fields

def ofFields (fields : List (String × Json)) : Json :=
  .object (fields.foldl (fun sorted f => insertField f.1 f.2 sorted) [])

def ofNat (n : Nat) : Json := .number (.whole n)

def ofInt (n : Int) : Json := .number (.whole n)

def ofOption (encode : α → Json) : Option α → Json
  | none => .null
  | some a => encode a

def ofList (encode : α → Json) (items : List α) : Json := .array (items.map encode)

def ofStrings (items : List String) : Json := ofList .string items

def ofBinary64 (x : Binary64) : Json := if x.isFinite then .number (.binary x) else .null

def ofFloat (x : Float) : Json := ofBinary64 (.ofFloat x)

mutual

def size : Json → Nat
  | .array items => sizeItems items + 1
  | .object fields => sizeFields fields + 1
  | _ => 1

def sizeItems : List Json → Nat
  | [] => 0
  | j :: items => j.size + sizeItems items

def sizeFields : List (String × Json) → Nat
  | [] => 0
  | (_, j) :: fields => j.size + sizeFields fields

end

end Json

end PromTree
