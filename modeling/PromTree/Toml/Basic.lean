import PromTree.Binary64.Basic

namespace PromTree.Toml

/-- A table is written in braces, brought about by a dotted key, implied by the header of a table
below it, or has a header of its own. -/
inductive Origin where
  | inline
  | dotted
  | implied
  | header
  deriving DecidableEq

inductive Value where
  | string (s : String)
  | integer (n : Int)
  | float (x : Binary64)
  | boolean (b : Bool)
  | datetime
  | array (items : List Value)
  | table (origin : Origin) (entries : List (String × Value))
  | tables (items : List (List (String × Value)))

abbrev Entries := List (String × Value)

namespace Entries

def alter (key : String) (f : Option Value → Option Value) : Entries → Option Entries
  | [] => (f none).map fun v => [(key, v)]
  | (k, v) :: entries =>
    if k = key then (f (some v)).map fun v => (k, v) :: entries
    else (alter key f entries).map ((k, v) :: ·)

def add (key : String) (v : Value) : Entries → Option Entries :=
  alter key fun old => if old.isSome then none else some v

def alterNewest (f : Entries → Option Entries) (items : List Entries) : Option Value := do
  let newest ← items.getLast?
  some (.tables (items.dropLast ++ [← f newest]))

def within (f : Entries → Option Entries) : List String → Entries → Option Entries
  | [], t => f t
  | key :: path, t =>
    t.alter key fun
      | none => (within f path []).map (.table .implied)
      | some (.table .inline _) => none
      | some (.table origin entries) => (within f path entries).map (.table origin)
      | some (.tables items) => alterNewest (within f path) items
      | some _ => none

def openTable (path : List String) (key : String) : Entries → Option Entries :=
  within (fun t => t.alter key fun
    | none => some (.table .header [])
    | some (.table .implied entries) => some (.table .header entries)
    | some _ => none) path

def appendTable (path : List String) (key : String) : Entries → Option Entries :=
  within (fun t => t.alter key fun
    | none => some (.tables [[]])
    | some (.tables items) => some (.tables (items ++ [[]]))
    | some _ => none) path

/-- Adds an entry under a dotted key. All but the last part lead through tables that have no header,
and the last of these has come about by dotted keys only. -/
def put (key : String) (v : Value) (isOpen : Bool) : List String → Entries → Option Entries
  | [], t => if isOpen then t.add key v else none
  | part :: path, t =>
    t.alter part fun
      | none => (put key v true path []).map (.table .dotted)
      | some (.table .dotted entries) => (put key v true path entries).map (.table .dotted)
      | some (.table .implied entries) => (put key v false path entries).map (.table .implied)
      | some (.tables items) => alterNewest (put key v false path) items
      | some _ => none

end Entries

end PromTree.Toml
