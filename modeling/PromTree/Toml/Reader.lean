import PromTree.Toml.Scalar
import PromTree.Toml.Text

namespace PromTree.Toml

mutual

def value? : Nat → Nat → List Char → Option (Value × List Char)
  | 0, _, _ => none
  | fuel + 1, depth, cs =>
    match cs with
    | '[' :: cs => do
      if nestingLimit ≤ depth then none
      else
        let (items, rest) ← items? fuel (depth + 1) (skipLines cs)
        some (.array items, rest)
    | '\x7b' :: cs => do
      if nestingLimit ≤ depth then none
      else match skipSpaces cs with
        | '\x7d' :: rest => some (.table .inline [], rest)
        | cs =>
          let (entries, rest) ← pairs? fuel (depth + 1) [] cs
          some (.table .inline entries, rest)
    | cs =>
      match string? cs with
      | some (s, rest) => some (.string s, rest)
      | none => do
        let (word, rest) := spanWord cs
        some (← scalar? word, rest)

def items? : Nat → Nat → List Char → Option (List Value × List Char)
  | 0, _, _ => none
  | fuel + 1, depth, cs =>
    match cs with
    | ']' :: rest => some ([], rest)
    | cs => do
      let (v, rest) ← value? fuel depth cs
      match skipLines rest with
      | ']' :: rest => some ([v], rest)
      | ',' :: rest =>
        let (vs, rest) ← items? fuel depth (skipLines rest)
        some (v :: vs, rest)
      | _ => none

def pairs? : Nat → Nat → Entries → List Char → Option (Entries × List Char)
  | 0, _, _, _ => none
  | fuel + 1, depth, entries, cs => do
    let (path, key, rest) ← key? cs
    match rest with
    | '=' :: rest =>
      let (v, rest) ← value? fuel depth (skipSpaces rest)
      let entries ← entries.put key v true path
      match skipSpaces rest with
      | '\x7d' :: rest => some (entries, rest)
      | ',' :: rest => pairs? fuel depth entries rest
      | _ => none
    | _ => none

end

inductive Statement where
  | table (path : List String) (key : String)
  | tables (path : List String) (key : String)
  | entry (path : List String) (key : String) (v : Value)

def statement? (cs : List Char) : Option (Statement × List Char) :=
  match cs with
  | '[' :: '[' :: cs => do
    let (path, key, rest) ← key? cs
    match rest with
    | ']' :: ']' :: rest => some (.tables path key, rest)
    | _ => none
  | '[' :: cs => do
    let (path, key, rest) ← key? cs
    match rest with
    | ']' :: rest => some (.table path key, rest)
    | _ => none
  | cs => do
    let (path, key, rest) ← key? cs
    match rest with
    | '=' :: rest =>
      let (v, rest) ← value? (2 * rest.length + 2) 0 (skipSpaces rest)
      some (.entry path key v, rest)
    | _ => none

def statements? : Nat → List Char → Option (List Statement)
  | 0, _ => none
  | fuel + 1, cs =>
    match skipLines cs with
    | [] => some []
    | cs => do
      let (s, rest) ← statement? cs
      let ss ← statements? fuel (← endLine? rest)
      some (s :: ss)

structure Document where
  root : Entries
  current : List String

namespace Document

def start : Document := ⟨[], []⟩

def extend (d : Document) : Statement → Option Document
  | .table path key => do some ⟨← d.root.openTable path key, path ++ [key]⟩
  | .tables path key => do some ⟨← d.root.appendTable path key, path ++ [key]⟩
  | .entry path key v => do
    some ⟨← d.root.within (·.put key v true path) d.current, d.current⟩

end Document

def parse? (text : String) : Option Entries := do
  let cs := match text.toList with
    | '\ufeff' :: cs => cs
    | cs => cs
  let d ← (← statements? (cs.length + 1) cs).foldlM Document.extend .start
  some d.root

end PromTree.Toml
