import PromTree.Decimal.Shortest
import PromTree.Json.Basic
import PromTree.Text.Digits

namespace PromTree.Json

def escape (c : Char) : List Char :=
  if c = '"' then ['\\', '"']
  else if c = '\\' then ['\\', '\\']
  else if c = '\n' then ['\\', 'n']
  else if c = '\r' then ['\\', 'r']
  else if c = '\t' then ['\\', 't']
  else if c = '\x08' then ['\\', 'b']
  else if c = '\x0c' then ['\\', 'f']
  else if c.toNat < 0x20 then '\\' :: 'u' :: '0' :: '0' :: Digits.hexByte (.ofNat c.toNat)
  else [c]

def quoted (s : String) : String := "\"" ++ String.ofList (s.toList.flatMap escape) ++ "\""

def binaryText : Binary64 → String
  | .finite negative m e =>
    let d := Decimal.shortest m e
    let text := String.ofList d.positional
    (if negative then "-" else "") ++ if 0 ≤ d.exponent then text ++ ".0" else text
  | _ => "null"

def numberText : JsonNumber → String
  | .whole (.ofNat n) => Nat.repr n
  | .whole (.negSucc n) => "-" ++ Nat.repr (n + 1)
  | .binary x => binaryText x

mutual

def text : Json → String
  | .null => "null"
  | .bool true => "true"
  | .bool false => "false"
  | .number n => numberText n
  | .string s => quoted s
  | .array items => "[" ++ String.intercalate "," (itemTexts items) ++ "]"
  | .object fields => "\x7b" ++ String.intercalate "," (fieldTexts fields) ++ "\x7d"

def itemTexts : List Json → List String
  | [] => []
  | j :: items => j.text :: itemTexts items

def fieldTexts : List (String × Json) → List String
  | [] => []
  | (name, j) :: fields => (quoted name ++ ":" ++ j.text) :: fieldTexts fields

end

end PromTree.Json
