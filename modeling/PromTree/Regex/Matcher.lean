import PromTree.Regex.Reader

namespace PromTree.Regex

def scanRepetition (commaSeen : Bool) : Nat → List Char → Bool × Nat
  | n, [] => (false, n)
  | n, c :: cs =>
    if c = ',' then
      if commaSeen ∨ n = 0 then (false, n + 1) else scanRepetition true (n + 1) cs
    else if c = '\x7d' then (n ≠ 0, n + 1)
    else if c.isDigit then scanRepetition commaSeen (n + 1) cs
    else (false, n + 1)

def escapeBraces : Nat → List Char → List Char
  | 0, _ => []
  | fuel + 1, cs =>
    match cs with
    | [] => []
    | '\\' :: c :: cs => '\\' :: c :: escapeBraces fuel cs
    | ['\\'] => []
    | '\x7b' :: cs =>
      let (isRepetition, length) := scanRepetition false 0 cs
      let brace := if isRepetition then ['\x7b'] else ['\\', '\x7b']
      brace ++ cs.take length ++ escapeBraces fuel (cs.drop length)
    | c :: cs => c :: escapeBraces fuel cs

def ofMatcher? (text : String) : Option Regex :=
  let anchored := '^' :: '(' :: '?' :: ':' :: text.toList ++ [')', '$']
  (parse? anchored).or (parse? (escapeBraces (anchored.length + 1) anchored))

end PromTree.Regex
