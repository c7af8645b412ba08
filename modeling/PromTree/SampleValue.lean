import PromTree.Binary64.Rounding
import PromTree.Decimal.Shortest

namespace PromTree.SampleValue

def digits (cs : List Char) : List Char × List Char := cs.span Char.isDigit

def sign : List Char → Bool × List Char
  | '-' :: cs => (true, cs)
  | '+' :: cs => (false, cs)
  | cs => (false, cs)

def exponent? : List Char → Option Int
  | [] => some 0
  | c :: cs =>
    if c = 'e' ∨ c = 'E' then
      let (negative, cs) := sign cs
      if cs ≠ [] ∧ cs.all Char.isDigit then
        let n : Nat := Nat.ofDigitChars 10 cs 0
        some (if negative then -n else n)
      else none
    else none

def decimal? (cs : List Char) : Option Decimal :=
  let (whole, cs) := digits cs
  let (fraction, cs) := match cs with
    | '.' :: cs => digits cs
    | cs => ([], cs)
  if whole = [] ∧ fraction = [] then none
  else (exponent? cs).map (Decimal.ofParts whole fraction)

def ofChars (cs : List Char) : Binary64 :=
  let (negative, cs) := sign cs
  let word := cs.map Char.toLower
  if word = "inf".toList ∨ word = "infinity".toList then .infinite negative
  else match decimal? cs with
    | some d => Binary64.ofScientific negative d.digits d.exponent
    | none => .nan

def parse (text : String) : Binary64 := ofChars text.toList

def chars : Binary64 → List Char
  | .nan => ['N', 'a', 'N']
  | .infinite false => ['+', 'I', 'n', 'f']
  | .infinite true => ['-', 'I', 'n', 'f']
  | .finite false m e => (Decimal.shortest m e).positional
  | .finite true m e => '-' :: (Decimal.shortest m e).positional

def text (x : Binary64) : String := String.ofList (chars x)

end PromTree.SampleValue
