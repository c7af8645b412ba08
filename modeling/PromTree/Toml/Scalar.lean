import PromTree.SampleValue
import PromTree.Text.Digits
import PromTree.Toml.Basic

namespace PromTree.Toml

def digits? (base : Nat) (cs : List Char) : Option (List Char) :=
  let groups := cs.splitOnP (· == '_')
  if groups.all fun g => g ≠ [] ∧ g.all (Digits.value · < base) then some groups.flatten else none

def based? (base : Nat) (cs : List Char) : Option Value := do
  let n ← Digits.number? base (← digits? base cs)
  if n < 1 <<< 63 then some (.integer n) else none

def wholeDigits? (cs : List Char) : Option (List Char) := do
  let ds ← digits? 10 cs
  if ds.length > 1 ∧ ds.head? = some '0' then none else some ds

def decimalInteger? (cs : List Char) : Option Value := do
  let (negative, cs) := SampleValue.sign cs
  let n ← Digits.number? 10 (← wholeDigits? cs)
  if negative then if n ≤ 1 <<< 63 then some (.integer (-n)) else none
  else if n < 1 <<< 63 then some (.integer n) else none

def isExponentMark (c : Char) : Bool := c == 'e' || c == 'E'

def isFraction : List Char → Bool
  | [] => true
  | c :: cs => c == '.' && (digits? 10 cs).isSome

def isExponent : List Char → Bool
  | [] => true
  | _ :: cs => (digits? 10 (SampleValue.sign cs).2).isSome

def decimalFloat? (cs : List Char) : Option Value := do
  let (_, unsigned) := SampleValue.sign cs
  let (mantissa, exponent) := unsigned.span (!isExponentMark ·)
  let (whole, fraction) := mantissa.span (· ≠ '.')
  let _ ← wholeDigits? whole
  if (fraction = [] ∧ exponent = []) ∨ !isFraction fraction ∨ !isExponent exponent then none
  else
    match SampleValue.ofChars (cs.filter (· ≠ '_')) with
    | .infinite false => none
    | x => some (.float x)

def special? (cs : List Char) : Option Value :=
  let (negative, word) := SampleValue.sign cs
  if word = "inf".toList then some (.float (.infinite negative))
  else if word = "nan".toList then some (.float .nan)
  else none

def bounded? (count low high : Nat) (cs : List Char) : Option (Nat × List Char) := do
  let (n, rest) ← Digits.leading? 10 count cs
  if low ≤ n ∧ n ≤ high then some (n, rest) else none

def daysOf (year month : Nat) : Nat :=
  if month = 2 then
    if year % 4 = 0 ∧ (year % 100 ≠ 0 ∨ year % 400 = 0) then 29 else 28
  else if [4, 6, 9, 11].contains month then 30
  else 31

def afterDate? (cs : List Char) : Option (List Char) := do
  let (year, cs) ← bounded? 4 0 9999 cs
  let '-' :: cs := cs | none
  let (month, cs) ← bounded? 2 1 12 cs
  let '-' :: cs := cs | none
  let (_, cs) ← bounded? 2 1 (daysOf year month) cs
  some cs

def afterMinutes? (cs : List Char) : Option (List Char) := do
  let (_, cs) ← bounded? 2 0 23 cs
  let ':' :: cs := cs | none
  let (_, cs) ← bounded? 2 0 59 cs
  some cs

def afterTime? (cs : List Char) : Option (List Char) := do
  let ':' :: cs ← afterMinutes? cs | none
  let (_, cs) ← bounded? 2 0 60 cs
  match cs with
  | '.' :: fraction =>
    let (ds, rest) := fraction.span Char.isDigit
    if ds = [] then none else some rest
  | cs => some cs

def isOffset : List Char → Bool
  | [] => true
  | [c] => c == 'Z' || c == 'z'
  | c :: cs => (c == '+' || c == '-') && afterMinutes? cs = some []

def datetime? (cs : List Char) : Option Value :=
  let valid := match afterDate? cs with
    | some [] => true
    | some (c :: time) => (c == 'T' || c == 't' || c == ' ') && (afterTime? time).any isOffset
    | none => afterTime? cs = some []
  if valid then some .datetime else none

def scalar? (word : List Char) : Option Value :=
  match word with
  | ['t', 'r', 'u', 'e'] => some (.boolean true)
  | ['f', 'a', 'l', 's', 'e'] => some (.boolean false)
  | '0' :: 'x' :: cs => based? 16 cs
  | '0' :: 'o' :: cs => based? 8 cs
  | '0' :: 'b' :: cs => based? 2 cs
  | cs => (special? cs).or ((datetime? cs).or ((decimalFloat? cs).or (decimalInteger? cs)))

def isWordChar (c : Char) : Bool :=
  c.isAlphanum || c == '_' || c == '+' || c == '-' || c == '.' || c == ':'

def spanWord (cs : List Char) : List Char × List Char :=
  let (word, rest) := cs.span isWordChar
  match afterDate? word, rest with
  | some [], ' ' :: c :: rest =>
    if isWordChar c then
      let (time, rest) := (c :: rest).span isWordChar
      (word ++ ' ' :: time, rest)
    else (word, ' ' :: c :: rest)
  | _, rest => (word, rest)

end PromTree.Toml
