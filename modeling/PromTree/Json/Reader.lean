import PromTree.Binary64.Rounding
import PromTree.Json.Basic
import PromTree.Text.Digits

/-!
Reading JSON text. The reader takes one value with blanks around it and nothing else, and refuses
text whose arrays and objects nest too deeply.
-/

namespace PromTree.Json

def nestingLimit : Nat := 127

def skipBlanks (cs : List Char) : List Char :=
  cs.dropWhile fun c => c = ' ' ∨ c = '\n' ∨ c = '\t' ∨ c = '\r'

namespace Reader

def unicode? (cs : List Char) : Option (Char × List Char) := do
  let (high, cs) ← Digits.leading? 16 4 cs
  if 0xDC00 ≤ high ∧ high ≤ 0xDFFF then none
  else if 0xD800 ≤ high ∧ high ≤ 0xDBFF then
    match cs with
    | '\\' :: 'u' :: cs =>
      let (low, cs) ← Digits.leading? 16 4 cs
      if 0xDC00 ≤ low ∧ low ≤ 0xDFFF then
        some (Char.ofNat (0x10000 + (high - 0xD800) * 0x400 + (low - 0xDC00)), cs)
      else none
    | _ => none
  else some (Char.ofNat high, cs)

def escaped? : List Char → Option (Char × List Char)
  | '"' :: cs => some ('"', cs)
  | '\\' :: cs => some ('\\', cs)
  | '/' :: cs => some ('/', cs)
  | 'b' :: cs => some ('\x08', cs)
  | 'f' :: cs => some ('\x0c', cs)
  | 'n' :: cs => some ('\n', cs)
  | 'r' :: cs => some ('\r', cs)
  | 't' :: cs => some ('\t', cs)
  | 'u' :: cs => unicode? cs
  | _ => none

def stringRest? : Nat → List Char → List Char → Option (String × List Char)
  | 0, _, _ => none
  | fuel + 1, done, cs =>
    match cs with
    | '"' :: cs => some (String.ofList done.reverse, cs)
    | '\\' :: cs => do
      let (c, cs) ← escaped? cs
      stringRest? fuel (c :: done) cs
    | c :: cs => if c.toNat < 0x20 then none else stringRest? fuel (c :: done) cs
    | [] => none

def significand : Nat → List Char → Nat × Nat
  | n, [] => (n, 0)
  | n, c :: cs =>
    let next := n * 10 + (c.toNat - '0'.toNat)
    if next < UInt64.size then significand next cs else (n, cs.length + 1)

/-- Rounds the significand first and then its product with, or quotient by, a rounded power of
ten, as many readers do; nothing if that overflows. -/
def ofSignificand? (negative : Bool) (n : Nat) (exponent : Int) : Option Binary64 :=
  let power (k : Nat) : Rat := ((Binary64.ofNat (Nat.pow 10 k)).value?).getD 1
  let divided (x : Binary64) (k : Nat) : Binary64 :=
    .ofRat negative ((x.value?.getD 0).abs / power k)
  let start := Binary64.ofRat negative n
  if n = 0 then some (.zero negative)
  else if 308 < exponent then none
  else if 0 ≤ exponent then
    let x := Binary64.ofRat negative ((start.value?.getD 0).abs * power exponent.toNat)
    if x.isFinite then some x else none
  else if -308 ≤ exponent then some (divided start (-exponent).toNat)
  else if -616 ≤ exponent then some (divided (divided start 308) (-exponent - 308).toNat)
  else some (.zero negative)

def exponent? : List Char → Option (Int × List Char)
  | c :: cs =>
    if c = 'e' ∨ c = 'E' then
      let (negative, cs) := match cs with
        | '-' :: cs => (true, cs)
        | '+' :: cs => (false, cs)
        | cs => (false, cs)
      let (digits, cs) := cs.span Char.isDigit
      let n : Nat := Nat.ofDigitChars 10 digits 0
      if digits = [] then none else some (if negative then -n else n, cs)
    else some (0, c :: cs)
  | [] => some (0, [])

def fraction? : List Char → Option (List Char × List Char)
  | '.' :: cs =>
    let (digits, cs) := cs.span Char.isDigit
    if digits = [] then none else some (digits, cs)
  | cs => some ([], cs)

def number? (cs : List Char) : Option (JsonNumber × List Char) := do
  let (negative, cs) := match cs with
    | '-' :: cs => (true, cs)
    | cs => (false, cs)
  let (whole, rest) := cs.span Char.isDigit
  if whole = [] ∨ (whole.head? = some '0' ∧ 1 < whole.length) then none
  else
    let (fraction, afterFraction) ← fraction? rest
    let (exponent, after) ← exponent? afterFraction
    let n := Nat.ofDigitChars 10 whole 0
    if after.length = rest.length ∧ ¬ negative ∧ n < UInt64.size then some (.whole n, after)
    else if after.length = rest.length ∧ negative ∧ 0 < n ∧ n ≤ 1 <<< 63 then
      some (.whole (-n), after)
    else
      let (kept, left) := significand 0 whole
      let (kept, places) :=
        let (k, dropped) := significand kept fraction
        (k, fraction.length - dropped)
      let x ← ofSignificand? negative kept (exponent + left - places)
      some (.binary x, after)

mutual

def value? : Nat → Nat → List Char → Option (Json × List Char)
  | 0, _, _ => none
  | fuel + 1, depth, cs =>
    match cs with
    | 'n' :: 'u' :: 'l' :: 'l' :: cs => some (.null, cs)
    | 't' :: 'r' :: 'u' :: 'e' :: cs => some (.bool true, cs)
    | 'f' :: 'a' :: 'l' :: 's' :: 'e' :: cs => some (.bool false, cs)
    | '"' :: cs => do
      let (s, cs) ← stringRest? cs.length [] cs
      some (.string s, cs)
    | '[' :: cs =>
      match depth with
      | 0 => none
      | depth + 1 =>
        match skipBlanks cs with
        | ']' :: cs => some (.array [], cs)
        | cs => items? fuel depth [] cs
    | '\x7b' :: cs =>
      match depth with
      | 0 => none
      | depth + 1 =>
        match skipBlanks cs with
        | '\x7d' :: cs => some (.object [], cs)
        | cs => fields? fuel depth [] cs
    | cs => do
      let (n, cs) ← number? cs
      some (.number n, cs)

def items? : Nat → Nat → List Json → List Char → Option (Json × List Char)
  | 0, _, _, _ => none
  | fuel + 1, depth, done, cs => do
    let (j, cs) ← value? fuel depth cs
    match skipBlanks cs with
    | ',' :: cs => items? fuel depth (j :: done) (skipBlanks cs)
    | ']' :: cs => some (.array (j :: done).reverse, cs)
    | _ => none

def fields? : Nat → Nat → List (String × Json) → List Char → Option (Json × List Char)
  | 0, _, _, _ => none
  | fuel + 1, depth, done, cs =>
    match cs with
    | '"' :: cs => do
      let (name, cs) ← stringRest? cs.length [] cs
      match skipBlanks cs with
      | ':' :: cs =>
        let (j, cs) ← value? fuel depth (skipBlanks cs)
        match skipBlanks cs with
        | ',' :: cs => fields? fuel depth ((name, j) :: done) (skipBlanks cs)
        | '\x7d' :: cs => some (ofFields ((name, j) :: done).reverse, cs)
        | _ => none
      | _ => none
    | _ => none

end

end Reader

def parse? (text : String) : Option Json := do
  let cs := skipBlanks text.toList
  let (j, cs) ← Reader.value? (2 * cs.length + 1) nestingLimit cs
  if skipBlanks cs = [] then some j else none

end PromTree.Json
