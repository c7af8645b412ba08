import PromTree.SampleValue
import PromTree.Text.Digits

namespace PromTree.Literal

def isWordChar (c : Char) : Bool := c.isAlphanum || c == '_'

def whole? (base : Nat) (cs : List Char) : Option Binary64 := do
  let n ← Digits.number? base cs
  if n < 1 <<< 63 then some (.ofNat n) else none

/-- Hexadecimal after `0x`, octal after another leading zero if no digit or point forbids it, and
else decimal. -/
def number? (cs : List Char) : Option Binary64 :=
  let decimal := (SampleValue.decimal? cs).map fun d => Binary64.ofScientific false d.digits d.exponent
  match cs with
  | '0' :: 'x' :: digits | '0' :: 'X' :: digits => whole? 16 digits
  | '0' :: _ => if cs.all fun c => c ≠ '.' ∧ c ≠ '8' ∧ c ≠ '9' then whole? 8 cs else decimal
  | _ => decimal

def spanFraction : List Char → List Char × List Char
  | '.' :: cs => ('.' :: (cs.span Char.isDigit).1, (cs.span Char.isDigit).2)
  | cs => ([], cs)

def spanSign : List Char → List Char × List Char
  | '+' :: cs => (['+'], cs)
  | '-' :: cs => (['-'], cs)
  | cs => ([], cs)

def spanExponent : List Char → List Char × List Char
  | e :: cs =>
    if e = 'e' ∨ e = 'E' then
      let (sign, cs) := spanSign cs
      let (digits, rest) := cs.span Char.isDigit
      (e :: sign ++ digits, rest)
    else ([], e :: cs)
  | [] => ([], [])

def spanDecimal (cs : List Char) : List Char × List Char :=
  let (whole, rest) := cs.span Char.isDigit
  let (fraction, rest) := spanFraction rest
  let (exponent, rest) := spanExponent rest
  (whole ++ fraction ++ exponent, rest)

def spanNumber : List Char → List Char × List Char
  | '0' :: 'x' :: rest =>
    let (digits, rest) := rest.span (Digits.value · < 16)
    ('0' :: 'x' :: digits, rest)
  | '0' :: 'X' :: rest =>
    let (digits, rest) := rest.span (Digits.value · < 16)
    ('0' :: 'X' :: digits, rest)
  | cs => spanDecimal cs

def escaped? (quote : Char) : List Char → Option (Char × List Char)
  | 'a' :: cs => some ('\x07', cs)
  | 'b' :: cs => some ('\x08', cs)
  | 'f' :: cs => some ('\x0c', cs)
  | 'n' :: cs => some ('\n', cs)
  | 'r' :: cs => some ('\r', cs)
  | 't' :: cs => some ('\t', cs)
  | 'v' :: cs => some ('\x0b', cs)
  | '\\' :: cs => some ('\\', cs)
  | 'x' :: cs => Digits.coded? 16 2 cs
  | 'u' :: cs => Digits.coded? 16 4 cs
  | 'U' :: cs => Digits.coded? 16 8 cs
  | c :: cs =>
    if c = quote then some (c, cs)
    else match Digits.coded? 8 3 (c :: cs) with
      | some (d, rest) => if d.toNat < 256 then some (d, rest) else none
      | none => none
  | [] => none

def stringRest? (quote : Char) : Nat → List Char → Option (List Char × List Char)
  | 0, _ => none
  | fuel + 1, cs =>
    match cs with
    | [] => none
    | c :: cs =>
      if c = quote then some ([], cs)
      else if c = '\n' then none
      else if c = '\\' then do
        let (d, cs) ← escaped? quote cs
        let (ds, rest) ← stringRest? quote fuel cs
        some (d :: ds, rest)
      else do
        let (ds, rest) ← stringRest? quote fuel cs
        some (c :: ds, rest)

def rawRest? (quote : Char) (cs : List Char) : Option (List Char × List Char) :=
  match cs.span (· ≠ quote) with
  | (raw, _ :: rest) => some (raw, rest)
  | (_, []) => none

def backtick : Char := '\x60'

def string? (quote : Char) (cs : List Char) : Option (List Char × List Char) :=
  if quote = backtick then rawRest? quote cs else stringRest? quote cs.length cs

end PromTree.Literal
