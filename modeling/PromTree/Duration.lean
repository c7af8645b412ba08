import PromTree.Text.Checked

namespace PromTree.Duration

inductive TimeUnit where
  | year
  | week
  | day
  | hour
  | minute
  | second
  | millisecond
  deriving DecidableEq

namespace TimeUnit

def all : List TimeUnit := [.year, .week, .day, .hour, .minute, .second, .millisecond]

def symbol : TimeUnit → List Char
  | .year => ['y']
  | .week => ['w']
  | .day => ['d']
  | .hour => ['h']
  | .minute => ['m']
  | .second => ['s']
  | .millisecond => ['m', 's']

def milliseconds : TimeUnit → Nat
  | .year => 365 * 86400000
  | .week => 7 * 86400000
  | .day => 86400000
  | .hour => 3600000
  | .minute => 60000
  | .second => 1000
  | .millisecond => 1

def isExact : TimeUnit → Bool
  | .year | .week => true
  | _ => false

def group? (u : TimeUnit) (cs : List Char) : Option (List Char × List Char) :=
  let (digits, rest) := cs.span Char.isDigit
  if digits ≠ [] ∧ u.symbol.isPrefixOf rest then some (digits, rest.drop u.symbol.length) else none

end TimeUnit

structure Component where
  count : Nat
  unit : TimeUnit
  deriving DecidableEq

namespace Component

def milliseconds (c : Component) : Nat := c.count * c.unit.milliseconds

def chars (c : Component) : List Char := Nat.toDigits 10 c.count ++ c.unit.symbol

end Component

def split : Nat → List TimeUnit → List Component
  | _, [] => []
  | ms, u :: units =>
    let count := ms / u.milliseconds
    if u.isExact && ms % u.milliseconds != 0 || count == 0 then split ms units
    else ⟨count, u⟩ :: split (ms % u.milliseconds) units

def chars (ms : Nat) : List Char :=
  if ms = 0 then ['0', 's'] else (split ms TimeUnit.all).flatMap Component.chars

def text (ms : Nat) : String := String.ofList (chars ms)

inductive Error where
  | empty
  | invalid (text : String)
  deriving DecidableEq

def Error.quoted (text : String) : String :=
  let escape (c : Char) : List Char :=
    if c = '\\' ∨ c = '"' then ['\\', c]
    else if c = '\t' then ['\\', 't']
    else if c = '\n' then ['\\', 'n']
    else if c.toNat = 13 then ['\\', 'r']
    else if c.toNat = 0 then ['\\', '0']
    else if c.toNat < 0x20 ∨ 0x7f ≤ c.toNat ∧ c.toNat < 0xa0 then
      ['\\', 'u', '\x7b'] ++ Nat.toDigits 16 c.toNat ++ ['\x7d']
    else [c]
  "\"" ++ String.ofList (text.toList.flatMap escape) ++ "\""

def Error.message : Error → String
  | .empty => "empty duration string"
  | .invalid text => "invalid duration string: " ++ quoted text

structure Capture where
  digits : List Char
  unit : TimeUnit
  deriving DecidableEq

namespace Capture

def component (c : Capture) : Component := ⟨Nat.ofDigitChars 10 c.digits 0, c.unit⟩

/-- Adds the milliseconds of a capture, if the count, the product and the sum fit 64 bits. -/
def addTo? (total : UInt64) (c : Capture) : Option UInt64 := do
  let count ← Checked.ofDigits? c.digits
  let ms ← Checked.mul? count (UInt64.ofNat c.unit.milliseconds)
  Checked.add? total ms

end Capture

/-- Matches a whole text with at most one group for each of the units, in their order. Where the
rest does not match after a group, the group is given up: the `m` of `ms` stands for no minutes. -/
def captures? : List TimeUnit → List Char → Option (List Capture)
  | [], cs => if cs = [] then some [] else none
  | u :: units, cs =>
    let taken := do
      let (digits, rest) ← u.group? cs
      let captures ← captures? units rest
      some (⟨digits, u⟩ :: captures)
    taken <|> captures? units cs

def total (cs : List Component) : Nat := cs.foldr (fun c ms => c.milliseconds + ms) 0

/-- The milliseconds of a duration that fits 64 bits. A lone `0` needs no unit. -/
def parse (text : String) : Except Error UInt64 :=
  if text = "" then .error .empty
  else if text = "0" then .ok 0
  else match captures? TimeUnit.all text.toList with
    | none => .error (.invalid text)
    | some captures =>
      match captures.foldlM Capture.addTo? 0 with
      | none => .error (.invalid text)
      | some total => if captures.isEmpty then .error (.invalid text) else .ok total

end PromTree.Duration
