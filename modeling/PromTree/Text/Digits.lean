namespace PromTree.Digits

def value (c : Char) : Nat :=
  if c.isDigit then c.toNat - '0'.toNat
  else if 'a' ≤ c ∧ c ≤ 'f' then c.toNat - 'a'.toNat + 10
  else if 'A' ≤ c ∧ c ≤ 'F' then c.toNat - 'A'.toNat + 10
  else 16

def number? (base : Nat) (cs : List Char) : Option Nat :=
  if cs ≠ [] ∧ cs.all (value · < base) then some (cs.foldl (fun n c => n * base + value c) 0)
  else none

def leading? (base count : Nat) (cs : List Char) : Option (Nat × List Char) :=
  if cs.length < count then none else (number? base (cs.take count)).map (·, cs.drop count)

def charOf? (code : Nat) : Option Char := if code.isValidChar then some (Char.ofNat code) else none

def coded? (base count : Nat) (cs : List Char) : Option (Char × List Char) := do
  let (code, rest) ← leading? base count cs
  some (← charOf? code, rest)

def hexByte (b : UInt8) : List Char := [Nat.digitChar (b.toNat / 16), Nat.digitChar (b.toNat % 16)]

end PromTree.Digits
