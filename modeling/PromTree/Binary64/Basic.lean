/-!
The numbers of the 64-bit binary floating-point format, as exact data: what is no number, the two
infinities, and the finite numbers `± mantissa * 2 ^ exponent`.
-/

namespace PromTree

inductive Binary64 where
  | nan
  | infinite (negative : Bool)
  | finite (negative : Bool) (mantissa : Nat) (exponent : Int)
  deriving DecidableEq

namespace Binary64

def minExponent : Int := -1074

def maxExponent : Int := 971

def zero (negative : Bool) : Binary64 := .finite negative 0 minExponent

def neg : Binary64 → Binary64
  | .nan => .nan
  | .infinite s => .infinite (!s)
  | .finite s m e => .finite (!s) m e

def isNegative : Binary64 → Bool
  | .nan => false
  | .infinite s => s
  | .finite s _ _ => s

def isFinite : Binary64 → Bool
  | .finite .. => true
  | _ => false

def scaled (mantissa : Nat) (exponent : Int) : Rat := mantissa * (2 : Rat) ^ exponent

def value? : Binary64 → Option Rat
  | .finite true m e => some (-scaled m e)
  | .finite false m e => some (scaled m e)
  | _ => none

def leastNormal : Nat := 1 <<< 52

def signBit : Nat := 1 <<< 63

def IsCanonical : Binary64 → Prop
  | .finite _ m e =>
    m < 2 * leastNormal ∧ minExponent ≤ e ∧ e ≤ maxExponent ∧ (leastNormal ≤ m ∨ e = minExponent)
  | _ => True

def ofBits (bits : Nat) : Binary64 :=
  let negative := decide (signBit ≤ bits)
  let biased : Nat := bits / leastNormal % 2048
  let fraction := bits % leastNormal
  if biased = 2047 then
    if fraction = 0 then .infinite negative else .nan
  else if biased = 0 then .finite negative fraction minExponent
  else .finite negative (leastNormal + fraction) (biased - 1075)

def toBits : Binary64 → Nat
  | .nan => 0x7ff8000000000000
  | .infinite s => 0x7ff0000000000000 + if s then signBit else 0
  | .finite s m e =>
    let magnitude :=
      if m < leastNormal then m else (e + 1075).toNat * leastNormal + (m - leastNormal)
    magnitude + if s then signBit else 0

def ofFloat (x : Float) : Binary64 := ofBits x.toBits.toNat

def toFloat (x : Binary64) : Float := Float.ofBits (UInt64.ofNat x.toBits)

end Binary64

end PromTree
