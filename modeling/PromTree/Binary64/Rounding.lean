import PromTree.Binary64.Basic

namespace PromTree

def roundHalfEven (x : Rat) : Nat :=
  let below := x.floor.toNat
  let excess := x - below
  if excess < 1 / 2 then below
  else if 1 / 2 < excess then below + 1
  else if below % 2 = 0 then below
  else below + 1

def roundHalfUp (x : Rat) : Nat := (x + 1 / 2).floor.toNat

namespace Binary64

def exponentOf (x : Rat) : Int :=
  let guess : Int := (Nat.log2 x.num.natAbs : Int) - Nat.log2 x.den - 53
  max minExponent (if x < (2 : Rat) ^ (guess + 53) then guess else guess + 1)

def ofRat (negative : Bool) (x : Rat) : Binary64 :=
  let exponent := exponentOf x
  let mantissa := roundHalfEven (x / (2 : Rat) ^ exponent)
  let (mantissa, exponent) :=
    if mantissa = 2 * leastNormal then (leastNormal, exponent + 1) else (mantissa, exponent)
  if mantissa = 0 then zero negative
  else if maxExponent < exponent then .infinite negative
  else .finite negative mantissa exponent

def ofNat (n : Nat) : Binary64 := ofRat false n

def ofInt (n : Int) : Binary64 := ofRat (decide (n < 0)) n.natAbs

/-- The nearest number to `digits * 10 ^ exponent`. Exponents far outside the range are settled
without computing the power. -/
def ofScientific (negative : Bool) (digits : Nat) (exponent : Int) : Binary64 :=
  if digits = 0 then zero negative
  else if 400 < exponent then .infinite negative
  else if exponent < -(400 + (Nat.log2 digits + 1 : Nat)) then zero negative
  else ofRat negative (digits * (10 : Rat) ^ exponent)

end Binary64

end PromTree
