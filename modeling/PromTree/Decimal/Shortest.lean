import PromTree.Binary64.Basic
import PromTree.Decimal.Basic

namespace PromTree

structure Cell where
  lower : Rat
  upper : Rat
  closed : Bool

namespace Cell

def contains (c : Cell) (x : Rat) : Bool :=
  if c.closed then decide (c.lower ≤ x ∧ x ≤ c.upper) else decide (c.lower < x ∧ x < c.upper)

/-- Halfway to the two neighbours, where the one below a power of two is nearer. The ends round to
the even mantissa. -/
def around (mantissa : Nat) (exponent : Int) : Cell :=
  let half := (2 : Rat) ^ (exponent - 1)
  let value := Binary64.scaled mantissa exponent
  let below := if mantissa = Binary64.leastNormal ∧ Binary64.minExponent < exponent then half / 2 else half
  ⟨value - below, value + half, mantissa % 2 = 0⟩

def onGrid (c : Cell) (value : Rat) (exponent : Int) : Option Decimal :=
  let unit := (10 : Rat) ^ exponent
  let below := (value / unit).floor.toNat
  let above := below + 1
  match c.contains (below * unit), c.contains (above * unit) with
  | true, true =>
    if value - below * unit < above * unit - value then some ⟨below, exponent⟩
    else some ⟨above, exponent⟩
  | true, false => some ⟨below, exponent⟩
  | false, true => some ⟨above, exponent⟩
  | false, false => none

end Cell

namespace Decimal

def ceilingExponent (x : Rat) : Int :=
  let bits : Int := (Nat.log2 x.num.natAbs : Int) - Nat.log2 x.den + 1
  bits * 30103 / 100000 + 1

/-- Twenty grids, each ten times finer than the one before, reach the seventeen digits that
always suffice. -/
def shortest (mantissa : Nat) (exponent : Int) : Decimal :=
  let value := Binary64.scaled mantissa exponent
  let cell := Cell.around mantissa exponent
  let top := ceilingExponent value
  if mantissa = 0 then ⟨0, 0⟩
  else ((List.range 20).findSome? fun i : Nat => cell.onGrid value (top - i)).getD ⟨0, 0⟩

end Decimal

end PromTree
