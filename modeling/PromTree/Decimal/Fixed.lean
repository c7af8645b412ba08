import PromTree.Binary64.Rounding
import PromTree.Decimal.Basic

namespace PromTree.Decimal

def fixed (places : Nat) (x : Rat) : List Char :=
  withPlaces (Nat.toDigits 10 (roundHalfEven (x * 10 ^ places))) places

end PromTree.Decimal
