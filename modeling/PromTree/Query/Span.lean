import PromTree.Binary64.Rounding
import PromTree.Duration

namespace PromTree

structure Span where
  nanoseconds : Nat
  deriving DecidableEq

namespace Span

def milliseconds (s : Span) : Nat := s.nanoseconds / 1000000

/-- Counts beyond 32 bits are passed over. -/
def ofComponents (cs : List Duration.Component) : Span :=
  ⟨Duration.total (cs.filter fun c => c.count < UInt32.size) * 1000000⟩

def read? (cs : List Char) : Option Span := do
  let captures ← Duration.captures? Duration.TimeUnit.all cs
  let span := ofComponents (captures.map Duration.Capture.component)
  if span.nanoseconds ≠ 0 then some span else none

def ofSeconds? (x : Binary64) : Option Span := do
  let seconds ← x.value?
  if 0 ≤ seconds ∧ seconds < UInt64.size then some ⟨roundHalfEven (seconds * 1000000000)⟩ else none

def seconds (s : Span) : Binary64 :=
  let whole := (Binary64.ofNat (s.nanoseconds / 1000000000)).value?.getD 0
  let rest := (Binary64.ofRat false ((s.nanoseconds % 1000000000 : Nat) / 1000000000)).value?.getD 0
  .ofRat false (whole + rest)

end Span

end PromTree
