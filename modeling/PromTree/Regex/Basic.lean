/-!
Regular expressions as far as a label matcher needs them: whether the empty text matches, how deep
they nest and how large they are.
-/

namespace PromTree

inductive Regex where
  | empty
  | flagSetting
  | one (cost : Nat)
  | assertion (holdsOnEmpty : Bool)
  | repetition (least copies : Nat) (body : Regex)
  | group (body : Regex)
  | concat (items : List Regex)
  | alternation (items : List Regex)

namespace Regex

mutual

def matchesEmpty : Regex → Bool
  | .empty | .flagSetting => true
  | .one _ => false
  | .assertion holds => holds
  | .repetition least _ body => least == 0 || body.matchesEmpty
  | .group body => body.matchesEmpty
  | .concat items => allMatchEmpty items
  | .alternation items => anyMatchesEmpty items

def allMatchEmpty : List Regex → Bool
  | [] => true
  | r :: rs => r.matchesEmpty && allMatchEmpty rs

def anyMatchesEmpty : List Regex → Bool
  | [] => false
  | r :: rs => r.matchesEmpty || anyMatchesEmpty rs

end

mutual

def depth : Regex → Nat
  | .empty | .flagSetting | .one _ | .assertion _ => 0
  | .repetition _ _ body | .group body => body.depth + 1
  | .concat items | .alternation items => depthList items + 1

def depthList : List Regex → Nat
  | [] => 0
  | r :: rs => max r.depth (depthList rs)

end

mutual

/-- An estimate of the size of the compiled expression, in bytes. -/
def cost : Regex → Nat
  | .empty | .flagSetting | .assertion _ => 32
  | .one cost => cost
  | .repetition _ copies body => copies * body.cost + 32
  | .group body => body.cost + 64
  | .concat items | .alternation items => costList items + 32

def costList : List Regex → Nat
  | [] => 0
  | r :: rs => r.cost + costList rs

end

def depthLimit : Nat := 250

def costLimit : Nat := 10 * 1024 * 1024

def isAdmissible (r : Regex) : Bool := r.depth ≤ depthLimit && r.cost ≤ costLimit

def concatenate : List Regex → Regex
  | [] => .empty
  | [r] => r
  | rs => .concat rs

def alternate : List Regex → Regex
  | [] => .empty
  | [r] => r
  | rs => .alternation rs

end Regex

end PromTree
