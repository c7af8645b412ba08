import PromTree.Expr.Basic
import PromTree.Matching.Arithmetic

/-!
Binary operators between two vectors. Samples whose labels agree in the way that the matching asks
for form a group, and the operator is applied within each group.
-/

namespace PromTree

inductive Side where
  | left
  | right
  deriving DecidableEq

inductive MatchError where
  | duplicate (side : Side)
  | duplicatesOnBothSides
  | duplicatesOnOneSide
  deriving DecidableEq

structure MatchResult where
  sample : Sample
  manyIndex : Nat
  filtered : Bool
  deriving DecidableEq

structure MatchGroup where
  labels : Labels
  lhs : List Sample
  lhsCount : Nat
  rhs : List Sample
  rhsCount : Nat
  result : List MatchResult
  error : Option MatchError
  deriving DecidableEq

structure MatchTable where
  groups : List MatchGroup
  numGroups : Nat
  deriving DecidableEq

namespace MatchTable

def samples (t : MatchTable) : List Sample :=
  (t.groups.filter fun g => g.error.isNone).flatMap fun g =>
    (g.result.filter fun r => !r.filtered).map MatchResult.sample

def hasErrors (t : MatchTable) : Bool := t.groups.any fun g => g.error.isSome

end MatchTable

structure MatchLimits where
  maxGroups : Option Nat
  maxSeries : Option Nat
  deriving DecidableEq

def MatchLimits.unlimited : MatchLimits := ⟨none, none⟩

def belowLimit (limit : Option Nat) (count : Nat) : Bool := limit.all (count < ·)

namespace VectorMatching

def sortedNames (names : List String) : List String :=
  (SortedMap.ofList (names.map fun n => (n, ()))).keys

def countsWhenIgnoring (m : VectorMatching) (name : String) : Bool :=
  name != metricName && !m.labels.contains name

def separator : String := "\u00ff"

/-- What samples of one group share: the values to match on by ascending name, where a missing label
counts as empty, or else the values of all labels that are not ignored. -/
def key (m : VectorMatching) (labels : Labels) : String :=
  let values :=
    if m.on then (sortedNames m.labels).map fun n => (labels.find? n).getD ""
    else (labels.filter fun n _ => m.countsWhenIgnoring n).values
  String.intercalate separator values

def groupLabels (m : VectorMatching) (labels : Labels) : Labels :=
  if m.on then labels.filter fun n _ => m.labels.contains n
  else labels.filter fun n _ => m.countsWhenIgnoring n

/-- The labels of a result: those of the many side, less the metric name and what a one-to-one match
leaves out, with the included labels taken over from the one side. -/
def resultLabels (m : VectorMatching) (op : BinaryOp) (returnBool : Bool) (many one : Labels) :
    Labels :=
  let named := if op.dropsName returnBool then many.erase metricName else many
  let matched :=
    if m.cardinality = .oneToOne then named.filter fun n _ => m.labels.contains n == m.on else named
  m.included.foldl
    (fun labels n => match one.find? n with
      | some v => labels.insert n v
      | none => labels.erase n)
    matched

end VectorMatching

/-- The samples that share a key, by the part that they play. Only as many are listed as the limit
allows, but all are counted. -/
structure Pile where
  key : String
  labels : Labels
  many : List Sample
  manyCount : Nat
  one : List Sample
  oneCount : Nat

namespace Pile

inductive Role where
  | many
  | one
  deriving DecidableEq

def new (key : String) (labels : Labels) : Pile := ⟨key, labels, [], 0, [], 0⟩

def add (limit : Option Nat) (role : Role) (s : Sample) (p : Pile) : Pile :=
  match role with
  | .many =>
    { p with
      many := if belowLimit limit p.manyCount then p.many ++ [s] else p.many
      manyCount := p.manyCount + 1 }
  | .one =>
    { p with
      one := if belowLimit limit p.oneCount then p.one ++ [s] else p.one
      oneCount := p.oneCount + 1 }

def error? (cardinality : Cardinality) (p : Pile) : Option MatchError :=
  match cardinality with
  | .oneToOne =>
    if 1 < p.manyCount ∧ 1 < p.oneCount then some .duplicatesOnBothSides
    else if 1 < p.manyCount then some (.duplicate .left)
    else if 1 < p.oneCount then some (.duplicate .right)
    else none
  | .manyToOne | .oneToMany => if 1 < p.oneCount then some .duplicatesOnOneSide else none
  | .manyToMany => none

def setSamples (op : BinaryOp) (p : Pile) : List Sample :=
  let keepsMany : Bool := match op with
    | .and => 0 < p.oneCount
    | .unless => p.oneCount == 0
    | _ => true
  if keepsMany ∧ 0 < p.manyCount then p.many
  else if op = .or then p.one
  else []

def taken (samples : List Sample) : List MatchResult :=
  samples.zipIdx.map fun s => ⟨s.1, s.2, false⟩

def pairResult (f : Float → Float → Outcome) (op : BinaryOp) (m : VectorMatching)
    (returnBool : Bool) (many : Sample) (manyIndex : Nat) (one : Sample) : MatchResult :=
  let outcome :=
    if m.cardinality = .oneToMany then f one.point.value many.point.value
    else f many.point.value one.point.value
  let value := if returnBool then BinaryOp.truthValue outcome.keep else outcome.value
  ⟨⟨m.resultLabels op returnBool many.labels one.labels, .ofValue many.point.timestamp value⟩,
    manyIndex, !outcome.keep && !returnBool⟩

def pairs (f : Float → Float → Outcome) (op : BinaryOp) (m : VectorMatching) (returnBool : Bool)
    (p : Pile) : List MatchResult :=
  p.many.zipIdx.flatMap fun s => p.one.map fun t => pairResult f op m returnBool s.1 s.2 t

def group (cardinality : Cardinality) (p : Pile) (result : List MatchResult)
    (error : Option MatchError) : MatchGroup :=
  if cardinality = .oneToMany then
    ⟨p.labels, p.one, p.oneCount, p.many, p.manyCount, result, error⟩
  else ⟨p.labels, p.many, p.manyCount, p.one, p.oneCount, result, error⟩

def evaluate (op : BinaryOp) (m : VectorMatching) (returnBool : Bool) (p : Pile) : MatchGroup :=
  match op.elementwise? with
  | none => p.group m.cardinality (taken (p.setSamples op)) none
  | some f =>
    match p.error? m.cardinality with
    | some e => p.group m.cardinality [] (some e)
    | none => p.group m.cardinality (p.pairs f op m returnBool) none

end Pile

structure Sorting where
  piles : List Pile
  keys : List String

namespace Sorting

def start : Sorting := ⟨[], []⟩

def add (m : VectorMatching) (limits : MatchLimits) (role : Pile.Role) (g : Sorting) (s : Sample) :
    Sorting :=
  let key := m.key s.labels
  let keys := if g.keys.contains key then g.keys else g.keys ++ [key]
  let piles :=
    if g.piles.any (·.key == key) then
      g.piles.map fun p => if p.key = key then p.add limits.maxSeries role s else p
    else if belowLimit limits.maxGroups g.piles.length then
      g.piles ++ [(Pile.new key (m.groupLabels s.labels)).add limits.maxSeries role s]
    else g.piles
  ⟨piles, keys⟩

def ofSamples (m : VectorMatching) (limits : MatchLimits) (many one : List Sample) : Sorting :=
  many.foldl (add m limits .many) (one.foldl (add m limits .one) start)

end Sorting

namespace MatchTable

/-- Matches two vectors and applies the operator. The many side is on the left, but on the right
where one series matches many. -/
def compute (op : BinaryOp) (m : VectorMatching) (returnBool : Bool) (lhs rhs : List Sample)
    (limits : MatchLimits) : MatchTable :=
  let sorting :=
    if m.cardinality = .oneToMany then Sorting.ofSamples m limits rhs lhs
    else Sorting.ofSamples m limits lhs rhs
  ⟨sorting.piles.map (Pile.evaluate op m returnBool), sorting.keys.length⟩

end MatchTable

end PromTree
