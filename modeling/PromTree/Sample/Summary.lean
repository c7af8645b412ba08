import PromTree.Sample.Codec

namespace PromTree

structure LabelExample where
  value : String
  count : Nat
  deriving DecidableEq

structure Summary where
  numSeries : Nat
  queryTime : UInt64
  cardinalities : SortedMap String Nat
  examples : SortedMap String (List LabelExample)
  deriving DecidableEq

namespace Summary

def maxExamples : Nat := 5

abbrev Tally := SortedMap String (SortedMap String Nat)

def Tally.add (t : Tally) (name value : String) : Tally :=
  let counts := (t.find? name).getD .empty
  t.insert name (counts.insert value ((counts.find? value).getD 0 + 1))

def Tally.addSeries (t : Tally) (labels : Labels) : Tally :=
  labels.toList.foldl (fun t l => t.add l.1 l.2) t

def commonest (counts : SortedMap String Nat) : List LabelExample :=
  ((counts.toList.map fun e => LabelExample.mk e.1 e.2).mergeSort
    fun a b => decide (b.count ≤ a.count)).take maxExamples

def ofSeries (series : List Labels) (queryTime : UInt64) : Summary :=
  let tally := series.foldl Tally.addSeries SortedMap.empty
  ⟨series.length, queryTime, tally.mapValues SortedMap.size, tally.mapValues commonest⟩

def ofResult (result : QueryResult) (queryTime : UInt64) : Summary :=
  match result with
  | .vector samples => ofSeries (samples.map Sample.labels) queryTime
  | .matrix series => ofSeries (series.map Series.labels) queryTime
  | .scalar _ | .string _ => ⟨1, queryTime, .empty, .empty⟩

end Summary

namespace LabelExample

def toJson (e : LabelExample) : Json :=
  .ofFields [("value", .string e.value), ("count", .ofNat e.count)]

def ofJson? (j : Json) : Option LabelExample := do
  let fields ← j.record? ["value", "count"]
  some ⟨← (Json.field fields "value").string?, ← (Json.field fields "count").nat?⟩

end LabelExample

namespace Summary

def toFields (s : Summary) : List (String × Json) :=
  [("numSeries", .ofNat s.numSeries), ("queryTime", .ofNat s.queryTime.toNat),
    ("labelCardinalities", .ofSortedMap .ofNat s.cardinalities),
    ("labelExamples", .ofSortedMap (.ofList LabelExample.toJson) s.examples)]

def toJson (s : Summary) : Json := .ofFields s.toFields

def ofFields? (fields : List (String × Json)) : Option Summary := do
  some ⟨← (Json.field fields "numSeries").nat?, ← (Json.field fields "queryTime").uint64?,
    ← (Json.field fields "labelCardinalities").sortedMap? Json.nat?,
    ← (Json.field fields "labelExamples").sortedMap? (Json.list? LabelExample.ofJson?)⟩

def fieldNames : List String := ["numSeries", "queryTime", "labelCardinalities", "labelExamples"]

def ofJson? (j : Json) : Option Summary := do ofFields? (← j.record? fieldNames)

end Summary

end PromTree
