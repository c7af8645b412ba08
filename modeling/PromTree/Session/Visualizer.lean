import PromTree.Json.Decoding

namespace PromTree

inductive VisualizerTab where
  | table
  | graph
  | explain
  deriving DecidableEq

namespace VisualizerTab

def all : List VisualizerTab := [.table, .graph, .explain]

def name : VisualizerTab → String
  | .table => "table"
  | .graph => "graph"
  | .explain => "explain"

end VisualizerTab

structure Visualizer where
  tab : VisualizerTab
  endTime : Option Int64
  range : UInt64
  resolution : Option UInt64
  stacked : Bool
  deriving DecidableEq

namespace Visualizer

def default : Visualizer := ⟨.table, none, 3600000, none, false⟩

def toJson (v : Visualizer) : Json :=
  .ofFields [("activeTab", .string v.tab.name),
    ("endTime", .ofOption (fun t => .ofInt t.toInt) v.endTime),
    ("range", .ofNat v.range.toNat),
    ("resolution", .ofOption (fun r => .ofNat r.toNat) v.resolution),
    ("stacked", .bool v.stacked)]

def ofJson? (j : Json) : Option Visualizer := do
  let fields ← j.record? ["activeTab", "endTime", "range", "resolution", "stacked"]
  let tab ← Json.oneOf? VisualizerTab.all VisualizerTab.name (Json.field fields "activeTab")
  let endTime ← Json.nullable Json.int64? (Json.field fields "endTime")
  let range ← (Json.field fields "range").uint64?
  let resolution ← Json.nullable Json.uint64? (Json.field fields "resolution")
  let stacked ← (Json.field fields "stacked").bool?
  some ⟨tab, endTime, range, resolution, stacked⟩

end Visualizer

end PromTree
