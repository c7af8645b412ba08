import PromTree.Json.Decoding
import PromTree.Sample.Basic

namespace PromTree

namespace Json

def binary64? : Json → Option Binary64
  | .number (.whole n) => some (.ofInt n)
  | .number (.binary x) => some x
  | _ => none

def sortedMap? (decode : Json → Option α) : Json → Option (SortedMap String α)
  | .object fields => do
    let entries ← fields.mapM fun f => (decode f.2).map (f.1, ·)
    some (.ofList entries)
  | _ => none

def ofSortedMap (encode : α → Json) (m : SortedMap String α) : Json :=
  .ofFields (m.toList.map fun e => (e.1, encode e.2))

end Json

namespace Labels

def toJson (m : Labels) : Json := .ofSortedMap .string m

def ofJson? : Json → Option Labels := Json.sortedMap? Json.string?

end Labels

namespace Point

def toJson (p : Point) : Json := .array [.ofBinary64 p.timestamp, .string p.text]

def ofJson? : Json → Option Point
  | .array [t, v] => do some ⟨← t.binary64?, ← v.string?⟩
  | _ => none

end Point

namespace Sample

def toJson (s : Sample) : Json :=
  .ofFields [("metric", Labels.toJson s.labels), ("value", s.point.toJson)]

def ofJson? (j : Json) : Option Sample := do
  let fields ← j.record? ["metric", "value"]
  some ⟨← Labels.ofJson? (Json.field fields "metric"), ← Point.ofJson? (Json.field fields "value")⟩

end Sample

namespace Series

def toJson (s : Series) : Json :=
  .ofFields [("metric", Labels.toJson s.labels), ("values", .ofList Point.toJson s.points)]

def ofJson? (j : Json) : Option Series := do
  let fields ← j.record? ["metric", "values"]
  some ⟨← Labels.ofJson? (Json.field fields "metric"),
    ← (Json.field fields "values").list? Point.ofJson?⟩

end Series

namespace QueryResult

def toJson : QueryResult → Json
  | .vector samples =>
    .ofFields [("resultType", .string "vector"), ("result", .ofList Sample.toJson samples)]
  | .matrix series =>
    .ofFields [("resultType", .string "matrix"), ("result", .ofList Series.toJson series)]
  | .scalar p => .ofFields [("resultType", .string "scalar"), ("result", p.toJson)]
  | .string p => .ofFields [("resultType", .string "string"), ("result", p.toJson)]

def ofJson? (j : Json) : Option QueryResult := do
  let fields ← j.record? ["resultType", "result"]
  let result := Json.field fields "result"
  match ← (Json.field fields "resultType").string? with
  | "vector" => (result.list? Sample.ofJson?).map .vector
  | "matrix" => (result.list? Series.ofJson?).map .matrix
  | "scalar" => (Point.ofJson? result).map .scalar
  | "string" => (Point.ofJson? result).map .string
  | _ => none

end QueryResult

end PromTree
