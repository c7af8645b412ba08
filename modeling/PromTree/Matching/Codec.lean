import PromTree.Matching.Groups
import PromTree.Sample.Codec

namespace PromTree

namespace ScalarRow

def toJson (r : ScalarRow) : Json :=
  .ofFields [("input", r.input.toJson), ("output", r.output.toJson), ("kept", .bool r.kept)]

end ScalarRow

namespace Side

def name : Side → String
  | .left => "left"
  | .right => "right"

end Side

namespace MatchError

def toJson : MatchError → Json
  | .duplicate side =>
    .ofFields [("type", .string "multipleMatchesForOneToOneMatching"),
      ("dupeSide", .string side.name)]
  | .duplicatesOnBothSides => .ofFields [("type", .string "multipleMatchesOnBothSides")]
  | .duplicatesOnOneSide => .ofFields [("type", .string "multipleMatchesOnOneSide")]

end MatchError

namespace MatchResult

def toJson (r : MatchResult) : Json :=
  .ofFields [("sample", r.sample.toJson), ("manySideIdx", .ofNat r.manyIndex),
    ("filtered", .bool r.filtered)]

end MatchResult

namespace MatchGroup

def toJson (g : MatchGroup) : Json :=
  .ofFields [("groupLabels", Labels.toJson g.labels), ("lhs", .ofList Sample.toJson g.lhs),
    ("lhsCount", .ofNat g.lhsCount), ("rhs", .ofList Sample.toJson g.rhs),
    ("rhsCount", .ofNat g.rhsCount), ("result", .ofList MatchResult.toJson g.result),
    ("error", .ofOption MatchError.toJson g.error)]

end MatchGroup

namespace MatchTable

def toFields (t : MatchTable) : List (String × Json) :=
  [("groups", .ofList MatchGroup.toJson t.groups), ("numGroups", .ofNat t.numGroups)]

end MatchTable

end PromTree
