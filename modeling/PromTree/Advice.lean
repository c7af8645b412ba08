import PromTree.Expr.Codec
import PromTree.Expr.Functions
import PromTree.Sample.Summary

namespace PromTree

structure Suggestion where
  title : String
  description : String
  replacement : Expr

structure Advice where
  warnings : List String
  suggestions : List Suggestion

namespace Signature

def rate : Signature := ⟨"rate", [.matrix], 0, .vector⟩

def deriv : Signature := ⟨"deriv", [.matrix], 0, .vector⟩

def histogramQuantile : Signature := ⟨"histogram_quantile", [.scalar, .vector], 0, .vector⟩

def strictCounterNames : List String := ["rate", "irate", "increase", "resets"]

def counterNames : List String :=
  strictCounterNames ++ ["absent", "absent_over_time", "count_over_time", "present_over_time"]

def takesCounters (f : Signature) : Bool := counterNames.contains f.name

end Signature

namespace Advice

instance : Append Advice := ⟨fun a b => ⟨a.warnings ++ b.warnings, a.suggestions ++ b.suggestions⟩⟩

def none : Advice := ⟨[], []⟩

def suggest (title description : String) (replacement : Expr) : Advice :=
  ⟨[], [⟨title, description, replacement⟩]⟩

def defaultRange : UInt64 := 300000

def rateOf? : Expr → Option Expr
  | .vectorSelector s => some (.call .rate [.matrixSelector s defaultRange])
  | .matrixSelector s r => some (.call .rate [.matrixSelector s r])
  | _ => Option.none

def sumOf (grouping : List String) (body : Expr) : Expr :=
  .aggregation .sum ⟨grouping, false⟩ Option.none body

def onStrictCounter (f : Signature) (args : List Expr) : Advice :=
  match args with
  | .matrixSelector s _ :: _ =>
    if Signature.strictCounterNames.contains f.name && !hasCounterSuffix s.name then
      ⟨[f.name ++ "() is only meant to be used on counter metrics, but " ++ s.name ++
          " does not look like a counter metric. Did you mean deriv()?"],
        [⟨"change to deriv()",
          "deriv() is more likely to be the correct function to call on " ++ s.name ++
            ", since it does not look like a counter metric.",
          .call .deriv args⟩]⟩
    else none
  | _ => none

def onRawCounter (f : Signature) (args : List Expr) : Advice :=
  if f.takesCounters then none
  else
    ⟨((args.filterMap Expr.selectorName).filter hasCounterSuffix).map fun name =>
      f.name ++ "() is not meant to be used on raw counter metrics, but " ++ name ++
        " looks like a counter metric. Did you mean to apply rate(), irate(), or increase() " ++
        "instead?", []⟩

def onCall : Expr → Advice
  | .call f args => onStrictCounter f args ++ onRawCounter f args
  | _ => none

def admitsRate : Option Expr → Bool
  | Option.none => true
  | some (.call f _) => !f.takesCounters
  | some _ => false

def onCounter (node : Expr) (parent : Option Expr) : Advice :=
  match node.selectorName, rateOf? node with
  | some name, some rate =>
    if admitsRate parent && hasCounterSuffix name then
      suggest "add rate()"
        (name ++ " looks like a counter metric. It usually makes sense to compute a counter's " ++
          "rate of increase before using it further.") rate
    else none
  | _, _ => none

def onBuckets (node : Expr) (parent : Option Expr) : Advice :=
  match node, rateOf? node with
  | .vectorSelector s, some rate =>
    if parent.isNone && "_bucket".toList.isSuffixOf s.name.toList then
      suggest "add histogram_quantile()"
        (s.name ++ " looks like a histogram metric. Do you want to calculate an aggregated " ++
          "quantile value from it?")
        (.call .histogramQuantile [.number "0.9", sumOf ["le"] rate])
    else none
  | _, _ => none

def keepLe (g : Grouping) : Grouping :=
  if g.without then ⟨g.labels.filter (· != "le"), true⟩ else ⟨g.labels ++ ["le"], false⟩

def onQuantile (node : Expr) (parent : Option Expr) : Advice :=
  match parent, node with
  | some (.call f _), .aggregation op grouping param body =>
    if f.name = "histogram_quantile" ∧ grouping.without = grouping.labels.contains "le" then
      ⟨["When passing an aggregated histogram into histogram_quantile(), you need to preserve " ++
          "the le (\"less-than-or-equal\") label in the aggregation."],
        [⟨"keep le label",
          "It looks like the le label is not preserved in this aggregation, but " ++
            "histogram_quantile() requires it.",
          .aggregation op (keepLe grouping) param body⟩]⟩
    else none
  | _, _ => none

def isSummable : Expr → Bool
  | .vectorSelector s => !hasCounterSuffix s.name
  | .call f _ => f.takesCounters
  | _ => false

def isAggregation : Option Expr → Bool
  | some (.aggregation ..) => true
  | _ => false

def onManySeries (node : Expr) (parent : Option Expr) (result : Option Summary) : Advice :=
  if isSummable node && result.any (1 < ·.numSeries) && !isAggregation parent then
    suggest "add sum()"
      ("This expression yields multiple series. Depending on your goal, it may make sense to " ++
        "aggregate over them.") (sumOf [] node)
  else none

def of (node : Expr) (parent : Option Expr) (result : Option Summary) : Advice :=
  onCall node ++ onCounter node parent ++ onBuckets node parent ++ onQuantile node parent ++
    onManySeries node parent result

def toJson (a : Advice) : Json :=
  .ofFields [("warnings", .ofStrings a.warnings),
    ("actions", .ofList (fun s : Suggestion => .ofFields [("title", .string s.title),
      ("description", .string s.description), ("newNode", s.replacement.toJson)]) a.suggestions)]

end Advice

end PromTree
