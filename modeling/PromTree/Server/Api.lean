import PromTree.Json.Reader
import PromTree.Sample.Codec
import PromTree.Server.Settings
import PromTree.Server.Status
import PromTree.Server.Url

namespace PromTree

inductive ApiError where
  | aborted
  | malformed
  | status (code : Nat)
  | refused (reason : String)
  | missingData
  | missingDatasource
  deriving DecidableEq

namespace ApiError

def message : ApiError → String
  | .aborted => "request aborted"
  | .malformed => "HTTP request failed"
  | .status code => "unexpected HTTP status " ++ HttpStatus.text code
  | .refused reason => reason
  | .missingData => "missing \"data\" field in response JSON"
  | .missingDatasource => "proxy access requires a datasource ID"

end ApiError

inductive ApiCall where
  | query (text : String) (time : Option Binary64)
  | queryRange (text : String) (start stop step : Binary64)
  | series (matchers : List String)
  | labelNames
  | labelValues (name : String)
  | metadata

namespace ApiCall

def resource : ApiCall → String
  | .query text time =>
    "/api/v1/query?query=" ++ Url.encodeComponent text ++
      time.elim "" fun t => "&time=" ++ SampleValue.text t
  | .queryRange text start stop step =>
    "/api/v1/query_range?query=" ++ Url.encodeComponent text ++ "&start=" ++
      SampleValue.text start ++ "&end=" ++ SampleValue.text stop ++ "&step=" ++
      SampleValue.text step
  | .series matchers =>
    "/api/v1/series?" ++
      String.intercalate "&" (matchers.map fun m => "match[]=" ++ Url.encodeComponent m)
  | .labelNames => "/api/v1/labels"
  | .labelValues name => "/api/v1/label/" ++ Url.encodeComponent name ++ "/values"
  | .metadata => "/api/v1/metadata"

end ApiCall

def trimSlashes (s : String) : String := .ofList (s.toList.reverse.dropWhile (· == '/')).reverse

namespace ServerSettings

def resourceUrl (s : ServerSettings) (pathPrefix resource : String) : Except ApiError String :=
  match s.access, s.datasourceId with
  | .direct, _ => .ok (trimSlashes s.url ++ resource)
  | .proxy, some id =>
    .ok (trimSlashes pathPrefix ++ "/api/grafana/api/datasources/proxy/" ++ Nat.repr id.toNat ++
      resource)
  | .proxy, none => .error .missingDatasource

end ServerSettings

structure HttpResponse where
  status : Nat
  body : String

structure Envelope (α : Type) where
  failed : Bool
  data : Option α
  error : Option String

namespace Envelope

def ofJson? (decode : Json → Option α) (j : Json) : Option (Envelope α) := do
  let fields ← j.recordWith? 2 ["status", "data", "errorType", "error", "warnings"]
  let failed ← Json.oneOf? [false, true] (fun b => if b then "error" else "success")
    (Json.field fields "status")
  let data ← Json.nullable decode (Json.field fields "data")
  let _ ← Json.nullable Json.string? (Json.field fields "errorType")
  let error ← Json.nullable Json.string? (Json.field fields "error")
  let _ ← Json.fieldOr fields "warnings" [] (Json.list? Json.string?)
  some ⟨failed, data, error⟩

def result (e : Envelope α) : Except ApiError α :=
  if e.failed then
    .error (.refused (e.error.getD "missing \"error\" field in response JSON"))
  else
    match e.data with
    | some data => .ok data
    | none => .error .missingData

end Envelope

namespace HttpResponse

def isTelling (r : HttpResponse) : Bool :=
  HttpStatus.isSuccess r.status || [400, 422, 503].contains r.status

def data (r : HttpResponse) (decode : Json → Option α) : Except ApiError α :=
  if r.isTelling then
    let body := if HttpStatus.hasNoBody r.status then "" else r.body
    match (Json.parse? body).bind (Envelope.ofJson? decode) with
    | some envelope => envelope.result
    | none => .error .malformed
  else .error (.status r.status)

end HttpResponse

structure MetricMetadata where
  type : String
  help : String
  unit : String
  deriving DecidableEq

namespace MetricMetadata

def toJson (m : MetricMetadata) : Json :=
  .ofFields [("type", .string m.type), ("help", .string m.help), ("unit", .string m.unit)]

def ofJson? (j : Json) : Option MetricMetadata := do
  let fields ← j.record? ["type", "help", "unit"]
  some ⟨← (Json.field fields "type").string?, ← (Json.field fields "help").string?,
    ← Json.fieldOr fields "unit" "" Json.string?⟩

end MetricMetadata

namespace ApiCall

def data (call : ApiCall) (r : HttpResponse) : Except ApiError Json :=
  match call with
  | .query .. | .queryRange .. => (r.data QueryResult.ofJson?).map QueryResult.toJson
  | .series _ => (r.data (Json.list? Labels.ofJson?)).map (.ofList Labels.toJson)
  | .labelNames | .labelValues _ => (r.data (Json.list? Json.string?)).map .ofStrings
  | .metadata =>
    (r.data (Json.sortedMap? (Json.list? MetricMetadata.ofJson?))).map
      (.ofSortedMap (.ofList MetricMetadata.toJson))

end ApiCall

end PromTree
