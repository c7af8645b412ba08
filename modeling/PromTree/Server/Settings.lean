import PromTree.Json.Decoding

namespace PromTree

inductive Access where
  | direct
  | proxy
  deriving DecidableEq

namespace Access

def all : List Access := [.direct, .proxy]

def name : Access → String
  | .direct => "direct"
  | .proxy => "proxy"

end Access

structure ServerSettings where
  url : String
  access : Access
  datasourceId : Option UInt64
  withCredentials : Bool
  deriving DecidableEq

namespace ServerSettings

def ofUrl (url : String) : ServerSettings := ⟨url, .direct, none, false⟩

def defaultUrl : String := "https://demo.promlabs.com"

def default : ServerSettings := ofUrl defaultUrl

def toJson (s : ServerSettings) : Json :=
  .ofFields [("url", .string s.url), ("access", .string s.access.name),
    ("datasourceID", .ofOption (fun id => .ofNat id.toNat) s.datasourceId),
    ("withCredentials", .bool s.withCredentials)]

def ofJson? (j : Json) : Option ServerSettings := do
  let fields ← j.record? ["url", "access", "datasourceID", "withCredentials"]
  let url ← (Json.field fields "url").string?
  let access ← Json.oneOf? Access.all Access.name (Json.field fields "access")
  let datasourceId ← Json.nullable Json.uint64? (Json.field fields "datasourceID")
  let withCredentials ← (Json.field fields "withCredentials").bool?
  some ⟨url, access, datasourceId, withCredentials⟩

end ServerSettings

end PromTree
