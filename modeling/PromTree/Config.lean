import PromTree.Matching.Groups
import PromTree.Server.Settings
import PromTree.Toml.Reader

namespace PromTree

namespace Toml

namespace Value

def string? : Value → Option String
  | .string s => some s
  | _ => none

def bool? : Value → Option Bool
  | .boolean b => some b
  | _ => none

def uint64? : Value → Option UInt64
  | .integer n => if 0 ≤ n ∧ n.toNat < UInt64.size then some (UInt64.ofNat n.toNat) else none
  | _ => none

def isEmpty : Value → Bool
  | .array items => items.isEmpty
  | .table _ entries => entries.isEmpty
  | _ => false

def name? : Value → Option String
  | .string s => some s
  | .table _ [(key, v)] => if v.isEmpty then some key else none
  | _ => none

def record? (required : Nat) (names : List String) : Value → Option Entries
  | .table _ entries => some entries
  | .array items => if required ≤ items.length then some (names.zip items) else none
  | .datetime => some []
  | _ => none

end Value

namespace Entries

def fieldOr (entries : Entries) (name : String) (absent : α) (decode : Value → Option α) :
    Option α :=
  match entries.lookup name with
  | none => some absent
  | some v => decode v

end Entries

end Toml

open Toml

structure Config where
  listenAddress : String
  server : ServerSettings
  timeout : UInt64
  maxGroups : Nat
  maxSeries : Nat
  deriving DecidableEq

namespace Config

def defaultAddress : String := "0.0.0.0:8080"

def defaultTimeout : UInt64 := 30

def defaultLimit : UInt64 := 100

def default : Config :=
  ⟨defaultAddress, .default, defaultTimeout, defaultLimit.toNat, defaultLimit.toNat⟩

def access? (v : Value) : Option Access := do
  let name ← v.name?
  Access.all.find? fun a => a.name = name

def section? (root : Entries) (name : String) (required : Nat) (names : List String) :
    Option Entries :=
  match root.lookup name with
  | none => some []
  | some v => v.record? required names

def ofToml? (root : Entries) : Option Config := do
  let server ← section? root "server" 0 ["listen_addr"]
  let listenAddress ← server.fieldOr "listen_addr" defaultAddress Value.string?
  let prometheus ← section? root "prometheus" 3
    ["url", "access", "datasource_id", "with_credentials", "timeout_secs"]
  let url ← prometheus.fieldOr "url" ServerSettings.defaultUrl Value.string?
  let access ← prometheus.fieldOr "access" .direct access?
  let datasourceId ← prometheus.fieldOr "datasource_id" none fun v => v.uint64?.map some
  let withCredentials ← prometheus.fieldOr "with_credentials" false Value.bool?
  let timeout ← prometheus.fieldOr "timeout_secs" defaultTimeout Value.uint64?
  let explain ← section? root "explain" 0 ["max_groups", "max_series_per_group"]
  let maxGroups ← explain.fieldOr "max_groups" defaultLimit Value.uint64?
  let maxSeries ← explain.fieldOr "max_series_per_group" defaultLimit Value.uint64?
  some ⟨listenAddress, ⟨url, access, datasourceId, withCredentials⟩, timeout, maxGroups.toNat,
    maxSeries.toNat⟩

def parse? (text : String) : Option Config := do ofToml? (← Toml.parse? text)

def override (c : Config) (url listenAddress : Option String) : Config :=
  { c with
    server := { c.server with url := url.getD c.server.url }
    listenAddress := listenAddress.getD c.listenAddress }

def limits (c : Config) : MatchLimits := ⟨some c.maxGroups, some c.maxSeries⟩

end Config

end PromTree
