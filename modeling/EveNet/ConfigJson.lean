import EveNet.EgressState

/-!
# The configuration as JSON

A configuration is read from its JSON form field by field. A struct is an object, whose other
members are ignored, or an array with the values of its fields in their order.
-/

namespace EveNet

namespace Json

variable {α : Type}

/-! ### Plain values -/

def asBool : Json → Option Bool
  | .bool b => some b
  | _ => none

/-- A whole number below `bound`. -/
def asNat (bound : ℕ) : Json → Option ℕ
  | .num text =>
    let value := Nat.ofDigitChars 10 text.toList 0
    if text.toList.all Char.isDigit ∧ text ≠ "" ∧ value < bound then some value else none
  | _ => none

def asU32 (json : Json) : Option UInt32 := (json.asNat (2 ^ 32)).map UInt32.ofNat

def asU64 (json : Json) : Option UInt64 := (json.asNat (2 ^ 64)).map UInt64.ofNat

/-- Either `null` or a value. -/
def nullable (read : Json → Option α) : Json → Option (Option α)
  | .null => some none
  | json => (read json).map some

def listOf (read : Json → Option α) (json : Json) : Option (List α) :=
  json.asArray.bind (fun items => items.mapM read)

/-! ### Structs -/

/-- The values of the named fields. An object gives none of them twice; an array has at least
`least` values and none too many. -/
def fields (names : List String) (least : ℕ) : Json → Option (String → Option Json)
  | .obj members =>
    if ((members.map Prod.fst).filter (· ∈ names)).Nodup then
      some (fun name => (Json.obj members).get name)
    else none
  | .arr items =>
    if least ≤ items.length ∧ items.length ≤ names.length then
      some (fun name => items[names.idxOf name]?)
    else none
  | _ => none

end Json

section Fields

variable {α : Type}

def required (read : Json → Option α) (field : Option Json) : Option α := field.bind read

def withDefault (default : α) (read : Json → Option α) : Option Json → Option α
  | none => some default
  | some json => read json

end Fields

/-! ### The records -/

def RuntimeConfig.decode (json : Json) : Option RuntimeConfig := do
  let field ← json.fields
    ["dry_run", "interval_sec", "fail_closed", "auto_refresh_direct_egress"] 0
  let dryRun ← withDefault true Json.asBool (field "dry_run")
  let intervalSec ← withDefault 15 Json.asU64 (field "interval_sec")
  let failClosed ← withDefault true Json.asBool (field "fail_closed")
  let autoRefresh ← withDefault true Json.asBool (field "auto_refresh_direct_egress")
  some ⟨dryRun, intervalSec, failClosed, autoRefresh⟩

def NftConfig.decode (json : Json) : Option NftConfig := do
  let field ← json.fields ["table", "output_chain"] 0
  let table ← withDefault "eve_net" Json.asStr (field "table")
  let outputChain ← withDefault "output_mangle" Json.asStr (field "output_chain")
  some ⟨table, outputChain⟩

def DnsCacheConfig.decode (json : Json) : Option DnsCacheConfig := do
  let field ← json.fields
    ["enabled", "path", "ttl_sec", "stale_grace_sec", "fail_closed_unresolved",
      "unresolved_domain_mode", "dns_interception_enabled"] 0
  let enabled ← withDefault true Json.asBool (field "enabled")
  let path ← withDefault "/var/lib/eve-net/dns-cache.json" Json.asStr (field "path")
  let ttlSec ← withDefault 300 Json.asU64 (field "ttl_sec")
  let staleGraceSec ← withDefault 3600 Json.asU64 (field "stale_grace_sec")
  let failClosedUnresolved ← withDefault true Json.asBool (field "fail_closed_unresolved")
  let unresolvedDomainMode ← withDefault "soft_fail_closed_l3" Json.asStr
    (field "unresolved_domain_mode")
  let dnsInterceptionEnabled ← withDefault false Json.asBool (field "dns_interception_enabled")
  some ⟨enabled, path, ttlSec, staleGraceSec, failClosedUnresolved, unresolvedDomainMode,
    dnsInterceptionEnabled⟩

/-- The last two flags only have to be read. -/
def DnsInterceptionConfig.decode (json : Json) : Option DnsInterceptionConfig := do
  let field ← json.fields
    ["enabled", "listen_addr", "upstream_addr", "upstreams", "timeout_ms", "cache_answers",
      "deny_unresolved_policy_domains", "deny_aaaa_for_policy_domains", "audit_log_queries",
      "auto_redirect_enabled"] 0
  let enabled ← withDefault false Json.asBool (field "enabled")
  let listenAddr ← withDefault "127.0.0.1:5533" Json.asStr (field "listen_addr")
  let upstreamAddr ← withDefault "1.1.1.1:53" Json.asStr (field "upstream_addr")
  let upstreams ← withDefault [] (Json.listOf Json.asStr) (field "upstreams")
  let timeoutMs ← withDefault 1500 Json.asU64 (field "timeout_ms")
  let cacheAnswers ← withDefault true Json.asBool (field "cache_answers")
  let denyUnresolved ← withDefault true Json.asBool (field "deny_unresolved_policy_domains")
  let denyAaaa ← withDefault true Json.asBool (field "deny_aaaa_for_policy_domains")
  let _ ← withDefault true Json.asBool (field "audit_log_queries")
  let _ ← withDefault false Json.asBool (field "auto_redirect_enabled")
  some ⟨enabled, listenAddr, upstreamAddr, upstreams, timeoutMs, cacheAnswers, denyUnresolved,
    denyAaaa⟩

/-- The bands and the note only have to be read. -/
def WifiUnderlay.decode (json : Json) : Option WifiUnderlay := do
  let field ← json.fields ["interface", "allowed_bands", "note"] 0
  let interface ← required Json.asStr (field "interface")
  let _ ← withDefault [] (Json.listOf Json.asStr) (field "allowed_bands")
  let _ ← withDefault "" Json.asStr (field "note")
  some ⟨interface⟩

def EgressKind.ofName (name : String) : Option EgressKind :=
  if name = "direct" then some .direct
  else if name = "wireguard" then some .wireguard
  else if name = "tunnel" then some .tunnel
  else none

/-- A kind is its name, or an object with the name and `null`. -/
def EgressKind.decode : Json → Option EgressKind
  | .str name => EgressKind.ofName name
  | .obj [(name, .null)] => EgressKind.ofName name
  | _ => none

def HealthCheck.decode (json : Json) : Option HealthCheck := do
  let field ← json.fields ["enabled", "target_ip", "timeout_ms"] 0
  let enabled ← withDefault false Json.asBool (field "enabled")
  let targetIp ← withDefault "1.1.1.1" Json.asStr (field "target_ip")
  let timeoutMs ← withDefault 1500 Json.asU64 (field "timeout_ms")
  some ⟨enabled, targetIp, timeoutMs⟩

def egressFields : List String :=
  ["enabled", "name", "kind", "gateway", "source_ip", "table", "fwmark", "rule_priority",
    "healthcheck"]

def EgressInterface.decode (json : Json) : Option EgressInterface := do
  let field ← json.fields egressFields 0
  let enabled ← withDefault true Json.asBool (field "enabled")
  let name ← required Json.asStr (field "name")
  let kind ← required EgressKind.decode (field "kind")
  let gateway ← withDefault none (Json.nullable Json.asStr) (field "gateway")
  let sourceIp ← withDefault none (Json.nullable Json.asStr) (field "source_ip")
  let table ← required Json.asU32 (field "table")
  let fwmark ← required Json.asU32 (field "fwmark")
  let rulePriority ← withDefault 1000 Json.asU32 (field "rule_priority")
  let healthcheck ← withDefault {} HealthCheck.decode (field "healthcheck")
  some ⟨enabled, name, kind, gateway, sourceIp, table, fwmark, rulePriority, healthcheck⟩

/-- In an array each of the four values has to be there, if only as `null`. -/
def MatchSpec.decode (json : Json) : Option MatchSpec := do
  let field ← json.fields ["dest_ip", "dest_cidr", "uid", "domain"] 4
  let destIp ← withDefault none (Json.nullable Json.asStr) (field "dest_ip")
  let destCidr ← withDefault none (Json.nullable Json.asStr) (field "dest_cidr")
  let uid ← withDefault none (Json.nullable Json.asU32) (field "uid")
  let domain ← withDefault none (Json.nullable Json.asStr) (field "domain")
  some ⟨destIp, destCidr, uid, domain⟩

def ActionSpec.decode (json : Json) : Option ActionSpec := do
  let field ← json.fields ["egress"] 0
  let egress ← required Json.asStr (field "egress")
  some ⟨egress⟩

def policyFields : List String := ["id", "enabled", "match", "action"]

def Policy.decode (json : Json) : Option Policy := do
  let field ← json.fields policyFields 0
  let id ← required Json.asStr (field "id")
  let enabled ← withDefault true Json.asBool (field "enabled")
  let matchSpec ← required MatchSpec.decode (field "match")
  let action ← required ActionSpec.decode (field "action")
  some ⟨id, enabled, matchSpec, action⟩

def configFields : List String :=
  ["version", "runtime", "nft", "dns_cache", "dns_interception", "wifi_underlay",
    "egress_interfaces", "policies"]

def Config.decode (json : Json) : Option Config := do
  let field ← json.fields configFields 0
  let version ← required Json.asU32 (field "version")
  let runtime ← withDefault {} RuntimeConfig.decode (field "runtime")
  let nft ← withDefault {} NftConfig.decode (field "nft")
  let dnsCache ← withDefault {} DnsCacheConfig.decode (field "dns_cache")
  let dnsInterception ← withDefault {} DnsInterceptionConfig.decode (field "dns_interception")
  let wifiUnderlay ← required WifiUnderlay.decode (field "wifi_underlay")
  let egressInterfaces ← required (Json.listOf EgressInterface.decode) (field "egress_interfaces")
  let policies ← required (Json.listOf Policy.decode) (field "policies")
  some ⟨version, runtime, nft, dnsCache, dnsInterception, wifiUnderlay, egressInterfaces, policies⟩

end EveNet
