import EveNet.DomainName
import EveNet.SocketAddr

/-!
# The policy configuration

The record types follow the JSON configuration, with the defaults that a missing
field takes. A cache file and its entries are stored in the same vocabulary.
-/

namespace EveNet

structure RuntimeConfig where
  dryRun : Bool := true
  intervalSec : UInt64 := 15
  failClosed : Bool := true
  autoRefreshDirectEgress : Bool := true
  deriving DecidableEq

structure NftConfig where
  table : String := "eve_net"
  outputChain : String := "output_mangle"
  deriving DecidableEq

structure DnsCacheConfig where
  enabled : Bool := true
  path : String := "/var/lib/eve-net/dns-cache.json"
  ttlSec : UInt64 := 300
  staleGraceSec : UInt64 := 3600
  failClosedUnresolved : Bool := true
  unresolvedDomainMode : String := "soft_fail_closed_l3"
  dnsInterceptionEnabled : Bool := false
  deriving DecidableEq

structure DnsInterceptionConfig where
  enabled : Bool := false
  listenAddr : String := "127.0.0.1:5533"
  upstreamAddr : String := "1.1.1.1:53"
  upstreams : List String := []
  timeoutMs : UInt64 := 1500
  cacheAnswers : Bool := true
  denyUnresolvedPolicyDomains : Bool := true
  denyAaaaForPolicyDomains : Bool := true
  deriving DecidableEq

structure WifiUnderlay where
  interface : String
  deriving DecidableEq

inductive EgressKind where
  | direct
  | wireguard
  | tunnel
  deriving DecidableEq

structure HealthCheck where
  enabled : Bool := false
  targetIp : String := "1.1.1.1"
  timeoutMs : UInt64 := 1500
  deriving DecidableEq

structure EgressInterface where
  enabled : Bool := true
  name : String
  kind : EgressKind
  gateway : Option String := none
  sourceIp : Option String := none
  table : UInt32
  fwmark : UInt32
  rulePriority : UInt32 := 1000
  healthcheck : HealthCheck := {}
  deriving DecidableEq

structure MatchSpec where
  destIp : Option String := none
  destCidr : Option String := none
  uid : Option UInt32 := none
  domain : Option String := none
  deriving DecidableEq

structure ActionSpec where
  egress : String
  deriving DecidableEq

structure Policy where
  id : String
  enabled : Bool := true
  matchSpec : MatchSpec
  action : ActionSpec
  deriving DecidableEq

structure Config where
  version : UInt32
  runtime : RuntimeConfig := {}
  nft : NftConfig := {}
  dnsCache : DnsCacheConfig := {}
  dnsInterception : DnsInterceptionConfig := {}
  wifiUnderlay : WifiUnderlay
  egressInterfaces : List EgressInterface
  policies : List Policy
  deriving DecidableEq

structure DnsCacheEntry where
  domain : String
  resolvedIpv4 : List String
  resolvedAtEpoch : UInt64
  expiresAtEpoch : UInt64
  source : String
  lastError : Option String
  deriving DecidableEq

structure DnsCacheFile where
  version : UInt32
  generatedBy : String
  entries : List DnsCacheEntry
  deriving DecidableEq

/-- The policies that take part in a round. -/
def Config.enabledPolicies (cfg : Config) : List Policy :=
  cfg.policies.filter (fun policy => policy.enabled)

def trimmedEmpty (s : String) : Bool := (trim s.toList).isEmpty

/-! ### Upstream resolvers -/

namespace DnsInterceptionConfig

variable (dns : DnsInterceptionConfig)

def configuredUpstreamEntries : List String :=
  if dns.upstreams ≠ [] then dns.upstreams
  else if ¬ trimmedEmpty dns.upstreamAddr then [dns.upstreamAddr]
  else []

/-- Append the address of each well-formed entry that was not seen before. -/
def collectUpstreams (upstreams : List SocketAddr) : List String → List SocketAddr
  | [] => upstreams
  | entry :: entries =>
    if trimmedEmpty entry then collectUpstreams upstreams entries
    else
      match SocketAddr.parse (String.ofList (trim entry.toList)) with
      | none => collectUpstreams upstreams entries
      | some addr =>
        if addr ∈ upstreams then collectUpstreams upstreams entries
        else collectUpstreams (upstreams ++ [addr]) entries

def effectiveUpstreams : List SocketAddr := collectUpstreams [] dns.configuredUpstreamEntries

end DnsInterceptionConfig

end EveNet
