import EveNet.Machine

/-!
# The commands that report

These commands read the host, the cache and the configuration and print what they find. What a
function of the source returns is modelled; of the printing functions only what they ask and
where they stop.
-/

namespace EveNet

section Text

def lowered (s : String) : List Char := s.toList.flatMap toLowercase

def contains (text : List Char) (pattern : String) : Bool := pattern.toList <:+: text

def trimmed (s : String) : String := String.ofList (trim s.toList)

end Text

/-! ### Interfaces -/

def interfaceExists (name : String) : NetProgram Bool :=
  Program.ask (I := netInterface) (.interfaceExists name)

def interfaceState (name : String) : NetProgram (Option String) := do
  if ← interfaceExists name then do
    let raw ← Program.ask (I := netInterface) (.operstate name)
    pure (raw.map trimmed)
  else pure none

def inspectUnderlay (wifi : WifiUnderlay) : NetProgram Unit := do
  let _ ← interfaceExists wifi.interface

/-! ### WireGuard -/

structure WgIfaceStatus where
  name : String
  enabledInConfig : Bool
  linkExists : Bool
  operstate : String
  wgConfigured : Bool
  peerCount : ℕ
  note : String

/-- The lines of `wg show` that start a peer. -/
def peerLines (stdout : String) : List (List Char) :=
  (lines stdout.toList).filter
    (fun line => "peer:".toList <+: line.dropWhile isWhitespace)

/-- The note on an interface that `wg show` refuses. -/
def wgFailureNote (stderr : String) : String :=
  let low := lowered stderr
  if contains low "no such device" ∨ contains low "not a wireguard interface" then
    "not currently managed by WireGuard"
  else if contains low "operation not permitted" ∨ contains low "permission denied" then
    "permission denied; try sudo"
  else trimmed stderr

def inspectWgInterface (name : String) (enabledInConfig : Bool) : MachineProgram WgIfaceStatus := do
  let linkExists ← onNet (interfaceExists name)
  let operstate ← onNet (interfaceState name)
  let status : WgIfaceStatus :=
    ⟨name, enabledInConfig, linkExists, operstate.getD "missing", false, 0, ""⟩
  match ← probe "wg" ["show", name] with
  | .exited true stdout _ =>
    let wgConfigured : Bool := ¬ trimmedEmpty stdout
    let peerCount := (peerLines stdout).length
    pure { status with
      wgConfigured := wgConfigured
      peerCount := peerCount
      note := if wgConfigured ∧ peerCount = 0 then
        "WireGuard interface exists but has no peers" else "" }
  | .exited false _ stderr => pure { status with note := wgFailureNote stderr }
  | .notSpawned _ => pure { status with note := "wg command missing" }

def wireguardSummary (name : String) : MachineProgram String := do
  let status ← inspectWgInterface name false
  if ¬ status.linkExists then pure "link missing"
  else if ¬ status.wgConfigured then pure "link exists, wg not configured"
  else pure ("configured, peers=" ++ toString status.peerCount)

def commandLabel (program : String) : MachineProgram String := do
  match ← probe "sh" ["-c", "command -v " ++ program] with
  | .exited true stdout _ => pure (trimmed stdout)
  | _ => pure "missing"

def printWireguardStatus (cfg : Config) : MachineProgram Unit := do
  let _ ← commandLabel "wg"
  let _ ← commandLabel "wg-quick"
  let _ ← probe "wg" ["--version"]
  Program.forEach (fun egress => do let _ ← inspectWgInterface egress.name egress.enabled)
    (cfg.egressInterfaces.filter (fun egress => egress.kind = .wireguard))

/-! ### Tunnels -/

structure InterfaceInfo where
  name : String
  operstate : String
  kindHint : String

def kindHint (name : String) : Option String :=
  let lower := lowered name
  if "amn".toList <+: lower then some "amnezia/tun"
  else if "tun".toList <+: lower then some "tun"
  else if "wg".toList <+: lower then some "wireguard"
  else if "vpn".toList <+: lower then some "vpn"
  else none

/-- The interfaces among the entries of the directory, up to the first entry that fails. -/
def collectInterfaces (out : List InterfaceInfo) :
    List (Except String String) → MachineProgram (List InterfaceInfo)
  | [] => .pure out
  | .error cause :: _ => .fail [cause]
  | .ok name :: entries =>
    match kindHint name with
    | none => collectInterfaces out entries
    | some hint => do
      let raw ← onNet (Program.ask (I := netInterface) (.operstate name))
      collectInterfaces (out ++ [⟨name, trimmed (raw.getD "unknown"), hint⟩]) entries

def detectInterfaces : MachineProgram (List InterfaceInfo) := do
  match ← readDir "/sys/class/net" with
  | .error cause => .fail [cause]
  | .ok entries => do
    let out ← collectInterfaces [] entries
    pure (KeyedList.sortBy (·.name) out)

def printTunnelDetect : MachineProgram Unit := do
  let _ ← detectInterfaces

/-! ### Status -/

inductive ProbeState where
  | ok
  | missing
  | permissionDenied
  | error
  deriving DecidableEq

def nftProbe (args : List String) : MachineProgram ProbeState := do
  match ← probe "nft" args with
  | .exited true _ _ => pure .ok
  | .exited false _ stderr =>
    let low := lowered stderr
    if contains low "operation not permitted" ∨ contains low "permission denied" ∨
        contains low "not enough privileges" then pure .permissionDenied
    else if contains low "no such file or directory" ∨ contains low "does not exist" ∨
        contains low "not found" then pure .missing
    else pure .error
  | .notSpawned _ => pure .error

def nftStdout (args : List String) : MachineProgram (Option String) := do
  match ← probe "nft" args with
  | .exited _ stdout _ => pure (some stdout)
  | .notSpawned _ => pure none

def printUnderlay (cfg : Config) : NetProgram Unit := do
  let _ ← interfaceExists cfg.wifiUnderlay.interface
  let _ ← interfaceState cfg.wifiUnderlay.interface

/-- The printed policy chain, empty when it cannot be listed. -/
def printNftStatus (cfg : Config) : MachineProgram String := do
  let chainArgs := ["list", "chain", "inet", cfg.nft.table, cfg.nft.outputChain]
  let _ ← nftProbe ["list", "table", "inet", cfg.nft.table]
  if (← nftProbe chainArgs) = .ok then do
    let stdout ← nftStdout chainArgs
    pure (stdout.getD "")
  else pure ""

/-- The drift of a direct egress, when it can be inspected. -/
def printRuntimeState (egress : EgressInterface) : NetProgram Unit :=
  if egress.kind = .direct then do
    let _ ← Program.attempt (δ := Error) (inspectDirectEgress egress.name)
  else .pure ()

def printWireguard (egress : EgressInterface) : MachineProgram Unit :=
  if egress.kind = .wireguard then do
    let _ ← wireguardSummary egress.name
  else .pure ()

def printOneEgress (egress : EgressInterface) : MachineProgram Unit := do
  let _ ← onNet (interfaceState egress.name)
  let _ ← onNet (Executor.captureOrEmpty "ip" ["route", "show", "table", toString egress.table])
  onNet (printRuntimeState egress)
  printWireguard egress

def printEgressStatus (cfg : Config) : MachineProgram Unit := do
  let _ ← onNet (Executor.captureOrEmpty "ip" ["rule", "show"])
  Program.forEach printOneEgress cfg.egressInterfaces

/-- The clock is read for the freshness of an entry with addresses. -/
def printDomainPolicyStatus (cfg : Config) (egressName domain : String) : CacheProgram Unit :=
  if (KeyedList.lookup (·.name) egressName cfg.egressInterfaces).isNone then .pure ()
  else do
    match ← Program.attempt (resolveForRuntime cfg domain false) with
    | .error _ => pure ()
    | .ok resolution =>
      if resolution.ips ≠ [] ∧ resolution.entry.isSome then do
        let _ ← nowEpoch
      else pure ()

def printPolicyStatus (cfg : Config) : CacheProgram Unit :=
  Program.forEach (fun policy =>
    match policy.matchSpec.domain with
    | some domain => printDomainPolicyStatus cfg policy.action.egress domain
    | none => .pure ()) cfg.policies

def printStatus (cfg : Config) : MachineProgram Unit := do
  onNet (printUnderlay cfg)
  let _ ← printNftStatus cfg
  printEgressStatus cfg
  onCache (printPolicyStatus cfg)

/-! ### The cache -/

/-- The configured domains, each with its last entry in the cache. -/
def configuredDomainCacheSnapshot (cfg : Config) :
    CacheProgram (List (String × Option DnsCacheEntry)) := do
  let cache ← loadCacheOrEmpty cfg.dnsCache.path
  let domains ← Program.ofExcept
    ((cfg.policies.filterMap (fun policy => policy.matchSpec.domain)).mapM normalizeDomain)
  pure ((uniqueSorted domains).map (fun domain =>
    (domain, (cache.entries.filter (fun entry => entry.domain = domain)).getLast?)))

def cacheFreshnessLabel (expiresAtEpoch now : UInt64) : String :=
  if expiresAtEpoch > now then "FRESH" else "STALE"

/-- The printed state of each domain: the label and the entry it is about, if there is one. -/
def printDnsCacheStatus (cfg : Config) :
    CacheProgram (List (String × Option (String × DnsCacheEntry))) := do
  match ← Program.attempt (configuredDomainCacheSnapshot cfg) with
  | .error _ => pure []
  | .ok [] => pure []
  | .ok snapshot => do
    let now ← nowEpoch
    pure (snapshot.map (fun s =>
      (s.1, s.2.map (fun entry => (cacheFreshnessLabel entry.expiresAtEpoch now, entry)))))

/-! ### Domains -/

def printOneLive (domain : String) : CacheProgram (List String) := do
  let normalized ← Program.ofExcept (normalizeDomain domain)
  resolveDomainV4 normalized

def printDomainResolve (cfg : Config) (domain : Option String) : CacheProgram Unit :=
  match domain with
  | some domain => do
    let _ ← printOneLive domain
  | none => Program.forEach (fun domain => do let _ ← printOneLive domain)
      (cfg.policies.filterMap (fun policy => policy.matchSpec.domain))

def refreshCacheCommand (cfg : Config) (apply : Bool) : CacheProgram Unit := do
  let _ ← refreshDomainPolicies cfg apply

def pruneCacheCommand (cfg : Config) (apply : Bool) : CacheProgram Unit := do
  let _ ← pruneCacheToConfiguredDomains cfg apply

def printDnsInterceptStatus (cfg : Config) : Except Error Unit := do
  let _ ← (cfg.enabledPolicies.filterMap (fun policy => policy.matchSpec.domain)).mapM
    normalizeDomain

/-! ### Validation -/

/-- What `validate` warns of in the cache. -/
inductive CacheWarning where
  | disabled
  | unreadable (err : Error)
  | zeroAddresses (domain : String)
  | stale (domain : String) (age : UInt64)
  | lastError (domain err : String)
  | missing (domain : String)
  deriving DecidableEq

def entryWarnings (now : UInt64) (domain : String) (entry : DnsCacheEntry) : List CacheWarning :=
  (if entry.resolvedIpv4 = [] then [.zeroAddresses domain] else []) ++
    (if entry.expiresAtEpoch ≤ now then [.stale domain (now - entry.expiresAtEpoch)] else []) ++
    entry.lastError.toList.map (CacheWarning.lastError domain)

def validateDnsCache (cfg : Config) : CacheProgram (List CacheWarning) := do
  let domains ← Program.ofExcept (enabledDomains cfg)
  if domains = [] then pure []
  else if ¬ cfg.dnsCache.enabled then pure [.disabled]
  else do
    match ← Program.attempt (loadCacheOrEmpty cfg.dnsCache.path) with
    | .error err => pure [.unreadable err]
    | .ok cache => do
      let now ← nowEpoch
      pure (domains.flatMap (fun domain =>
        match cache.find domain with
        | some entry => entryWarnings now domain entry
        | none => [.missing domain]))

/-- A direct egress is inspected when its link is up. -/
def validateEgressInterface (egress : EgressInterface) : NetProgram Unit := do
  if ← interfaceExists egress.name then do
    let raw ← Program.ask (I := netInterface) (.operstate egress.name)
    if egress.kind = .direct ∧ raw.map trimmed = some "up" then do
      let _ ← Program.attempt (δ := Error) (inspectDirectEgress egress.name)
    else pure ()
  else pure ()

def validateEgressInterfaces (cfg : Config) : NetProgram Unit :=
  Program.forEach validateEgressInterface (cfg.egressInterfaces.filter (·.enabled))

def validateDomainPolicyCollisions (cfg : Config) : Except Error (List String) :=
  (cfg.policies.filterMap (fun policy => policy.matchSpec.domain)).mapM normalizeDomain

def printValidate (cfg : Config) : MachineProgram Unit := do
  let _ ← Program.ofExcept (validateDomainPolicyCollisions cfg)
  let _ ← onCache (validateDnsCache cfg)
  onNet (validateEgressInterfaces cfg)

end EveNet
