import EveNet.EgressState
import EveNet.DnsCache

/-!
# One round of the runtime

`reconcileOnce` is the round of the source: make sure the chain exists, find the
healthy egresses, set their routes and rules, then flush the policy chain and add the
rules of one policy after the other. It runs against the host's network state and the
cache's surroundings side by side.
-/

namespace EveNet

abbrev hostInterface : Interface := netInterface.sum cacheInterface

abbrev HostProgram := Program hostInterface Error

structure HostEnv where
  net : NetEnv
  cache : CacheEnv

abbrev HostState := NetState × CacheStore

abbrev host (env : HostEnv) : Handler hostInterface HostState :=
  (netHost env.net).both (cacheHost env.cache)

/-- An order in which a hash map may be walked. -/
structure MapOrder where
  walk : List EgressInterface → List EgressInterface
  perm : ∀ egresses, (walk egresses).Perm egresses

def ensureEgressRoute (exec : Executor) (egress : EgressInterface) : NetProgram Unit := do
  ensureRouteTableDefault exec egress
  ensureFwmarkRule exec egress

/-- The rules of a domain policy, from what its resolution returned. -/
def applyResolution (exec : Executor) (cfg : Config) (policy : Policy) (egress : EgressInterface) :
    Except Error DomainResolution → NetProgram Unit
  | .error _ => .pure ()
  | .ok resolution =>
    Program.forEach (addPolicyRuleForResolvedIp exec cfg policy egress) resolution.ips

def applyPolicy (exec : Executor) (cfg : Config) (healthy : List EgressInterface)
    (policy : Policy) : HostProgram Unit :=
  match KeyedList.lookup (·.name) policy.action.egress healthy with
  | none => .pure ()
  | some egress =>
    match policy.matchSpec.domain with
    | some domain =>
      (Program.attempt (resolveForRuntime cfg domain exec.apply)).right.bind
        (fun outcome => (applyResolution exec cfg policy egress outcome).left)
    | none => (addPolicyRule exec cfg policy egress).left

/-- Routes and rules of the healthy egresses, then the chain of the enabled policies. -/
def rebuild (exec : Executor) (order : MapOrder) (cfg : Config)
    (healthy : List EgressInterface) : HostProgram Unit := do
  (Program.forEach (ensureEgressRoute exec) (order.walk healthy)).left
  (flushPolicyChain exec cfg).left
  Program.forEach (applyPolicy exec cfg healthy) cfg.enabledPolicies

def reconcileOnce (exec : Executor) (order : MapOrder) (cfg : Config) : HostProgram Unit := do
  (ensureTableAndChain exec cfg).left
  let healthy ← (healthyEgressMap exec cfg).left
  if healthy = [] ∧ cfg.runtime.failClosed then (flushPolicyChain exec cfg).left
  else rebuild exec order cfg healthy

/-! ### A small host -/

/-- A host on which every command works and no cache file exists yet. -/
def quietHost : HostEnv where
  net := ⟨fun _ => .works, toString⟩
  cache :=
    { clock := fun _ => 1000
      lookups := fun _ _ => .error "no answer"
      readFails := fun _ => none
      mkdirFails := fun _ => none
      writes := fun _ => .done }

/-- The same host, except that one command fails. -/
def failingAt (k : ℕ) : HostEnv :=
  { quietHost with net := ⟨fun i => if i = k then .fails else .works, toString⟩ }

def linkUp : LinkState := ⟨true, some "up", true, .failed, .failed⟩

/-- A host before the first round, with every interface up. -/
def bareState : HostState :=
  (⟨⟨fun _ => false, fun _ => none, [], fun _ => []⟩, fun _ => linkUp, 0⟩, ⟨fun _ => .absent, 0⟩)

def listOrder : MapOrder := ⟨id, fun _ => .refl _⟩

def tunnel (name : String) (table fwmark : UInt32) : EgressInterface :=
  { name := name, kind := .tunnel, table := table, fwmark := fwmark }

def addressPolicy (id destIp egress : String) : Policy :=
  { id := id, matchSpec := { destIp := some destIp }, action := ⟨egress⟩ }

def domainPolicy (id domain egress : String) : Policy :=
  { id := id, matchSpec := { domain := some domain }, action := ⟨egress⟩ }

/-- A configuration of defaults around some egresses and policies. -/
def configOf (egresses : List EgressInterface) (policies : List Policy) : Config where
  version := 1
  wifiUnderlay := ⟨"wlan0"⟩
  egressInterfaces := egresses
  policies := policies

end EveNet
