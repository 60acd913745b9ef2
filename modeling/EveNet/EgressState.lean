import EveNet.Routing
import EveNet.Validate

/-!
# Which egresses are usable in a round

An egress takes part in a round when it is enabled and its interface looks healthy. A
direct egress is taken with the gateway and source address the host has now. All of
this only reads the host: the functions without `Program` in their type say what is
read off the links, and the programs are shown to return just that and change nothing.
-/

namespace EveNet

/-! ### Health -/

def interfaceIsUsable (operstate : Option String) : Bool :=
  match operstate with
  | some raw => trim raw.toList = "up".toList ∨ trim raw.toList = "unknown".toList
  | none => false

/-- The ping timeout in whole seconds; the sum wraps as the release build's does. -/
def timeoutSec (timeoutMs : UInt64) : UInt64 := max ((timeoutMs + 999) / 1000) 1

def isEgressHealthy (egress : EgressInterface) (exec : Executor) : NetProgram Bool :=
  if ¬ egress.enabled then .pure false
  else .call (.interfaceExists egress.name) fun present =>
    (if present then .call (.operstate egress.name) fun raw => .pure (interfaceIsUsable raw)
      else .pure false : NetProgram Bool).bind fun usable =>
    if ¬ exec.apply then .pure true
    else if ¬ present then .pure false
    else if ¬ usable then .pure false
    else if ¬ egress.healthcheck.enabled then .pure true
    else Executor.status "ping" ["-I", egress.name, "-c", "1", "-W",
      toString (timeoutSec egress.healthcheck.timeoutMs), egress.healthcheck.targetIp]

/-! ### Direct egresses -/

namespace Json

def get (key : String) : Json → Option Json
  | .obj members => (members.find? (fun m => m.1 = key)).map Prod.snd
  | _ => none

def asArray : Json → Option (List Json)
  | .arr items => some items
  | _ => none

def asStr : Json → Option String
  | .str s => some s
  | _ => none

/-- The string member of the first element that has one. -/
def firstMember (key : String) (value : Json) : Option String :=
  value.asArray.bind (fun items => items.findSome? (fun item => (item.get key).bind asStr))

/-- The local address of an address object, when its family is `inet`. -/
def inetLocal (addr : Json) : Option String :=
  if (addr.get "family").bind asStr = some "inet" then (addr.get "local").bind asStr else none

end Json

def parseDefaultRouteGateway (routes : Json) : Option String := routes.firstMember "gateway"

def parseDefaultRoutePrefsrc (routes : Json) : Option String := routes.firstMember "prefsrc"

def parsePrimaryIpv4Addr (links : Json) : Option String :=
  links.asArray.bind (fun items => items.findSome? (fun link =>
    ((link.get "addr_info").bind Json.asArray).bind (fun addrs => addrs.findSome? Json.inetLocal)))

inductive DirectEgressDrift where
  | ok
  | gatewayDrift
  | sourceIpDrift
  | bothDrift
  | missingRuntimeDefaultRoute
  | missingRuntimeIpv4
  deriving DecidableEq

namespace DirectEgressDrift

def asStr : DirectEgressDrift → String
  | .ok => "OK"
  | .gatewayDrift => "GATEWAY_DRIFT"
  | .sourceIpDrift => "SOURCE_IP_DRIFT"
  | .bothDrift => "BOTH_DRIFT"
  | .missingRuntimeDefaultRoute => "MISSING_RUNTIME_DEFAULT_ROUTE"
  | .missingRuntimeIpv4 => "MISSING_RUNTIME_IPV4"

def isDrift (d : DirectEgressDrift) : Bool :=
  d = .gatewayDrift ∨ d = .sourceIpDrift ∨ d = .bothDrift

end DirectEgressDrift

structure DirectEgressRuntimeState where
  runtimeGateway : Option String
  runtimeSourceIp : Option String
  deriving DecidableEq

/-- A configured value that is not blank differs from the runtime one. -/
def drifted (configured : Option String) (runtime : String) : Bool :=
  match configured with
  | none => false
  | some value => ¬ (trim value.toList).isEmpty ∧ trim value.toList ≠ runtime.toList

def DirectEgressRuntimeState.drift (state : DirectEgressRuntimeState)
    (configuredGateway configuredSourceIp : Option String) : DirectEgressDrift :=
  match state.runtimeGateway, state.runtimeSourceIp with
  | none, _ => .missingRuntimeDefaultRoute
  | some _, none => .missingRuntimeIpv4
  | some gateway, some sourceIp =>
    match drifted configuredGateway gateway, drifted configuredSourceIp sourceIp with
    | false, false => .ok
    | true, false => .gatewayDrift
    | false, true => .sourceIpDrift
    | true, true => .bothDrift

def routeShowArgs (name : String) : List String :=
  ["-j", "route", "show", "default", "dev", name]

def addrShowArgs (name : String) : List String := ["-j", "-4", "addr", "show", "dev", name]

/-- The two listings give an error, an unparsable text or a JSON value. -/
def stdoutJson (args : List String) (context : String) :
    CommandOutput (Option Json) → Except Error (Option Json)
  | .notSpawned cause => .error [context, "failed to spawn ip", cause]
  | .failed => .error [context, "command failed: ip " ++ " ".intercalate args]
  | .stdout json => .ok json

/-- The runtime state that the two listings show. -/
def runtimeStateOf (name : String) (routeOut addrOut : CommandOutput (Option Json)) :
    Except Error DirectEgressRuntimeState := do
  let routes ← stdoutJson (routeShowArgs name)
    ("failed to inspect runtime default route for direct egress " ++ name) routeOut
  let addrs ← stdoutJson (addrShowArgs name)
    ("failed to inspect runtime IPv4 address for direct egress " ++ name) addrOut
  match routes, addrs with
  | some routes, some addrs =>
    pure ⟨parseDefaultRouteGateway routes,
      (parsePrimaryIpv4Addr addrs).or (parseDefaultRoutePrefsrc routes)⟩
  | _, _ => .error ["JSON error"]

def inspectDirectEgress (name : String) : NetProgram DirectEgressRuntimeState :=
  .call (.outputJson "ip" (routeShowArgs name)) fun
    | .stdout routes =>
      .call (.outputJson "ip" (addrShowArgs name)) fun addrs =>
        .ofExcept (runtimeStateOf name (.stdout routes) addrs)
    | out => .ofExcept (runtimeStateOf name out .failed)

/-- The egress a round uses for a direct egress in the given runtime state. -/
def refreshedEgress (cfg : Config) (egress : EgressInterface) (state : DirectEgressRuntimeState) :
    Except Error EgressInterface :=
  let drift := state.drift egress.gateway egress.sourceIp
  if drift = .missingRuntimeDefaultRoute ∨ drift = .missingRuntimeIpv4 then
    .error ["direct egress " ++ egress.name ++ " runtime state is incomplete: " ++ drift.asStr ++
      "; cannot safely apply route table"]
  else if ¬ drift.isDrift then .ok egress
  else if ¬ cfg.runtime.autoRefreshDirectEgress then
    .error ["direct egress " ++ egress.name ++ " has stale gateway/source_ip " ++
      egress.gateway.getD "none" ++ "/" ++ egress.sourceIp.getD "none" ++ "; runtime is " ++
      state.runtimeGateway.getD "none" ++ "/" ++ state.runtimeSourceIp.getD "none" ++
      "; run refresh-direct-egress --apply or set runtime.auto_refresh_direct_egress=true"]
  else .ok { egress with gateway := state.runtimeGateway, sourceIp := state.runtimeSourceIp }

def applyDirectEgressRuntimeState (exec : Executor) (cfg : Config) (egress : EgressInterface) :
    NetProgram EgressInterface :=
  if ¬ exec.apply then .pure egress
  else do
    let state ← inspectDirectEgress egress.name
    .ofExcept (refreshedEgress cfg egress state)

/-! ### The healthy egresses of a round -/

/-- The egress that goes into the map for a healthy one. -/
def runtimeEgress (exec : Executor) (cfg : Config) (egress : EgressInterface) :
    NetProgram EgressInterface :=
  if egress.kind = .direct then applyDirectEgressRuntimeState exec cfg egress else .pure egress

/-- The map from names to egresses, as a list with one element a name. -/
def collectHealthy (exec : Executor) (cfg : Config) (healthy : List EgressInterface) :
    List EgressInterface → NetProgram (List EgressInterface)
  | [] => .pure healthy
  | egress :: egresses => do
    if ← isEgressHealthy egress exec then do
      let e ← runtimeEgress exec cfg egress
      collectHealthy exec cfg (KeyedList.upsert (·.name) e healthy) egresses
    else collectHealthy exec cfg healthy egresses

def healthyEgressMap (exec : Executor) (cfg : Config) : NetProgram (List EgressInterface) :=
  collectHealthy exec cfg [] cfg.egressInterfaces

/-! ### Read off the links -/

def egressHealthy (links : String → LinkState) (egress : EgressInterface) : Bool :=
  egress.enabled && (links egress.name).present &&
    interfaceIsUsable (links egress.name).operstate &&
    (!egress.healthcheck.enabled || (links egress.name).pings)

def egressAt (links : String → LinkState) (cfg : Config) (egress : EgressInterface) :
    Except Error EgressInterface :=
  if egress.kind = .direct then
    (runtimeStateOf egress.name (links egress.name).defaultRouteJson
      (links egress.name).addrJson).bind (refreshedEgress cfg egress)
  else .ok egress

/-- The map of healthy egresses, from the links alone. -/
def healthyAt (links : String → LinkState) (cfg : Config) : List EgressInterface →
    List EgressInterface → Except Error (List EgressInterface)
  | healthy, [] => .ok healthy
  | healthy, egress :: egresses =>
    if egressHealthy links egress then
      (egressAt links cfg egress).bind
        (fun e => healthyAt links cfg (KeyedList.upsert (·.name) e healthy) egresses)
    else healthyAt links cfg healthy egresses

def healthyEgresses (links : String → LinkState) (cfg : Config) :
    Except Error (List EgressInterface) := healthyAt links cfg [] cfg.egressInterfaces

/-! ### The map and the configuration -/

/-- What the runtime state of an egress never changes. -/
def EgressInterface.fixed (egress : EgressInterface) : EgressInterface :=
  { egress with gateway := none, sourceIp := none }

/-- The healthy egresses as the configuration lists them. -/
def configuredHealthy (links : String → LinkState) (cfg : Config) : List EgressInterface :=
  cfg.egressInterfaces.filter (egressHealthy links)

theorem fixed_of_egressAt {links : String → LinkState} {cfg : Config} {egress e : EgressInterface}
    (h : egressAt links cfg egress = .ok e) : e.fixed = egress.fixed := by
  unfold egressAt at h
  split_ifs at h with hkind
  · obtain ⟨state, -, hstate⟩ := except_bind_eq_ok.mp h
    unfold refreshedEgress at hstate
    dsimp only at hstate
    split_ifs at hstate <;> (cases hstate; rfl)
  · rw [← Except.ok.inj h]

section Fixed

variable {e e' : EgressInterface} (h : e.fixed = e'.fixed)
include h

theorem name_eq_of_fixed : e.name = e'.name := by
  change e.fixed.name = e'.fixed.name
  rw [h]

theorem table_eq_of_fixed : e.table = e'.table := by
  change e.fixed.table = e'.fixed.table
  rw [h]

theorem fwmark_eq_of_fixed : e.fwmark = e'.fwmark := by
  change e.fixed.fwmark = e'.fixed.fwmark
  rw [h]

end Fixed

theorem fixed_of_healthyAt {links : String → LinkState} {cfg : Config}
    {start egresses healthy : List EgressInterface}
    (h : healthyAt links cfg start egresses = .ok healthy)
    (hnodup : (start.map (·.name) ++ egresses.map (·.name)).Nodup) :
    healthy.map (·.fixed) =
      start.map (·.fixed) ++ (egresses.filter (egressHealthy links)).map (·.fixed) := by
  induction egresses generalizing start with
  | nil =>
      rw [← Except.ok.inj h]
      simp
  | cons egress egresses ih =>
      rw [List.map_cons] at hnodup
      rw [healthyAt] at h
      by_cases hh : egressHealthy links egress = true
      · rw [if_pos hh] at h
        obtain ⟨e, he, hrest⟩ := except_bind_eq_ok.mp h
        have hfixed := fixed_of_egressAt he
        have hname : e.name = egress.name := name_eq_of_fixed hfixed
        have hfresh : e.name ∉ start.map (·.name) := by
          rw [hname]
          exact fun hm => (List.nodup_append.mp hnodup).2.2 _ hm _ (by simp) rfl
        rw [KeyedList.upsert_fresh _ hfresh] at hrest
        rw [ih hrest (by simpa [hname] using hnodup), List.filter_cons_of_pos hh]
        simp [hfixed]
      · rw [if_neg hh] at h
        rw [ih h (hnodup.sublist (List.Sublist.append_left (List.sublist_cons_self _ _) _)),
          List.filter_cons_of_neg hh]

/-- Up to the runtime state the map holds the healthy egresses in their configured order. -/
theorem fixed_of_healthyEgresses {links : String → LinkState} {cfg : Config}
    {healthy : List EgressInterface} (hcfg : Accepted cfg)
    (h : healthyEgresses links cfg = .ok healthy) :
    healthy.map (·.fixed) = (configuredHealthy links cfg).map (·.fixed) :=
  fixed_of_healthyAt h hcfg.names

section Reading

variable (env : NetEnv)

theorem run_isEgressHealthy (egress : EgressInterface) (s : NetState) :
    Program.run (netHost env) (isEgressHealthy egress applying) s =
      (.ok (egressHealthy s.links egress), s) := by
  unfold isEgressHealthy egressHealthy
  cases egress.enabled with
  | false => rfl
  | true =>
      cases hpresent : (s.links egress.name).present with
      | false => simp [netHost, hpresent]
      | true =>
          cases husable : interfaceIsUsable (s.links egress.name).operstate with
          | false => simp [netHost, hpresent, husable]
          | true =>
              cases hcheck : egress.healthcheck.enabled with
              | false => simp [netHost, hpresent, husable]
              | true => simp [netHost, hpresent, husable, Executor.status, pingExit]

theorem run_inspectDirectEgress (name : String) (s : NetState) :
    Program.run (netHost env) (inspectDirectEgress name) s =
      (runtimeStateOf name (s.links name).defaultRouteJson (s.links name).addrJson, s) := by
  unfold inspectDirectEgress
  simp only [Program.run_call, netHost, routeShowArgs, jsonListing]
  cases (s.links name).defaultRouteJson with
  | notSpawned cause => rfl
  | failed => rfl
  | stdout routes =>
      simp only [Program.run_call, netHost, addrShowArgs, jsonListing, Program.run_ofExcept]

theorem run_runtimeEgress (cfg : Config) (egress : EgressInterface) (s : NetState) :
    Program.run (netHost env) (runtimeEgress applying cfg egress) s =
      (egressAt s.links cfg egress, s) := by
  unfold runtimeEgress egressAt applyDirectEgressRuntimeState
  by_cases hkind : egress.kind = .direct
  · simp only [if_pos hkind, not_true_eq_false, if_false, Program.bind_eq, Program.run_bind,
      run_inspectDirectEgress]
    cases runtimeStateOf egress.name (s.links egress.name).defaultRouteJson
      (s.links egress.name).addrJson with
    | error e => rfl
    | ok state => exact Program.run_ofExcept _ _ _
  · rw [if_neg hkind, if_neg hkind]
    rfl

/-- The map is read off the links, and building it changes nothing. -/
theorem run_healthyEgressMap (cfg : Config) (s : NetState) :
    Program.run (netHost env) (healthyEgressMap applying cfg) s =
      (healthyEgresses s.links cfg, s) := by
  unfold healthyEgressMap healthyEgresses
  generalize ([] : List EgressInterface) = healthy
  induction cfg.egressInterfaces generalizing healthy with
  | nil => rfl
  | cons egress egresses ih =>
      rw [collectHealthy, Program.bind_eq, Program.run_bind_ok _ (run_isEgressHealthy env egress s),
        healthyAt]
      by_cases hh : egressHealthy s.links egress = true
      · rw [if_pos hh, if_pos hh, Program.bind_eq, Program.run_bind, run_runtimeEgress]
        cases egressAt s.links cfg egress with
        | error e => rfl
        | ok e => exact ih _
      · rw [if_neg hh, if_neg hh]
        exact ih _

/-- A call that leaves the host as it is. -/
def ReadsOnly (c : NetCall) : Prop := ∀ s, (netHost env c s).2 = s

theorem calls_isEgressHealthy (egress : EgressInterface) :
    (isEgressHealthy egress applying).Calls (ReadsOnly env) := by
  by_cases henabled : egress.enabled = true
  · rw [isEgressHealthy, if_neg (not_not.mpr henabled)]
    refine .call (fun s => rfl) (fun present => Program.Calls.bind ?_ (fun usable => ?_))
    · cases present with
      | false => exact .pure _
      | true => exact .call (fun s => rfl) (fun raw => .pure _)
    · simp only [not_true_eq_false, if_false]
      split_ifs
      · refine .call (fun s => by simp [netHost]) (fun exit => ?_)
        cases exit <;> exact .pure _
      · exact .pure _
      · exact .pure _
      · exact .pure _
  · rw [isEgressHealthy, if_pos henabled]
    exact .pure _

theorem calls_inspectDirectEgress (name : String) :
    (inspectDirectEgress name).Calls (ReadsOnly env) := by
  refine .call (fun s => rfl) (fun out => ?_)
  cases out with
  | notSpawned cause => exact Program.Calls.ofExcept _
  | failed => exact Program.Calls.ofExcept _
  | stdout routes => exact .call (fun s => rfl) (fun addrs => Program.Calls.ofExcept _)

theorem calls_runtimeEgress (cfg : Config) (egress : EgressInterface) :
    (runtimeEgress applying cfg egress).Calls (ReadsOnly env) := by
  by_cases hkind : egress.kind = .direct
  · rw [runtimeEgress, if_pos hkind]
    exact Program.Calls.bind (calls_inspectDirectEgress env egress.name)
      (fun state => Program.Calls.ofExcept _)
  · rw [runtimeEgress, if_neg hkind]
    exact .pure _

theorem calls_healthyEgressMap (cfg : Config) :
    (healthyEgressMap applying cfg).Calls (ReadsOnly env) := by
  unfold healthyEgressMap
  generalize ([] : List EgressInterface) = healthy
  induction cfg.egressInterfaces generalizing healthy with
  | nil => exact .pure _
  | cons egress egresses ih =>
      refine Program.Calls.bind (calls_isEgressHealthy env egress) (fun usable => ?_)
      split_ifs
      · exact Program.Calls.bind (calls_runtimeEgress env cfg egress) (fun e => ih _)
      · exact ih _

/-- At no point of building the map is anything changed. -/
theorem visited_healthyEgressMap (cfg : Config) (s : NetState) :
    ∀ x ∈ Program.visited (netHost env) (healthyEgressMap applying cfg) s, x = s :=
  Program.visited_frame (netHost env) id (fun _ hc => hc) (calls_healthyEgressMap env cfg) s

end Reading

end EveNet
