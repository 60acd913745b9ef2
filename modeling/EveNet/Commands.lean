import EveNet.StatusCommands
import EveNet.Cleanup

/-!
# The subcommands

`runCommand` is one invocation of the program: it loads and validates the configuration and
hands over to the subcommand. What happens from outside while the program runs is in
`Occasions`: the order in which maps are walked, how often the runtime's loop goes round, and
the datagrams the proxy receives.
-/

namespace EveNet

/-! ### Refreshing the direct egresses -/

/-- The object with the member set; what is not an object is left alone. -/
def Json.set (json : Json) (key : String) (value : Json) : Json :=
  match json with
  | .obj members => .obj (KeyedList.upsert Prod.fst (key, value) members)
  | json => json

structure DirectEgressRefreshPlan where
  name : String
  configuredGateway : Option String
  configuredSourceIp : Option String
  runtimeGateway : Option String
  runtimeSourceIp : Option String
  drift : DirectEgressDrift

def DirectEgressRefreshPlan.needsUpdate (plan : DirectEgressRefreshPlan) : Bool := plan.drift.isDrift

def planRefreshOf (egress : EgressInterface) : NetProgram DirectEgressRefreshPlan := do
  let inspected ← Program.attempt (inspectDirectEgress egress.name)
  let state := inspected.toOption.getD ⟨none, none⟩
  pure ⟨egress.name, egress.gateway, egress.sourceIp, state.runtimeGateway, state.runtimeSourceIp,
    state.drift egress.gateway egress.sourceIp⟩

def planRefreshes : List EgressInterface → NetProgram (List DirectEgressRefreshPlan)
  | [] => .pure []
  | egress :: egresses => do
    let plan ← planRefreshOf egress
    let plans ← planRefreshes egresses
    pure (plan :: plans)

def planRefresh (cfg : Config) : NetProgram (List DirectEgressRefreshPlan) :=
  planRefreshes (cfg.egressInterfaces.filter (fun egress => egress.enabled ∧ egress.kind = .direct))

/-- The egress object with the plan's runtime values, when the plan is about it. -/
def refreshedMember (plan : DirectEgressRefreshPlan) (gateway sourceIp : String) (egress : Json) :
    Json :=
  if (egress.get "name").bind Json.asStr = some plan.name ∧
      (egress.get "kind").bind Json.asStr = some "direct" then
    (egress.set "gateway" (.str gateway)).set "source_ip" (.str sourceIp)
  else egress

def refreshEgresses (egresses : List Json) (plan : DirectEgressRefreshPlan) : List Json :=
  match plan.needsUpdate, plan.runtimeGateway, plan.runtimeSourceIp with
  | true, some gateway, some sourceIp => egresses.map (refreshedMember plan gateway sourceIp)
  | _, _, _ => egresses

def applyRefresh (configPath : String) (plans : List DirectEgressRefreshPlan) :
    MachineProgram Unit := do
  match ← readConfigValue with
  | .error cause => .fail ["failed to read config: " ++ configPath, cause]
  | .ok none => .fail ["failed to parse JSON config: " ++ configPath]
  | .ok (some value) =>
    match (value.get "egress_interfaces").bind Json.asArray with
    | none => .fail ["config egress_interfaces must be an array"]
    | some egresses => do
      match ← writeConfig
          (value.set "egress_interfaces" (.arr (plans.foldl refreshEgresses egresses))) with
      | .error cause => .fail ["failed to write config: " ++ configPath, cause]
      | .ok () => pure ()

def printRefreshDirectEgress (configPath : String) (apply : Bool) : MachineProgram Unit := do
  let cfg ← Config.load configPath
  let plans ← onNet (planRefresh cfg)
  if plans.isEmpty then pure ()
  else if apply then applyRefresh configPath plans
  else pure ()

/-! ### Invocations -/

inductive Subcommand where
  | run
  | reconcile
  | status
  | wgStatus
  | domainResolve (domain : Option String)
  | dnsCache
  | dnsRefresh
  | dnsPrune
  | tunnelDetect
  | dnsProxy
  | dnsInterceptStatus
  | validate
  | refreshDirectEgress
  | cleanup
  deriving DecidableEq

structure Args where
  config : String := "/etc/eve-net/policy.json"
  apply : Bool := false
  once : Bool := false
  intervalSec : Option UInt64 := none
  command : Option Subcommand := none

/-- What comes from outside while the program runs. The runtime's loop is left by a signal, the
proxy's by an error of its socket. -/
structure Occasions where
  firstOrder : MapOrder
  laterOrders : List MapOrder
  bindFails : Option String
  datagrams : List Packet
  receiveError : String

/-- A round of the loop; that it failed is only logged. -/
def laterRound (cfg : Config) (exec : Executor) (order : MapOrder) : MachineProgram Unit := do
  let _ ← Program.attempt (δ := Error) (onHost (reconcileOnce exec order cfg))

/-- The first round has to succeed. -/
def Runtime.run (cfg : Config) (exec : Executor) (once : Bool) (occasions : Occasions) :
    MachineProgram Unit := do
  onNet (inspectUnderlay cfg.wifiUnderlay)
  onHost (reconcileOnce exec occasions.firstOrder cfg)
  if once then pure () else Program.forEach (laterRound cfg exec) occasions.laterOrders

def serveNext (cfg : Config) (upstreams : List SocketAddr) (writeCache : Bool)
    (datagram : Packet) : MachineProgram Unit := do
  let _ ← onProxy (serve cfg upstreams writeCache datagram)

def runDnsProxy (cfg : Config) (writeCache : Bool) (occasions : Occasions) :
    MachineProgram Unit := do
  let (listenAddr, upstreams) ← Program.ofExcept (startProxy cfg)
  match occasions.bindFails with
  | some cause => .fail ["failed to bind DNS proxy listener: " ++ listenAddr.display, cause]
  | none => do
    Program.forEach (serveNext cfg upstreams writeCache) occasions.datagrams
    .fail [occasions.receiveError]

def guardedApply (applyFlag configDryRun : Bool) : Except Error Bool :=
  if applyFlag ∧ configDryRun then
    .error ["--apply was passed, but config runtime.dry_run=true. Set runtime.dry_run=false " ++
      "in the JSON config, then rerun with --apply."]
  else .ok (applyFlag ∧ ¬ configDryRun)

def Subcommand.program (args : Args) (cfg : Config) (occasions : Occasions) :
    Subcommand → MachineProgram Unit
  | .run => do
    let apply ← Program.ofExcept (guardedApply args.apply cfg.runtime.dryRun)
    Runtime.run cfg ⟨apply⟩ args.once occasions
  | .reconcile => do
    let apply ← Program.ofExcept (guardedApply args.apply cfg.runtime.dryRun)
    Runtime.run cfg ⟨apply⟩ true occasions
  | .status => printStatus cfg
  | .wgStatus => printWireguardStatus cfg
  | .domainResolve domain => onCache (printDomainResolve cfg domain)
  | .dnsCache => do
    let _ ← onCache (printDnsCacheStatus cfg)
  | .dnsRefresh => onCache (refreshCacheCommand cfg args.apply)
  | .dnsPrune => onCache (pruneCacheCommand cfg args.apply)
  | .tunnelDetect => printTunnelDetect
  | .dnsProxy => runDnsProxy cfg args.apply occasions
  | .dnsInterceptStatus => Program.ofExcept (printDnsInterceptStatus cfg)
  | .validate => printValidate cfg
  | .refreshDirectEgress => printRefreshDirectEgress args.config args.apply
  | .cleanup => onNet (EveNet.cleanup cfg args.apply)

/-- The interval of the command line takes the place of the configured one. -/
def Args.override (args : Args) (cfg : Config) : Config :=
  match args.intervalSec with
  | some intervalSec => { cfg with runtime := { cfg.runtime with intervalSec := intervalSec } }
  | none => cfg

def Args.subcommand (args : Args) : Subcommand := args.command.getD .run

def runCommand (args : Args) (occasions : Occasions) : MachineProgram Unit := do
  let cfg ← Config.load args.config
  Program.ofExcept cfg.validate
  args.subcommand.program args (args.override cfg) occasions

end EveNet
