import EveNet.ProgramViews
import EveNet.SettingsEffects
import EveNet.JustifiedRules

/-!
# Commands under the configuration in the file

While the file holds one configuration, the commands of the program bring rules of this
configuration only into the chain, at every point of their runs, whether they go through, fail
or are cut off. Left out are the two commands that clear the kernel or rewrite the file.
-/

namespace EveNet

/-! ### Programs of the host on the machine -/

section OnMachine

variable {env : MachineEnv} {α : Type}

/-- The host that a machine contains. -/
def MachineEnv.host (env : MachineEnv) : HostEnv := ⟨env.net, env.cache⟩

theorem embeds_hostCall (env : MachineEnv) : Program.Embeds (host env.host) (machineHost env)
    (fun m => (m.net, m.cache)) hostCall where
  answer c m := by
    cases c with
    | inl c => rfl
    | inr c => rfl
  after c m := by
    cases c with
    | inl c => rfl
    | inr c => rfl
  during c m x hx := by
    cases c with
    | inl c =>
        rcases List.mem_cons.mp hx with rfl | hx
        · exact Or.inl rfl
        · exact Or.inr (List.mem_singleton.mp hx ▸ rfl)
    | inr c =>
        rcases List.mem_cons.mp hx with rfl | hx
        · exact Or.inl rfl
        · exact Or.inr (List.mem_singleton.mp hx ▸ rfl)

/-- The configuration file is not written. -/
def MachineCall.KeepsConfig : MachineCall → Prop
  | .config (.write _) => False
  | _ => True

theorem config_machineHost (c : MachineCall) (hc : c.KeepsConfig) (m : Machine) :
    (machineHost env c m).2.config = m.config := by
  cases c with
  | net c => rfl
  | cache c => rfl
  | udp c => rfl
  | tool c => rfl
  | config c =>
      cases c with
      | write value => exact hc.elim
      | read => rfl
      | readValue => rfl

/-- Neither the configuration nor the kernel is written. -/
def MachineCall.Aside : MachineCall → Prop
  | .net c => c.ReadOnly
  | .config (.write _) => False
  | _ => True

theorem MachineCall.Aside.keepsConfig {c : MachineCall} (hc : c.Aside) : c.KeepsConfig := by
  cases c with
  | config c =>
      cases c with
      | read => trivial
      | readValue => trivial
      | write value => exact hc
  | _ => trivial

theorem kernel_machineHost (c : MachineCall) (hc : c.Aside) (m : Machine) :
    (machineHost env c m).2.net.kernel = m.net.kernel := by
  cases c with
  | net c => exact unchanged_net env.net hc m.net
  | config c => cases c <;> rfl
  | _ => rfl

theorem aside_onCache (p : CacheProgram α) : (onCache p).Calls MachineCall.Aside :=
  (Program.Calls.any p).translate (fun _ _ => .ask trivial)

theorem aside_onProxy (p : ProxyProgram α) : (onProxy p).Calls MachineCall.Aside := by
  refine (Program.Calls.any p).translate fun c _ => ?_
  cases c with
  | inl c => exact .ask trivial
  | inr c => exact .ask trivial

theorem aside_runDnsProxy (cfg : Config) (writeCache : Bool) (occasions : Occasions) :
    (runDnsProxy cfg writeCache occasions).Calls MachineCall.Aside := by
  refine Program.Calls.bind (Program.Calls.ofExcept _) (fun started => ?_)
  dsimp only
  cases occasions.bindFails with
  | some cause => exact .fail _
  | none =>
      refine Program.Calls.bind (Program.Calls.forEach fun datagram _ => ?_) (fun _ => .fail _)
      exact Program.Calls.bind (aside_onProxy _) (fun _ => .pure _)

theorem keepsConfig_onHost (p : HostProgram α) : (onHost p).Calls MachineCall.KeepsConfig := by
  refine (Program.Calls.any p).translate fun c _ => ?_
  cases c with
  | inl c => exact .ask trivial
  | inr c => exact .ask trivial

end OnMachine

/-! ### The service -/

section Service

variable {env : MachineEnv} {value : Json} {cfg : Config} {m m' : Machine}

/-- The file holds the value, and the chain only rules of its configuration. -/
def Serving (value : Json) (cfg : Config) (m : Machine) : Prop :=
  m.config = .json value ∧ Justified cfg (policyChain cfg m.net.kernel)

theorem keeps_aside {α : Type} {p : MachineProgram α} (hp : p.Calls MachineCall.Aside) :
    Program.Keeps (machineHost env) (Serving value cfg) p := by
  refine Program.Keeps.of_calls _ (fun c hc x hx => ?_) hp
  have hkernel : (machineHost env c x).2.net.kernel = x.net.kernel := kernel_machineHost c hc x
  exact ⟨(config_machineHost c hc.keepsConfig x).trans hx.1, by rw [hkernel]; exact hx.2⟩

theorem keeps_readOnly {α : Type} {p : MachineProgram α} (hp : p.Calls MachineCall.ReadOnly) :
    Program.Keeps (machineHost env) (Serving value cfg) p := by
  refine Program.Keeps.of_calls _ (fun c hc x hx => ?_) hp
  have hsame := unchanged_machine env hc x
  exact ⟨hsame.config.trans hx.1, by rw [hsame.kernel]; exact hx.2⟩

theorem keeps_onHost (hcfg : Accepted cfg) (order : MapOrder) :
    Program.Keeps (machineHost env) (Serving value cfg)
      (onHost (reconcileOnce applying order cfg)) := by
  refine Program.Keeps.and ?_ ?_
  · refine Program.Keeps.of_calls _ (fun c hc x hx => ?_)
      (keepsConfig_onHost (reconcileOnce applying order cfg))
    exact (config_machineHost c hc x).trans hx
  · exact (embeds_hostCall env).keeps (keeps_justified hcfg)

theorem readOnly_inspectUnderlay (underlay : WifiUnderlay) :
    (onNet (inspectUnderlay underlay)).Calls MachineCall.ReadOnly :=
  readOnly_onNet (Program.Calls.bind (readOnly_interfaceExists _) (fun _ => .pure _))

theorem keeps_runtime (hcfg : Accepted cfg) (once : Bool) (occasions : Occasions) :
    Program.Keeps (machineHost env) (Serving value cfg)
      (Runtime.run cfg applying once occasions) := by
  refine Program.Keeps.bind _ (keeps_readOnly (readOnly_inspectUnderlay _)) (fun _ _ => ?_)
  refine Program.Keeps.bind _ (keeps_onHost hcfg _) (fun _ _ => ?_)
  by_cases honce : once = true
  · rw [if_pos honce]
    exact Program.Keeps.pure _ ()
  · rw [if_neg honce]
    exact Program.Keeps.forEach _ fun order _ => Program.Keeps.bind _
      (Program.Keeps.attempt _ (keeps_onHost hcfg order)) (fun _ _ => Program.Keeps.pure _ ())

/-- A round only starts when the configuration does not say dry run. -/
theorem keeps_guarded (hcfg : Accepted cfg) (once : Bool) (occasions : Occasions) :
    Program.Keeps (machineHost env) (Serving value cfg)
      ((Program.ofExcept (guardedApply true cfg.runtime.dryRun)).bind
        (fun apply => Runtime.run cfg ⟨apply⟩ once occasions)) := by
  cases hdry : cfg.runtime.dryRun with
  | true => exact Program.Keeps.fail _ _
  | false => exact keeps_runtime hcfg once occasions

/-- An invocation on the file of the service that neither clears the kernel nor rewrites the
configuration. -/
structure Args.Serves (args : Args) : Prop where
  config : args.config = "/etc/eve-net/policy.json"
  command : args.apply = true → args.subcommand ≠ .refreshDirectEgress ∧ args.subcommand ≠ .cleanup

theorem keeps_program (hcfg : Accepted cfg) {args : Args} (hargs : args.Serves)
    (occasions : Occasions) : Program.Keeps (machineHost env) (Serving value cfg)
      (args.subcommand.program args cfg occasions) := by
  cases happly : args.apply with
  | false => exact keeps_readOnly (readOnly_program happly occasions _)
  | true =>
      have hother := hargs.command happly
      cases hcommand : args.subcommand with
      | run =>
          rw [Subcommand.program, happly]
          exact keeps_guarded hcfg args.once occasions
      | reconcile =>
          rw [Subcommand.program, happly]
          exact keeps_guarded hcfg true occasions
      | status => exact keeps_readOnly readOnly_printStatus
      | wgStatus => exact keeps_readOnly readOnly_printWireguardStatus
      | domainResolve domain => exact keeps_aside (aside_onCache _)
      | dnsCache => exact keeps_aside (Program.Calls.bind (aside_onCache _) (fun _ => .pure _))
      | dnsRefresh => exact keeps_aside (aside_onCache _)
      | dnsPrune => exact keeps_aside (aside_onCache _)
      | tunnelDetect => exact keeps_readOnly readOnly_printTunnelDetect
      | dnsProxy => exact keeps_aside (aside_runDnsProxy _ _ _)
      | dnsInterceptStatus => exact keeps_aside (Program.Calls.ofExcept _)
      | validate => exact keeps_readOnly readOnly_printValidate
      | refreshDirectEgress => exact absurd hcommand hother.1
      | cleanup => exact absurd hcommand hother.2

theorem configured_iff (hconfig : m.config = .json value) (hdecode : Config.decode value = some cfg)
    {loaded : Config} : m.Configured loaded ↔ loaded = cfg := by
  constructor
  · rintro ⟨json, hjson, hloaded⟩
    rw [hconfig, ConfigContent.json.injEq] at hjson
    subst hjson
    exact Option.some.inj (hloaded.symm.trans hdecode)
  · rintro rfl
    exact ⟨value, hconfig, hdecode⟩

theorem load_eq_ok {path : String} {loaded : Config}
    (h : Program.run (machineHost env) (Config.load path) m = (.ok loaded, m')) :
    m.Configured loaded ∧ m' = (machineHost env (.config .read) m).2 := by
  have hrun : Program.run (machineHost env) (Config.load path) m =
      (Config.ofRead path (machineHost env (.config .read) m).1,
        (machineHost env (.config .read) m).2) := Program.run_ofExcept _ _ _
  rw [hrun, Prod.mk.injEq] at h
  exact ⟨configured_of_ofRead h.1, h.2.symm⟩

theorem serving_override (args : Args) (cfg : Config) :
    Serving value (args.override cfg) = Serving value cfg := by
  unfold Args.override
  cases args.intervalSec <;> rfl

theorem accepted_override (args : Args) (hcfg : Accepted cfg) : Accepted (args.override cfg) := by
  unfold Args.override
  cases args.intervalSec with
  | none => exact hcfg
  | some intervalSec => exact { hcfg with }

/-- No invocation on this file brings other rules into the chain. -/
theorem keeps_runCommand (hdecode : Config.decode value = some cfg) {args : Args}
    (hargs : args.Serves) (occasions : Occasions) :
    Program.Keeps (machineHost env) (Serving value cfg) (runCommand args occasions) := by
  refine Program.Keeps.bind _ (keeps_readOnly (readOnly_load _)) ?_
  rintro loaded ⟨s, t, hs, hload⟩
  obtain rfl := (configured_iff hs.1 hdecode).mp (load_eq_ok hload).1
  refine Program.Keeps.bind _ (keeps_readOnly (Program.Calls.ofExcept _)) ?_
  rintro ⟨⟩ ⟨s, t, -, hvalid⟩
  rw [Program.run_ofExcept, Prod.mk.injEq] at hvalid
  rw [← serving_override args]
  exact keeps_program (accepted_override args (accepted_of_validate hvalid.1)) hargs occasions

end Service

end EveNet
