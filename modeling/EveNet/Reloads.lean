import EveNet.ServedConfig

/-!
# Reloading the configuration

`reload-policy.sh` stops the service, runs one round under the configuration in the file and
starts the service again. Once the script has gone through, the service runs under this
configuration, and the chain holds its rules only, whatever the program's commands do from
there. A configuration that is refused leaves the service stopped and the old rules in place.
-/

namespace EveNet

/-! ### The script -/

inductive ServiceCall where
  | machine (c : MachineCall)
  | isExecutable
  | isFile
  | stop
  | start

abbrev serviceInterface : Interface where
  Call := ServiceCall
  Answer
    | .machine c => machineInterface.Answer c
    | .isExecutable => Bool
    | .isFile => Bool
    | .stop => Bool
    | .start => Bool

structure ServiceEnv where
  machine : MachineEnv
  isExecutable : Bool
  stops : Bool
  starts : Bool

/-- The machine, and what the configuration's path held when the running service started. -/
structure ServiceState where
  machine : Machine
  running : Option ConfigContent

def ConfigContent.isFile : ConfigContent → Bool
  | .absent => false
  | .malformed => true
  | .json _ => true

/-- A service that is running is not started anew. -/
def serviceHost (env : ServiceEnv) : Handler serviceInterface ServiceState
  | .machine c, s => ((machineHost env.machine c s.machine).1,
      ⟨(machineHost env.machine c s.machine).2, s.running⟩)
  | .isExecutable, s => (env.isExecutable, s)
  | .isFile, s => (s.machine.config.isFile, s)
  | .stop, s => (env.stops, ⟨s.machine, if env.stops then none else s.running⟩)
  | .start, s => (env.starts,
      ⟨s.machine, if env.starts then some (s.running.getD s.machine.config) else s.running⟩)

inductive ReloadFailure where
  | notExecutable
  | noConfig
  | reconcile (e : Error)
  | start
  | status (e : Error)

abbrev ReloadProgram := Program serviceInterface ReloadFailure

def onService {α : Type} (p : MachineProgram α) : Program serviceInterface Error α :=
  p.translate (fun c => Program.ask (I := serviceInterface) (.machine c))

/-- `eve-net reconcile --config /etc/eve-net/policy.json --apply` -/
def reconcileArgs : Args := { apply := true, command := some .reconcile }

/-- `eve-net status --config /etc/eve-net/policy.json` -/
def statusArgs : Args := { command := some .status }

/-- That the service cannot be stopped is passed over. -/
def restartPolicy (occasions : Occasions) : ReloadProgram Unit := do
  let _ ← Program.ask (I := serviceInterface) .stop
  (onService (runCommand reconcileArgs occasions)).mapFail .reconcile
  match ← Program.ask (I := serviceInterface) .start with
  | false => .fail .start
  | true => (onService (runCommand statusArgs occasions)).mapFail .status

def reloadPolicy (occasions : Occasions) : ReloadProgram Unit := do
  match ← Program.ask (I := serviceInterface) .isExecutable with
  | false => .fail .notExecutable
  | true =>
    match ← Program.ask (I := serviceInterface) .isFile with
    | false => .fail .noConfig
    | true => restartPolicy occasions

/-- `eve-net run --config /etc/eve-net/policy.json --apply` -/
def serviceArgs : Args := { apply := true, command := some .run }

/-- What may come next: a command on the file, or the service under the configuration that it
read when it started, either of which may go through, fail or be cut off anywhere; or the
links change. -/
inductive ServiceEnv.Next (env : ServiceEnv) : ServiceState → ServiceState → Prop
  | command {args : Args} {occasions : Occasions} {s : ServiceState} {m : Machine}
      (hargs : args.Serves)
      (hm : m ∈ Program.visited (machineHost env.machine) (runCommand args occasions) s.machine) :
      Next env s ⟨m, s.running⟩
  | service {value : Json} {cfg : Config} {occasions : Occasions} {s : ServiceState} {m : Machine}
      (hrunning : s.running = some (.json value)) (hdecode : Config.decode value = some cfg)
      (hvalid : cfg.validate = .ok ())
      (hm : m ∈ Program.visited (machineHost env.machine)
        (serviceArgs.subcommand.program serviceArgs cfg occasions) s.machine) :
      Next env s ⟨m, s.running⟩
  | links {s : ServiceState} (links : String → LinkState) :
      Next env s ⟨{ s.machine with net := { s.machine.net with links := links } }, s.running⟩

/-! ### What the script leaves behind -/

section Reload

variable {env : ServiceEnv} {occasions : Occasions} {s t : ServiceState}

theorem run_onService {α : Type} (p : MachineProgram α) (s : ServiceState) :
    Program.run (serviceHost env) (onService p) s =
      ((Program.run (machineHost env.machine) p s.machine).1,
        ⟨(Program.run (machineHost env.machine) p s.machine).2, s.running⟩) := by
  induction p generalizing s with
  | pure a => rfl
  | fail e => rfl
  | call c next ih => exact ih _ _

theorem run_command {δ : Type} (f : Error → δ) (args : Args) (s : ServiceState) :
    Program.run (serviceHost env) ((onService (runCommand args occasions)).mapFail f) s =
      ((Program.run (machineHost env.machine) (runCommand args occasions) s.machine).1.mapError f,
        ⟨(Program.run (machineHost env.machine) (runCommand args occasions) s.machine).2,
          s.running⟩) := by
  rw [Program.run_mapFail, run_onService]

theorem command_of_ok {δ : Type} {f : Error → δ} {args : Args}
    (h : Program.run (serviceHost env) ((onService (runCommand args occasions)).mapFail f) s =
      (.ok (), t)) :
    Program.run (machineHost env.machine) (runCommand args occasions) s.machine =
      (.ok (), t.machine) ∧ t.running = s.running := by
  rw [run_command, Prod.mk.injEq] at h
  obtain ⟨hok, rfl⟩ := h
  generalize Program.run (machineHost env.machine) (runCommand args occasions) s.machine = done at hok
  obtain ⟨_ | _, m⟩ := done
  · cases hok
  · exact ⟨rfl, rfl⟩

/-- The four steps of a script that goes through. -/
theorem steps_of_reload
    (h : Program.run (serviceHost env) (reloadPolicy occasions) s = (.ok (), t)) :
    ∃ m, Program.run (machineHost env.machine) (runCommand reconcileArgs occasions) s.machine =
        (.ok (), m) ∧
      Program.run (machineHost env.machine) (runCommand statusArgs occasions) m =
        (.ok (), t.machine) ∧
      t.running = some ((if env.stops then none else s.running).getD m.config) := by
  obtain ⟨executable, _, hexecutable, h⟩ := Program.run_bind_eq_ok _ h
  obtain ⟨-, rfl⟩ := Prod.mk.inj hexecutable
  cases executable with
  | false => cases (Prod.mk.inj h).1
  | true =>
      obtain ⟨file, _, hfile, h⟩ := Program.run_bind_eq_ok _ h
      obtain ⟨-, rfl⟩ := Prod.mk.inj hfile
      cases file with
      | false => cases (Prod.mk.inj h).1
      | true =>
          obtain ⟨_, stopped, hstop, h⟩ := Program.run_bind_eq_ok _ h
          obtain ⟨-, rfl⟩ := Prod.mk.inj hstop
          obtain ⟨_, after, hround, h⟩ := Program.run_bind_eq_ok _ h
          obtain ⟨hround, hrunning⟩ := command_of_ok hround
          obtain ⟨started, mid, hstart, h⟩ := Program.run_bind_eq_ok _ h
          obtain ⟨hanswer, rfl⟩ := Prod.mk.inj hstart
          cases started with
          | false => cases (Prod.mk.inj h).1
          | true =>
              obtain ⟨hstatus, hlast⟩ := command_of_ok h
              refine ⟨after.machine, hround, hstatus, ?_⟩
              have hstarts : env.starts = true := Except.ok.inj hanswer
              rw [hlast]
              change (if env.starts then _ else _) = _
              rw [if_pos hstarts, hrunning]
              rfl

/-- What a round on the machine brings about when it returns. -/
theorem serving_of_round {env : MachineEnv} {value : Json} {cfg : Config} {order : MapOrder}
    {m m' : Machine} (hcfg : Accepted cfg) (hvalue : m.config = .json value)
    (h : Program.run (machineHost env) (onHost (reconcileOnce applying order cfg)) m =
      (.ok (), m')) : Serving value cfg m' := by
  obtain ⟨last, hrun, hview⟩ :=
    (embeds_hostCall env).run_translate (reconcileOnce applying order cfg) m
  obtain ⟨hok, rfl⟩ := Prod.mk.inj (hrun.symm.trans h)
  have hkept := Program.run_frame (machineHost env) Machine.config config_machineHost
    (keepsConfig_onHost (reconcileOnce applying order cfg)) m
  rw [h] at hkept
  refine ⟨hkept.trans hvalue, ?_⟩
  exact justified_of_round hcfg (Prod.ext hok hview.symm)

theorem guardedApply_eq_ok {configDryRun apply : Bool}
    (h : guardedApply true configDryRun = .ok apply) : configDryRun = false ∧ apply = true := by
  cases configDryRun with
  | true => cases h
  | false => exact ⟨rfl, (Except.ok.inj h).symm⟩

theorem config_inspectUnderlay {env : MachineEnv} {underlay : WifiUnderlay} {m m' : Machine}
    (h : Program.run (machineHost env) (onNet (inspectUnderlay underlay)) m = (.ok (), m')) :
    m'.config = m.config := by
  have hsame := Program.run_frame (machineHost env) Machine.config
    (fun c hc x => (unchanged_machine env hc x).config) (readOnly_inspectUnderlay underlay) m
  rwa [h] at hsame

theorem serving_of_reconcile {env : MachineEnv} {m m' : Machine}
    (h : Program.run (machineHost env) (runCommand reconcileArgs occasions) m = (.ok (), m')) :
    ∃ value cfg, m.config = .json value ∧ Config.decode value = some cfg ∧
      cfg.validate = .ok () ∧ cfg.runtime.dryRun = false ∧ Serving value cfg m' := by
  obtain ⟨cfg, loaded, hload, h⟩ := Program.run_bind_eq_ok _ h
  obtain ⟨⟨value, hvalue, hdecode⟩, rfl⟩ := load_eq_ok hload
  obtain ⟨⟨⟩, _, hvalid, h⟩ := Program.run_bind_eq_ok _ h
  rw [Program.run_ofExcept, Prod.mk.injEq] at hvalid
  obtain ⟨hvalid, rfl⟩ := hvalid
  refine ⟨value, cfg, hvalue, hdecode, hvalid, ?_⟩
  obtain ⟨apply, _, hguard, h⟩ := Program.run_bind_eq_ok _ h
  rw [Program.run_ofExcept, Prod.mk.injEq] at hguard
  obtain ⟨hguard, rfl⟩ := hguard
  obtain ⟨hdry, rfl⟩ := guardedApply_eq_ok hguard
  obtain ⟨_, looked, hlook, h⟩ := Program.run_bind_eq_ok _ h
  obtain ⟨_, ended, hround, h⟩ := Program.run_bind_eq_ok _ h
  obtain ⟨-, rfl⟩ := Prod.mk.inj h
  have hread : (machineHost env (.config .read) m).2.config = .json value :=
    (config_machineHost (.config .read) trivial m).trans hvalue
  have hlooked := config_inspectUnderlay hlook
  exact ⟨hdry, serving_of_round (accepted_of_validate hvalid) (hlooked.trans hread) hround⟩

theorem serves_statusArgs : statusArgs.Serves := ⟨rfl, fun h => by cases h⟩

/-- The service runs under what the file holds, and the chain has its rules only. -/
structure Serviced (value : Json) (cfg : Config) (s : ServiceState) : Prop where
  serving : Serving value cfg s.machine
  running : s.running = some (.json value)

/-- What a script that goes through has found and left. -/
theorem serviced_of_reload
    (h : Program.run (serviceHost env) (reloadPolicy occasions) s = (.ok (), t))
    (hstopped : env.stops = true ∨ s.running = none) :
    ∃ value cfg, s.machine.config = .json value ∧ Config.decode value = some cfg ∧
      cfg.validate = .ok () ∧ cfg.runtime.dryRun = false ∧ Serviced value cfg t := by
  obtain ⟨m, hreconcile, hstatus, hrunning⟩ := steps_of_reload h
  obtain ⟨value, cfg, hvalue, hdecode, hvalid, hdry, hserving⟩ := serving_of_reconcile hreconcile
  have hkept : Serving value cfg
      (Program.run (machineHost env.machine) (runCommand statusArgs occasions) m).2 :=
    Program.Keeps.run _ (keeps_runCommand hdecode serves_statusArgs occasions) hserving
  rw [hstatus] at hkept
  refine ⟨value, cfg, hvalue, hdecode, hvalid, hdry, hkept, ?_⟩
  rw [hserving.1] at hrunning
  rcases hstopped with hstops | hnone
  · rwa [if_pos hstops] at hrunning
  · rwa [hnone, ite_self] at hrunning

theorem serviced_of_next {value : Json} {cfg : Config} (hdecode : Config.decode value = some cfg)
    {x : ServiceState} (hs : Serviced value cfg s) (hx : env.Next s x) : Serviced value cfg x := by
  cases hx with
  | command hargs hm =>
      exact ⟨keeps_runCommand hdecode hargs _ _ hs.serving _ hm, hs.running⟩
  | service hrunning hloaded hvalid hm =>
      obtain rfl := ConfigContent.json.inj (Option.some.inj (hs.running.symm.trans hrunning))
      obtain rfl := Option.some.inj (hdecode.symm.trans hloaded)
      refine ⟨keeps_program (accepted_of_validate hvalid) ?_ _ _ hs.serving _ hm, hs.running⟩
      exact ⟨rfl, fun _ => ⟨by decide, by decide⟩⟩
  | links _ => exact ⟨hs.serving, hs.running⟩

theorem serviced_of_reaches {value : Json} {cfg : Config}
    (hdecode : Config.decode value = some cfg) {x : ServiceState} (hs : Serviced value cfg s)
    (hx : Relation.ReflTransGen env.Next s x) : Serviced value cfg x := by
  induction hx with
  | refl => exact hs
  | tail _ hnext ih => exact serviced_of_next hdecode ih hnext

/-- A script that goes through, where the service could be stopped or did not run, leaves the
service running under the configuration in the file, which passes and does not say dry run; from
there on the chain holds rules of this configuration only, whatever is run and wherever it is
cut off. -/
theorem reload_enforces
    (h : Program.run (serviceHost env) (reloadPolicy occasions) s = (.ok (), t))
    (hstopped : env.stops = true ∨ s.running = none) :
    ∃ value cfg, s.machine.config = .json value ∧ Config.decode value = some cfg ∧
      cfg.validate = .ok () ∧ cfg.runtime.dryRun = false ∧
      ∀ x, Relation.ReflTransGen env.Next t x →
        x.machine.config = .json value ∧ x.running = some (.json value) ∧
          Justified cfg (policyChain cfg x.machine.net.kernel) := by
  obtain ⟨value, cfg, hvalue, hdecode, hvalid, hdry, hserviced⟩ := serviced_of_reload h hstopped
  refine ⟨value, cfg, hvalue, hdecode, hvalid, hdry, fun x hx => ?_⟩
  have hlater := serviced_of_reaches hdecode hserviced hx
  exact ⟨hlater.serving.1, hlater.running, hlater.serving.2⟩

def quietService : ServiceEnv := ⟨quietMachine, true, true, true⟩

/-- The machine whose file holds the value, with the service as it is. -/
def stateWith (value : Json) (running : Option ConfigContent) : ServiceState :=
  ⟨⟨bareState.1, bareState.2, 0, 0, .json value, 0⟩, running⟩

/-- The two tunnels, applied; the service ran under another configuration before. -/
def appliedState : ServiceState :=
  stateWith ((written plainNumbers [(.enableApply, .done)] wgJson).getD wgJson)
    (some (.json tunnelJson))

theorem reload_enforces_wg : ∃ value cfg,
    appliedState.machine.config = .json value ∧ Config.decode value = some cfg ∧
      cfg.validate = .ok () ∧ cfg.runtime.dryRun = false ∧
      ∀ x, Relation.ReflTransGen quietService.Next
          (Program.run (serviceHost quietService) (reloadPolicy twoRounds) appliedState).2 x →
        x.machine.config = .json value ∧ x.running = some (.json value) ∧
          Justified cfg (policyChain cfg x.machine.net.kernel) :=
  reload_enforces (Prod.ext rfl rfl) (Or.inl rfl)

/-- After an interface was taken out of use and the configuration reloaded, no rule has its
mark any more, whatever settings were changed before the reload. -/
theorem unmarked_after_reload {iface : String} {value value' last : Json} {cfg : Config}
    {numbers : Python.Numbers} {write : ConfigWrite} {edits : List (SettingsEdit × ConfigWrite)}
    (hdecode : Config.decode value = some cfg) (hvalid : cfg.validate = .ok ())
    (hdisable : (SettingsEdit.disableWgPolicy iface).run numbers write value =
      (.ok (), .json value')) (hwrites : ∀ run ∈ edits, run.2.Whole)
    (hwritten : written numbers edits value' = some last) (hfile : s.machine.config = .json last)
    (h : Program.run (serviceHost env) (reloadPolicy occasions) s = (.ok (), t))
    (hstopped : env.stops = true ∨ s.running = none) :
    ∀ x, Relation.ReflTransGen env.Next t x → ∀ cfg', x.machine.Configured cfg' →
      ∀ egress ∈ cfg.egressInterfaces, egress.name = iface →
        ∀ rule ∈ policyChain cfg' x.machine.net.kernel, rule.mark ≠ egress.fwmark := by
  intro x hx cfg' hcfg' egress hegress hname
  obtain ⟨found, loaded, hvalue, hload, -, -, hserviced⟩ := serviced_of_reload h hstopped
  obtain rfl := ConfigContent.json.inj (hfile.symm.trans hvalue)
  have hlater := serviced_of_reaches hload hserviced hx
  obtain rfl := (configured_iff hlater.serving.1 hload).mp hcfg'
  exact unmarked_of_justified hdecode hvalid hdisable hwrites hwritten hload hlater.serving.2
    hegress hname

/-- What the file holds when the interface is out of use, the proxy set up and dry runs are off. -/
def withoutWg : Json :=
  (written plainNumbers [(.disableWgPolicy "wg0", .done), (.enableHostDns "" [], .done),
    (.enableApply, .done)] wgJson).getD wgJson

theorem unmarked_after_reload_wg :
    (Program.run (serviceHost quietService) (reloadPolicy twoRounds)
      (stateWith withoutWg none)).1 = .ok () ∧
    ∀ x, Relation.ReflTransGen quietService.Next (Program.run (serviceHost quietService)
        (reloadPolicy twoRounds) (stateWith withoutWg none)).2 x →
      ∀ cfg', x.machine.Configured cfg' →
        ∀ rule ∈ policyChain cfg' x.machine.net.kernel, rule.mark ≠ 17 := by
  refine ⟨rfl, fun x hx cfg' hcfg' => ?_⟩
  obtain ⟨value', hdisable, hwritten⟩ : ∃ value',
      (SettingsEdit.disableWgPolicy "wg0").run plainNumbers .done wgJson =
        (.ok (), .json value') ∧ written plainNumbers
          [(.enableHostDns "" [], .done), (.enableApply, .done)] value' = some withoutWg :=
    ⟨_, rfl, rfl⟩
  exact unmarked_after_reload decode_wgJson (by decide) hdisable (by simp [ConfigWrite.Whole])
    hwritten rfl (Prod.ext rfl rfl) (Or.inr rfl) x hx cfg' hcfg'
    { tunnel "wg0" 101 17 with kind := .wireguard } (by decide) rfl

/-! ### A configuration that is refused -/

theorem refused_reconcile (env : MachineEnv) (occasions : Occasions) {m : Machine}
    (hrefused : ∀ cfg, m.Configured cfg → cfg.validate = .ok () → cfg.runtime.dryRun = true) :
    ∃ e, Program.run (machineHost env) (runCommand reconcileArgs occasions) m =
      (.error e, (machineHost env (.config .read) m).2) := by
  rw [runCommand_eq, Program.run_call]
  cases hloaded : Config.ofRead reconcileArgs.config (machineHost env (.config .read) m).1 with
  | error e => exact ⟨e, rfl⟩
  | ok cfg =>
      rw [Program.ofExcept, Program.bind_pure_left]
      cases hvalid : cfg.validate with
      | error e => exact ⟨e, rfl⟩
      | ok u =>
          have hdry := hrefused cfg (configured_of_ofRead hloaded) hvalid
          obtain ⟨e, he⟩ : ∃ e, Subcommand.program reconcileArgs cfg occasions .reconcile = .fail e :=
            program_refused occasions rfl hdry (Or.inr rfl)
          refine ⟨e, ?_⟩
          rw [Program.ofExcept, Program.bind_pure_left]
          change Program.run _ (Subcommand.program reconcileArgs cfg occasions .reconcile) _ = _
          rw [he, Program.run_fail]

theorem run_ready (hexecutable : env.isExecutable = true) (hfile : s.machine.config.isFile = true) :
    Program.run (serviceHost env) (reloadPolicy occasions) s =
      Program.run (serviceHost env) (restartPolicy occasions) s := by
  have hready : Program.run (serviceHost env)
      (Program.ask (I := serviceInterface) .isExecutable : ReloadProgram Bool) s = (.ok true, s) :=
    congrArg (fun ok => (Except.ok ok, s)) hexecutable
  have hfound : Program.run (serviceHost env)
      (Program.ask (I := serviceInterface) .isFile : ReloadProgram Bool) s = (.ok true, s) :=
    congrArg (fun ok => (Except.ok ok, s)) hfile
  exact (Program.run_bind_ok _ hready).trans (Program.run_bind_ok _ hfound)

/-- With a configuration that does not load, does not pass or says dry run, the script fails at
its round: the old rules stay in place, and a service that could be stopped stays stopped. -/
theorem refused_reload_stops (hexecutable : env.isExecutable = true)
    (hfile : s.machine.config.isFile = true)
    (hrefused : ∀ cfg, s.machine.Configured cfg → cfg.validate = .ok () →
      cfg.runtime.dryRun = true) :
    ∃ e t, Program.run (serviceHost env) (reloadPolicy occasions) s = (.error (.reconcile e), t) ∧
      Unchanged s.machine t.machine ∧ t.running = if env.stops then none else s.running := by
  obtain ⟨e, he⟩ := refused_reconcile env.machine occasions hrefused
  refine ⟨e, ⟨(machineHost env.machine (.config .read) s.machine).2,
    if env.stops then none else s.running⟩, ?_, ?_, rfl⟩
  · rw [run_ready hexecutable hfile]
    have hstop : Program.run (serviceHost env)
        (Program.ask (I := serviceInterface) .stop : ReloadProgram Bool) s =
        (.ok env.stops, ⟨s.machine, if env.stops then none else s.running⟩) := rfl
    refine (Program.run_bind_ok _ hstop).trans (Program.run_bind_error _ ?_)
    rw [run_command, he]
    rfl
  · exact unchanged_machine env.machine (c := .config .read) trivial s.machine

/-- The tunnel's configuration says dry run, and the service ran under the two tunnels. -/
theorem refused_reload_stops_tunnel : ∃ e t, Program.run (serviceHost quietService)
      (reloadPolicy twoRounds) (stateWith tunnelJson (some (.json wgJson))) =
        (.error (.reconcile e), t) ∧
    Unchanged (stateWith tunnelJson none).machine t.machine ∧ t.running = none := by
  refine refused_reload_stops rfl rfl fun cfg hcfg _ => ?_
  have hdecode : Config.decode tunnelJson = some (configOf [tunnel "tun0" 100 100]
      [domainPolicy "office" "office.example" "tun0"]) := by decide
  rw [(configured_iff rfl hdecode).mp hcfg]
  rfl

end Reload

end EveNet
