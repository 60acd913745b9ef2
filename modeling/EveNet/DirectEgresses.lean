import EveNet.FwmarkRules
import EveNet.Outcomes

/-!
# Direct egresses follow the host

A round takes a direct egress with the gateway and the source address that the host has now, or
it fails before the first route. What the configuration says can only stand in for the same
values written with blanks around them.
-/

namespace EveNet

/-! ### Blank and trimmed values -/

theorem nonBlank_eq_some {value : Option String} {v : String} :
    nonBlank value = some v ↔ value = some v ∧ trimmedEmpty v = false := by
  unfold nonBlank
  rw [Option.filter_eq_some_iff]
  simp

theorem trim_eq_of_drifted {v runtime : String} (hv : trimmedEmpty v = false)
    (h : drifted (some v) runtime = false) : trim v.toList = runtime.toList := by
  unfold trimmedEmpty at hv
  simpa [drifted, hv] using h

/-- The value as the host reports it, or nothing if it is blank. -/
theorem trim_nonBlank_getD {v : String} (h : trim v.toList = v.toList) :
    trim ((nonBlank (some v)).getD "").toList = v.toList := by
  by_cases hblank : trimmedEmpty v = true
  · have hnil : v.toList = [] := by
      rw [← h]
      exact List.isEmpty_iff.mp hblank
    have hnone : nonBlank (some v) = none := by
      simp [nonBlank, hblank]
    rw [hnone, hnil]
    rfl
  · rw [nonBlank_eq_some.mpr ⟨rfl, Bool.eq_false_of_not_eq_true hblank⟩]
    exact h

/-! ### One egress -/

/-- The route goes through the gateway `g`, with no source address but `src`. -/
structure Follows (egress : EgressInterface) (g src : String) : Prop where
  gateway : trim ((defaultRoute egress).via.getD "").toList = g.toList
  source : ∀ v, (defaultRoute egress).src = some v → trim v.toList = src.toList

/-- What the listings of an egress say. -/
def reported (links : String → LinkState) (name : String) :
    Except Error DirectEgressRuntimeState :=
  runtimeStateOf name (links name).defaultRouteJson (links name).addrJson

/-- The gateways and addresses that the host reports have no blanks around them. -/
def ReportsTrimmed (links : String → LinkState) : Prop :=
  ∀ name state, reported links name = .ok state →
    (∀ g, state.runtimeGateway = some g → trim g.toList = g.toList) ∧
      ∀ src, state.runtimeSourceIp = some src → trim src.toList = src.toList

/-- The runtime state is complete, and where it differs from the configured one the
configuration allows to refresh it. -/
def UsableState (cfg : Config) (links : String → LinkState) (egress : EgressInterface) : Prop :=
  ∃ g src, reported links egress.name = .ok ⟨some g, some src⟩ ∧
    ((DirectEgressRuntimeState.drift ⟨some g, some src⟩ egress.gateway egress.sourceIp).isDrift =
      true → cfg.runtime.autoRefreshDirectEgress = true)

theorem isDrift_drift (g src : String) (gateway sourceIp : Option String) :
    (DirectEgressRuntimeState.drift ⟨some g, some src⟩ gateway sourceIp).isDrift =
      (drifted gateway g || drifted sourceIp src) := by
  unfold DirectEgressRuntimeState.drift
  dsimp only
  cases drifted gateway g <;> cases drifted sourceIp src <;> rfl

/-- A complete runtime state is not reported as missing something. -/
theorem drift_complete (g src : String) (gateway sourceIp : Option String) :
    ¬ (DirectEgressRuntimeState.drift ⟨some g, some src⟩ gateway sourceIp =
        .missingRuntimeDefaultRoute ∨
      DirectEgressRuntimeState.drift ⟨some g, some src⟩ gateway sourceIp = .missingRuntimeIpv4) := by
  unfold DirectEgressRuntimeState.drift
  dsimp only
  cases drifted gateway g <;> cases drifted sourceIp src <;> decide

theorem refreshedEgress_eq_ok {cfg : Config} {egress e : EgressInterface}
    {state : DirectEgressRuntimeState} (h : refreshedEgress cfg egress state = .ok e) :
    ∃ g src, state = ⟨some g, some src⟩ ∧
      ((drifted egress.gateway g = false ∧ drifted egress.sourceIp src = false ∧ e = egress) ∨
        (cfg.runtime.autoRefreshDirectEgress = true ∧
          e = { egress with gateway := some g, sourceIp := some src })) := by
  obtain ⟨gateway, sourceIp⟩ := state
  cases gateway with
  | none => cases h
  | some g =>
      cases sourceIp with
      | none => cases h
      | some src =>
          refine ⟨g, src, rfl, ?_⟩
          unfold refreshedEgress at h
          dsimp only at h
          rw [if_neg (drift_complete g src _ _), isDrift_drift] at h
          split_ifs at h with hdrift hauto
          · exact Or.inr ⟨hauto, (Except.ok.inj h).symm⟩
          · rw [Bool.not_eq_true, Bool.or_eq_false_iff] at hdrift
            exact Or.inl ⟨hdrift.1, hdrift.2, (Except.ok.inj h).symm⟩

/-- An egress that a round may take follows the host. -/
theorem follows_of_egressAt {links : String → LinkState} {cfg : Config}
    {egress e : EgressInterface} (hlinks : ReportsTrimmed links) (hvalid : ValidEgress egress)
    (hdirect : egress.kind = .direct) (h : egressAt links cfg egress = .ok e) :
    ∃ g src, reported links e.name = .ok ⟨some g, some src⟩ ∧ Follows e g src := by
  have hname := name_eq_of_fixed (fixed_of_egressAt h)
  rw [egressAt, if_pos hdirect] at h
  obtain ⟨state, hstate, hrefreshed⟩ := except_bind_eq_ok.mp h
  obtain ⟨htrimmedGateway, htrimmedSource⟩ := hlinks egress.name state hstate
  obtain ⟨g, src, rfl, hcase⟩ := refreshedEgress_eq_ok hrefreshed
  refine ⟨g, src, by rw [hname]; exact hstate, ?_⟩
  rcases hcase with ⟨hgateway, hsource, rfl⟩ | ⟨-, rfl⟩
  · -- The configured gateway is not blank, so it is the reported one.
    have hnamed := hvalid.gateway hdirect
    cases hconfigured : e.gateway with
    | none =>
        rw [hconfigured] at hnamed
        cases hnamed
    | some v =>
        rw [hconfigured, Option.getD_some] at hnamed
        rw [hconfigured] at hgateway
        refine ⟨?_, fun w hw => ?_⟩
        · change trim ((nonBlank e.gateway).getD "").toList = g.toList
          rw [hconfigured, nonBlank_eq_some.mpr ⟨rfl, hnamed⟩]
          exact trim_eq_of_drifted hnamed hgateway
        · change nonBlank e.sourceIp = some w at hw
          obtain ⟨hw, hblank⟩ := nonBlank_eq_some.mp hw
          rw [hw] at hsource
          exact trim_eq_of_drifted hblank hsource
  · refine ⟨trim_nonBlank_getD (htrimmedGateway g rfl), fun w hw => ?_⟩
    change nonBlank (some src) = some w at hw
    obtain ⟨hw, -⟩ := nonBlank_eq_some.mp hw
    cases hw
    exact htrimmedSource src rfl

theorem usableState_of_egressAt {links : String → LinkState} {cfg : Config}
    {egress e : EgressInterface} (hdirect : egress.kind = .direct)
    (h : egressAt links cfg egress = .ok e) : UsableState cfg links egress := by
  rw [egressAt, if_pos hdirect] at h
  obtain ⟨state, hstate, hrefreshed⟩ := except_bind_eq_ok.mp h
  obtain ⟨g, src, rfl, hcase⟩ := refreshedEgress_eq_ok hrefreshed
  refine ⟨g, src, hstate, fun hdrift => ?_⟩
  rcases hcase with ⟨hgateway, hsource, -⟩ | ⟨hauto, -⟩
  · rw [isDrift_drift, hgateway, hsource] at hdrift
    cases hdrift
  · exact hauto

/-! ### The map -/

theorem mem_healthyAt {links : String → LinkState} {cfg : Config}
    {start egresses healthy : List EgressInterface}
    (h : healthyAt links cfg start egresses = .ok healthy) :
    (∀ e ∈ healthy, e ∈ start ∨ ∃ egress ∈ egresses, egressAt links cfg egress = .ok e) ∧
      ∀ egress ∈ egresses, egressHealthy links egress = true →
        ∃ e, egressAt links cfg egress = .ok e := by
  induction egresses generalizing start with
  | nil =>
      cases h
      exact ⟨fun e he => Or.inl he, fun egress he => absurd he List.not_mem_nil⟩
  | cons egress egresses ih =>
      rw [healthyAt] at h
      by_cases hh : egressHealthy links egress = true
      · rw [if_pos hh] at h
        obtain ⟨e, he, hrest⟩ := except_bind_eq_ok.mp h
        obtain ⟨hmem, hall⟩ := ih hrest
        refine ⟨fun a ha => ?_, List.forall_mem_cons.mpr ⟨fun _ => ⟨e, he⟩, hall⟩⟩
        rcases hmem a ha with ha | ⟨b, hb, hab⟩
        · rcases KeyedList.mem_of_mem_upsert _ ha with rfl | ha
          · exact Or.inr ⟨egress, List.mem_cons_self, he⟩
          · exact Or.inl ha
        · exact Or.inr ⟨b, List.mem_cons_of_mem _ hb, hab⟩
      · rw [if_neg hh] at h
        obtain ⟨hmem, hall⟩ := ih h
        refine ⟨fun a ha => ?_, List.forall_mem_cons.mpr ⟨fun h => absurd h hh, hall⟩⟩
        rcases hmem a ha with ha | ⟨b, hb, hab⟩
        · exact Or.inl ha
        · exact Or.inr ⟨b, List.mem_cons_of_mem _ hb, hab⟩

/-! ### The commands of a round -/

/-- The command lines about routes, ip rules, and the rules of the policy chain. -/
def RebuildLine : String → List String → Prop
  | "ip", "route" :: _ => True
  | "ip", "rule" :: _ => True
  | "nft", "flush" :: _ => True
  | "nft", "add" :: "rule" :: _ => True
  | _, _ => False

def NetCall.Rebuilds : NetCall → Prop
  | .spawn program args => RebuildLine program args
  | .output program args => RebuildLine program args
  | .outputJson program args => RebuildLine program args
  | _ => False

/-- No such command line. -/
def NetCall.Harmless (c : NetCall) : Prop := ¬ c.Rebuilds

def HostRebuilds : hostInterface.Call → Prop := Sum.elim NetCall.Rebuilds (fun _ => False)

theorem harmless_isEgressHealthy (egress : EgressInterface) :
    (isEgressHealthy egress applying).Calls NetCall.Harmless := by
  by_cases henabled : egress.enabled = true
  · rw [isEgressHealthy, if_neg (not_not.mpr henabled)]
    refine .call id (fun present => Program.Calls.bind ?_ (fun usable => ?_))
    · cases present with
      | false => exact .pure _
      | true => exact .call id (fun raw => .pure _)
    · simp only [not_true_eq_false, if_false]
      split_ifs
      · refine .call id (fun exit => ?_)
        cases exit <;> exact .pure _
      · exact .pure _
      · exact .pure _
      · exact .pure _
  · rw [isEgressHealthy, if_pos henabled]
    exact .pure _

theorem harmless_runtimeEgress (cfg : Config) (egress : EgressInterface) :
    (runtimeEgress applying cfg egress).Calls NetCall.Harmless := by
  have hinspect : (inspectDirectEgress egress.name).Calls NetCall.Harmless := by
    refine .call id (fun out => ?_)
    cases out with
    | notSpawned cause => exact Program.Calls.ofExcept _
    | failed => exact Program.Calls.ofExcept _
    | stdout routes => exact .call id (fun addrs => Program.Calls.ofExcept _)
  by_cases hkind : egress.kind = .direct
  · rw [runtimeEgress, if_pos hkind]
    exact Program.Calls.bind hinspect (fun state => Program.Calls.ofExcept _)
  · rw [runtimeEgress, if_neg hkind]
    exact .pure _

theorem harmless_healthyEgressMap (cfg : Config) :
    (healthyEgressMap applying cfg).Calls NetCall.Harmless := by
  unfold healthyEgressMap
  generalize ([] : List EgressInterface) = healthy
  induction cfg.egressInterfaces generalizing healthy with
  | nil => exact .pure _
  | cons egress egresses ih =>
      refine Program.Calls.bind (harmless_isEgressHealthy egress) (fun usable => ?_)
      split_ifs
      · exact Program.Calls.bind (harmless_runtimeEgress cfg egress) (fun e => ih _)
      · exact ih _

theorem harmless_ensureTableAndChain (cfg : Config) :
    (ensureTableAndChain applying cfg).Calls NetCall.Harmless := by
  have hlisted : ∀ listArgs addArgs, ¬ RebuildLine "nft" listArgs → ¬ RebuildLine "nft" addArgs →
      (ensureListed applying listArgs addArgs).Calls NetCall.Harmless := by
    intro listArgs addArgs hlist hadd
    refine Program.Calls.bind (Program.Calls.attempt (.call hlist fun out => ?_)) fun listed => ?_
    · cases out with
      | notSpawned cause => exact .fail _
      | failed => exact .fail _
      | stdout text => exact .pure _
    · cases listed with
      | ok text => exact .pure _
      | error e =>
          refine .call hadd fun exit => ?_
          rcases exit with cause | success
          · exact .fail _
          · cases success with
            | true => exact .pure _
            | false => exact .fail _
  exact Program.Calls.bind (hlisted _ _ id id) fun _ => hlisted _ _ id id

/-! ### The round -/

/-- Some healthy direct egress has no complete runtime state, or it has drifted from the
configuration and must not be refreshed. -/
def HasUnusable (cfg : Config) (links : String → LinkState) : Prop :=
  ∃ egress ∈ cfg.egressInterfaces, egress.kind = .direct ∧ egressHealthy links egress = true ∧
    ¬ UsableState cfg links egress

theorem healthyEgresses_error {cfg : Config} {links : String → LinkState}
    (h : HasUnusable cfg links) : ∃ e, healthyEgresses links cfg = .error e := by
  obtain ⟨egress, hmem, hdirect, hhealthy, hunusable⟩ := h
  cases hmap : healthyEgresses links cfg with
  | error e => exact ⟨e, rfl⟩
  | ok healthy =>
      obtain ⟨e, he⟩ := (mem_healthyAt hmap).2 egress hmem hhealthy
      exact absurd (usableState_of_egressAt hdirect he) hunusable

theorem links_reconcileOnce (env : HostEnv) (order : MapOrder) (cfg : Config) (s : HostState) :
    (Program.run (host env) (reconcileOnce applying order cfg) s).2.1.links = s.1.links := by
  refine Program.run_const (host env) (fun s : HostState => s.1.links) (fun c s => ?_) _ s
  rcases c with c | c
  · exact netHost_links env.net c s.1
  · rfl

/-- A round that fails over the map has only looked at the chain and the links. -/
theorem reconcileOnce_stops {env : HostEnv} {order : MapOrder} {cfg : Config} {s : HostState}
    (h : HasUnusable cfg s.1.links) :
    (∃ e t, Program.run (host env) (reconcileOnce applying order cfg) s = (.error e, t)) ∧
      ∀ c ∈ Program.made (host env) (reconcileOnce applying order cfg) s, ¬ HostRebuilds c := by
  set chain : HostProgram Unit := (ensureTableAndChain applying cfg).left with hchain
  set map : HostProgram (List EgressInterface) := (healthyEgressMap applying cfg).left with hmap
  have hchainCalls : ∀ c ∈ Program.made (host env) chain s, ¬ HostRebuilds c :=
    Program.mem_made_of_calls (host env)
      (Program.Calls.left (fun _ hc => hc) (harmless_ensureTableAndChain cfg)) s
  unfold reconcileOnce
  rw [← hchain, ← hmap]
  rcases hrun : Program.run (host env) chain s with ⟨e | ⟨⟩, t⟩
  · refine ⟨⟨e, t, Program.run_bind_error _ hrun⟩, ?_⟩
    rw [Program.bind_eq, Program.made_bind_error _ hrun]
    exact hchainCalls
  · have hlinks : t.1.links = s.1.links := by
      have hkept := Program.run_const (host env) (fun s : HostState => s.1.links) (fun c s => by
        rcases c with c | c
        · exact netHost_links env.net c s.1
        · rfl) chain s
      rwa [hrun] at hkept
    rw [← hlinks] at h
    obtain ⟨e, he⟩ := healthyEgresses_error h
    have hfails : Program.run (host env) map t = (.error e, t) := by
      rw [hmap, Program.run_left, run_healthyEgressMap, he]
    have hmapCalls : ∀ c ∈ Program.made (host env) map t, ¬ HostRebuilds c :=
      Program.mem_made_of_calls (host env)
        (Program.Calls.left (fun _ hc => hc) (harmless_healthyEgressMap cfg)) t
    refine ⟨⟨e, t, ?_⟩, ?_⟩
    · rw [Program.bind_eq, Program.run_bind_ok _ hrun]
      exact Program.run_bind_error _ hfails
    · rw [Program.bind_eq, Program.made_bind_ok _ hrun, Program.bind_eq,
        Program.made_bind_error _ hfails]
      exact List.forall_mem_append.mpr ⟨hchainCalls, hmapCalls⟩

/-- The routes of direct egresses follow the host; a round that cannot follow it fails before it
issues anything; and the next map is taken from the configuration again. -/
theorem direct_egresses_follow_host {env env' : HostEnv} {order : MapOrder} {cfg : Config}
    {s : HostState} (hcfg : cfg.validate = .ok ()) (hlinks : ReportsTrimmed s.1.links) :
    (∀ healthy t, Program.run (netHost env.net) (healthyEgressMap applying cfg) s.1 =
        (.ok healthy, t) → ∀ e ∈ healthy, e.kind = .direct →
          ∃ g src, reported s.1.links e.name = .ok ⟨some g, some src⟩ ∧ Follows e g src) ∧
      (HasUnusable cfg s.1.links →
        (∃ e t, Program.run (host env) (reconcileOnce applying order cfg) s = (.error e, t)) ∧
          ∀ c ∈ Program.made (host env) (reconcileOnce applying order cfg) s, ¬ HostRebuilds c) ∧
      (Program.run (netHost env'.net) (healthyEgressMap applying cfg)
          (Program.run (host env) (reconcileOnce applying order cfg) s).2.1).1 =
        (Program.run (netHost env.net) (healthyEgressMap applying cfg) s.1).1 := by
  obtain ⟨-, -, hegresses, -⟩ := validate_eq_ok_iff.mp hcfg
  refine ⟨fun healthy t hrun e he hdirect => ?_, reconcileOnce_stops, ?_⟩
  · rw [run_healthyEgressMap, Prod.mk.injEq] at hrun
    obtain ⟨egress, hmem, hat⟩ := ((mem_healthyAt hrun.1).1 e he).resolve_left List.not_mem_nil
    have hkind := congrArg EgressInterface.kind (fixed_of_egressAt hat)
    change e.kind = egress.kind at hkind
    exact follows_of_egressAt hlinks (hegresses.each egress hmem) (hkind ▸ hdirect) hat
  · rw [run_healthyEgressMap, run_healthyEgressMap, links_reconcileOnce]

/-- A link with a gateway and an address. -/
def leasedLink (gateway address : String) : LinkState :=
  ⟨true, some "up", true,
    .stdout (some (.arr [.obj [("dst", .str "default"), ("gateway", .str gateway)]])),
    .stdout (some (.arr [.obj [("addr_info",
      .arr [.obj [("family", .str "inet"), ("local", .str address)]])]]))⟩

def wlanEgress (gateway : String) : EgressInterface :=
  { name := "wlan0", kind := .direct, gateway := some gateway, table := 10, fwmark := 10 }

def leasedState : HostState :=
  (⟨bareState.1.kernel, fun _ => leasedLink "192.0.2.1" "192.0.2.7", 0⟩, bareState.2)

theorem direct_egresses_follow_host_leased :
    (∃ g src, reported leasedState.1.links "wlan0" = .ok ⟨some g, some src⟩ ∧
        Follows { wlanEgress "192.0.2.1" with sourceIp := some "192.0.2.7" } g src) ∧
      (Program.run (netHost quietHost.net)
          (healthyEgressMap applying (configOf [wlanEgress "198.51.100.1"] []))
          (Program.run (host quietHost)
            (reconcileOnce applying listOrder (configOf [wlanEgress "198.51.100.1"] []))
            leasedState).2.1).1 =
        .ok [{ wlanEgress "192.0.2.1" with sourceIp := some "192.0.2.7" }] := by
  have htrimmed : ReportsTrimmed leasedState.1.links := by
    rintro name state hstate
    cases hstate
    refine ⟨fun g hg => ?_, fun src hsrc => ?_⟩
    · cases hg
      decide
    · cases hsrc
      decide
  have hcfg : (configOf [wlanEgress "198.51.100.1"] []).validate = .ok () := by decide
  obtain ⟨hfollows, -, hagain⟩ := @direct_egresses_follow_host quietHost quietHost
    listOrder _ leasedState hcfg htrimmed
  exact ⟨hfollows _ _ rfl _ List.mem_cons_self rfl, hagain⟩

end EveNet
