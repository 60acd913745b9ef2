import EveNet.Outcomes
import EveNet.RepeatedRounds

/-!
# What a round can fail on

Validation checks the names, tables, marks and match blocks that a round then relies on. With
an accepted configuration the map of healthy egresses has an entry for each of them, every
enabled policy names one that exists, and each rule of a policy is one `nft` command. What is
left to fail are the commands and the inspection of the direct egresses.
-/

namespace EveNet

/-! ### Failures of the host -/

/-- The errors of a command, and those of inspecting a direct egress. -/
inductive RoundFailure (cfg : Config) : Error → Prop where
  | notSpawned (program cause : String) : RoundFailure cfg ["failed to spawn " ++ program, cause]
  | commandFailed (program : String) (args : List String) :
      RoundFailure cfg (Executor.commandFailed program args)
  | inspection {egress : EgressInterface} (hmem : egress ∈ cfg.egressInterfaces)
      (hdirect : egress.kind = .direct) (routeOut addrOut : CommandOutput (Option Json)) {e : Error}
      (he : (runtimeStateOf egress.name routeOut addrOut).bind (refreshedEgress cfg egress) =
        .error e) : RoundFailure cfg e

section Commands

variable {exec : Executor} {cfg : Config}

theorem fails_run (program : String) (args : List String) :
    (exec.run program args).Fails (RoundFailure cfg) := by
  refine Program.Fails.ite (fun _ => .pure ()) (fun _ => .call (fun exit => ?_))
  rcases exit with cause | success
  · exact .fail (.notSpawned program cause)
  · cases success with
    | true => exact .pure ()
    | false => exact .fail (.commandFailed program args)

theorem fails_capture (program : String) (args : List String) :
    (Executor.capture program args).Fails (RoundFailure cfg) := by
  refine .call (fun out => ?_)
  cases out with
  | notSpawned cause => exact .fail (.notSpawned program cause)
  | failed => exact .fail (.commandFailed program args)
  | stdout text => exact .pure text

theorem fails_ensureListed (listArgs addArgs : List String) :
    (ensureListed exec listArgs addArgs).Fails (RoundFailure cfg) := by
  refine Program.Fails.bind (Program.Fails.attempt _) (fun listed => ?_)
  cases listed with
  | ok text => exact .pure ()
  | error e => exact fails_run "nft" addArgs

theorem fails_ensureTableAndChain (cfg' : Config) :
    (ensureTableAndChain exec cfg').Fails (RoundFailure cfg) :=
  Program.Fails.ite
    (fun _ => Program.Fails.bind (fails_run _ _) (fun _ => fails_run _ _))
    (fun _ => Program.Fails.bind (fails_ensureListed _ _) (fun _ => fails_ensureListed _ _))

theorem fails_ensureEgressRoute (egress : EgressInterface) :
    (ensureEgressRoute exec egress).Fails (RoundFailure cfg) := by
  have hadd : (exec.run "ip" (fwmarkRuleArgs egress)).Fails (RoundFailure cfg) := fails_run _ _
  refine Program.Fails.bind (fails_run _ _)
    (fun _ => Program.Fails.ite (fun _ => hadd) (fun _ => ?_))
  exact Program.Fails.bind (fails_capture _ _)
    (fun rules => Program.Fails.ite (fun _ => .pure ()) (fun _ => hadd))

/-! ### The map of healthy egresses -/

theorem fails_isEgressHealthy (egress : EgressInterface) :
    (isEgressHealthy egress exec).Fails (RoundFailure cfg) := by
  refine Program.Fails.ite (fun _ => .pure false) (fun _ => .call (fun present => ?_))
  refine Program.Fails.bind
    (Program.Fails.ite (fun _ => .call (fun raw => .pure _)) (fun _ => .pure false))
    (fun usable => Program.Fails.ite (fun _ => .pure true) (fun _ => ?_))
  refine Program.Fails.ite (fun _ => .pure false) (fun _ => ?_)
  refine Program.Fails.ite (fun _ => .pure false) (fun _ => ?_)
  refine Program.Fails.ite (fun _ => .pure true) (fun _ => .call (fun exit => ?_))
  cases exit <;> exact .pure _

theorem fails_inspectDirectEgress {egress : EgressInterface} (hmem : egress ∈ cfg.egressInterfaces)
    (hdirect : egress.kind = .direct) :
    ((inspectDirectEgress egress.name).bind
      (fun state => .ofExcept (refreshedEgress cfg egress state))).Fails (RoundFailure cfg) := by
  have hread : ∀ routeOut addrOut, ((Program.ofExcept (runtimeStateOf egress.name routeOut addrOut) :
      NetProgram _).bind (fun state => .ofExcept (refreshedEgress cfg egress state))).Fails
        (RoundFailure cfg) := by
    intro routeOut addrOut
    cases hstate : runtimeStateOf egress.name routeOut addrOut with
    | error e =>
        refine .fail (.inspection hmem hdirect routeOut addrOut ?_)
        rw [hstate]
        rfl
    | ok state =>
        refine Program.Fails.ofExcept (fun e he => ?_)
        refine .inspection hmem hdirect routeOut addrOut ?_
        rw [hstate]
        exact he
  refine .call (fun out => ?_)
  cases out with
  | notSpawned cause => exact hread _ _
  | failed => exact hread _ _
  | stdout routes => exact .call (fun addrs => hread _ _)

theorem fails_runtimeEgress {egress : EgressInterface} (hmem : egress ∈ cfg.egressInterfaces) :
    (runtimeEgress exec cfg egress).Fails (RoundFailure cfg) :=
  Program.Fails.ite
    (fun hdirect => Program.Fails.ite (fun _ => .pure egress)
      (fun _ => fails_inspectDirectEgress hmem hdirect))
    (fun _ => .pure egress)

theorem fails_healthyEgressMap : (healthyEgressMap exec cfg).Fails (RoundFailure cfg) := by
  have hcollect : ∀ egresses ⊆ cfg.egressInterfaces, ∀ healthy,
      (collectHealthy exec cfg healthy egresses).Fails (RoundFailure cfg) := by
    intro egresses
    induction egresses with
    | nil => exact fun _ healthy => .pure healthy
    | cons egress egresses ih =>
        intro hsub healthy
        obtain ⟨hmem, hrest⟩ := List.cons_subset.mp hsub
        exact Program.Fails.bind (fails_isEgressHealthy egress)
          (fun usable => Program.Fails.ite
            (fun _ => Program.Fails.bind (fails_runtimeEgress hmem) (fun e => ih hrest _))
            (fun _ => ih hrest _))
  exact hcollect _ (List.Subset.refl _) []

end Commands

/-! ### The rules of a policy -/

/-- The one command line that adds a rule. -/
def addRuleArgs (cfg : Config) (rule : NftRule) : List String :=
  ["add", "rule", "inet", cfg.nft.table, cfg.nft.outputChain] ++ ruleArgs rule

theorem appendMatch_of_usable {spec : MatchSpec} (h : Usable spec) (args : List String) :
    ∃ out, appendMatch args spec = .ok out ∧ ∀ egress : EgressInterface,
      out ++ ["counter", "meta", "mark", "set", toString egress.fwmark] =
        args ++ ruleArgs (ruleOf egress spec) := by
  have hsome : ¬ ((matchDest spec).isNone = true ∧ spec.uid.isNone = true) := by
    rintro ⟨hdest, huid⟩
    rw [Usable, Option.isNone_iff_eq_none.mp hdest, Option.isNone_iff_eq_none.mp huid] at h
    rcases h with h | h <;> cases h
  refine ⟨_, if_neg hsome, fun egress => ?_⟩
  unfold ruleArgs ruleOf
  cases matchDest spec <;> cases spec.uid <;> simp

theorem addPolicyRuleWithMatch_eq {spec : MatchSpec} (h : Usable spec) (exec : Executor)
    (cfg : Config) (egress : EgressInterface) :
    addPolicyRuleWithMatch exec cfg egress spec =
      exec.run "nft" (addRuleArgs cfg (ruleOf egress spec)) := by
  obtain ⟨out, hout, hargs⟩ :=
    appendMatch_of_usable h ["add", "rule", "inet", cfg.nft.table, cfg.nft.outputChain]
  unfold addPolicyRuleWithMatch addRuleArgs
  rw [hout, ← hargs egress]
  rfl

theorem usable_resolvedSpec (spec : MatchSpec) (ip : String) : Usable (resolvedSpec spec ip) :=
  Or.inl rfl

theorem usable_of_hasAnyMatch {spec : MatchSpec} (hmatch : spec.hasAnyMatch = true)
    (hdomain : spec.domain = none) : Usable spec := by
  simp only [MatchSpec.hasAnyMatch, hdomain, Bool.or_eq_true, Option.isSome_none,
    Bool.false_eq_true, or_false] at hmatch
  unfold Usable matchDest
  simp only [Option.isSome_or, Bool.or_eq_true]
  tauto

theorem fails_applyPolicy {cfg : Config} (exec : Executor) (healthy : List EgressInterface)
    {policy : Policy} (hmatch : policy.matchSpec.hasAnyMatch = true) :
    (applyPolicy exec cfg healthy policy).Fails (RoundFailure cfg) := by
  unfold applyPolicy
  cases KeyedList.lookup (·.name) policy.action.egress healthy with
  | none => exact .pure ()
  | some egress =>
      cases hdomain : policy.matchSpec.domain with
      | none =>
          refine Program.Fails.left ?_
          rw [addPolicyRule_eq hdomain,
            addPolicyRuleWithMatch_eq (usable_of_hasAnyMatch hmatch hdomain)]
          exact fails_run _ _
      | some domain =>
          refine Program.Fails.bind (Program.Fails.right (Program.Fails.attempt _))
            (fun outcome => Program.Fails.left ?_)
          cases outcome with
          | error e => exact .pure ()
          | ok resolution =>
              refine Program.Fails.forEach (fun ip _ => ?_)
              rw [addPolicyRuleForResolvedIp, addPolicyRuleWithMatch_eq (usable_resolvedSpec _ ip)]
              exact fails_run _ _

/-! ### The round -/

theorem fails_reconcileOnce {cfg : Config} (hcfg : Accepted cfg) (exec : Executor)
    (order : MapOrder) : (reconcileOnce exec order cfg).Fails (RoundFailure cfg) := by
  refine Program.Fails.bind (Program.Fails.left (fails_ensureTableAndChain cfg)) (fun _ => ?_)
  refine Program.Fails.bind (Program.Fails.left fails_healthyEgressMap) (fun healthy => ?_)
  refine Program.Fails.ite (fun _ => Program.Fails.left (fails_run _ _)) (fun _ => ?_)
  refine Program.Fails.bind (Program.Fails.left
    (Program.Fails.forEach (fun egress _ => fails_ensureEgressRoute egress))) (fun _ => ?_)
  refine Program.Fails.bind (Program.Fails.left (fails_run _ _)) (fun _ => ?_)
  refine Program.Fails.forEach (fun policy hpolicy => fails_applyPolicy exec healthy ?_)
  exact hcfg.hasMatch policy (List.mem_of_mem_filter hpolicy)

/-! ### The map keeps every healthy egress -/

/-- Whether a round takes an egress for healthy; without `--apply` it only has to be enabled. -/
def judgedHealthy (exec : Executor) (links : String → LinkState) (egress : EgressInterface) :
    Bool :=
  if exec.apply then egressHealthy links egress else egress.enabled

theorem run_isEgressHealthy_dry (env : NetEnv) (egress : EgressInterface) (s : NetState) :
    Program.run (netHost env) (isEgressHealthy egress ⟨false⟩) s = (.ok egress.enabled, s) := by
  unfold isEgressHealthy
  cases henabled : egress.enabled with
  | false => rfl
  | true =>
      cases hpresent : (s.links egress.name).present with
      | false => simp [netHost, hpresent]
      | true => simp [netHost, hpresent]

theorem run_collectHealthy_dry (env : NetEnv) (cfg : Config) {start egresses : List EgressInterface}
    (s : NetState) (hnodup : (start.map (·.name) ++ egresses.map (·.name)).Nodup) :
    Program.run (netHost env) (collectHealthy ⟨false⟩ cfg start egresses) s =
      (.ok (start ++ egresses.filter (·.enabled)), s) := by
  induction egresses generalizing start with
  | nil => rw [List.filter_nil, List.append_nil]; rfl
  | cons egress egresses ih =>
      rw [List.map_cons] at hnodup
      rw [collectHealthy, Program.bind_eq,
        Program.run_bind_ok _ (run_isEgressHealthy_dry env egress s)]
      by_cases henabled : egress.enabled = true
      · have hfresh : egress.name ∉ start.map (·.name) :=
          fun hm => (List.nodup_append.mp hnodup).2.2 _ hm _ List.mem_cons_self rfl
        have hdry : runtimeEgress ⟨false⟩ cfg egress = .pure egress := by
          by_cases hdirect : egress.kind = .direct
          · rw [runtimeEgress, if_pos hdirect]
            rfl
          · rw [runtimeEgress, if_neg hdirect]
        rw [if_pos henabled, hdry, Program.bind_eq, Program.bind_pure_left,
          KeyedList.upsert_fresh _ hfresh, ih (by simpa using hnodup),
          List.filter_cons_of_pos henabled, List.append_assoc]
        rfl
      · rw [if_neg henabled, List.filter_cons_of_neg henabled]
        exact ih (hnodup.sublist (List.Sublist.append_left (List.sublist_cons_self _ _) _))

/-- Up to the runtime state of the direct ones, the map holds every healthy egress. -/
theorem fixed_of_healthyEgressMap {cfg : Config} (hcfg : Accepted cfg) (exec : Executor)
    (env : NetEnv) {s t : NetState} {healthy : List EgressInterface}
    (hrun : Program.run (netHost env) (healthyEgressMap exec cfg) s = (.ok healthy, t)) :
    healthy.map (·.fixed) =
      (cfg.egressInterfaces.filter (judgedHealthy exec s.links)).map (·.fixed) := by
  rcases exec with ⟨_ | _⟩
  · have hnames : (([] : List EgressInterface).map (·.name) ++
        cfg.egressInterfaces.map (·.name)).Nodup := hcfg.names
    rw [healthyEgressMap, run_collectHealthy_dry env cfg s hnames] at hrun
    cases hrun
    rfl
  · rw [run_healthyEgressMap, Prod.mk.injEq] at hrun
    exact fixed_of_healthyEgresses hcfg hrun.1

/-- With an accepted configuration a round can only fail on the host: no healthy egress is lost
from the map, the egress of an enabled policy exists and is enabled, and every rule of such a
policy is one `nft` command. -/
theorem rounds_fail_on_host_only {cfg : Config} (h : cfg.validate = .ok ()) (exec : Executor) :
    ((cfg.egressInterfaces.map (·.name)).Nodup ∧ (cfg.egressInterfaces.map (·.table)).Nodup ∧
      (cfg.egressInterfaces.map (·.fwmark)).Nodup ∧
      (∀ egress ∈ cfg.egressInterfaces, egress.table ≠ 0 ∧ egress.fwmark ≠ 0) ∧
      ∀ env s healthy t,
        Program.run (netHost env) (healthyEgressMap exec cfg) s = (.ok healthy, t) →
        healthy.map (·.fixed) =
          (cfg.egressInterfaces.filter (judgedHealthy exec s.links)).map (·.fixed)) ∧
    (∀ policy ∈ cfg.enabledPolicies,
      (∃ egress ∈ cfg.egressInterfaces, egress.enabled ∧ egress.name = policy.action.egress) ∧
      (∀ ips, ∀ spec ∈ policySpecs policy ips, ∀ args, ∃ out, appendMatch args spec = .ok out) ∧
      ∀ egress, (policy.matchSpec.domain = none → addPolicyRule exec cfg policy egress =
          exec.run "nft" (addRuleArgs cfg (ruleOf egress policy.matchSpec))) ∧
        ∀ ip, addPolicyRuleForResolvedIp exec cfg policy egress ip =
          exec.run "nft" (addRuleArgs cfg (ruleOf egress (resolvedSpec policy.matchSpec ip)))) ∧
    ∀ env order s e t,
      Program.run (host env) (reconcileOnce exec order cfg) s = (.error e, t) →
        RoundFailure cfg e := by
  have hcfg := accepted_of_validate h
  refine ⟨⟨hcfg.names, hcfg.tables, hcfg.marks, hcfg.nonzero, fun env s healthy t hrun =>
    fixed_of_healthyEgressMap hcfg exec env hrun⟩, fun policy hpolicy => ?_,
    fun env order s e t hrun => (fails_reconcileOnce hcfg exec order).error hrun⟩
  have hmatch := hcfg.hasMatch policy (List.mem_of_mem_filter hpolicy)
  refine ⟨hcfg.egressEnabled policy hpolicy, fun ips spec hspec args => ?_, fun egress =>
    ⟨fun hdomain => ?_, fun ip => ?_⟩⟩
  · obtain ⟨out, hout, -⟩ := appendMatch_of_usable (usable_policySpecs ips hmatch spec hspec) args
    exact ⟨out, hout⟩
  · rw [addPolicyRule_eq hdomain]
    exact addPolicyRuleWithMatch_eq (usable_of_hasAnyMatch hmatch hdomain) exec cfg egress
  · exact addPolicyRuleWithMatch_eq (usable_resolvedSpec _ ip) exec cfg egress

/-- On a host where the table cannot be added the round fails on that command. -/
theorem rounds_fail_on_host_only_office :
    officeConfig.validate = .ok () ∧
      (Program.run (host (failingAt 1)) (reconcileOnce applying listOrder officeConfig)
        bareState).1 = .error (Executor.commandFailed "nft" (addTableArgs officeConfig)) ∧
      RoundFailure officeConfig (Executor.commandFailed "nft" (addTableArgs officeConfig)) := by
  have hcfg : officeConfig.validate = .ok () := by decide
  have hrun : Program.run (host (failingAt 1)) (reconcileOnce applying listOrder officeConfig)
      bareState = (.error (Executor.commandFailed "nft" (addTableArgs officeConfig)),
        (Program.run (host (failingAt 1)) (reconcileOnce applying listOrder officeConfig)
          bareState).2) := rfl
  exact ⟨hcfg, rfl, (rounds_fail_on_host_only hcfg applying).2.2 (failingAt 1) listOrder bareState _
    _ hrun⟩

end EveNet
