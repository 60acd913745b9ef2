import EveNet.PolicyChain
import EveNet.RuleListing

/-!
# The rules and routes of marked packets

A packet that a policy marks is routed by the ip rule of its mark. A round adds that rule
unless the search of the listing finds a rule that stands for it: the rules that a round
leaves are the initial ones grown by what is not found.
-/

namespace EveNet

/-! ### Rules and routes during a round -/

section Commands

variable (env : NetEnv)

/-- The ip rules and routes of the host. -/
def routing (s : NetState) : List IpRule × (UInt32 → List Route) := (s.kernel.ipRules, s.kernel.routes)

/-- A call that only concerns nft. -/
def NftOnly (c : NetCall) : Prop :=
  (∃ args, c = .spawn "nft" args) ∨ ∃ program args, c = .output program args

theorem nftCommand_routing {k k' : Kernel} {args : List String} (h : nftCommand k args = some k') :
    k'.ipRules = k.ipRules ∧ k'.routes = k.routes := by
  unfold nftCommand at h
  split at h
  · cases h
    exact ⟨rfl, rfl⟩
  · split_ifs at h <;> (cases h; exact ⟨rfl, rfl⟩)
  · obtain ⟨rules, -, rfl⟩ := Option.map_eq_some_iff.mp h
    exact ⟨rfl, rfl⟩
  · obtain ⟨rules, -, h⟩ := Option.bind_eq_some_iff.mp h
    obtain ⟨rule, -, h⟩ := Option.bind_eq_some_iff.mp h
    cases h
    exact ⟨rfl, rfl⟩
  · split_ifs at h
    cases h
    exact ⟨rfl, rfl⟩
  · cases h

theorem routing_of_nftOnly {c : NetCall} (hc : NftOnly c) (s : NetState) :
    routing (netHost env c s).2 = routing s := by
  rcases hc with ⟨args, rfl⟩ | ⟨program, args, rfl⟩
  · have hnft : "nft" ≠ "ping" := by decide
    simp only [netHost, if_neg hnft, spawnCommand]
    cases env.fate s.commands with
    | notSpawned cause => rfl
    | fails => rfl
    | works =>
        cases hk : s.kernel.command "nft" args with
        | none => rfl
        | some k =>
            obtain ⟨hrules, hroutes⟩ := nftCommand_routing hk
            exact Prod.ext hrules hroutes
  · rw [netHost_output]
    rfl

theorem calls_run_nft (args : List String) : (applying.run "nft" args).Calls NftOnly := by
  refine .call (Or.inl ⟨args, rfl⟩) (fun exit => ?_)
  rcases exit with cause | ⟨_ | _⟩
  · exact .fail _
  · exact .fail _
  · exact .pure _

theorem calls_capture (program : String) (args : List String) :
    (Executor.capture program args).Calls NftOnly := by
  refine .call (Or.inr ⟨program, args, rfl⟩) (fun out => ?_)
  cases out with
  | notSpawned cause => exact .fail _
  | failed => exact .fail _
  | stdout text => exact .pure _

theorem calls_ensureTableAndChain (cfg : Config) :
    (ensureTableAndChain applying cfg).Calls NftOnly := by
  have hlisted : ∀ listArgs addArgs, (ensureListed applying listArgs addArgs).Calls NftOnly := by
    intro listArgs addArgs
    refine Program.Calls.bind (Program.Calls.attempt (calls_capture _ _)) (fun listed => ?_)
    cases listed with
    | ok text => exact .pure _
    | error e => exact calls_run_nft addArgs
  exact Program.Calls.bind (hlisted _ _) (fun _ => hlisted _ _)

theorem calls_addPolicyRuleWithMatch (cfg : Config) (egress : EgressInterface) (spec : MatchSpec) :
    (addPolicyRuleWithMatch applying cfg egress spec).Calls NftOnly :=
  Program.Calls.bind (Program.Calls.ofExcept _) (fun _ => calls_run_nft _)

/-- A call of the round that leaves the ip rules and routes alone. -/
def KeepsRouting : hostInterface.Call → Prop
  | .inl c => NftOnly c
  | .inr _ => True

theorem calls_applyPolicy (cfg : Config) (healthy : List EgressInterface) (policy : Policy) :
    (applyPolicy applying cfg healthy policy).Calls KeepsRouting := by
  have hadd : ∀ egress spec,
      ((addPolicyRuleWithMatch applying cfg egress spec).left : HostProgram Unit).Calls
        KeepsRouting :=
    fun egress spec => Program.Calls.left (fun c hc => hc) (calls_addPolicyRuleWithMatch cfg egress spec)
  unfold applyPolicy
  cases KeyedList.lookup (·.name) policy.action.egress healthy with
  | none => exact .pure _
  | some egress =>
      cases hdomain : policy.matchSpec.domain with
      | none =>
          dsimp only
          rw [addPolicyRule_eq hdomain]
          exact hadd egress policy.matchSpec
      | some domain =>
          refine Program.Calls.bind
            (Program.Calls.right (fun _ _ => trivial) (Program.Calls.any _)) (fun outcome => ?_)
          refine Program.Calls.left (P := NftOnly) (fun c hc => hc) ?_
          cases outcome with
          | error e => exact .pure _
          | ok resolution =>
              exact Program.Calls.forEach (fun ip _ => calls_addPolicyRuleWithMatch _ _ _)

theorem listing_ruleShow (tableName : UInt32 → String) (k : Kernel) :
    k.listing tableName "ip" ["rule", "show"] =
      some (String.ofList (ipRuleShow tableName k.ipRules)) := rfl

variable {R : IpRule → IpRule → Prop} [DecidableRel R]

/-- The rule of an egress is added unless a rule of the list is found for it. -/
theorem run_ensureFwmarkRule (hfinds : Finds env.tableName R) {egress : EgressInterface}
    {s t : NetState}
    (h : Program.run (netHost env) (ensureFwmarkRule applying egress) s = (.ok (), t)) :
    routing t = (CoveredList.grow R s.kernel.ipRules (fwmarkRule egress), s.kernel.routes) := by
  obtain ⟨listing, u, hu, hrest⟩ := Program.run_bind_eq_ok _ h
  obtain ⟨hlisting, rfl⟩ := Executor.run_capture_eq_ok env hu
  rw [listing_ruleShow, Option.some.injEq] at hlisting
  have hsearch := hfinds egress s.kernel.ipRules
  rw [hlisting] at hsearch
  by_cases hfound : ∃ rule ∈ s.kernel.ipRules, R rule (fwmarkRule egress)
  · rw [if_pos (hsearch.mpr hfound), Program.pure_eq, Program.run_pure, Prod.mk.injEq] at hrest
    rw [CoveredList.grow, if_pos hfound, ← hrest.2]
    rfl
  · rw [if_neg (hsearch.not.mpr hfound)] at hrest
    rw [CoveredList.grow, if_neg hfound]
    obtain ⟨k, hcmd, rfl⟩ := Executor.run_eq_ok env (by decide) hrest
    rw [command_fwmarkRule] at hcmd
    split_ifs at hcmd
    rw [← Option.some.inj hcmd]
    rfl

theorem run_ensureEgressRoute (hfinds : Finds env.tableName R) {egress : EgressInterface}
    {s t : NetState}
    (h : Program.run (netHost env) (ensureEgressRoute applying egress) s = (.ok (), t)) :
    routing t = (CoveredList.grow R s.kernel.ipRules (fwmarkRule egress),
      (s.kernel.replaceDefault egress.table (defaultRoute egress)).routes) := by
  obtain ⟨_, u, hu, hrest⟩ := Program.run_bind_eq_ok _ h
  obtain ⟨k, hcmd, rfl⟩ := Executor.run_eq_ok env (by decide) hu
  rw [command_route, Option.some.injEq] at hcmd
  rw [run_ensureFwmarkRule env hfinds hrest, ← hcmd]
  rfl

/-- What the routes of some egresses leave: the rules grown by theirs, the other tables as
they were, and in each of their tables the one default route. -/
theorem run_ensureEgressRoutes (hfinds : Finds env.tableName R)
    {egresses : List EgressInterface} (htables : (egresses.map (·.table)).Nodup) {s t : NetState}
    (h : Program.run (netHost env) (Program.forEach (ensureEgressRoute applying) egresses) s =
      (.ok (), t)) :
    t.kernel.ipRules = (egresses.map fwmarkRule).foldl (CoveredList.grow R) s.kernel.ipRules ∧
      (∀ table ∉ egresses.map (·.table), t.kernel.routes table = s.kernel.routes table) ∧
      ∀ egress ∈ egresses, t.kernel.routes egress.table =
        (s.kernel.routes egress.table).filter (fun r => r.dest != "default") ++
          [defaultRoute egress] := by
  induction egresses generalizing s with
  | nil =>
      rw [Program.forEach_nil, Program.run_pure, Prod.mk.injEq] at h
      simp [h.2]
  | cons egress egresses ih =>
      obtain ⟨_, u, hu, hrest⟩ := Program.run_bind_eq_ok _ h
      rw [List.map_cons, List.nodup_cons] at htables
      obtain ⟨hrules, hother, hdefault⟩ := ih htables.2 hrest
      obtain ⟨hrules', hroutes'⟩ := Prod.mk.inj (run_ensureEgressRoute env hfinds hu)
      refine ⟨?_, ?_, ?_⟩
      · rw [hrules, hrules', List.map_cons, List.foldl_cons]
      · intro table htable
        rw [List.map_cons, List.mem_cons, not_or] at htable
        rw [hother table htable.2, hroutes', Kernel.replaceDefault]
        exact Function.update_of_ne htable.1 _ _
      · intro e he
        rcases List.mem_cons.mp he with rfl | he
        · rw [hother _ htables.1, hroutes']
          exact Function.update_self _ _ _
        · have hne : e.table ≠ egress.table := fun heq =>
            htables.1 (heq ▸ List.mem_map_of_mem he)
          rw [hdefault e he, hroutes', Kernel.replaceDefault]
          dsimp only
          rw [Function.update_of_ne hne]

end Commands

section Round

variable {cfg : Config} {env : HostEnv} {order : MapOrder} {s t : HostState}
  {healthy : List EgressInterface}

theorem routing_of_keepsRouting (env : HostEnv) (c : hostInterface.Call) (hc : KeepsRouting c)
    (s : HostState) : routing (host env c s).2.1 = routing s.1 := by
  cases c with
  | inl c => exact routing_of_nftOnly env.net hc s.1
  | inr c => rfl

theorem map_of_fixed {β : Type} {f : EgressInterface → β} (hf : ∀ e, f e.fixed = f e)
    {egresses egresses' : List EgressInterface}
    (h : egresses.map (·.fixed) = egresses'.map (·.fixed)) : egresses.map f = egresses'.map f := by
  have hmap := congrArg (List.map f) h
  rw [List.map_map, List.map_map] at hmap
  have hcomp : f ∘ (fun e : EgressInterface => e.fixed) = f := funext hf
  rwa [hcomp] at hmap

/-- In the walk the map's egresses keep the distinct tables and marks of the configuration. -/
theorem nodup_walk {f : EgressInterface → UInt32} (hf : ∀ e, f e.fixed = f e)
    (hnodup : (cfg.egressInterfaces.map f).Nodup) (hcfg : Accepted cfg)
    (hhealthy : healthyEgresses s.1.links cfg = .ok healthy) :
    ((order.walk healthy).map f).Nodup := by
  have hsame := map_of_fixed hf (fixed_of_healthyEgresses hcfg hhealthy)
  have hsub : (healthy.map f).Nodup := by
    rw [hsame]
    exact hnodup.sublist (List.filter_sublist.map f)
  exact ((order.perm healthy).map f).nodup_iff.mpr hsub

/-- The ip rules and default routes after a completed round. -/
theorem routing_reconcileOnce {R : IpRule → IpRule → Prop} [DecidableRel R] (hcfg : Accepted cfg)
    (hfinds : Finds env.net.tableName R)
    (hrun : Program.run (host env) (reconcileOnce applying order cfg) s = (.ok (), t)) :
    ∃ healthy, healthyEgresses s.1.links cfg = .ok healthy ∧
      t.1.kernel.ipRules = ((order.walk healthy).map fwmarkRule).foldl
        (CoveredList.grow R) s.1.kernel.ipRules ∧
      ∀ egress ∈ healthy, t.1.kernel.routes egress.table =
        (s.1.kernel.routes egress.table).filter (fun r => r.dest != "default") ++
          [defaultRoute egress] := by
  obtain ⟨healthy, u, hhealthy, -, htable, hrest⟩ := run_reconcileOnce_ok env hrun
  have hu : routing u = routing s.1 := by
    have hframe := Program.run_frame (netHost env.net) routing
      (fun c hc x => routing_of_nftOnly env.net hc x) (calls_ensureTableAndChain cfg) s.1
    rwa [htable] at hframe
  refine ⟨healthy, hhealthy, ?_⟩
  by_cases hclosed : healthy = [] ∧ cfg.runtime.failClosed = true
  · rw [if_pos hclosed, Program.run_left, Prod.mk.injEq] at hrest
    have hflush := Program.run_frame (netHost env.net) routing
      (fun c hc x => routing_of_nftOnly env.net hc x) (calls_run_nft (flushArgs cfg)) u
    have hwalk : order.walk healthy = [] := by
      rw [hclosed.1]
      exact List.perm_nil.mp (order.perm [])
    rw [hwalk, hclosed.1, ← hrest.2]
    exact ⟨congrArg Prod.fst (hflush.trans hu), by simp⟩
  · rw [if_neg hclosed] at hrest
    obtain ⟨_, v, hroutes, hlast⟩ := Program.run_bind_eq_ok _ hrest
    rw [Program.run_left, Prod.mk.injEq] at hroutes
    obtain ⟨hok, rfl⟩ := hroutes
    have hkeep : routing t.1 = routing (Program.run (netHost env.net)
        (Program.forEach (ensureEgressRoute applying) (order.walk healthy)) u).2 := by
      have hcalls : (((flushPolicyChain applying cfg).left : HostProgram Unit).bind (fun _ =>
          Program.forEach (applyPolicy applying cfg healthy) cfg.enabledPolicies)).Calls
            KeepsRouting :=
        Program.Calls.bind (Program.Calls.left (fun c hc => hc) (calls_run_nft (flushArgs cfg)))
          (fun _ => Program.Calls.forEach (fun policy _ => calls_applyPolicy cfg healthy policy))
      have hframe := Program.run_frame (host env) (fun x => routing x.1)
        (routing_of_keepsRouting env) hcalls
      have hstate := hframe (((Program.run (netHost env.net)
        (Program.forEach (ensureEgressRoute applying) (order.walk healthy)) u).2, s.2))
      exact (congrArg (fun r => routing r.2.1) hlast).symm.trans hstate
    obtain ⟨hrules, -, hdefault⟩ := run_ensureEgressRoutes env.net hfinds
      (nodup_walk (fun _ => rfl) hcfg.tables hcfg hhealthy) (Prod.ext hok rfl)
    obtain ⟨hrules', hroutes'⟩ := Prod.mk.inj hkeep
    obtain ⟨hstartRules, hstartRoutes⟩ := Prod.mk.inj hu
    refine ⟨?_, fun egress he => ?_⟩
    · rw [hrules', hrules, hstartRules]
    · rw [hroutes', hdefault egress ((order.perm healthy).mem_iff.mpr he), hstartRoutes]

/-- The one default route that a round leaves in the table of an egress. -/
theorem filter_default_eq {k k' : Kernel} {egress : EgressInterface}
    (h : k'.routes egress.table = (k.routes egress.table).filter (fun r => r.dest != "default") ++
      [defaultRoute egress]) :
    (k'.routes egress.table).filter (fun r => r.dest = "default") = [defaultRoute egress] := by
  rw [h]
  simp [defaultRoute]

/-- The kernel routes what the egress marks: a rule of exactly its mark and table, and a
default route of that table through its device. -/
def Routed (k : Kernel) (egress : EgressInterface) : Prop :=
  (∃ rule ∈ k.ipRules, rule.fwmark = some egress.fwmark ∧ rule.table = egress.table) ∧
    ∃ route, (k.routes egress.table).filter (fun r => r.dest = "default") = [route] ∧
      route.dev = egress.name

/-- Every mark that the policy chain sets is one of an egress whose packets are routed. -/
def MarksRouted (cfg : Config) (k : Kernel) : Prop :=
  ∀ rule ∈ policyChain cfg k, ∃ egress ∈ cfg.egressInterfaces,
    rule.mark = egress.fwmark ∧ Routed k egress

/-- Some policy of the egress has a match block of its own or an address found for it. -/
def HasRules (egress : EgressInterface) (resolved : List (Policy × List String)) : Prop :=
  ∃ r ∈ resolved, r.1.action.egress = egress.name ∧ (r.1.matchSpec.domain = none ∨ r.2 ≠ [])

/-- Nothing stands for the rule of the egress, neither in the initial list nor from the
egresses before it. -/
def RuleFree (initial : List IpRule) (before : List EgressInterface) (egress : EgressInterface) :
    Prop :=
  (∃ rule ∈ initial, rule.fwmark = some egress.fwmark ∧ rule.table = egress.table) ∨
    (¬ ∃ rule ∈ initial, Shadows rule (fwmarkRule egress)) ∧
      ∀ e ∈ before, ¬ Shadows (fwmarkRule e) (fwmarkRule egress)

theorem exists_rule_iff {egress : EgressInterface} {before after : List EgressInterface}
    {initial : List IpRule}
    (hmarks : ((before ++ egress :: after).map (·.fwmark)).Nodup) :
    (∃ rule ∈ ((before ++ egress :: after).map fwmarkRule).foldl (CoveredList.grow Shadows) initial,
        rule.fwmark = some egress.fwmark ∧ rule.table = egress.table) ↔
      RuleFree initial before egress := by
  have hother : ∀ e ∈ before ++ after, e.fwmark ≠ egress.fwmark := by
    intro e he heq
    rw [List.map_append, List.map_cons] at hmarks
    have hfresh : egress.fwmark ∉ (before ++ after).map (·.fwmark) := by
      rw [List.map_append]
      exact (List.nodup_cons.mp ((List.nodup_middle).mp hmarks)).1
    exact hfresh (heq ▸ List.mem_map_of_mem he)
  have hne : ∀ rule ∈ (before ++ after).map fwmarkRule,
      ¬ (rule.fwmark = some egress.fwmark ∧ rule.table = egress.table) := by
    intro rule hrule hexact
    obtain ⟨e, he, rfl⟩ := List.mem_map.mp hrule
    exact hother e he (Option.some.inj hexact.1)
  rw [List.map_append] at hne
  rw [List.map_append, List.map_cons, CoveredList.exists_foldl_grow_iff Shadows
    (p := fun rule => rule.fwmark = some egress.fwmark ∧ rule.table = egress.table) ⟨rfl, rfl⟩
    (fun rule h => hne rule (List.mem_append_left _ h))
    (fun rule h => hne rule (List.mem_append_right _ h))]
  simp [RuleFree]

/-- A round that returns routes every mark exactly when no other rule stands for the rule of
an egress that has rules in the chain. -/
theorem marksRouted_iff (hcfg : cfg.validate = .ok ()) (hnames : env.net.tableName = decimal)
    (hrun : Program.run (host env) (reconcileOnce applying order cfg) s = (.ok (), t)) :
    ∃ healthy, healthyEgresses s.1.links cfg = .ok healthy ∧
      (MarksRouted cfg t.1.kernel ↔ ∀ before egress after,
        order.walk healthy = before ++ egress :: after →
        HasRules egress (resolutions env.cache cfg (configuredHealthy s.1.links cfg)
          cfg.enabledPolicies s.2) →
        RuleFree s.1.kernel.ipRules before egress) := by
  have hacc := accepted_of_validate hcfg
  have hfinds : Finds env.net.tableName Shadows := hnames ▸ finds_shadows
  obtain ⟨healthy, hhealthy, hrules, hdefault⟩ := routing_reconcileOnce hacc hfinds hrun
  have hchain := chain_reconcileOnce env hacc hrun
  have hfixed := fixed_of_healthyEgresses hacc hhealthy
  have hwalk : ((order.walk healthy).map (·.fwmark)).Nodup :=
    nodup_walk (fun _ => rfl) hacc.marks hacc hhealthy
  have hnodup : ((configuredHealthy s.1.links cfg).map (·.name)).Nodup :=
    hacc.names.sublist (List.filter_sublist.map _)
  refine ⟨healthy, hhealthy, ?_, ?_⟩
  · rintro hrouted before egress after hsplit ⟨r, hr, hname, hfound⟩
    rw [← exists_rule_iff (hsplit ▸ hwalk), ← hsplit, ← hrules]
    have hmem : egress ∈ healthy := (order.perm healthy).mem_iff.mp (by simp [hsplit])
    obtain ⟨e, he, hsame⟩ := List.mem_map.mp (hfixed ▸ List.mem_map_of_mem hmem)
    have hlookup : KeyedList.lookup (·.name) r.1.action.egress (configuredHealthy s.1.links cfg) =
        some e := by
      rw [hname, ← name_eq_of_fixed hsame]
      exact KeyedList.lookup_of_mem (·.name) hnodup he
    obtain ⟨rule, hmem⟩ := List.exists_mem_of_ne_nil (policyRules e r.1 r.2)
      (policyRules_ne_nil.mpr hfound)
    have hrule : rule ∈ policyChain cfg t.1.kernel := by
      rw [hchain]
      exact mem_chainOf_iff.mpr ⟨r, hr, e, hlookup, hmem⟩
    obtain ⟨e', he', hmark, hexists, -⟩ := hrouted _ hrule
    rw [mark_of_mem_policyRules hmem] at hmark
    have heq : e = e' := List.inj_on_of_nodup_map hacc.marks (List.mem_of_mem_filter he) he' hmark
    rw [← heq] at hexists
    rw [fwmark_eq_of_fixed hsame, table_eq_of_fixed hsame] at hexists
    exact hexists
  · intro hfree rule hrule
    rw [hchain] at hrule
    obtain ⟨r, hr, e, hlookup, hown⟩ := mem_chainOf_iff.mp hrule
    have he := KeyedList.mem_of_lookup _ hlookup
    obtain ⟨egress, hmem, hsame⟩ := List.mem_map.mp (hfixed ▸ List.mem_map_of_mem he)
    have hdev := filter_default_eq (hdefault egress hmem)
    obtain ⟨before, after, hsplit⟩ :=
      List.append_of_mem ((order.perm healthy).mem_iff.mpr hmem)
    have hhas : HasRules egress (resolutions env.cache cfg (configuredHealthy s.1.links cfg)
        cfg.enabledPolicies s.2) := by
      refine ⟨r, hr, ?_, policyRules_ne_nil.mp (List.ne_nil_of_mem hown)⟩
      rw [name_eq_of_fixed hsame]
      exact (KeyedList.key_of_lookup _ hlookup).symm
    have hexists := (exists_rule_iff (hsplit ▸ hwalk)).mpr (hfree before egress after hsplit hhas)
    rw [← hsplit, ← hrules, fwmark_eq_of_fixed hsame, table_eq_of_fixed hsame] at hexists
    rw [table_eq_of_fixed hsame] at hdev
    exact ⟨e, List.mem_of_mem_filter he, mark_of_mem_policyRules hown, hexists,
      defaultRoute egress, hdev, name_eq_of_fixed hsame⟩

theorem marksRouted_iff_office : ∃ healthy, healthyEgresses bareState.1.links officeConfig = .ok healthy ∧
    (MarksRouted officeConfig officeRound.2.1.kernel ↔ ∀ before egress after,
      listOrder.walk healthy = before ++ egress :: after →
      HasRules egress (resolutions quietHost.cache officeConfig
        (configuredHealthy bareState.1.links officeConfig) officeConfig.enabledPolicies
        bareState.2) →
      RuleFree bareState.1.kernel.ipRules before egress) := by
  have hrun : Program.run (host quietHost) (reconcileOnce applying listOrder officeConfig)
      bareState = (.ok (), officeRound.2) := rfl
  exact marksRouted_iff (by decide) rfl hrun

/-- The mark and the table of the second tunnel begin those of the first: 0x1 and 0x10, 1
and 10. -/
def overlapConfig : Config :=
  configOf [tunnel "tun0" 10 16, tunnel "tun1" 1 1]
    [addressPolicy "office" "203.0.113.7" "tun0", addressPolicy "branch" "198.51.100.9" "tun1"]

/-- The rule of the second tunnel is never added, and its marked packets are left to the
main table. -/
theorem not_marksRouted_of_ok : ¬ ∀ (cfg : Config) (env : HostEnv) (order : MapOrder)
    (s t : HostState), cfg.validate = .ok () → env.net.tableName = decimal →
    Program.run (host env) (reconcileOnce applying order cfg) s = (.ok (), t) →
    MarksRouted cfg t.1.kernel := by
  intro hclaim
  have hround := hclaim overlapConfig quietHost listOrder bareState
    (Program.run (host quietHost) (reconcileOnce applying listOrder overlapConfig) bareState).2
    (by decide) rfl rfl
  have hrule : (⟨some "198.51.100.9", none, 1⟩ : NftRule) ∈ policyChain overlapConfig
      (Program.run (host quietHost) (reconcileOnce applying listOrder overlapConfig)
        bareState).2.1.kernel := by decide +kernel
  have hmissing : ∀ rule ∈ (Program.run (host quietHost)
      (reconcileOnce applying listOrder overlapConfig) bareState).2.1.kernel.ipRules,
      rule.fwmark ≠ some 1 := by decide +kernel
  obtain ⟨egress, -, hmark, ⟨rule, hmem, hfwmark, -⟩, -⟩ := hround _ hrule
  exact hmissing rule hmem (hfwmark.trans (congrArg some hmark.symm))

end Round

end EveNet
