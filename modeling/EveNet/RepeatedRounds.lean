import EveNet.Cleanup

/-!
# Rounds repeated

A round that finds everything as it is to be changes nothing. A round that returned leaves
everything so, but for the rules of tables that the listing prints by name: the search does not
find them again, and adding them a second time fails.
-/

namespace EveNet

/-! ### A round on what a round has left -/

section Again

variable (env : NetEnv) {cfg : Config} {s : NetState} {k : Kernel} {rules : List NftRule}

theorem leavesKernel_ensureListed (hworks : AllWork env) {listArgs addArgs : List String}
    {text : String} (hlist : s.kernel.listing env.tableName "nft" listArgs = some text) :
    LeavesKernel env (ensureListed applying listArgs addArgs) s s.kernel := by
  have hlisted : Program.run (netHost env) (Program.attempt (Executor.capture "nft" listArgs) :
      NetProgram (Except Error String)) s = (.ok (.ok text), s.tick) := by
    rw [Program.run_attempt, run_capture_works env hworks hlist]
  rw [ensureListed, Program.bind_eq, LeavesKernel, Program.run_bind_ok _ hlisted]
  exact ⟨s.tick, rfl, rfl⟩

theorem leavesKernel_ensureTableAndChain (hworks : AllWork env)
    (htable : s.kernel.nftTables cfg.nft.table = true)
    (hchain : s.kernel.nftChains (chainKey cfg) = some rules) :
    LeavesKernel env (ensureTableAndChain applying cfg) s s.kernel := by
  have hlistTable : s.kernel.listing env.tableName "nft" ["list", "table", "inet",
      cfg.nft.table] = some "" := if_pos htable
  refine LeavesKernel.bind env (leavesKernel_ensureListed env hworks hlistTable) (fun t ht => ?_)
  have hlistChain : t.kernel.listing env.tableName "nft" ["list", "chain", "inet", cfg.nft.table,
      cfg.nft.outputChain] = some "" := by
    change (t.kernel.nftChains (chainKey cfg)).map _ = _
    rw [ht, hchain, Option.map_some]
  rw [← ht]
  exact leavesKernel_ensureListed env hworks hlistChain

theorem leavesKernel_ensureEgressRoute (hworks : AllWork env) (hfinds : Finds env.tableName Covers)
    {egress : EgressInterface}
    (hroute : s.kernel.replaceDefault egress.table (defaultRoute egress) = s.kernel)
    (hcovered : ∃ rule ∈ s.kernel.ipRules, Covers rule (fwmarkRule egress)) :
    LeavesKernel env (ensureEgressRoute applying egress) s s.kernel := by
  have hcmd : s.kernel.command "ip" (routeArgs egress) = some s.kernel := by
    rw [command_route, hroute]
  refine LeavesKernel.bind env (leavesKernel_run env hworks (by decide) hcmd) (fun t ht => ?_)
  have hshow := run_capture_works env hworks (listing_ruleShow env.tableName t.kernel)
  rw [ensureFwmarkRule, if_neg (by simp), Program.bind_eq, LeavesKernel,
    Program.run_bind_ok _ hshow, ht, if_pos ((hfinds egress _).mpr hcovered)]
  exact ⟨t.tick, rfl, ht⟩

theorem setChain_setChain (k : Kernel) (table chain : String) (rules rules' : List NftRule) :
    (k.setChain table chain rules).setChain table chain rules' = k.setChain table chain rules' := by
  unfold Kernel.setChain
  dsimp only
  rw [Function.update_idem]

theorem setChain_self {k : Kernel} (h : k.nftChains (chainKey cfg) = some rules) :
    k.setChain cfg.nft.table cfg.nft.outputChain rules = k := by
  unfold Kernel.setChain
  rw [← h, chainKey, Function.update_eq_self]

theorem nftChains_setChain (cfg : Config) (k : Kernel) (rules : List NftRule) :
    (k.setChain cfg.nft.table cfg.nft.outputChain rules).nftChains (chainKey cfg) = some rules :=
  Function.update_self _ _ _

/-- The kernel with these rules in the policy chain. -/
abbrev withChain (cfg : Config) (k : Kernel) (rules : List NftRule) : Kernel :=
  k.setChain cfg.nft.table cfg.nft.outputChain rules

theorem leavesKernel_flush (hworks : AllWork env) (hs : s.kernel = withChain cfg k rules) :
    LeavesKernel env (flushPolicyChain applying cfg) s (withChain cfg k []) := by
  apply leavesKernel_run env hworks (by decide)
  rw [command_flush, hs, nftChains_setChain, Option.map_some, setChain_setChain]

/-- The match block says what to match. -/
def Usable (spec : MatchSpec) : Prop := (matchDest spec).isSome = true ∨ spec.uid.isSome = true

theorem leavesKernel_addRule (hworks : AllWork env) (egress : EgressInterface) {spec : MatchSpec}
    (husable : Usable spec) (hs : s.kernel = withChain cfg k rules) :
    LeavesKernel env (addPolicyRuleWithMatch applying cfg egress spec) s
      (withChain cfg k (rules ++ [ruleOf egress spec])) := by
  unfold addPolicyRuleWithMatch
  rcases appendMatch_eq egress spec ["add", "rule", "inet", cfg.nft.table, cfg.nft.outputChain]
    with ⟨e, he⟩ | ⟨args, hargs, hrule⟩
  · rw [appendMatch] at he
    split_ifs at he with hnone
    rcases husable with hdest | huid
    · rw [Option.isNone_iff_eq_none.mp hnone.1] at hdest
      cases hdest
    · rw [Option.isNone_iff_eq_none.mp hnone.2] at huid
      cases huid
  · rw [hargs]
    change LeavesKernel env (applying.run "nft" _) s _
    rw [hrule]
    apply leavesKernel_run env hworks (by decide)
    rw [command_addRule, hs, nftChains_setChain, Option.map_some, setChain_setChain]

theorem leavesKernel_addRules (hworks : AllWork env) (egress : EgressInterface)
    {specs : List MatchSpec} (husable : ∀ spec ∈ specs, Usable spec)
    (hs : s.kernel = withChain cfg k rules) :
    LeavesKernel env (Program.forEach (addPolicyRuleWithMatch applying cfg egress) specs) s
      (withChain cfg k (rules ++ specs.map (ruleOf egress))) := by
  induction specs generalizing s rules with
  | nil => exact ⟨s, rfl, by rw [List.map_nil, List.append_nil, hs]⟩
  | cons spec specs ih =>
      rw [Program.forEach_cons]
      refine LeavesKernel.bind env
        (leavesKernel_addRule env hworks egress (husable spec List.mem_cons_self) hs)
        (fun t ht => ?_)
      have hrest := ih (fun spec' h => husable spec' (List.mem_cons_of_mem _ h)) ht
      rw [List.append_assoc] at hrest
      exact hrest

end Again

section Policies

variable (env : HostEnv) {cfg : Config} {healthy : List EgressInterface} {k : Kernel}

/-- The program returns, and the kernel is then `k`. -/
def HostLeaves (env : HostEnv) (p : HostProgram Unit) (s : HostState) (k : Kernel) : Prop :=
  ∃ t, Program.run (host env) p s = (.ok (), t) ∧ t.1.kernel = k

theorem HostLeaves.bind {p q : HostProgram Unit} {s : HostState} {k k' : Kernel}
    (hp : HostLeaves env p s k)
    (hq : ∀ t, Program.run (host env) p s = (.ok (), t) → t.1.kernel = k → HostLeaves env q t k') :
    HostLeaves env (p.bind (fun _ => q)) s k' := by
  obtain ⟨t, ht, hk⟩ := hp
  obtain ⟨u, hu, hk'⟩ := hq t ht hk
  exact ⟨u, by rw [Program.run_bind_ok _ ht, hu], hk'⟩

theorem HostLeaves.left {p : NetProgram Unit} {s : HostState}
    (hp : LeavesKernel env.net p s.1 k) : HostLeaves env p.left s k := by
  obtain ⟨t, ht, hk⟩ := hp
  exact ⟨(t, s.2), by rw [Program.run_left, ht], hk⟩

theorem usable_policySpecs {policy : Policy} (ips : List String)
    (hmatch : policy.matchSpec.hasAnyMatch = true) : ∀ spec ∈ policySpecs policy ips, Usable spec := by
  intro spec hspec
  unfold policySpecs at hspec
  by_cases hdomain : policy.matchSpec.domain.isSome = true
  · rw [if_pos hdomain] at hspec
    obtain ⟨ip, -, rfl⟩ := List.mem_map.mp hspec
    exact Or.inl rfl
  · rw [if_neg hdomain, List.mem_singleton] at hspec
    subst hspec
    simp only [MatchSpec.hasAnyMatch, Bool.or_eq_true] at hmatch
    unfold Usable matchDest
    simp only [Option.isSome_or, Bool.or_eq_true]
    tauto

/-- The rules of one policy, on commands that work. -/
theorem hostLeaves_applyPolicy (hworks : AllWork env.net) {policy : Policy} {s : HostState}
    {rules : List NftRule} (hmatch : policy.matchSpec.hasAnyMatch = true)
    (hs : s.1.kernel = withChain cfg k rules) :
    HostLeaves env (applyPolicy applying cfg healthy policy) s (withChain cfg k
      (rules ++ rulesFor healthy policy (resolvePolicy env.cache cfg healthy policy s.2).1)) := by
  unfold applyPolicy rulesFor resolvePolicy
  cases KeyedList.lookup (·.name) policy.action.egress healthy with
  | none => exact ⟨s, rfl, by rw [List.append_nil, hs]⟩
  | some egress =>
      dsimp only
      rw [← map_policySpecs]
      cases hdomain : policy.matchSpec.domain with
      | none =>
          have husable := usable_policySpecs [] hmatch
          simp only [policySpecs, hdomain, Option.isSome_none, Bool.false_eq_true, if_false]
            at husable ⊢
          rw [addPolicyRule_eq hdomain]
          exact HostLeaves.left env (leavesKernel_addRule env.net hworks egress
            (husable _ (List.mem_singleton_self _)) hs)
      | some domain =>
          dsimp only
          have hresolve : Program.run (host env) ((Program.attempt
              (resolveForRuntime cfg domain applying.apply)).right : HostProgram _) s =
              (.ok (Program.run (cacheHost env.cache) (resolveForRuntime cfg domain true) s.2).1,
                (s.1, (Program.run (cacheHost env.cache)
                  (resolveForRuntime cfg domain true) s.2).2)) := by
            rw [Program.run_right, Program.run_attempt]
          rw [HostLeaves, Program.run_bind_ok _ hresolve]
          have husable := fun ips => usable_policySpecs ips hmatch
          simp only [policySpecs, hdomain, Option.isSome_some, if_true] at husable ⊢
          apply HostLeaves.left env
          cases hout : (Program.run (cacheHost env.cache)
            (resolveForRuntime cfg domain true) s.2).1 with
          | error e => exact ⟨s.1, rfl, by rw [resolutionIps, List.map_nil, List.map_nil,
              List.append_nil, hs]⟩
          | ok resolution =>
              have hadd := leavesKernel_addRules env.net hworks egress (husable resolution.ips) hs
              rw [Program.forEach_map] at hadd
              exact hadd

variable (healthy) in
theorem hostLeaves_policies (hworks : AllWork env.net) {policies : List Policy} {s : HostState}
    {rules : List NftRule} (hmatch : ∀ policy ∈ policies, policy.matchSpec.hasAnyMatch = true)
    (hs : s.1.kernel = withChain cfg k rules) :
    HostLeaves env (Program.forEach (applyPolicy applying cfg healthy) policies) s (withChain cfg k
      (rules ++ chainOf healthy (resolutions env.cache cfg healthy policies s.2))) := by
  induction policies generalizing s rules with
  | nil => exact ⟨s, rfl, by rw [hs]; exact congrArg _ (List.append_nil rules).symm⟩
  | cons policy policies ih =>
      rw [Program.forEach_cons]
      refine HostLeaves.bind env
        (hostLeaves_applyPolicy env hworks (hmatch policy List.mem_cons_self) hs)
        (fun t hrun ht => ?_)
      have hcache := cache_applyPolicy env cfg healthy policy s
      rw [hrun] at hcache
      have hrest := ih (fun p hp => hmatch p (List.mem_cons_of_mem _ hp)) ht
      rw [hcache, List.append_assoc] at hrest
      rw [resolutions, chainOf, List.flatMap_cons]
      exact hrest

/-! ### What a round leaves -/

/-- The kernel is as a round with these healthy egresses and resolutions is to leave it. -/
structure Settled (cfg : Config) (healthy : List EgressInterface)
    (resolved : List (Policy × List String)) (k : Kernel) : Prop where
  table : k.nftTables cfg.nft.table = true
  chain : k.nftChains (chainKey cfg) = some (chainOf healthy resolved)
  routes : ∀ egress ∈ healthy, k.replaceDefault egress.table (defaultRoute egress) = k
  rules : ∀ egress ∈ healthy, ∃ rule ∈ k.ipRules, Covers rule (fwmarkRule egress)

variable {order : MapOrder} {s : HostState}

/-- A round that finds everything settled returns and changes nothing. -/
theorem hostLeaves_settled (hcfg : Accepted cfg) (hworks : AllWork env.net)
    (hfinds : Finds env.net.tableName Covers)
    (hhealthy : healthyEgresses s.1.links cfg = .ok healthy)
    (h : Settled cfg healthy (resolutions env.cache cfg healthy cfg.enabledPolicies s.2)
      s.1.kernel) :
    HostLeaves env (reconcileOnce applying order cfg) s s.1.kernel := by
  obtain ⟨u, htable, hu⟩ := leavesKernel_ensureTableAndChain env.net hworks h.table h.chain
  have hlinks := links_ensureTableAndChain env cfg s.1
  rw [htable] at hlinks
  have hsame : healthyEgresses u.links cfg = .ok healthy := by
    rw [show u.links = s.1.links from hlinks, hhealthy]
  rw [HostLeaves, run_reconcileOnce_start env htable hsame]
  have hself := setChain_self h.chain
  by_cases hclosed : healthy = [] ∧ cfg.runtime.failClosed = true
  · rw [if_pos hclosed]
    have hflush := leavesKernel_flush env.net hworks (s := u) (hu.trans hself.symm)
    rw [hclosed.1, chainOf_no_egresses] at hself
    rw [withChain, hself] at hflush
    exact HostLeaves.left env hflush
  · rw [if_neg hclosed]
    have hroutes : LeavesKernel env.net (Program.forEach (ensureEgressRoute applying)
        (order.walk healthy)) u s.1.kernel := by
      refine leavesKernel_forEach env.net (fun egress he t ht => ?_) hu
      have hmem : egress ∈ healthy := (order.perm healthy).mem_iff.mp he
      rw [← ht]
      exact leavesKernel_ensureEgressRoute env.net hworks hfinds
        (by rw [ht]; exact h.routes egress hmem) (by rw [ht]; exact h.rules egress hmem)
    obtain ⟨v, hrun, hv⟩ := hroutes
    obtain ⟨w, hflush, hw⟩ := leavesKernel_flush env.net hworks (s := v) (hv.trans hself.symm)
    have hmatch : ∀ policy ∈ cfg.enabledPolicies, policy.matchSpec.hasAnyMatch = true :=
      fun policy hp => hcfg.hasMatch policy (List.mem_of_mem_filter hp)
    obtain ⟨t, hpolicies, ht⟩ := hostLeaves_policies env healthy hworks
      (s := (w, s.2)) hmatch hw
    have hfirst : Program.run (host env) (Program.forEach (ensureEgressRoute applying)
        (order.walk healthy)).left (u, s.2) = (.ok (), (v, s.2)) := by
      rw [Program.run_left, hrun]
    have hsecond : Program.run (host env) (flushPolicyChain applying cfg).left (v, s.2) =
        (.ok (), (w, s.2)) := by
      rw [Program.run_left, hflush]
    rw [rebuild, Program.bind_eq, Program.run_bind_ok _ hfirst, Program.bind_eq,
      Program.run_bind_ok _ hsecond]
    exact ⟨t, hpolicies, ht.trans hself⟩

/-- The table and the chain exist. -/
def HasChain (cfg : Config) (k : Kernel) : Prop :=
  k.nftTables cfg.nft.table = true ∧ (k.nftChains (chainKey cfg)).isSome = true

theorem roundKeeps_hasChain (cfg : Config) : RoundKeeps cfg (HasChain cfg) where
  addTable k h := ⟨Function.update_self _ _ _, h.2⟩
  setChain k rules h _ := ⟨h.1, by rw [nftChains_setChain]; rfl⟩
  replaceDefault k egress h _ := h
  addIpRule k egress h _ _ := h

/-- The object was listed, or the command that adds it has been run. -/
theorem run_ensureListed_ok {listArgs addArgs : List String} {u v : NetState}
    (h : Program.run (netHost env.net) (ensureListed applying listArgs addArgs) u = (.ok (), v)) :
    (∃ text, u.kernel.listing env.net.tableName "nft" listArgs = some text ∧ v.kernel = u.kernel) ∨
      u.kernel.command "nft" addArgs = some v.kernel := by
  obtain ⟨listed, w, hw, hrest⟩ := Program.run_bind_eq_ok _ h
  rw [Program.run_attempt, Prod.mk.injEq, Except.ok.injEq] at hw
  have hkernel : w.kernel = u.kernel := by
    rw [← hw.2, Executor.run_capture]
    rfl
  cases listed with
  | ok text =>
      have hcapture := Executor.run_capture_eq_ok env.net (Prod.ext hw.1 rfl)
      rw [Program.pure_eq, Program.run_pure, Prod.mk.injEq] at hrest
      exact Or.inl ⟨text, hcapture.1, by rw [← hrest.2, hkernel]⟩
  | error e =>
      obtain ⟨k', hcmd, rfl⟩ := Executor.run_eq_ok env.net (by decide) hrest
      rw [hkernel] at hcmd
      exact Or.inr hcmd

theorem table_of_ensureListed {u v : NetState}
    (h : Program.run (netHost env.net) (ensureListed applying ["list", "table", "inet",
      cfg.nft.table] (addTableArgs cfg)) u = (.ok (), v)) :
    v.kernel.nftTables cfg.nft.table = true := by
  rcases run_ensureListed_ok env h with ⟨text, hlist, hsame⟩ | hcmd
  · change (if u.kernel.nftTables cfg.nft.table then some "" else none) = some text at hlist
    rw [hsame]
    by_contra hnone
    rw [if_neg hnone] at hlist
    cases hlist
  · rw [command_addTable, Option.some.injEq] at hcmd
    rw [← hcmd]
    exact Function.update_self _ _ _

theorem hasChain_of_ensureTableAndChain {u v : NetState}
    (h : Program.run (netHost env.net) (ensureTableAndChain applying cfg) u = (.ok (), v)) :
    HasChain cfg v.kernel := by
  obtain ⟨_, w, hw, hrest⟩ := Program.run_bind_eq_ok _ h
  have htable := table_of_ensureListed env hw
  rcases run_ensureListed_ok env hrest with ⟨text, hlist, hsame⟩ | hcmd
  · change (w.kernel.nftChains (chainKey cfg)).map _ = some text at hlist
    obtain ⟨rules, hrules, -⟩ := Option.map_eq_some_iff.mp hlist
    rw [hsame]
    exact ⟨htable, by rw [hrules]; rfl⟩
  · rw [command_addChain, if_pos htable, Option.some.injEq] at hcmd
    rw [← hcmd]
    split_ifs with hchain
    · exact ⟨htable, hchain⟩
    · exact ⟨htable, by rw [nftChains_setChain]; rfl⟩

theorem hasChain_of_round (hcfg : Accepted cfg) {t : HostState}
    (h : Program.run (host env) (reconcileOnce applying order cfg) s = (.ok (), t)) :
    HasChain cfg t.1.kernel := by
  obtain ⟨healthy, u, hhealthy, -, htable, hrest⟩ := run_reconcileOnce_ok env h
  have hstart : kernelHas (HasChain cfg) u := hasChain_of_ensureTableAndChain env htable
  have hkeeps : Program.Keeps (host env) (fun x => kernelHas (HasChain cfg) x.1)
      (if healthy = [] ∧ cfg.runtime.failClosed then (flushPolicyChain applying cfg).left
        else rebuild applying order cfg healthy) := by
    split_ifs
    · exact Program.Keeps.left _ _ (keeps_flush env.net (roundKeeps_hasChain cfg))
    · exact keeps_rebuild env (roundKeeps_hasChain cfg) order
        (ofConfig_of_healthyEgresses hcfg hhealthy)
  have hend := hkeeps.run (host env) (s := (u, s.2)) hstart
  rwa [hrest] at hend

/-- After a round that returned everything is settled for the next one, if the rules of its
egresses are found. -/
theorem settled_of_round (hcfg : Accepted cfg) (hfinds : Finds env.net.tableName Covers)
    {t : HostState}
    (h : Program.run (host env) (reconcileOnce applying order cfg) s = (.ok (), t)) :
    ∃ healthy, healthyEgresses s.1.links cfg = .ok healthy ∧
      t.1.kernel.ipRules = ((order.walk healthy).map fwmarkRule).foldl
        (CoveredList.grow Covers) s.1.kernel.ipRules ∧
      ((∀ egress ∈ healthy, ∃ rule ∈ t.1.kernel.ipRules, Covers rule (fwmarkRule egress)) →
        Settled cfg healthy (resolutions env.cache cfg healthy cfg.enabledPolicies s.2)
          t.1.kernel) := by
  obtain ⟨healthy, hhealthy, hrules, hdefault⟩ := routing_reconcileOnce hcfg hfinds h
  refine ⟨healthy, hhealthy, hrules, fun hfound => ?_⟩
  obtain ⟨htable, hchain⟩ := hasChain_of_round env hcfg h
  have hpolicy := (replaces_reconcileOnce env hhealthy).whole _ _ h
  refine ⟨htable, ?_, ?_, hfound⟩
  · obtain ⟨rules, hsome⟩ := Option.isSome_iff_exists.mp hchain
    have hget : policyChain cfg t.1.kernel = rules := by rw [policyChain, hsome, Option.getD_some]
    rw [hsome, ← hget]
    exact congrArg some hpolicy
  · intro egress he
    have hroutes := hdefault egress he
    have hsame : (t.1.kernel.routes egress.table).filter (fun r => r.dest != "default") ++
        [defaultRoute egress] = t.1.kernel.routes egress.table := by
      rw [hroutes]
      simp [defaultRoute]
    unfold Kernel.replaceDefault
    dsimp only
    rw [hsame, Function.update_eq_self]

end Policies

/-! ### Any number of rounds -/

section Repeated

variable {env : HostEnv} {cfg : Config} {order : MapOrder} {s t : HostState}

/-- The interfaces, the runtime routes and the resolutions are as in the round of `env` from `s`,
and the commands work. -/
structure SameOutcomes (cfg : Config) (env : HostEnv) (s : HostState) (env' : HostEnv)
    (s' : HostState) : Prop where
  works : AllWork env'.net
  names : env'.net.tableName = printedName
  links : s'.1.links = s.1.links
  resolutions : resolutions env'.cache cfg (configuredHealthy s.1.links cfg) cfg.enabledPolicies
      s'.2 =
    resolutions env.cache cfg (configuredHealthy s.1.links cfg) cfg.enabledPolicies s.2

/-- The kernels after any number of further rounds with the same outcomes. -/
inductive Repeated (cfg : Config) (env : HostEnv) (s : HostState) (start : Kernel) :
    Kernel → Prop where
  | start : Repeated cfg env s start start
  | round {env' : HostEnv} {order' : MapOrder} {s' : HostState}
      (before : Repeated cfg env s start s'.1.kernel) (same : SameOutcomes cfg env s env' s') :
      Repeated cfg env s start
        (Program.run (host env') (reconcileOnce applying order' cfg) s').2.1.kernel

/-- However many rounds follow, each returns and leaves the kernel as the first one did. -/
def Idempotent (cfg : Config) (env : HostEnv) (s : HostState) (start : Kernel) : Prop :=
  ∀ env' order' s', Repeated cfg env s start s'.1.kernel → SameOutcomes cfg env s env' s' →
    ∃ t', Program.run (host env') (reconcileOnce applying order' cfg) s' = (.ok (), t') ∧
      t'.1.kernel = start

theorem idempotent_of_settled {healthy : List EgressInterface} {k : Kernel} (hcfg : Accepted cfg)
    (hhealthy : healthyEgresses s.1.links cfg = .ok healthy)
    (h : Settled cfg healthy (resolutions env.cache cfg healthy cfg.enabledPolicies s.2) k) :
    Idempotent cfg env s k := by
  have hround : ∀ env' order' s', s'.1.kernel = k → SameOutcomes cfg env s env' s' →
      HostLeaves env' (reconcileOnce applying order' cfg) s' k := by
    intro env' order' s' hk hsame
    have hfixed := fixed_of_healthyEgresses hcfg hhealthy
    have hhealthy' : healthyEgresses s'.1.links cfg = .ok healthy := by
      rw [hsame.links, hhealthy]
    subst hk
    refine hostLeaves_settled env' hcfg hsame.works (hsame.names ▸ finds_covers) hhealthy'
      ⟨h.table, ?_, h.routes, h.rules⟩
    rw [chainOf_congr hfixed, hsame.resolutions, ← chainOf_congr hfixed]
    exact h.chain
  intro env' order' s' hrepeated hsame
  refine hround env' order' s' ?_ hsame
  generalize s'.1.kernel = k' at hrepeated
  induction hrepeated with
  | start => rfl
  | @round env₁ order₁ s₁ before same ih =>
      obtain ⟨t₁, hrun, hkernel⟩ := hround env₁ order₁ s₁ ih same
      rw [hrun]
      exact hkernel

/-- After a round that returned, all further rounds with the same outcomes return and change
nothing exactly when for every healthy egress with a reserved table some other rule is found:
one of the initial ones, or the rule of another healthy egress. -/
theorem idempotent_iff (hcfg : cfg.validate = .ok ()) (hnames : env.net.tableName = printedName)
    (hrun : Program.run (host env) (reconcileOnce applying order cfg) s = (.ok (), t)) :
    Idempotent cfg env s t.1.kernel ↔
      ∀ egress ∈ configuredHealthy s.1.links cfg, Reserved egress.table →
        ∃ rule ∈ s.1.kernel.ipRules ++ (configuredHealthy s.1.links cfg).map fwmarkRule,
          Covers rule (fwmarkRule egress) := by
  have hacc := accepted_of_validate hcfg
  have hfinds : Finds env.net.tableName Covers := hnames ▸ finds_covers
  obtain ⟨healthy, hhealthy, hrules, hsettled⟩ := settled_of_round env hacc hfinds hrun
  have hfixed := fixed_of_healthyEgresses hacc hhealthy
  have hmap : healthy.map fwmarkRule = (configuredHealthy s.1.links cfg).map fwmarkRule :=
    map_of_fixed (fun _ => rfl) hfixed
  -- a rule that is found later was there at first or is one of the round's egresses
  have hcovered : ∀ rule, (∃ r ∈ t.1.kernel.ipRules, Covers r rule) ↔
      ∃ r ∈ s.1.kernel.ipRules ++ (configuredHealthy s.1.links cfg).map fwmarkRule,
        Covers r rule := by
    intro rule
    rw [hrules, CoveredList.covered_foldl_grow_iff, ← hmap]
    simp only [List.mem_append, or_and_right, exists_or]
    have hwalk : ∀ r, r ∈ (order.walk healthy).map fwmarkRule ↔ r ∈ healthy.map fwmarkRule :=
      fun r => ((order.perm healthy).map fwmarkRule).mem_iff
    simp only [hwalk]
  constructor
  · intro hidem egress he _
    -- one more round on the same interfaces, from the cache that the first one started with
    set env' : HostEnv := ⟨⟨fun _ => .works, printedName⟩, env.cache⟩
    have hsame : SameOutcomes cfg env s env' (⟨t.1.kernel, s.1.links, 0⟩, s.2) :=
      { works := fun _ => rfl
        names := rfl
        links := rfl
        resolutions := rfl }
    obtain ⟨t', hagain, hkernel⟩ :=
      hidem env' order (⟨t.1.kernel, s.1.links, 0⟩, s.2) .start hsame
    obtain ⟨healthy', hhealthy', hrules', -⟩ := settled_of_round env' hacc finds_covers hagain
    obtain rfl : healthy = healthy' := Except.ok.inj (hhealthy.symm.trans hhealthy')
    rw [hkernel] at hrules'
    rw [← hcovered]
    refine (CoveredList.foldl_grow_eq_iff Covers).mp hrules'.symm _ ?_
    rw [((order.perm healthy).map fwmarkRule).mem_iff, hmap]
    exact List.mem_map_of_mem he
  · intro hcond
    apply idempotent_of_settled hacc hhealthy
    apply hsettled
    intro egress he
    obtain ⟨e, hconfigured, hsame⟩ := List.mem_map.mp (hmap ▸ List.mem_map_of_mem he)
    rw [hcovered, ← hsame]
    by_cases hreserved : Reserved e.table
    · exact hcond e hconfigured hreserved
    · exact ⟨fwmarkRule e, List.mem_append_right _ (List.mem_map_of_mem hconfigured), hreserved,
        shadows_self e⟩

end Repeated

/-- The quiet host with the listing's own names for the reserved tables. -/
def namingHost : HostEnv := { quietHost with net := ⟨fun _ => .works, printedName⟩ }

/-- A tunnel whose table is the main one. -/
def mainTableConfig : Config :=
  configOf [tunnel "tun0" 254 16] [addressPolicy "office" "203.0.113.7" "tun0"]

/-- The first round on a bare host. -/
def namedRound (cfg : Config) : Except Error Unit × HostState :=
  Program.run (host namingHost) (reconcileOnce applying listOrder cfg) bareState

theorem idempotent_iff_office : Idempotent officeConfig namingHost bareState
    (namedRound officeConfig).2.1.kernel ↔
      ∀ egress ∈ configuredHealthy bareState.1.links officeConfig, Reserved egress.table →
        ∃ rule ∈ bareState.1.kernel.ipRules ++
            (configuredHealthy bareState.1.links officeConfig).map fwmarkRule,
          Covers rule (fwmarkRule egress) := by
  have hrun : Program.run (host namingHost) (reconcileOnce applying listOrder officeConfig)
      bareState = (.ok (), (namedRound officeConfig).2) := rfl
  exact idempotent_iff (by decide) rfl hrun

/-- The second round fails at the rule that the first one added. -/
theorem not_idempotent : ¬ ∀ (cfg : Config) (env : HostEnv) (order : MapOrder) (s t : HostState),
    cfg.validate = .ok () → env.net.tableName = printedName →
    Program.run (host env) (reconcileOnce applying order cfg) s = (.ok (), t) →
    Idempotent cfg env s t.1.kernel := by
  intro hclaim
  have hrun : Program.run (host namingHost) (reconcileOnce applying listOrder mainTableConfig)
      bareState = (.ok (), (namedRound mainTableConfig).2) := rfl
  have hidem := hclaim mainTableConfig namingHost listOrder bareState _ (by decide) rfl hrun
  obtain ⟨t', hagain, -⟩ := hidem namingHost listOrder
    (⟨(namedRound mainTableConfig).2.1.kernel, bareState.1.links, 0⟩, bareState.2) .start
    ⟨fun _ => rfl, rfl, rfl, rfl⟩
  have hfails : (Program.run (host namingHost) (reconcileOnce applying listOrder mainTableConfig)
      (⟨(namedRound mainTableConfig).2.1.kernel, bareState.1.links, 0⟩, bareState.2)).1 =
      .error (Executor.commandFailed "ip" (fwmarkRuleArgs (tunnel "tun0" 254 16))) := by
    decide +kernel
  rw [hagain] at hfails
  cases hfails

end EveNet
