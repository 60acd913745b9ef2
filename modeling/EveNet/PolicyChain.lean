import EveNet.Reconcile

/-!
# The policy chain of a round

`chainOf` is the chain that the configuration asks for: the rules of one enabled policy
after the other, each with the mark of its own egress. The round is shown to take the
old chain away and to append these rules in their order, so that at any point of it the
chain is the old one or a first part of the new one.
-/

namespace EveNet

/-! ### The chain the configuration asks for -/

/-- The rules in the policy chain; a chain that does not exist holds none. -/
def policyChain (cfg : Config) (k : Kernel) : List NftRule := (k.nftChains (chainKey cfg)).getD []

/-- The addresses a resolution gives, none when it failed. -/
def resolutionIps : Except Error DomainResolution → List String
  | .error _ => []
  | .ok resolution => resolution.ips

/-- The rules of a policy through an egress, all with the user id of the policy and the mark of
the egress: one for each address found for the domain, or, without a domain, one for the
network or else the address that the policy names. -/
def policyRules (egress : EgressInterface) (policy : Policy) (ips : List String) : List NftRule :=
  match policy.matchSpec.domain with
  | some _ => ips.map (fun ip => ⟨some ip, policy.matchSpec.uid, egress.fwmark⟩)
  | none => [⟨policy.matchSpec.destCidr.or policy.matchSpec.destIp, policy.matchSpec.uid,
      egress.fwmark⟩]

theorem mark_of_mem_policyRules {egress : EgressInterface} {policy : Policy} {ips : List String}
    {rule : NftRule} (h : rule ∈ policyRules egress policy ips) : rule.mark = egress.fwmark := by
  unfold policyRules at h
  cases hdomain : policy.matchSpec.domain with
  | none =>
      rw [hdomain, List.mem_singleton] at h
      rw [h]
  | some domain =>
      rw [hdomain] at h
      obtain ⟨ip, -, rfl⟩ := List.mem_map.mp h
      rfl

theorem policyRules_ne_nil {egress : EgressInterface} {policy : Policy} {ips : List String} :
    policyRules egress policy ips ≠ [] ↔ policy.matchSpec.domain = none ∨ ips ≠ [] := by
  unfold policyRules
  cases policy.matchSpec.domain <;> simp

/-- The rules of a policy, if its egress is among the usable ones. -/
def rulesFor (egresses : List EgressInterface) (policy : Policy) (ips : List String) :
    List NftRule :=
  match KeyedList.lookup (·.name) policy.action.egress egresses with
  | none => []
  | some egress => policyRules egress policy ips

/-- The match blocks from which the rules are built: the policy's own, or one for each resolved
address. -/
def policySpecs (policy : Policy) (ips : List String) : List MatchSpec :=
  if policy.matchSpec.domain.isSome then ips.map (resolvedSpec policy.matchSpec)
  else [policy.matchSpec]

/-- The match blocks make the rules that the policy asks for. -/
theorem map_policySpecs (egress : EgressInterface) (policy : Policy) (ips : List String) :
    (policySpecs policy ips).map (ruleOf egress) = policyRules egress policy ips := by
  unfold policySpecs policyRules
  cases policy.matchSpec.domain with
  | none => rfl
  | some domain => exact List.map_map

theorem rulesFor_some {egresses : List EgressInterface} {egress : EgressInterface}
    {policy : Policy}
    (hegress : KeyedList.lookup (·.name) policy.action.egress egresses = some egress)
    (ips : List String) :
    rulesFor egresses policy ips = (policySpecs policy ips).map (ruleOf egress) := by
  rw [rulesFor, hegress, map_policySpecs]

/-- The addresses found for a policy, and the cache afterwards. -/
def resolvePolicy (env : CacheEnv) (cfg : Config) (egresses : List EgressInterface)
    (policy : Policy) (store : CacheStore) : List String × CacheStore :=
  match KeyedList.lookup (·.name) policy.action.egress egresses, policy.matchSpec.domain with
  | some _, some domain =>
    let out := Program.run (cacheHost env) (resolveForRuntime cfg domain true) store
    (resolutionIps out.1, out.2)
  | _, _ => ([], store)

/-- Each policy with the addresses found for it, one resolution after the other. -/
def resolutions (env : CacheEnv) (cfg : Config) (egresses : List EgressInterface) :
    List Policy → CacheStore → List (Policy × List String)
  | [], _ => []
  | policy :: policies, store =>
    (policy, (resolvePolicy env cfg egresses policy store).1) ::
      resolutions env cfg egresses policies (resolvePolicy env cfg egresses policy store).2

def chainOf (egresses : List EgressInterface) (resolved : List (Policy × List String)) :
    List NftRule :=
  resolved.flatMap (fun r => rulesFor egresses r.1 r.2)

/-- Lists that differ only in runtime state hold matching egresses under each name. -/
theorem lookup_of_fixed {egresses egresses' : List EgressInterface}
    (h : egresses.map (·.fixed) = egresses'.map (·.fixed)) (name : String) :
    (KeyedList.lookup (·.name) name egresses = none ∧
        KeyedList.lookup (·.name) name egresses' = none) ∨
      ∃ e e', KeyedList.lookup (·.name) name egresses = some e ∧
        KeyedList.lookup (·.name) name egresses' = some e' ∧ e.fixed = e'.fixed := by
  have hmap : ∀ l : List EgressInterface, KeyedList.lookup (·.name) name (l.map (·.fixed)) =
      (KeyedList.lookup (·.name) name l).map (·.fixed) :=
    KeyedList.lookup_map EgressInterface.name EgressInterface.fixed (fun _ => rfl) name
  have hlookup := congrArg (KeyedList.lookup EgressInterface.name name) h
  rw [hmap, hmap] at hlookup
  cases he : KeyedList.lookup (·.name) name egresses with
  | none => exact Or.inl ⟨rfl, by simpa [he] using hlookup.symm⟩
  | some e =>
      obtain ⟨e', he', hfixed⟩ : ∃ e', KeyedList.lookup (·.name) name egresses' = some e' ∧
          e'.fixed = e.fixed := by simpa [he] using hlookup.symm
      exact Or.inr ⟨e, e', rfl, he', hfixed.symm⟩

theorem rulesFor_congr {egresses egresses' : List EgressInterface}
    (h : egresses.map (·.fixed) = egresses'.map (·.fixed)) :
    rulesFor egresses = rulesFor egresses' := by
  funext policy ips
  unfold rulesFor
  rcases lookup_of_fixed h policy.action.egress with ⟨he, he'⟩ | ⟨e, e', he, he', hfixed⟩
  · rw [he, he']
  · rw [he, he']
    change policyRules e.fixed policy ips = _
    rw [hfixed]
    rfl

theorem resolvePolicy_congr {egresses egresses' : List EgressInterface}
    (h : egresses.map (·.fixed) = egresses'.map (·.fixed)) (env : CacheEnv) (cfg : Config) :
    resolvePolicy env cfg egresses = resolvePolicy env cfg egresses' := by
  funext policy store
  unfold resolvePolicy
  rcases lookup_of_fixed h policy.action.egress with ⟨he, he'⟩ | ⟨e, e', he, he', -⟩
  · rw [he, he']
  · rw [he, he']
    cases policy.matchSpec.domain <;> rfl

/-- The chain depends on the usable egresses only through what a round never changes in them. -/
theorem chainOf_congr {egresses egresses' : List EgressInterface}
    (h : egresses.map (·.fixed) = egresses'.map (·.fixed)) (env : CacheEnv) (cfg : Config)
    (policies : List Policy) (store : CacheStore) :
    chainOf egresses (resolutions env cfg egresses policies store) =
      chainOf egresses' (resolutions env cfg egresses' policies store) := by
  unfold chainOf
  rw [rulesFor_congr h]
  congr 1
  induction policies generalizing store with
  | nil => rfl
  | cons policy policies ih => simp only [resolutions, resolvePolicy_congr h, ih]

@[simp] theorem chainOf_no_egresses (resolved : List (Policy × List String)) :
    chainOf [] resolved = [] := by
  simp [chainOf, rulesFor]

/-- The cache after the resolutions of some policies. -/
def cacheAfter (env : CacheEnv) (cfg : Config) (egresses : List EgressInterface) :
    List Policy → CacheStore → CacheStore
  | [], store => store
  | policy :: policies, store =>
    cacheAfter env cfg egresses policies (resolvePolicy env cfg egresses policy store).2

theorem cacheAfter_append (env : CacheEnv) (cfg : Config) (egresses : List EgressInterface)
    (before after : List Policy) (store : CacheStore) :
    cacheAfter env cfg egresses (before ++ after) store =
      cacheAfter env cfg egresses after (cacheAfter env cfg egresses before store) := by
  induction before generalizing store with
  | nil => rfl
  | cons policy before ih => exact ih _

theorem cacheAfter_congr {egresses egresses' : List EgressInterface}
    (h : egresses.map (·.fixed) = egresses'.map (·.fixed)) (env : CacheEnv) (cfg : Config) :
    cacheAfter env cfg egresses = cacheAfter env cfg egresses' := by
  funext policies store
  induction policies generalizing store with
  | nil => rfl
  | cons policy policies ih => simp only [cacheAfter, resolvePolicy_congr h, ih]

/-- Without egresses no domain is resolved. -/
theorem cacheAfter_no_egresses (env : CacheEnv) (cfg : Config) (policies : List Policy)
    (store : CacheStore) : cacheAfter env cfg [] policies store = store := by
  induction policies with
  | nil => rfl
  | cons policy policies ih => exact ih

theorem resolutions_append (env : CacheEnv) (cfg : Config) (egresses : List EgressInterface)
    (before after : List Policy) (store : CacheStore) :
    resolutions env cfg egresses (before ++ after) store =
      resolutions env cfg egresses before store ++
        resolutions env cfg egresses after (cacheAfter env cfg egresses before store) := by
  induction before generalizing store with
  | nil => rfl
  | cons policy before ih => simp [resolutions, cacheAfter, ih]

theorem fst_mem_of_mem_resolutions {env : CacheEnv} {cfg : Config}
    {egresses : List EgressInterface} {policies : List Policy} {store : CacheStore}
    {r : Policy × List String} (h : r ∈ resolutions env cfg egresses policies store) :
    r.1 ∈ policies := by
  induction policies generalizing store with
  | nil => simp [resolutions] at h
  | cons policy policies ih =>
      rcases List.mem_cons.mp h with rfl | h
      · exact List.mem_cons_self
      · exact List.mem_cons_of_mem _ (ih h)

/-! ### Commands and the chain -/

section Commands

variable (env : NetEnv) {cfg : Config}

/-- A command that, where it succeeds, appends `out`. -/
theorem Executor.appends_run {β : Type} {obs : Kernel → List β} {program : String}
    {args : List String} {s : NetState} {out : List β} (hp : program ≠ "ping")
    (hk : ∀ k, s.kernel.command program args = some k → obs k = obs s.kernel ++ out) :
    Program.Appends (netHost env) (fun x => obs x.kernel) (applying.run program args) s out where
  part x hx := by
    rcases Executor.mem_visited_run env hx with rfl | rfl
    · exact ⟨[], List.nil_prefix, (List.append_nil _).symm⟩
    · rcases Executor.run_cases env hp args s with ⟨e, he⟩ | ⟨k, hcmd, hok⟩
      · exact ⟨[], List.nil_prefix, by rw [he]; exact (List.append_nil _).symm⟩
      · exact ⟨out, List.prefix_rfl, by rw [hok]; exact hk k hcmd⟩
  whole a t ht := by
    obtain ⟨k, hcmd, rfl⟩ := Executor.run_eq_ok env hp ht
    exact hk k hcmd

theorem Executor.appends_capture {β : Type} (obs : Kernel → List β) (program : String)
    (args : List String) (s : NetState) :
    Program.Appends (netHost env) (fun x => obs x.kernel) (Executor.capture program args) s [] := by
  apply Program.Appends.of_frame
  refine Program.visited_frame (netHost env) _
    (P := fun c => ∃ p a, c = NetCall.output p a) ?_ ?_ s
  · rintro c ⟨p, a, rfl⟩ x
    exact congrArg (fun y => obs y.kernel) (netHost_output env p a x)
  · refine .call ⟨_, _, rfl⟩ (fun out => ?_)
    cases out with
    | notSpawned cause => exact .fail _
    | failed => exact .fail _
    | stdout text => exact .pure _

/-- The policy chain as the host holds it. -/
def chainSeen (cfg : Config) (s : NetState) : List NftRule := policyChain cfg s.kernel

theorem policyChain_setChain (cfg : Config) (k : Kernel) (rules : List NftRule) :
    policyChain cfg (k.setChain cfg.nft.table cfg.nft.outputChain rules) = rules := by
  simp [policyChain, chainKey, Kernel.setChain]

theorem appends_ensureListed {addArgs : List String} (listArgs : List String) (s : NetState)
    (hk : ∀ k k', Kernel.command k "nft" addArgs = some k' → policyChain cfg k' = policyChain cfg k) :
    Program.Appends (netHost env) (chainSeen cfg) (ensureListed applying listArgs addArgs) s [] := by
  refine Program.Appends.after (netHost env) ?_ ?_
  · apply Program.Appends.of_frame
    rw [Program.visited_attempt]
    intro x hx
    obtain ⟨done, hdone, hobs⟩ :=
      (Executor.appends_capture env (policyChain cfg) "nft" listArgs s).part x hx
    rw [List.prefix_nil.mp hdone, List.append_nil] at hobs
    exact hobs
  · intro r t _
    cases r with
    | ok text => exact Program.Appends.pure _ _
    | error e =>
        exact Executor.appends_run env (by decide) (fun k hcmd => by simp [hk _ _ hcmd])

theorem appends_ensureTableAndChain (s : NetState) :
    Program.Appends (netHost env) (chainSeen cfg) (ensureTableAndChain applying cfg) s [] := by
  refine Program.Appends.after (netHost env) ?_ (fun _ t _ => ?_)
  · refine appends_ensureListed env _ s (fun k k' hcmd => ?_)
    rw [command_addTable, Option.some.injEq] at hcmd
    rw [← hcmd]
    rfl
  · refine appends_ensureListed env _ t (fun k k' hcmd => ?_)
    rw [command_addChain] at hcmd
    split_ifs at hcmd with htable hchain
    · rw [← Option.some.inj hcmd]
    · rw [← Option.some.inj hcmd, policyChain_setChain, policyChain,
        Option.not_isSome_iff_eq_none.mp hchain, Option.getD_none]

theorem appends_ensureEgressRoute (egress : EgressInterface) (s : NetState) :
    Program.Appends (netHost env) (chainSeen cfg) (ensureEgressRoute applying egress) s [] := by
  refine Program.Appends.after (netHost env) ?_ (fun _ t _ => ?_)
  · refine Executor.appends_run env (by decide) (fun k hcmd => ?_)
    rw [command_route, Option.some.injEq] at hcmd
    rw [← hcmd, List.append_nil]
    rfl
  · refine Program.Appends.after (netHost env)
      (Executor.appends_capture env _ _ _ t) (fun rules u _ => ?_)
    split_ifs
    · exact Program.Appends.pure _ _
    · refine Executor.appends_run env (by decide) (fun k hcmd => ?_)
      rw [command_fwmarkRule] at hcmd
      split_ifs at hcmd
      rw [← Option.some.inj hcmd, List.append_nil]
      rfl

theorem appends_addPolicyRuleWithMatch (egress : EgressInterface) (spec : MatchSpec)
    (s : NetState) :
    Program.Appends (netHost env) (chainSeen cfg)
      (addPolicyRuleWithMatch applying cfg egress spec) s [ruleOf egress spec] := by
  unfold addPolicyRuleWithMatch
  rcases appendMatch_eq egress spec ["add", "rule", "inet", cfg.nft.table, cfg.nft.outputChain]
    with ⟨e, he⟩ | ⟨args, hargs, hrule⟩
  · rw [he]
    exact Program.Appends.fail _ _ _
  · rw [hargs]
    change Program.Appends _ _ (applying.run "nft" _) s _
    rw [hrule]
    refine Executor.appends_run env (by decide) (fun k hcmd => ?_)
    rw [command_addRule] at hcmd
    obtain ⟨rules, hrules, rfl⟩ := Option.map_eq_some_iff.mp hcmd
    rw [policyChain_setChain, policyChain, hrules, Option.getD_some]

theorem replaces_flush (s : NetState) :
    Program.Replaces (netHost env) (chainSeen cfg) (flushPolicyChain applying cfg) s [] where
  part x hx := by
    rcases Executor.mem_visited_run env hx with rfl | rfl
    · exact Or.inl rfl
    · have hnft : "nft" ≠ "ping" := by decide
      rcases Executor.run_cases env hnft (flushArgs cfg) s with ⟨e, he⟩ | ⟨k, hcmd, hok⟩
      · exact Or.inl (congrArg (fun r => chainSeen cfg r.2) he)
      · rw [command_flush] at hcmd
        obtain ⟨rules, -, rfl⟩ := Option.map_eq_some_iff.mp hcmd
        have hempty : chainSeen cfg
            (Program.run (netHost env) (flushPolicyChain applying cfg) s).2 = [] := by
          unfold flushPolicyChain
          rw [hok]
          exact policyChain_setChain cfg s.kernel []
        exact Or.inr (List.prefix_nil.mpr hempty)
  whole a t ht := by
    obtain ⟨k, hcmd, rfl⟩ := Executor.run_eq_ok env (by decide) ht
    rw [command_flush] at hcmd
    obtain ⟨rules, -, rfl⟩ := Option.map_eq_some_iff.mp hcmd
    exact policyChain_setChain cfg s.kernel []

end Commands

/-! ### The round -/

section Round

variable (env : HostEnv) {cfg : Config} {healthy : List EgressInterface}

/-- The policy chain in the state of the whole host. -/
abbrev hostChain (cfg : Config) : HostState → List NftRule := fun x => chainSeen cfg x.1

theorem appends_applyResolution (policy : Policy) (egress : EgressInterface)
    (outcome : Except Error DomainResolution) (s : NetState) :
    Program.Appends (netHost env.net) (chainSeen cfg)
      (applyResolution applying cfg policy egress outcome) s
      (((resolutionIps outcome).map (resolvedSpec policy.matchSpec)).map (ruleOf egress)) := by
  cases outcome with
  | error e => exact Program.Appends.pure _ _
  | ok resolution =>
      rw [List.map_map, List.map_eq_flatMap]
      exact Program.Appends.forEach _ (fun ip _ t => appends_addPolicyRuleWithMatch env.net egress
        (resolvedSpec policy.matchSpec ip) t)

theorem appends_applyPolicy (policy : Policy) (s : HostState) :
    Program.Appends (host env) (hostChain cfg) (applyPolicy applying cfg healthy policy) s
      (rulesFor healthy policy (resolvePolicy env.cache cfg healthy policy s.2).1) := by
  unfold applyPolicy rulesFor resolvePolicy
  cases hegress : KeyedList.lookup (·.name) policy.action.egress healthy with
  | none => exact Program.Appends.pure _ _
  | some egress =>
      dsimp only
      rw [← map_policySpecs]
      unfold policySpecs
      cases hdomain : policy.matchSpec.domain with
      | none =>
          simp only [addPolicyRule_eq hdomain, Option.isSome_none, Bool.false_eq_true, if_false]
          exact Program.Appends.left _ _ (appends_addPolicyRuleWithMatch env.net egress _ _)
      | some domain =>
          simp only [Option.isSome_some, if_true]
          refine Program.Appends.after (host env) (Program.Appends.right _ _ _ _)
            (fun outcome t ht => ?_)
          rw [Program.run_right, Program.run_attempt, Prod.mk.injEq, Except.ok.injEq] at ht
          rw [ht.1]
          exact Program.Appends.left _ _ (appends_applyResolution env policy egress outcome t.1)

variable (cfg healthy) in
/-- The rules of a policy leave the cache as its resolution does, wherever they fail. -/
theorem cache_applyPolicy (policy : Policy) (s : HostState) :
    (Program.run (host env) (applyPolicy applying cfg healthy policy) s).2.2 =
      (resolvePolicy env.cache cfg healthy policy s.2).2 := by
  unfold applyPolicy resolvePolicy
  cases KeyedList.lookup (·.name) policy.action.egress healthy with
  | none => rfl
  | some egress =>
      cases policy.matchSpec.domain with
      | none => rw [Program.run_left]
      | some domain =>
          dsimp only
          rw [Program.run_bind, Program.run_right, Program.run_attempt]
          dsimp only
          rw [Program.run_left]

theorem appends_policies (policies : List Policy) (s : HostState) :
    Program.Appends (host env) (hostChain cfg)
      (Program.forEach (applyPolicy applying cfg healthy) policies) s
      (chainOf healthy (resolutions env.cache cfg healthy policies s.2)) := by
  induction policies generalizing s with
  | nil => exact Program.Appends.pure _ _
  | cons policy policies ih =>
      rw [Program.forEach_cons, resolutions, chainOf, List.flatMap_cons]
      refine Program.Appends.bind _ (appends_applyPolicy env policy s) (fun _ t ht => ?_)
      have hcache := cache_applyPolicy env cfg healthy policy s
      rw [ht] at hcache
      rw [← hcache]
      exact ih t

theorem replaces_rebuild (order : MapOrder) (s : HostState) :
    Program.Replaces (host env) (hostChain cfg) (rebuild applying order cfg healthy) s
      (chainOf healthy (resolutions env.cache cfg healthy cfg.enabledPolicies s.2)) := by
  refine Program.Replaces.after _ ?_ (fun _ t ht => ?_)
  · have hroutes : Program.Appends (netHost env.net) (chainSeen cfg)
        (Program.forEach (ensureEgressRoute applying) (order.walk healthy)) s.1
        ((order.walk healthy).flatMap (fun _ => [])) :=
      Program.Appends.forEach _ (fun egress _ x => appends_ensureEgressRoute env.net egress x)
    rw [List.flatMap_eq_nil_iff.mpr (fun _ _ => rfl)] at hroutes
    exact Program.Appends.left _ _ hroutes
  · rw [Program.run_left, Prod.mk.injEq] at ht
    refine Program.Replaces.then_append _ (Program.Replaces.left _ _ (replaces_flush env.net t.1))
      (fun _ u hu => ?_)
    rw [Program.run_left, Prod.mk.injEq] at hu
    have hcache : s.2 = u.2 := by rw [← hu.2, ← ht.2]
    rw [hcache]
    exact appends_policies env _ u

theorem links_ensureTableAndChain (cfg : Config) (s : NetState) :
    (Program.run (netHost env.net) (ensureTableAndChain applying cfg) s).2.links = s.links :=
  Program.run_const _ NetState.links (netHost_links env.net) _ s

/-- The round once the chain exists and the healthy egresses are known. -/
theorem run_reconcileOnce_start {order : MapOrder} {s : HostState} {v : NetState}
    (htable : Program.run (netHost env.net) (ensureTableAndChain applying cfg) s.1 = (.ok (), v))
    (hhealthy : healthyEgresses v.links cfg = .ok healthy) :
    Program.run (host env) (reconcileOnce applying order cfg) s =
      Program.run (host env)
        (if healthy = [] ∧ cfg.runtime.failClosed then (flushPolicyChain applying cfg).left
          else rebuild applying order cfg healthy) (v, s.2) := by
  have hfirst : Program.run (host env) (ensureTableAndChain applying cfg).left s =
      (.ok (), (v, s.2)) := by rw [Program.run_left, htable]
  have hmap : Program.run (host env) (healthyEgressMap applying cfg).left (v, s.2) =
      (.ok healthy, (v, s.2)) := by rw [Program.run_left, run_healthyEgressMap, hhealthy]
  rw [reconcileOnce, Program.bind_eq, Program.run_bind_ok _ hfirst, Program.bind_eq,
    Program.run_bind_ok _ hmap]

theorem run_reconcileOnce_ok {order : MapOrder} {s t : HostState}
    (h : Program.run (host env) (reconcileOnce applying order cfg) s = (.ok (), t)) :
    ∃ healthy u, healthyEgresses s.1.links cfg = .ok healthy ∧ u.links = s.1.links ∧
      Program.run (netHost env.net) (ensureTableAndChain applying cfg) s.1 = (.ok (), u) ∧
      Program.run (host env)
        (if healthy = [] ∧ cfg.runtime.failClosed then (flushPolicyChain applying cfg).left
          else rebuild applying order cfg healthy) (u, s.2) = (.ok (), t) := by
  obtain ⟨_, v, hv, hrest⟩ := Program.run_bind_eq_ok _ h
  rw [Program.run_left, Prod.mk.injEq] at hv
  obtain ⟨hok, rfl⟩ := hv
  obtain ⟨healthy, w, hw, hlast⟩ := Program.run_bind_eq_ok _ hrest
  have hlinks := links_ensureTableAndChain env cfg s.1
  rw [Program.run_left, run_healthyEgressMap, Prod.mk.injEq] at hw
  obtain ⟨hhealthy, rfl⟩ := hw
  refine ⟨healthy, _, ?_, hlinks, Prod.ext hok rfl, hlast⟩
  rw [← hlinks]
  exact hhealthy

theorem replaces_reconcileOnce {order : MapOrder} {s : HostState}
    (hhealthy : healthyEgresses s.1.links cfg = .ok healthy) :
    Program.Replaces (host env) (hostChain cfg) (reconcileOnce applying order cfg) s
      (chainOf healthy (resolutions env.cache cfg healthy cfg.enabledPolicies s.2)) := by
  refine Program.Replaces.after _
    (Program.Appends.left _ _ (appends_ensureTableAndChain env.net s.1)) (fun _ t ht => ?_)
  rw [Program.run_left, Prod.mk.injEq] at ht
  obtain ⟨-, rfl⟩ := ht
  refine Program.Replaces.after _ (Program.Appends.left _ _ ?_) (fun a u hu => ?_)
  · exact Program.Appends.of_frame _
      (fun x hx => congrArg (chainSeen cfg) (visited_healthyEgressMap env.net cfg _ x hx))
  · rw [Program.run_left, run_healthyEgressMap, links_ensureTableAndChain, hhealthy,
      Prod.mk.injEq, Except.ok.injEq] at hu
    obtain ⟨rfl, rfl⟩ := hu
    split_ifs with hclosed
    · rw [hclosed.1, chainOf_no_egresses]
      exact Program.Replaces.left _ _ (replaces_flush env.net _)
    · exact replaces_rebuild env order _

/-! #### A round cut off after some of its policies -/

theorem healthyAt_policies (links : String → LinkState) (policies : List Policy)
    (start egresses : List EgressInterface) :
    healthyAt links { cfg with policies := policies } start egresses =
      healthyAt links cfg start egresses := by
  induction egresses generalizing start with
  | nil => rfl
  | cons egress egresses ih =>
      simp only [healthyAt, ih]
      rfl

theorem resolutions_policies (cacheEnv : CacheEnv) (policies listed : List Policy)
    (store : CacheStore) :
    resolutions cacheEnv { cfg with policies := listed } healthy policies store =
      resolutions cacheEnv cfg healthy policies store := by
  induction policies generalizing store with
  | nil => rfl
  | cons policy policies ih =>
      simp only [resolutions, ih]
      rfl

theorem run_no_egresses (policies : List Policy) (s : HostState) :
    Program.run (host env) (Program.forEach (applyPolicy applying cfg []) policies) s =
      (.ok (), s) := by
  induction policies with
  | nil => rfl
  | cons policy policies ih => exact ih

theorem run_rebuild_append {order : MapOrder} {s u : HostState} {first later : List Policy}
    (hsplit : cfg.policies = first ++ later)
    (h : Program.run (host env) (rebuild applying order { cfg with policies := first } healthy) s =
      (.ok (), u)) :
    Program.run (host env) (rebuild applying order cfg healthy) s =
      Program.run (host env) (Program.forEach (applyPolicy applying cfg healthy)
        (later.filter (fun policy => policy.enabled))) u := by
  obtain ⟨_, v, hroutes, hrest⟩ := Program.run_bind_eq_ok _ h
  obtain ⟨_, w, hflush, hpolicies⟩ := Program.run_bind_eq_ok _ hrest
  have hall : cfg.enabledPolicies = first.filter (fun policy => policy.enabled) ++
      later.filter (fun policy => policy.enabled) := by
    rw [Config.enabledPolicies, hsplit, List.filter_append]
  have hflush' : Program.run (host env) (flushPolicyChain applying cfg).left v = (.ok (), w) :=
    hflush
  rw [rebuild, Program.bind_eq, Program.run_bind_ok _ hroutes, Program.bind_eq,
    Program.run_bind_ok _ hflush', hall, Program.forEach_append]
  exact Program.run_bind_ok _ hpolicies

/-- When the round returns with the later policies left out, the whole round is that
round followed by the rules of the later policies. -/
theorem run_reconcileOnce_append {order : MapOrder} {s u : HostState} {first later : List Policy}
    (hsplit : cfg.policies = first ++ later)
    (h : Program.run (host env) (reconcileOnce applying order { cfg with policies := first }) s =
      (.ok (), u)) :
    ∃ healthy, healthyEgresses s.1.links cfg = .ok healthy ∧
      Program.run (host env) (reconcileOnce applying order cfg) s =
        Program.run (host env) (Program.forEach (applyPolicy applying cfg healthy)
          (later.filter (fun policy => policy.enabled))) u := by
  obtain ⟨healthy, v, hhealthy, hlinks, htable, hrest⟩ := run_reconcileOnce_ok env h
  rw [healthyEgresses, healthyAt_policies] at hhealthy
  refine ⟨healthy, hhealthy, ?_⟩
  have htable' : Program.run (netHost env.net) (ensureTableAndChain applying cfg) s.1 =
      (.ok (), v) := htable
  rw [run_reconcileOnce_start env htable' (by rw [hlinks]; exact hhealthy)]
  by_cases hclosed : healthy = [] ∧ cfg.runtime.failClosed = true
  · rw [if_pos hclosed] at hrest ⊢
    rw [hclosed.1, run_no_egresses]
    exact hrest
  · rw [if_neg hclosed] at hrest ⊢
    exact run_rebuild_append env hsplit hrest

/-- The chain that a completed round leaves, in terms of the configured egresses. -/
theorem chain_reconcileOnce {order : MapOrder} {s t : HostState} (hcfg : Accepted cfg)
    (h : Program.run (host env) (reconcileOnce applying order cfg) s = (.ok (), t)) :
    policyChain cfg t.1.kernel = chainOf (configuredHealthy s.1.links cfg)
      (resolutions env.cache cfg (configuredHealthy s.1.links cfg) cfg.enabledPolicies s.2) := by
  obtain ⟨healthy, -, hhealthy, -⟩ := run_reconcileOnce_ok env h
  rw [← chainOf_congr (fixed_of_healthyEgresses hcfg hhealthy)]
  exact (replaces_reconcileOnce env hhealthy).whole _ _ h

/-- What rules leave in the cache: the resolutions of the policies, up to one at which they fail. -/
def ResolvesUpTo (env : HostEnv) (cfg : Config) (egresses : List EgressInterface)
    (policies : List Policy) (store : CacheStore) (out : Except Error Unit × HostState) : Prop :=
  ∃ done, done <+: policies ∧ out.2.2 = cacheAfter env.cache cfg egresses done store ∧
    (out.1 = .ok () → done = policies)

theorem resolvesUpTo_error {policies : List Policy} {store : CacheStore} {e : Error}
    (t : NetState) : ResolvesUpTo env cfg healthy policies store (.error e, (t, store)) :=
  ⟨[], List.nil_prefix, rfl, fun h => by cases h⟩

theorem resolvesUpTo_policies (policies : List Policy) (s : HostState) :
    ResolvesUpTo env cfg healthy policies s.2
      (Program.run (host env) (Program.forEach (applyPolicy applying cfg healthy) policies) s) := by
  induction policies generalizing s with
  | nil => exact ⟨[], List.prefix_rfl, rfl, fun _ => rfl⟩
  | cons policy policies ih =>
      have hcache := cache_applyPolicy env cfg healthy policy s
      rw [Program.forEach_cons]
      rcases hrun : Program.run (host env) (applyPolicy applying cfg healthy policy) s with
        ⟨e | a, t⟩
      · rw [hrun] at hcache
        rw [Program.run_bind_error _ hrun]
        refine ⟨[policy], ⟨policies, rfl⟩, hcache, fun h => by cases h⟩
      · rw [hrun] at hcache
        rw [Program.run_bind_ok _ hrun]
        obtain ⟨done, hdone, hafter, hwhole⟩ := ih t
        refine ⟨policy :: done, List.cons_prefix_cons.mpr ⟨rfl, hdone⟩, ?_, fun h => ?_⟩
        · rw [hafter, hcache]
          rfl
        · rw [hwhole h]

theorem resolvesUpTo_rebuild (order : MapOrder) (s : HostState) :
    ResolvesUpTo env cfg healthy cfg.enabledPolicies s.2
      (Program.run (host env) (rebuild applying order cfg healthy) s) := by
  rw [rebuild, Program.bind_eq, Program.run_bind, Program.run_left]
  rcases Program.run (netHost env.net) (Program.forEach (ensureEgressRoute applying)
    (order.walk healthy)) s.1 with ⟨e | a, t⟩
  · exact resolvesUpTo_error env t
  · dsimp only
    rw [Program.bind_eq, Program.run_bind, Program.run_left]
    rcases Program.run (netHost env.net) (flushPolicyChain applying cfg) t with ⟨e | b, u⟩
    · exact resolvesUpTo_error env u
    · exact resolvesUpTo_policies env cfg.enabledPolicies (u, s.2)

/-- A round resolves the domains of the enabled policies one after the other, up to the policy at
which it fails. -/
theorem resolvesUpTo_reconcileOnce (order : MapOrder) (hcfg : Accepted cfg) (s : HostState) :
    ResolvesUpTo env cfg (configuredHealthy s.1.links cfg) cfg.enabledPolicies s.2
      (Program.run (host env) (reconcileOnce applying order cfg) s) := by
  have hlinks := links_ensureTableAndChain env cfg s.1
  rcases htable : Program.run (netHost env.net) (ensureTableAndChain applying cfg) s.1 with
    ⟨e | a, v⟩
  · have hfirst : Program.run (host env) (ensureTableAndChain applying cfg).left s =
        (.error e, (v, s.2)) := by rw [Program.run_left, htable]
    rw [reconcileOnce, Program.bind_eq, Program.run_bind_error _ hfirst]
    exact resolvesUpTo_error env v
  · rw [htable] at hlinks
    cases hhealthy : healthyEgresses v.links cfg with
    | error e =>
        have hfirst : Program.run (host env) (ensureTableAndChain applying cfg).left s =
            (.ok (), (v, s.2)) := by rw [Program.run_left, htable]
        have hmap : Program.run (host env) (healthyEgressMap applying cfg).left (v, s.2) =
            (.error e, (v, s.2)) := by rw [Program.run_left, run_healthyEgressMap, hhealthy]
        rw [reconcileOnce, Program.bind_eq, Program.run_bind_ok _ hfirst, Program.bind_eq,
          Program.run_bind_error _ hmap]
        exact resolvesUpTo_error env v
    | ok healthy =>
        rw [run_reconcileOnce_start env htable hhealthy]
        rw [show v.links = s.1.links from hlinks] at hhealthy
        have hsame := cacheAfter_congr (fixed_of_healthyEgresses hcfg hhealthy) env.cache cfg
        rw [ResolvesUpTo, ← hsame]
        by_cases hclosed : healthy = [] ∧ cfg.runtime.failClosed = true
        · rw [if_pos hclosed, Program.run_left, hclosed.1]
          exact ⟨cfg.enabledPolicies, List.prefix_rfl,
            (cacheAfter_no_egresses env.cache cfg _ s.2).symm, fun _ => rfl⟩
        · rw [if_neg hclosed]
          exact resolvesUpTo_rebuild env order (v, s.2)

/-- The enabled ones among some policies. -/
def enabledOf (policies : List Policy) : List Policy :=
  policies.filter (fun policy => policy.enabled)

/-- After the round the chain holds the rules of the policies `before`, then `rules`, then a
first part of the rules of the policies `after`. -/
def RulesBetween (order : MapOrder) (cfg : Config) (s : HostState) (before after : List Policy)
    (rules : List NftRule) : Prop :=
  ∃ store rest, rest <+: chainOf (configuredHealthy s.1.links cfg)
      (resolutions env.cache cfg (configuredHealthy s.1.links cfg) (enabledOf after) store) ∧
    policyChain cfg (Program.run (host env) (reconcileOnce applying order cfg) s).2.1.kernel =
      chainOf (configuredHealthy s.1.links cfg)
          (resolutions env.cache cfg (configuredHealthy s.1.links cfg) (enabledOf before) s.2) ++
        rules ++ rest

/-- Once the round has come past a policy, the chain holds the rules of the policies before
it, then its own, then a first part of the rules of those after it. -/
theorem chain_past_policy {order : MapOrder} {s u : HostState} {before after : List Policy}
    {policy : Policy} {ips : List String} (hcfg : Accepted cfg)
    (hsplit : cfg.policies = before ++ policy :: after) (henabled : policy.enabled = true)
    (hips : (policy, ips) ∈ resolutions env.cache cfg (configuredHealthy s.1.links cfg)
      cfg.enabledPolicies s.2)
    (h : Program.run (host env)
      (reconcileOnce applying order { cfg with policies := before ++ [policy] }) s = (.ok (), u)) :
    RulesBetween env order cfg s before after
      (rulesFor (configuredHealthy s.1.links cfg) policy ips) := by
  have hsplit' : cfg.policies = (before ++ [policy]) ++ after := by simp [hsplit]
  obtain ⟨healthy, hhealthy, hrun⟩ := run_reconcileOnce_append env hsplit' h
  have hfixed := fixed_of_healthyEgresses hcfg hhealthy
  set egresses := configuredHealthy s.1.links cfg
  have hlater : Program.Appends (host env) (hostChain cfg)
      (Program.forEach (applyPolicy applying cfg healthy) (enabledOf after)) u
      (chainOf healthy (resolutions env.cache cfg healthy (enabledOf after) u.2)) :=
    appends_policies env _ u
  obtain ⟨rest, hrest, hchain⟩ := hlater.part _ (Program.run_mem_visited _ _ _)
  have hu : hostChain cfg u = chainOf healthy
      (resolutions env.cache cfg healthy (enabledOf before ++ [policy]) s.2) := by
    have hcut : healthyEgresses s.1.links { cfg with policies := before ++ [policy] } =
        .ok healthy := by
      rw [healthyEgresses, healthyAt_policies]
      exact hhealthy
    have hwhole := (replaces_reconcileOnce env hcut).whole _ _ h
    have hlist : Config.enabledPolicies { cfg with policies := before ++ [policy] } =
        enabledOf before ++ [policy] := by simp [Config.enabledPolicies, enabledOf, henabled]
    rw [resolutions_policies, hlist] at hwhole
    exact hwhole
  -- the policy occurs once, so its place in the list fixes what was found for it
  have hstore := fun after => resolutions_append env.cache cfg egresses (enabledOf before) after s.2
  set store := cacheAfter env.cache cfg egresses (enabledOf before) s.2
  have hall : cfg.enabledPolicies = enabledOf before ++ (policy :: enabledOf after) := by
    simp [Config.enabledPolicies, enabledOf, hsplit, henabled]
  have hnodup : (before ++ policy :: after).Nodup := hsplit ▸ List.Nodup.of_map _ hcfg.ids
  have hfound : ips = (resolvePolicy env.cache cfg egresses policy store).1 := by
    rw [hall, hstore, List.mem_append, resolutions, List.mem_cons] at hips
    rcases hips with hbefore | hself | hafter
    · have hmem := List.mem_of_mem_filter (fst_mem_of_mem_resolutions hbefore)
      exact absurd (List.mem_cons_self) (List.disjoint_of_nodup_append hnodup hmem)
    · exact congrArg Prod.snd hself
    · have hmem := List.mem_of_mem_filter (fst_mem_of_mem_resolutions hafter)
      exact absurd hmem (List.nodup_cons.mp (List.nodup_append.mp hnodup).2.1).1
  rw [chainOf_congr hfixed, hstore, resolutions, resolutions, ← hfound] at hu
  refine ⟨u.2, rest, ?_, ?_⟩
  · rwa [← chainOf_congr hfixed]
  · rw [hrun]
    refine hchain.trans ?_
    rw [hu]
    simp [chainOf, egresses]

end Round

/-! ### What holds of the chain -/

section Results

variable {cfg : Config} {env env' : HostEnv} {order order' : MapOrder} {s t : HostState}

theorem mem_chainOf_iff {egresses : List EgressInterface} {resolved : List (Policy × List String)}
    {rule : NftRule} : rule ∈ chainOf egresses resolved ↔
      ∃ r ∈ resolved, ∃ egress, KeyedList.lookup (·.name) r.1.action.egress egresses = some egress ∧
        rule ∈ policyRules egress r.1 r.2 := by
  unfold chainOf rulesFor
  rw [List.mem_flatMap]
  refine exists_congr (fun r => and_congr_right (fun _ => ?_))
  cases KeyedList.lookup (·.name) r.1.action.egress egresses with
  | none => simp
  | some egress => simp

/-- A round that returns leaves the chain of the enabled policies whose egress is healthy,
and every other round over the same links and resolutions leaves it too. -/
theorem round_leaves_chain (hcfg : cfg.validate = .ok ())
    (hrun : Program.run (host env) (reconcileOnce applying order cfg) s = (.ok (), t)) :
    policyChain cfg t.1.kernel = chainOf (configuredHealthy s.1.links cfg)
        (resolutions env.cache cfg (configuredHealthy s.1.links cfg) cfg.enabledPolicies s.2) ∧
      (∀ rule ∈ policyChain cfg t.1.kernel, ∃ policy ∈ cfg.enabledPolicies,
        ∃ egress ∈ configuredHealthy s.1.links cfg, egress.name = policy.action.egress ∧
          rule.mark = egress.fwmark) ∧
      (∀ egress ∈ cfg.egressInterfaces, egressHealthy s.1.links egress = false →
        ∀ rule ∈ policyChain cfg t.1.kernel, rule.mark ≠ egress.fwmark) ∧
      ∀ (env' : HostEnv) (order' : MapOrder) (s' t' : HostState), s'.1.links = s.1.links →
        resolutions env'.cache cfg (configuredHealthy s.1.links cfg) cfg.enabledPolicies s'.2 =
          resolutions env.cache cfg (configuredHealthy s.1.links cfg) cfg.enabledPolicies s.2 →
        Program.run (host env') (reconcileOnce applying order' cfg) s' = (.ok (), t') →
        policyChain cfg t'.1.kernel = policyChain cfg t.1.kernel := by
  have hacc := accepted_of_validate hcfg
  have hchain := chain_reconcileOnce env hacc hrun
  have hmark : ∀ rule ∈ policyChain cfg t.1.kernel, ∃ policy ∈ cfg.enabledPolicies,
      ∃ egress ∈ configuredHealthy s.1.links cfg, egress.name = policy.action.egress ∧
        rule.mark = egress.fwmark := by
    intro rule hrule
    rw [hchain] at hrule
    obtain ⟨r, hr, egress, hegress, hmem⟩ := mem_chainOf_iff.mp hrule
    exact ⟨r.1, fst_mem_of_mem_resolutions hr, egress, KeyedList.mem_of_lookup _ hegress,
      KeyedList.key_of_lookup _ hegress, mark_of_mem_policyRules hmem⟩
  refine ⟨hchain, hmark, ?_, ?_⟩
  · intro egress hegress hsick rule hrule heq
    obtain ⟨_, -, egress', hegress', -, hmark'⟩ := hmark rule hrule
    obtain ⟨hmem', hhealthy'⟩ := List.mem_filter.mp hegress'
    have hsame : egress' = egress :=
      List.inj_on_of_nodup_map hacc.marks hmem' hegress (hmark'.symm.trans heq)
    rw [hsame, hsick] at hhealthy'
    exact Bool.false_ne_true hhealthy'
  · intro env' order' s' t' hlinks hres hrun'
    rw [chain_reconcileOnce env' hacc hrun', hchain, hlinks, hres]

/-- One tunnel and one address that goes through it. -/
def officeConfig : Config :=
  configOf [tunnel "tun0" 100 16] [addressPolicy "office" "203.0.113.7" "tun0"]

def officeRule : NftRule := ⟨some "203.0.113.7", none, 16⟩

/-- The first round of the small host. -/
def officeRound : Except Error Unit × HostState :=
  Program.run (host quietHost) (reconcileOnce applying listOrder officeConfig) bareState

/-- A second tunnel for a name; the policy in between is switched off with its egress. -/
def siteConfig : Config :=
  configOf [tunnel "tun0" 100 16, tunnel "tun1" 200 32, { tunnel "tun2" 300 48 with enabled := false }]
    [addressPolicy "office" "203.0.113.7" "tun0",
      { addressPolicy "old" "192.0.2.1" "tun2" with enabled := false },
      domainPolicy "web" "A.example" "tun1"]

/-- The resolver knows two addresses of every name. -/
def resolvingHost : HostEnv :=
  { quietHost with cache := { quietHost.cache with
      lookups := fun _ _ => .ok [.v4 198 51 100 9 0, .v4 198 51 100 8 0] } }

def siteRound : Except Error Unit × HostState :=
  Program.run (host resolvingHost) (reconcileOnce applying listOrder siteConfig) bareState

theorem round_leaves_chain_site :
    siteConfig.validate = .ok () ∧ siteRound.1 = .ok () ∧
      policyChain siteConfig siteRound.2.1.kernel =
        [⟨some "203.0.113.7", none, 16⟩, ⟨some "198.51.100.8", none, 32⟩,
          ⟨some "198.51.100.9", none, 32⟩] := by
  have hcfg : siteConfig.validate = .ok () := by decide
  have hok : siteRound.1 = .ok () := by decide +kernel
  have hrun : Program.run (host resolvingHost) (reconcileOnce applying listOrder siteConfig)
      bareState = (.ok (), siteRound.2) := Prod.ext hok rfl
  refine ⟨hcfg, hok, (round_leaves_chain hcfg hrun).1.trans ?_⟩
  decide +kernel

/-- At every point of a round the chain is the old one or a first part of the one that the
complete round leaves. -/
theorem visited_chain_old_or_part {s t : HostState} (hcache : env'.cache = env.cache)
    (hcomplete : Program.run (host env') (reconcileOnce applying order' cfg) s = (.ok (), t)) :
    (∀ x ∈ Program.visited (host env) (reconcileOnce applying order cfg) s,
      policyChain cfg x.1.kernel = policyChain cfg s.1.kernel ∨
        policyChain cfg x.1.kernel <+: policyChain cfg t.1.kernel) ∧
      ∀ u, Program.run (host env) (reconcileOnce applying order cfg) s = (.ok (), u) →
        policyChain cfg u.1.kernel = policyChain cfg t.1.kernel := by
  obtain ⟨healthy, -, hhealthy, -⟩ := run_reconcileOnce_ok env' hcomplete
  have hnew := (replaces_reconcileOnce env' hhealthy).whole _ _ hcomplete
  rw [hcache] at hnew
  have hround : Program.Replaces (host env) (hostChain cfg) (reconcileOnce applying order cfg) s
      (chainOf healthy (resolutions env.cache cfg healthy cfg.enabledPolicies s.2)) :=
    replaces_reconcileOnce env hhealthy
  rw [← hnew] at hround
  exact ⟨hround.part, fun u hu => hround.whole () u hu⟩

theorem visited_chain_old_or_part_office : officeRound.1 = .ok () ∧
    ∀ x ∈ Program.visited (host (failingAt 7)) (reconcileOnce applying listOrder officeConfig)
        bareState,
      policyChain officeConfig x.1.kernel = policyChain officeConfig bareState.1.kernel ∨
        policyChain officeConfig x.1.kernel <+: policyChain officeConfig officeRound.2.1.kernel := by
  have hrun : Program.run (host quietHost) (reconcileOnce applying listOrder officeConfig)
      bareState = (.ok (), officeRound.2) := rfl
  have hcache : quietHost.cache = (failingAt 7).cache := rfl
  exact ⟨rfl, (visited_chain_old_or_part hcache hrun).1⟩

/-- The old chain and the new one need not be all that is seen: between two equal chains
the round passes through an empty one. -/
theorem not_visited_chain_old_or_new : ¬ ∀ (cfg : Config) (env₀ env : HostEnv)
    (order₀ order : MapOrder) (s₀ s t : HostState), cfg.validate = .ok () →
    Program.run (host env₀) (reconcileOnce applying order₀ cfg) s₀ = (.ok (), s) →
    Program.run (host env) (reconcileOnce applying order cfg) s = (.ok (), t) →
    ∀ x ∈ Program.visited (host env) (reconcileOnce applying order cfg) s,
      policyChain cfg x.1.kernel = policyChain cfg s.1.kernel ∨
        policyChain cfg x.1.kernel = policyChain cfg t.1.kernel := by
  intro hclaim
  have hround := hclaim officeConfig quietHost quietHost listOrder listOrder bareState
    officeRound.2 (Program.run (host quietHost) (reconcileOnce applying listOrder officeConfig)
      officeRound.2).2 (by decide) rfl rfl
  obtain ⟨x, hx, hempty⟩ : ∃ x ∈ Program.visited (host quietHost)
      (reconcileOnce applying listOrder officeConfig) officeRound.2,
      policyChain officeConfig x.1.kernel = [] := by decide +kernel
  have hold : policyChain officeConfig officeRound.2.1.kernel = [officeRule] := by decide +kernel
  have hnew : policyChain officeConfig (Program.run (host quietHost)
      (reconcileOnce applying listOrder officeConfig) officeRound.2).2.1.kernel = [officeRule] := by
    decide +kernel
  rcases hround x hx with he | he
  · rw [hempty, hold] at he
    cases he
  · rw [hempty, hnew] at he
    cases he

/-- Two rounds that both come past a policy, and that agree on its egress and on the addresses
found for it, hold the same rules for it, whatever the other policies are and do. -/
theorem policy_rules_agree {cfg' : Config} {s' u u' : HostState} {policy : Policy}
    {before after before' after' : List Policy} {ips : List String}
    (hcfg : cfg.validate = .ok ()) (hcfg' : cfg'.validate = .ok ())
    (hsplit : cfg.policies = before ++ policy :: after)
    (hsplit' : cfg'.policies = before' ++ policy :: after') (henabled : policy.enabled = true)
    (hegress : KeyedList.lookup (·.name) policy.action.egress (configuredHealthy s.1.links cfg) =
      KeyedList.lookup (·.name) policy.action.egress (configuredHealthy s'.1.links cfg'))
    (hips : (policy, ips) ∈ resolutions env.cache cfg (configuredHealthy s.1.links cfg)
      cfg.enabledPolicies s.2)
    (hips' : (policy, ips) ∈ resolutions env'.cache cfg' (configuredHealthy s'.1.links cfg')
      cfg'.enabledPolicies s'.2)
    (hpast : Program.run (host env)
      (reconcileOnce applying order { cfg with policies := before ++ [policy] }) s = (.ok (), u))
    (hpast' : Program.run (host env')
      (reconcileOnce applying order' { cfg' with policies := before' ++ [policy] }) s' =
        (.ok (), u')) :
    RulesBetween env order cfg s before after
        (rulesFor (configuredHealthy s.1.links cfg) policy ips) ∧
      RulesBetween env' order' cfg' s' before' after'
        (rulesFor (configuredHealthy s.1.links cfg) policy ips) := by
  have hrules : rulesFor (configuredHealthy s'.1.links cfg') policy ips =
      rulesFor (configuredHealthy s.1.links cfg) policy ips := by
    unfold rulesFor
    rw [hegress]
  refine ⟨chain_past_policy env (accepted_of_validate hcfg) hsplit henabled hips hpast, ?_⟩
  rw [← hrules]
  exact chain_past_policy env' (accepted_of_validate hcfg') hsplit' henabled hips' hpast'

/-- A second tunnel with an address of its own. -/
def branchConfig : Config :=
  configOf [tunnel "tun0" 100 16, tunnel "tun1" 200 32]
    [addressPolicy "office" "203.0.113.7" "tun0", addressPolicy "branch" "198.51.100.9" "tun1"]

/-- The second round fails at the rule of the other policy. -/
theorem policy_rules_agree_office :
    (Program.run (host (failingAt 12)) (reconcileOnce applying listOrder branchConfig)
        bareState).1 ≠ .ok () ∧
      RulesBetween quietHost listOrder officeConfig bareState [] [] [officeRule] ∧
      RulesBetween (failingAt 12) listOrder branchConfig bareState []
        [addressPolicy "branch" "198.51.100.9" "tun1"] [officeRule] := by
  have hcut : Program.run (host quietHost) (reconcileOnce applying listOrder
      { officeConfig with policies := [] ++ [addressPolicy "office" "203.0.113.7" "tun0"] })
      bareState = (.ok (), officeRound.2) := rfl
  have hcut' : Program.run (host (failingAt 12)) (reconcileOnce applying listOrder
      { branchConfig with policies := [] ++ [addressPolicy "office" "203.0.113.7" "tun0"] })
      bareState = (.ok (), (Program.run (host (failingAt 12)) (reconcileOnce applying listOrder
        { branchConfig with policies := [] ++ [addressPolicy "office" "203.0.113.7" "tun0"] })
        bareState).2) := rfl
  have hips : (addressPolicy "office" "203.0.113.7" "tun0", ([] : List String)) ∈
      resolutions quietHost.cache officeConfig (configuredHealthy bareState.1.links officeConfig)
        officeConfig.enabledPolicies bareState.2 := by decide
  have hips' : (addressPolicy "office" "203.0.113.7" "tun0", ([] : List String)) ∈
      resolutions (failingAt 12).cache branchConfig
        (configuredHealthy bareState.1.links branchConfig) branchConfig.enabledPolicies
        bareState.2 := by decide
  exact ⟨by decide +kernel, policy_rules_agree (by decide) (by decide) rfl rfl rfl
    (by decide) hips hips' hcut hcut'⟩

/-- The route of another egress fails in the second round, and nothing else differs. -/
theorem other_route_failure_drops_rules :
    branchConfig.validate = .ok () ∧
      (Program.run (host quietHost) (reconcileOnce applying listOrder branchConfig) bareState).1 =
        .ok () ∧
      officeRule ∈ policyChain branchConfig (Program.run (host quietHost)
        (reconcileOnce applying listOrder branchConfig) bareState).2.1.kernel ∧
      (Program.run (host (failingAt 7)) (reconcileOnce applying listOrder branchConfig)
        bareState).1 = .error (Executor.commandFailed "ip" (routeArgs (tunnel "tun1" 200 32))) ∧
      policyChain branchConfig (Program.run (host (failingAt 7))
        (reconcileOnce applying listOrder branchConfig) bareState).2.1.kernel = [] := by
  decide +kernel

end Results

end EveNet
