import EveNet.EditedNumbers
import EveNet.PolicyChain
import EveNet.DryRun

/-!
# Rounds after a policy was added

A domain policy that is added to the configuration comes last. So the rounds under the new
configuration are those under the old one, without a policy whose place it takes, followed by
the new policy: the chain only grows by its rules, and what fails without it fails with it in
the same way.
-/

namespace EveNet

/-! ### A round and one with more policies -/

section Extended

variable {cfg : Config} {env : HostEnv} {order : MapOrder} {healthy : List EgressInterface}
  {s u : HostState} {first later : List Policy} {e : Error}

theorem run_rebuild_cut (hsplit : cfg.policies = first ++ later)
    (h : Program.run (host env) (rebuild applying order { cfg with policies := first } healthy) s =
      (.error e, u)) :
    Program.run (host env) (rebuild applying order cfg healthy) s = (.error e, u) := by
  have hall : cfg.enabledPolicies = first.filter (fun policy => policy.enabled) ++
      later.filter (fun policy => policy.enabled) := by
    rw [Config.enabledPolicies, hsplit, List.filter_append]
  rw [rebuild, Program.bind_eq] at h ⊢
  rcases hroutes : Program.run (host env)
    (Program.forEach (ensureEgressRoute applying) (order.walk healthy)).left s with ⟨e' | a, v⟩
  · rw [Program.run_bind_error _ hroutes] at h ⊢
    exact h
  rw [Program.run_bind_ok _ hroutes, Program.bind_eq] at h ⊢
  rcases hflush : Program.run (host env) (flushPolicyChain applying cfg).left v with ⟨e' | b, w⟩
  · rw [Program.run_bind_error _ hflush]
    have hflush' : Program.run (host env)
        (flushPolicyChain applying { cfg with policies := first }).left v = (.error e', w) := hflush
    rw [Program.run_bind_error _ hflush'] at h
    exact h
  have hflush' : Program.run (host env)
      (flushPolicyChain applying { cfg with policies := first }).left v = (.ok b, w) := hflush
  rw [Program.run_bind_ok _ hflush'] at h
  rw [Program.run_bind_ok _ hflush, hall, Program.forEach_append]
  exact Program.run_bind_error _ h

theorem run_reconcileOnce_sick {v : NetState}
    (htable : Program.run (netHost env.net) (ensureTableAndChain applying cfg) s.1 = (.ok (), v))
    (hsick : healthyEgresses v.links cfg = .error e) :
    Program.run (host env) (reconcileOnce applying order cfg) s = (.error e, (v, s.2)) := by
  have hfirst : Program.run (host env) (ensureTableAndChain applying cfg).left s =
      (.ok (), (v, s.2)) := by rw [Program.run_left, htable]
  have hmap : Program.run (host env) (healthyEgressMap applying cfg).left (v, s.2) =
      (.error e, (v, s.2)) := by rw [Program.run_left, run_healthyEgressMap, hsick]
  rw [reconcileOnce, Program.bind_eq, Program.run_bind_ok _ hfirst, Program.bind_eq,
    Program.run_bind_error _ hmap]

/-- A round that fails before the later policies fails with them in the same state. -/
theorem run_reconcileOnce_cut (hsplit : cfg.policies = first ++ later)
    (h : Program.run (host env) (reconcileOnce applying order { cfg with policies := first }) s =
      (.error e, u)) :
    Program.run (host env) (reconcileOnce applying order cfg) s = (.error e, u) := by
  rcases htable : Program.run (netHost env.net) (ensureTableAndChain applying cfg) s.1 with
    ⟨e' | a, v⟩
  · have hfirst : Program.run (host env) (ensureTableAndChain applying cfg).left s =
        (.error e', (v, s.2)) := by rw [Program.run_left, htable]
    rw [reconcileOnce, Program.bind_eq] at h ⊢
    rw [Program.run_bind_error _ hfirst]
    have hfirst' : Program.run (host env)
        (ensureTableAndChain applying { cfg with policies := first }).left s =
          (.error e', (v, s.2)) := hfirst
    rw [Program.run_bind_error _ hfirst'] at h
    exact h
  · have htable' : Program.run (netHost env.net)
        (ensureTableAndChain applying { cfg with policies := first }) s.1 = (.ok (), v) := htable
    cases hhealthy : healthyEgresses v.links cfg with
    | error e' =>
        have hcut : healthyEgresses v.links { cfg with policies := first } = .error e' := by
          rw [healthyEgresses, healthyAt_policies]
          exact hhealthy
        rw [run_reconcileOnce_sick htable' hcut] at h
        rw [run_reconcileOnce_sick htable hhealthy]
        exact h
    | ok healthy =>
        have hcut : healthyEgresses v.links { cfg with policies := first } = .ok healthy := by
          rw [healthyEgresses, healthyAt_policies]
          exact hhealthy
        rw [run_reconcileOnce_start env htable' hcut] at h
        rw [run_reconcileOnce_start env htable hhealthy]
        by_cases hclosed : healthy = [] ∧ cfg.runtime.failClosed = true
        · rw [if_pos hclosed] at h ⊢
          exact h
        · rw [if_neg hclosed] at h ⊢
          exact run_rebuild_cut hsplit h

/-- What the round does once the policies without the last one are in place. -/
theorem run_reconcileOnce_last {policy : Policy} (hsplit : cfg.policies = first ++ [policy])
    (henabled : policy.enabled = true)
    (h : Program.run (host env) (reconcileOnce applying order { cfg with policies := first }) s =
      (.ok (), u)) :
    ∃ healthy, healthyEgresses s.1.links cfg = .ok healthy ∧
      Program.run (host env) (reconcileOnce applying order cfg) s =
        Program.run (host env) (applyPolicy applying cfg healthy policy) u := by
  obtain ⟨healthy, hhealthy, hrun⟩ := run_reconcileOnce_append env hsplit h
  refine ⟨healthy, hhealthy, ?_⟩
  have hlast : [policy].filter (fun policy => policy.enabled) = [policy] :=
    List.filter_cons_of_pos henabled
  rw [hrun, hlast, Program.forEach_cons, Program.run_bind]
  rcases Program.run (host env) (applyPolicy applying cfg healthy policy) u with ⟨e | ⟨⟩, t⟩
  · rfl
  · rfl

end Extended

/-! ### The rounds under the edited configuration -/

section Added

open Python

variable {value value' : Json} {cfg : Config} {domain egress policyId : String}

/-- The policy that the editor adds. -/
def addedPolicy (policyId domain egress : String) : Policy :=
  ⟨policyId, true, { domain := some domain }, ⟨egress⟩⟩

/-- The policies that stay. -/
def keptBeside (policyId : String) (policies : List Policy) : List Policy :=
  policies.filter (fun policy => ¬ policy.id = policyId)

theorem decode_added (hdecode : Config.decode value = some cfg)
    (hadded : DomainAdded domain egress policyId value value') :
    Config.decode value' = some { cfg with
      policies := keptBeside policyId cfg.policies ++ [addedPolicy policyId domain egress] } := by
  obtain ⟨-, hitems⟩ := policyItems_of_decode hadded.isObj hdecode
  have hkept : Decodes Policy.decode (withoutId policyId (policyItems value))
      (keptBeside policyId cfg.policies) := by
    refine decodes_filter hitems fun item hitem policy hread => ?_
    rw [isText_id (hadded.passes item hitem).1 hread]
    simp
  rw [hadded.written]
  exact decode_setPolicies hadded.isObj hdecode
    (decodes_append hkept (.cons (decode_domainPolicyItem policyId domain egress) .nil))

/-- How a round under the new configuration goes on from one without the new policy: it fails
where that one does, and else the chain grows by rules of the new policy, by all of them if it
returns. -/
def GrowsBy (env : HostEnv) (cfg : Config) (kept : List Policy) (policy : Policy)
    (order : MapOrder) (s : HostState) : Prop :=
  let shorter := Program.run (host env) (reconcileOnce applying order { cfg with policies := kept }) s
  let whole := Program.run (host env) (reconcileOnce applying order cfg) s
  let healthy := configuredHealthy s.1.links cfg
  match shorter with
  | (.error e, u) => whole = (.error e, u)
  | (.ok (), u) =>
    whole.2.2 = (resolvePolicy env.cache cfg healthy policy u.2).2 ∧
      ∃ rules, policyChain cfg whole.2.1.kernel = policyChain cfg u.1.kernel ++ rules ∧
        rules <+: rulesFor healthy policy (resolvePolicy env.cache cfg healthy policy u.2).1 ∧
        (whole.1 = .ok () →
          rules = rulesFor healthy policy (resolvePolicy env.cache cfg healthy policy u.2).1)

theorem growsBy (env : HostEnv) {kept : List Policy} {policy : Policy} (order : MapOrder)
    (s : HostState) (hcfg : Accepted cfg) (hsplit : cfg.policies = kept ++ [policy])
    (henabled : policy.enabled = true) : GrowsBy env cfg kept policy order s := by
  unfold GrowsBy
  dsimp only
  rcases hshorter : Program.run (host env)
    (reconcileOnce applying order { cfg with policies := kept }) s with ⟨e | ⟨⟩, u⟩
  · exact run_reconcileOnce_cut hsplit hshorter
  · obtain ⟨healthy, hhealthy, hrun⟩ := run_reconcileOnce_last hsplit henabled hshorter
    have hfixed := fixed_of_healthyEgresses hcfg hhealthy
    have happends : Program.Appends (host env) (hostChain cfg)
        (applyPolicy applying cfg healthy policy) u
        (rulesFor healthy policy (resolvePolicy env.cache cfg healthy policy u.2).1) :=
      appends_applyPolicy env policy u
    dsimp only
    rw [hrun, ← resolvePolicy_congr hfixed, ← rulesFor_congr hfixed]
    refine ⟨cache_applyPolicy env cfg healthy policy u, ?_⟩
    obtain ⟨rules, hrules, hchain⟩ := happends.part _ (Program.run_mem_visited _ _ _)
    refine ⟨rules, hchain, hrules, fun hok => ?_⟩
    have hwhole := happends.whole () _ (Prod.ext hok rfl)
    exact List.append_cancel_left (hchain.symm.trans hwhole)

/-- The policy that the editor adds for its arguments. -/
def addedBy (domainArg egressArg policyIdArg : String) : Policy :=
  addedPolicy (policyIdFor (bareDomain domainArg) (String.ofList (strip egressArg.toList))
    (String.ofList (strip policyIdArg.toList))) (bareDomain domainArg)
    (String.ofList (strip egressArg.toList))

theorem keptBeside_fresh {policies : List Policy} (h : policyId ∉ policies.map (·.id)) :
    keptBeside policyId policies = policies := by
  refine List.filter_eq_self.mpr fun policy hpolicy => decide_eq_true fun hid => h ?_
  exact List.mem_map.mpr ⟨policy, hpolicy, hid⟩

/-- After a policy was added, every round goes on from the one without it, which is the one under
the old configuration unless the policy took another's place. -/
theorem added_policy_extends {domainArg egressArg policyIdArg : String} {numbers : Numbers}
    {write : ConfigWrite} (hdecode : Config.decode value = some cfg)
    (h : (ConfigEdit.addDomainPolicy domainArg egressArg policyIdArg).run numbers write value =
      (.ok (), .json value'))
    (hagain : AcceptedAgain value') :
    ∃ cfg' kept, Config.decode value' = some cfg' ∧
      kept = keptBeside (addedBy domainArg egressArg policyIdArg).id cfg.policies ∧
      cfg' = { cfg with policies := kept ++ [addedBy domainArg egressArg policyIdArg] } ∧
      ((addedBy domainArg egressArg policyIdArg).id ∉ cfg.policies.map (·.id) →
        { cfg' with policies := kept } = cfg) ∧
      ∀ env order s, GrowsBy env cfg' kept (addedBy domainArg egressArg policyIdArg) order s := by
  have hedit := applied_of_run h
  have hwritten := decode_added (decode_loaded hdecode) (domainAdded_of_eq_ok hedit)
  have hvalid := (acceptedAgain_iff hwritten).mp hagain
  refine ⟨_, _, hwritten, rfl, rfl, fun hfresh => ?_, fun env order s =>
    growsBy env order s (accepted_of_validate hvalid) rfl rfl⟩
  rw [keptBeside_fresh hfresh]

end Added

/-- The small host, with one address for every name. -/
def namedHost : HostEnv :=
  { quietHost with
    cache := { quietHost.cache with lookups := fun _ _ => .ok [.v4 192 0 2 1 0] } }

def newsPolicy : Policy :=
  domainPolicy "domain-news-example-through-tun0" "news.example" "tun0"

def newsConfig : Config :=
  configOf [tunnel "tun0" 100 100] [domainPolicy "office" "office.example" "tun0", newsPolicy]

theorem added_policy_extends_tunnel : ∃ value',
    (ConfigEdit.addDomainPolicy "News.example." "tun0" "").run plainNumbers .done tunnelJson =
        (.ok (), .json value') ∧
      Config.decode value' = some newsConfig ∧
      GrowsBy namedHost newsConfig [domainPolicy "office" "office.example" "tun0"] newsPolicy
        listOrder bareState := by
  have hdecode : Config.decode tunnelJson = some (configOf [tunnel "tun0" 100 100]
      [domainPolicy "office" "office.example" "tun0"]) := by decide
  have hpolicy : addedBy "News.example." "tun0" "" = newsPolicy := by decide
  obtain ⟨value', hrun, hagain⟩ : ∃ value', (ConfigEdit.addDomainPolicy "News.example." "tun0"
      "").run plainNumbers .done tunnelJson = (.ok (), .json value') ∧ AcceptedAgain value' :=
    ⟨_, rfl, newsConfig, by decide, by decide⟩
  obtain ⟨cfg', kept, hwritten, hkept, hcfg, -, hgrows⟩ :=
    added_policy_extends hdecode hrun hagain
  have hkept' : kept = [domainPolicy "office" "office.example" "tun0"] := by
    rw [hkept, hpolicy]
    decide
  have hsame : cfg' = newsConfig := by
    rw [hcfg, hkept', hpolicy]
    rfl
  rw [hsame, hkept', hpolicy] at hgrows
  rw [hsame] at hwritten
  exact ⟨value', hrun, hwritten, hgrows namedHost listOrder bareState⟩

end EveNet
