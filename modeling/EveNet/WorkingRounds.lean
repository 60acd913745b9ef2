import EveNet.RepeatedRounds

/-!
# Rounds on a host that works

Where every command that the tools accept is carried out, a round can still fail on two things:
on a direct egress whose runtime state cannot be used, and on an ip rule that exists already and
is not found in the listing. A round that meets neither returns from every state that earlier
rounds can have left, so that a service recovers with its first round after the commands work
again.
-/

namespace EveNet

section Commands

variable (env : NetEnv) {cfg : Config} {s : NetState}

def Returns (env : NetEnv) (p : NetProgram Unit) (s : NetState) : Prop :=
  ∃ t, Program.run (netHost env) p s = (.ok (), t)

theorem returns_bind_iff {p : NetProgram Unit} {q : Unit → NetProgram Unit} :
    Returns env (p.bind q) s ↔
      ∃ t, Program.run (netHost env) p s = (.ok (), t) ∧ Returns env (q ()) t := by
  constructor
  · rintro ⟨u, hu⟩
    obtain ⟨_, t, ht, hrest⟩ := Program.run_bind_eq_ok _ hu
    exact ⟨t, ht, u, hrest⟩
  · rintro ⟨t, ht, u, hu⟩
    exact ⟨u, (Program.run_bind_ok _ ht).trans hu⟩

theorem returns_run_iff (hworks : AllWork env) {program : String} {args : List String}
    (hp : program ≠ "ping") :
    Returns env (applying.run program args) s ↔ (s.kernel.command program args).isSome := by
  constructor
  · rintro ⟨t, ht⟩
    obtain ⟨k, hcmd, -⟩ := Executor.run_eq_ok env hp ht
    rw [hcmd, Option.isSome_some]
  · intro hsome
    obtain ⟨k, hcmd⟩ := Option.isSome_iff_exists.mp hsome
    obtain ⟨t, ht, -⟩ := leavesKernel_run env hworks hp hcmd
    exact ⟨t, ht⟩

theorem returns_ensureListed (hworks : AllWork env) (listArgs : List String)
    {addArgs : List String} (hadd : (s.kernel.command "nft" addArgs).isSome) :
    Returns env (ensureListed applying listArgs addArgs) s := by
  obtain ⟨listed, hlisted⟩ : ∃ listed, Program.run (netHost env)
      (Program.attempt (Executor.capture "nft" listArgs) : NetProgram (Except Error String)) s =
        (.ok listed, s.tick) :=
    ⟨_, by rw [Program.run_attempt, Executor.run_capture]⟩
  rw [ensureListed, Program.bind_eq, Returns, Program.run_bind_ok _ hlisted]
  cases listed with
  | ok text => exact ⟨s.tick, rfl⟩
  | error e => exact (returns_run_iff env hworks (by decide)).mpr hadd

theorem returns_ensureTableAndChain (hworks : AllWork env) :
    Returns env (ensureTableAndChain applying cfg) s := by
  have hadd : (s.kernel.command "nft" (addTableArgs cfg)).isSome := by
    rw [command_addTable]
    rfl
  obtain ⟨t, ht⟩ := returns_ensureListed env hworks ["list", "table", "inet", cfg.nft.table] hadd
  refine (returns_bind_iff env).mpr ⟨t, ht, returns_ensureListed env hworks _ ?_⟩
  rw [command_addChain, if_pos (table_of_ensureListed ⟨env, quietHost.cache⟩ ht)]
  rfl

/-! ### Rules and routes -/

/-- The rule can be added or is found. -/
def Addable (rules : List IpRule) (egress : EgressInterface) : Prop :=
  fwmarkRule egress ∈ rules → ∃ rule ∈ rules, Covers rule (fwmarkRule egress)

theorem returns_ensureFwmarkRule_iff (hworks : AllWork env)
    (hfinds : Finds env.tableName Covers) (egress : EgressInterface) :
    Returns env (ensureFwmarkRule applying egress) s ↔ Addable s.kernel.ipRules egress := by
  have hshow := run_capture_works env hworks (listing_ruleShow env.tableName s.kernel)
  rw [ensureFwmarkRule, if_neg (by simp), Program.bind_eq, Returns, Program.run_bind_ok _ hshow]
  by_cases hfound : ∃ rule ∈ s.kernel.ipRules, Covers rule (fwmarkRule egress)
  · rw [if_pos ((hfinds egress _).mpr hfound)]
    exact iff_of_true ⟨s.tick, rfl⟩ fun _ => hfound
  · rw [if_neg ((hfinds egress _).not.mpr hfound)]
    refine (returns_run_iff env hworks (by decide)).trans ?_
    rw [command_fwmarkRule]
    change Option.isSome (if fwmarkRule egress ∈ s.kernel.ipRules then _ else _) = true ↔ _
    by_cases hmem : fwmarkRule egress ∈ s.kernel.ipRules
    · rw [if_pos hmem]
      exact iff_of_false (by simp) fun h => hfound (h hmem)
    · rw [if_neg hmem]
      exact iff_of_true rfl fun h => absurd h hmem

theorem returns_ensureEgressRoute_iff (hworks : AllWork env)
    (hfinds : Finds env.tableName Covers) (egress : EgressInterface) :
    Returns env (ensureEgressRoute applying egress) s ↔ Addable s.kernel.ipRules egress := by
  obtain ⟨t, ht, hk⟩ := leavesKernel_run env (s := s) hworks (by decide)
    (command_route s.kernel egress)
  have hrules : t.kernel.ipRules = s.kernel.ipRules := by
    rw [hk]
    rfl
  rw [ensureEgressRoute, Program.bind_eq, returns_bind_iff]
  constructor
  · rintro ⟨u, hu, hreturns⟩
    obtain rfl : t = u := (Prod.mk.inj (ht.symm.trans hu)).2
    rw [returns_ensureFwmarkRule_iff env hworks hfinds, hrules] at hreturns
    exact hreturns
  · intro haddable
    refine ⟨t, ht, (returns_ensureFwmarkRule_iff env hworks hfinds egress).mpr ?_⟩
    rw [hrules]
    exact haddable

/-- The rules of these egresses can be added one after the other. -/
def AddableInTurn (rules : List IpRule) : List EgressInterface → Prop
  | [] => True
  | egress :: egresses => Addable rules egress ∧
      AddableInTurn (CoveredList.grow Covers rules (fwmarkRule egress)) egresses

theorem returns_ensureEgressRoutes_iff (hworks : AllWork env)
    (hfinds : Finds env.tableName Covers) (egresses : List EgressInterface) :
    Returns env (Program.forEach (ensureEgressRoute applying) egresses) s ↔
      AddableInTurn s.kernel.ipRules egresses := by
  induction egresses generalizing s with
  | nil => exact iff_of_true ⟨s, rfl⟩ trivial
  | cons egress egresses ih =>
      rw [Program.forEach_cons, returns_bind_iff, AddableInTurn,
        ← returns_ensureEgressRoute_iff env hworks hfinds egress]
      constructor
      · rintro ⟨t, ht, hrest⟩
        rw [ih, (Prod.mk.inj (run_ensureEgressRoute env hfinds ht)).1] at hrest
        exact ⟨⟨t, ht⟩, hrest⟩
      · rintro ⟨⟨t, ht⟩, hrest⟩
        refine ⟨t, ht, ih.mpr ?_⟩
        rw [(Prod.mk.inj (run_ensureEgressRoute env hfinds ht)).1]
        exact hrest

/-- Only the rule of a table that is printed by name can stand in the way, and only where no
other rule is found for it. -/
theorem addableInTurn_iff {rules : List IpRule} {egresses : List EgressInterface}
    (hmarks : (egresses.map (·.fwmark)).Nodup) :
    AddableInTurn rules egresses ↔ ∀ before egress after, egresses = before ++ egress :: after →
      Reserved egress.table → fwmarkRule egress ∈ rules →
        ∃ rule ∈ rules ++ before.map fwmarkRule, Covers rule (fwmarkRule egress) := by
  induction egresses generalizing rules with
  | nil => exact iff_of_true trivial fun before egress after h => by simp at h
  | cons first egresses ih =>
      obtain ⟨hfresh, hrest⟩ := List.nodup_cons.mp hmarks
      -- the rule of the first egress is listed for the later ones, whether it is added or left out
      have hcovered : ∀ before c,
          (∃ rule ∈ CoveredList.grow Covers rules (fwmarkRule first) ++ before, Covers rule c) ↔
            ∃ rule ∈ rules ++ fwmarkRule first :: before, Covers rule c := by
        intro before c
        simp only [List.mem_append, List.mem_cons, or_and_right, exists_or, exists_eq_left,
          CoveredList.covered_grow_iff, or_assoc]
      rw [AddableInTurn, ih hrest]
      constructor
      · rintro ⟨hfirst, hlater⟩ before egress after hsplit hreserved hmem
        cases before with
        | nil =>
            obtain ⟨rfl, -⟩ := List.cons.inj hsplit
            rw [List.map_nil, List.append_nil]
            exact hfirst hmem
        | cons e before =>
            obtain ⟨rfl, htail⟩ := List.cons.inj hsplit
            rw [List.map_cons, ← hcovered]
            exact hlater before egress after htail hreserved
              (CoveredList.mem_grow_of_mem Covers hmem)
      · intro hall
        refine ⟨fun hmem => ?_, fun before egress after hsplit hreserved hmem => ?_⟩
        · by_cases hreserved : Reserved first.table
          · simpa using hall [] first egresses rfl hreserved hmem
          · exact ⟨fwmarkRule first, hmem, hreserved, shadows_self first⟩
        · have hold : fwmarkRule egress ∈ rules := by
            refine (CoveredList.mem_or_eq_of_mem_grow Covers hmem).resolve_right fun heq => hfresh ?_
            have hmark : egress.fwmark = first.fwmark :=
              Option.some.inj (congrArg IpRule.fwmark heq)
            exact List.mem_map.mpr ⟨egress, by simp [hsplit], hmark⟩
          rw [hcovered]
          exact hall (first :: before) egress after (by rw [hsplit]; rfl) hreserved hold

/-! ### The chain -/

theorem withChain_self {k : Kernel} (h : HasChain cfg k) :
    ∃ rules, k = withChain cfg k rules := by
  obtain ⟨rules, hrules⟩ := Option.isSome_iff_exists.mp h.2
  exact ⟨rules, (setChain_self hrules).symm⟩

theorem returns_flush (hworks : AllWork env) (h : HasChain cfg s.kernel) :
    ∃ t, Program.run (netHost env) (flushPolicyChain applying cfg) s = (.ok (), t) ∧
      ∃ k, t.kernel = withChain cfg k [] := by
  obtain ⟨rules, hrules⟩ := withChain_self h
  obtain ⟨t, ht, hk⟩ := leavesKernel_flush env hworks hrules
  exact ⟨t, ht, _, hk⟩

end Commands

section Round

variable {env : HostEnv} {cfg : Config} {order : MapOrder} {s : HostState}
  {healthy : List EgressInterface}

theorem routing_ensureTableAndChain {u : NetState}
    (h : Program.run (netHost env.net) (ensureTableAndChain applying cfg) s.1 = (.ok (), u)) :
    routing u = routing s.1 := by
  have hframe := Program.run_frame (netHost env.net) routing
    (fun c hc x => routing_of_nftOnly env.net hc x) (calls_ensureTableAndChain cfg) s.1
  rwa [h] at hframe

/-- With its chain in place and its rules addable, the second part of a round returns. -/
theorem returns_rebuild (hcfg : Accepted cfg) (hworks : AllWork env.net)
    (hfinds : Finds env.net.tableName Covers) (hchain : HasChain cfg s.1.kernel)
    (hhealthy : ∀ egress ∈ healthy, OfConfig cfg egress)
    (haddable : AddableInTurn s.1.kernel.ipRules (order.walk healthy)) :
    ∃ t, Program.run (host env) (rebuild applying order cfg healthy) s = (.ok (), t) := by
  obtain ⟨u, hu⟩ := (returns_ensureEgressRoutes_iff env.net hworks hfinds _).mpr haddable
  have hchain' : HasChain cfg u.kernel := by
    have hkeeps : Program.Keeps (netHost env.net) (kernelHas (HasChain cfg))
        (Program.forEach (ensureEgressRoute applying) (order.walk healthy)) :=
      Program.Keeps.forEach _ fun egress he => keeps_ensureEgressRoute env.net
        (roundKeeps_hasChain cfg) (hhealthy egress ((order.perm healthy).mem_iff.mp he))
    have hend := hkeeps.run (netHost env.net) hchain
    rwa [hu] at hend
  obtain ⟨v, hv, k, hk⟩ := returns_flush env.net hworks hchain'
  have hmatch : ∀ policy ∈ cfg.enabledPolicies, policy.matchSpec.hasAnyMatch = true :=
    fun policy hp => hcfg.hasMatch policy (List.mem_of_mem_filter hp)
  obtain ⟨t, ht, -⟩ := hostLeaves_policies env healthy hworks (s := (v, s.2)) hmatch hk
  have hfirst : Program.run (host env) (Program.forEach (ensureEgressRoute applying)
      (order.walk healthy)).left s = (.ok (), (u, s.2)) := by
    rw [Program.run_left, hu]
  have hsecond : Program.run (host env) (flushPolicyChain applying cfg).left (u, s.2) =
      (.ok (), (v, s.2)) := by
    rw [Program.run_left, hv]
  rw [rebuild, Program.bind_eq, Program.run_bind_ok _ hfirst, Program.bind_eq,
    Program.run_bind_ok _ hsecond]
  exact ⟨t, ht⟩

/-- On commands that work a round returns exactly when the healthy egresses can be read off the
links and the rule of none of them stands in its own way: it is that of a table printed by name,
it is in the kernel already, and neither the rules there nor those of the egresses before it are
found for it. -/
theorem round_returns_iff (hcfg : cfg.validate = .ok ()) (hworks : AllWork env.net)
    (hnames : env.net.tableName = printedName) :
    (∃ t, Program.run (host env) (reconcileOnce applying order cfg) s = (.ok (), t)) ↔
      ∃ healthy, healthyEgresses s.1.links cfg = .ok healthy ∧ ∀ before egress after,
        order.walk healthy = before ++ egress :: after → Reserved egress.table →
        fwmarkRule egress ∈ s.1.kernel.ipRules →
          ∃ rule ∈ s.1.kernel.ipRules ++ before.map fwmarkRule, Covers rule (fwmarkRule egress) := by
  have hacc := accepted_of_validate hcfg
  have hfinds : Finds env.net.tableName Covers := hnames ▸ finds_covers
  constructor
  · rintro ⟨t, hrun⟩
    obtain ⟨healthy, u, hhealthy, hlinks, htable, hrest⟩ := run_reconcileOnce_ok env hrun
    refine ⟨healthy, hhealthy, ?_⟩
    rw [← addableInTurn_iff (nodup_walk (fun _ => rfl) hacc.marks hacc hhealthy)]
    by_cases hclosed : healthy = [] ∧ cfg.runtime.failClosed = true
    · have hwalk : order.walk healthy = [] := by
        rw [hclosed.1]
        exact List.perm_nil.mp (order.perm [])
      rw [hwalk]
      trivial
    · rw [if_neg hclosed] at hrest
      obtain ⟨_, v, hroutes, -⟩ := Program.run_bind_eq_ok _ hrest
      rw [Program.run_left, Prod.mk.injEq] at hroutes
      have haddable := (returns_ensureEgressRoutes_iff env.net hworks hfinds _).mp
        ⟨_, Prod.ext hroutes.1 rfl⟩
      rwa [show u.kernel.ipRules = s.1.kernel.ipRules from
        congrArg Prod.fst (routing_ensureTableAndChain htable)] at haddable
  · rintro ⟨healthy, hhealthy, haddable⟩
    rw [← addableInTurn_iff (nodup_walk (fun _ => rfl) hacc.marks hacc hhealthy)] at haddable
    obtain ⟨u, htable⟩ : Returns env.net (ensureTableAndChain applying cfg) s.1 :=
      returns_ensureTableAndChain env.net hworks
    have hlinks := links_ensureTableAndChain env cfg s.1
    rw [htable] at hlinks
    have hsame : healthyEgresses u.links cfg = .ok healthy := by
      rw [show u.links = s.1.links from hlinks, hhealthy]
    have hchain := hasChain_of_ensureTableAndChain env htable
    rw [run_reconcileOnce_start env htable hsame]
    by_cases hclosed : healthy = [] ∧ cfg.runtime.failClosed = true
    · rw [if_pos hclosed, Program.run_left]
      obtain ⟨t, ht, -⟩ := returns_flush env.net hworks hchain
      exact ⟨_, by rw [ht]⟩
    · rw [if_neg hclosed]
      refine returns_rebuild hacc hworks hfinds (s := (u, s.2)) hchain
        (ofConfig_of_healthyEgresses hacc hhealthy) ?_
      rwa [show u.kernel.ipRules = s.1.kernel.ipRules from
        congrArg Prod.fst (routing_ensureTableAndChain htable)]

/-- With the main table the first round returns and the second one does not. -/
theorem round_returns_iff_main :
    (∃ t, Program.run (host namingHost) (reconcileOnce applying listOrder mainTableConfig)
      bareState = (.ok (), t)) ∧
    ¬ ∃ t, Program.run (host namingHost) (reconcileOnce applying listOrder mainTableConfig)
      (namedRound mainTableConfig).2 = (.ok (), t) := by
  have hworks : AllWork namingHost.net := fun _ => rfl
  have hhealthy : healthyEgresses bareState.1.links mainTableConfig =
      .ok [tunnel "tun0" 254 16] := rfl
  constructor
  · refine (round_returns_iff (by decide) hworks rfl).mpr ⟨_, hhealthy, ?_⟩
    intro before egress after _ _ hmem
    cases hmem
  · intro hreturns
    obtain ⟨healthy, hhealthy', hfree⟩ := (round_returns_iff (by decide) hworks rfl).mp hreturns
    have hlinks : (namedRound mainTableConfig).2.1.links = bareState.1.links := rfl
    rw [hlinks, hhealthy] at hhealthy'
    obtain rfl := Except.ok.inj hhealthy'
    have hnone : ¬ ∃ rule ∈ (namedRound mainTableConfig).2.1.kernel.ipRules ++ [],
        Covers rule (fwmarkRule (tunnel "tun0" 254 16)) := by decide +kernel
    exact hnone (hfree [] _ [] rfl (by decide) (by decide +kernel))

end Round

end EveNet
