import EveNet.FwmarkRules

/-!
# What a round can do to the kernel

A round changes the kernel by five commands only, each for an object of the configuration. A
property of the kernel that none of them breaks holds at every point of every round, wherever
the round fails or is cut off.
-/

namespace EveNet

/-- The egress is one of the configuration, up to its runtime state. -/
def OfConfig (cfg : Config) (egress : EgressInterface) : Prop :=
  ∃ e ∈ cfg.egressInterfaces, e.fixed = egress.fixed

/-- No command of a round breaks the property. -/
structure RoundKeeps (cfg : Config) (Q : Kernel → Prop) : Prop where
  addTable : ∀ k, Q k → Q (k.addTable cfg.nft.table)
  setChain : ∀ k rules, Q k →
    k.nftTables cfg.nft.table = true ∨ (k.nftChains (chainKey cfg)).isSome = true →
    Q (k.setChain cfg.nft.table cfg.nft.outputChain rules)
  replaceDefault : ∀ k egress, Q k → OfConfig cfg egress →
    Q (k.replaceDefault egress.table (defaultRoute egress))
  addIpRule : ∀ k egress, Q k → OfConfig cfg egress → fwmarkRule egress ∉ k.ipRules →
    Q (k.addIpRule (fwmarkRule egress))

section Keeping

variable (env : NetEnv) {cfg : Config} {Q : Kernel → Prop}

/-- The property of the host's kernel. -/
abbrev kernelHas (Q : Kernel → Prop) (s : NetState) : Prop := Q s.kernel

theorem keeps_run {program : String} {args : List String} (hp : program ≠ "ping")
    (hk : ∀ k k', Q k → Kernel.command k program args = some k' → Q k') :
    Program.Keeps (netHost env) (kernelHas Q) (applying.run program args) := by
  intro s hs x hx
  rcases Executor.mem_visited_run env hx with rfl | rfl
  · exact hs
  · rcases Executor.run_cases env hp args s with ⟨e, he⟩ | ⟨k, hcmd, hok⟩
    · rw [he]
      exact hs
    · rw [hok]
      exact hk _ k hs hcmd

theorem keeps_capture (program : String) (args : List String) :
    Program.Keeps (netHost env) (kernelHas Q) (Executor.capture program args) := by
  refine Program.Keeps.of_calls (netHost env) (P := fun c => ∃ p a, c = .output p a) ?_ ?_
  · rintro c ⟨p, a, rfl⟩ s hs
    rw [netHost_output]
    exact hs
  · refine .call ⟨program, args, rfl⟩ (fun out => ?_)
    cases out with
    | notSpawned cause => exact .fail _
    | failed => exact .fail _
    | stdout text => exact .pure _

theorem keeps_ensureListed {listArgs addArgs : List String}
    (hk : ∀ k k', Q k → Kernel.command k "nft" addArgs = some k' → Q k') :
    Program.Keeps (netHost env) (kernelHas Q) (ensureListed applying listArgs addArgs) := by
  refine Program.Keeps.bind _ (Program.Keeps.attempt _ (keeps_capture env _ _)) (fun listed _ => ?_)
  cases listed with
  | ok text => exact Program.Keeps.pure _ _
  | error e => exact keeps_run env (by decide) hk

theorem keeps_ensureTableAndChain (hQ : RoundKeeps cfg Q) :
    Program.Keeps (netHost env) (kernelHas Q) (ensureTableAndChain applying cfg) := by
  refine Program.Keeps.bind _ (keeps_ensureListed env ?_) (fun _ _ => keeps_ensureListed env ?_)
  · intro k k' hk hcmd
    rw [command_addTable, Option.some.injEq] at hcmd
    exact hcmd ▸ hQ.addTable k hk
  · intro k k' hk hcmd
    rw [command_addChain] at hcmd
    split_ifs at hcmd with htable hchain
    · exact Option.some.inj hcmd ▸ hk
    · exact Option.some.inj hcmd ▸ hQ.setChain k [] hk (Or.inl htable)

theorem keeps_ensureEgressRoute (hQ : RoundKeeps cfg Q) {egress : EgressInterface}
    (hconfig : OfConfig cfg egress) :
    Program.Keeps (netHost env) (kernelHas Q) (ensureEgressRoute applying egress) := by
  refine Program.Keeps.bind _ (keeps_run env (by decide) ?_) (fun _ _ => ?_)
  · intro k k' hk hcmd
    rw [command_route, Option.some.injEq] at hcmd
    exact hcmd ▸ hQ.replaceDefault k egress hk hconfig
  · refine Program.Keeps.bind _ (keeps_capture env _ _) (fun rules _ => ?_)
    by_cases hlisted : fwmarkRuleListed rules egress = true
    · rw [if_pos hlisted]
      exact Program.Keeps.pure _ _
    · rw [if_neg hlisted]
      refine keeps_run env (by decide) (fun k k' hk hcmd => ?_)
      rw [command_fwmarkRule] at hcmd
      split_ifs at hcmd with hfresh
      exact Option.some.inj hcmd ▸ hQ.addIpRule k egress hk hconfig hfresh

theorem keeps_flush (hQ : RoundKeeps cfg Q) :
    Program.Keeps (netHost env) (kernelHas Q) (flushPolicyChain applying cfg) := by
  refine keeps_run env (by decide) (fun k k' hk hcmd => ?_)
  rw [command_flush] at hcmd
  obtain ⟨rules, hrules, rfl⟩ := Option.map_eq_some_iff.mp hcmd
  exact hQ.setChain k [] hk (Or.inr (by rw [hrules]; rfl))

theorem keeps_addPolicyRuleWithMatch (hQ : RoundKeeps cfg Q) (egress : EgressInterface)
    (spec : MatchSpec) : Program.Keeps (netHost env) (kernelHas Q)
      (addPolicyRuleWithMatch applying cfg egress spec) := by
  unfold addPolicyRuleWithMatch
  rcases appendMatch_eq egress spec ["add", "rule", "inet", cfg.nft.table, cfg.nft.outputChain]
    with ⟨e, he⟩ | ⟨args, hargs, hrule⟩
  · rw [he]
    exact Program.Keeps.fail _ _
  · rw [hargs]
    change Program.Keeps _ _ (applying.run "nft" _)
    rw [hrule]
    refine keeps_run env (by decide) (fun k k' hk hcmd => ?_)
    rw [command_addRule] at hcmd
    obtain ⟨rules, hrules, rfl⟩ := Option.map_eq_some_iff.mp hcmd
    exact hQ.setChain k _ hk (Or.inr (by rw [hrules]; rfl))

end Keeping

section Round

variable (env : HostEnv) {cfg : Config} {Q : Kernel → Prop} {healthy : List EgressInterface}

theorem keeps_applyPolicy (hQ : RoundKeeps cfg Q) (policy : Policy) :
    Program.Keeps (host env) (fun x => kernelHas Q x.1)
      (applyPolicy applying cfg healthy policy) := by
  unfold applyPolicy
  cases KeyedList.lookup (·.name) policy.action.egress healthy with
  | none => exact Program.Keeps.pure _ _
  | some egress =>
      cases hdomain : policy.matchSpec.domain with
      | none =>
          dsimp only
          rw [addPolicyRule_eq hdomain]
          exact Program.Keeps.left _ _ (keeps_addPolicyRuleWithMatch env.net hQ egress _)
      | some domain =>
          refine Program.Keeps.bind _ (Program.Keeps.right _ _ _) (fun outcome _ => ?_)
          refine Program.Keeps.left _ _ ?_
          cases outcome with
          | error e => exact Program.Keeps.pure _ _
          | ok resolution =>
              exact Program.Keeps.forEach _
                (fun ip _ => keeps_addPolicyRuleWithMatch env.net hQ egress _)

theorem keeps_rebuild (hQ : RoundKeeps cfg Q) (order : MapOrder)
    (hhealthy : ∀ egress ∈ healthy, OfConfig cfg egress) :
    Program.Keeps (host env) (fun x => kernelHas Q x.1)
      (rebuild applying order cfg healthy) := by
  refine Program.Keeps.bind _ (Program.Keeps.left _ _ (Program.Keeps.forEach _ ?_)) (fun _ _ => ?_)
  · intro egress he
    exact keeps_ensureEgressRoute env.net hQ
      (hhealthy egress ((order.perm healthy).mem_iff.mp he))
  · exact Program.Keeps.bind _ (Program.Keeps.left _ _ (keeps_flush env.net hQ))
      (fun _ _ => Program.Keeps.forEach _ (fun policy _ => keeps_applyPolicy env hQ policy))

theorem ofConfig_of_healthyEgresses (hcfg : Accepted cfg) {links : String → LinkState}
    (h : healthyEgresses links cfg = .ok healthy) : ∀ egress ∈ healthy, OfConfig cfg egress := by
  intro egress he
  have hmem : egress.fixed ∈ (configuredHealthy links cfg).map (·.fixed) := by
    rw [← fixed_of_healthyEgresses hcfg h]
    exact List.mem_map_of_mem he
  obtain ⟨e, hconfigured, hsame⟩ := List.mem_map.mp hmem
  exact ⟨e, List.mem_of_mem_filter hconfigured, hsame⟩

/-- A property that no command of a round breaks holds at every point of the round. -/
theorem keeps_reconcileOnce (hQ : RoundKeeps cfg Q) (hcfg : Accepted cfg) (order : MapOrder) :
    Program.Keeps (host env) (fun x => kernelHas Q x.1) (reconcileOnce applying order cfg) := by
  refine Program.Keeps.bind _ (Program.Keeps.left _ _ (keeps_ensureTableAndChain env.net hQ))
    (fun _ _ => Program.Keeps.bind _ (Program.Keeps.left _ _ ?_) ?_)
  · intro s hs x hx
    rw [visited_healthyEgressMap env.net cfg s x hx]
    exact hs
  · rintro healthy ⟨s, t, -, hmap⟩
    rw [Program.run_left, run_healthyEgressMap, Prod.mk.injEq] at hmap
    by_cases hclosed : healthy = [] ∧ cfg.runtime.failClosed = true
    · rw [if_pos hclosed]
      exact Program.Keeps.left _ _ (keeps_flush env.net hQ)
    · rw [if_neg hclosed]
      exact keeps_rebuild env hQ order (ofConfig_of_healthyEgresses hcfg hmap.1)

end Round

/-! ### Commands that work -/

section Working

variable (env : NetEnv) {cfg : Config} {s : NetState} {k k' : Kernel}

/-- No command fails but those that the tools refuse. -/
def AllWork (env : NetEnv) : Prop := ∀ k, env.fate k = .works

/-- The program returns, and the kernel is then `k`. -/
def LeavesKernel (env : NetEnv) (p : NetProgram Unit) (s : NetState) (k : Kernel) : Prop :=
  ∃ t, Program.run (netHost env) p s = (.ok (), t) ∧ t.kernel = k

theorem LeavesKernel.bind {p q : NetProgram Unit} {s : NetState} {k k' : Kernel}
    (hp : LeavesKernel env p s k)
    (hq : ∀ t : NetState, t.kernel = k → LeavesKernel env q t k') :
    LeavesKernel env (p.bind (fun _ => q)) s k' := by
  obtain ⟨t, ht, hk⟩ := hp
  obtain ⟨u, hu, hk'⟩ := hq t hk
  exact ⟨u, by rw [Program.run_bind_ok _ ht, hu], hk'⟩

theorem leavesKernel_forEach {α : Type} {f : α → NetProgram Unit} {as : List α}
    (hf : ∀ a ∈ as, ∀ t : NetState, t.kernel = k → LeavesKernel env (f a) t k)
    (hs : s.kernel = k) : LeavesKernel env (Program.forEach f as) s k := by
  induction as generalizing s with
  | nil => exact ⟨s, rfl, hs⟩
  | cons a as ih =>
      rw [Program.forEach_cons]
      exact LeavesKernel.bind env (hf a List.mem_cons_self s hs)
        (fun t ht => ih (fun b hb => hf b (List.mem_cons_of_mem _ hb)) ht)

theorem leavesKernel_run (hworks : AllWork env) {program : String} {args : List String}
    (hp : program ≠ "ping") (hcmd : s.kernel.command program args = some k) :
    LeavesKernel env (applying.run program args) s k := by
  unfold Executor.run
  rw [if_neg (by simp), LeavesKernel, Program.run_call]
  simp only [netHost, if_neg hp, spawnCommand, hworks s.commands, hcmd]
  exact ⟨_, rfl, rfl⟩

theorem run_capture_works (hworks : AllWork env) {program : String} {args : List String}
    {text : String} (hlist : s.kernel.listing env.tableName program args = some text) :
    Program.run (netHost env) (Executor.capture program args) s = (.ok text, s.tick) := by
  unfold Executor.capture
  rw [Program.run_call]
  simp only [netHost, listCommand, hworks s.commands, hlist]
  rfl

end Working

end EveNet
