import EveNet.RoundEffects

/-!
# Cleaning up after rounds

Cleanup recomputes from the configuration what rounds may have left behind: the nft table, the
rules of the egresses and the routes of their tables. After rounds that started from a kernel
without any of these, it brings back exactly that kernel.
-/

namespace EveNet

/-! ### The commands -/

def deleteTableArgs (cfg : Config) : List String := ["delete", "table", "inet", cfg.nft.table]

def deleteNftTable (cfg : Config) (exec : Executor) : NetProgram Unit := do
  let listed ← Program.attempt (Executor.capture "nft" ["list", "table", "inet", cfg.nft.table])
  if listed.isOk ∨ ¬ exec.apply then do
    let _ ← exec.runAllowFail "nft" (deleteTableArgs cfg)
  else pure ()

def fwmarkRuleDelArgs (egress : EgressInterface) : List String :=
  ["rule", "del", "fwmark", toString egress.fwmark, "table", toString egress.table,
    "priority", toString egress.rulePriority]

def deleteFwmarkRule (exec : Executor) (rules : String) (egress : EgressInterface) :
    NetProgram Unit :=
  if fwmarkRuleListed rules egress ∨ ¬ exec.apply then do
    let _ ← exec.runAllowFail "ip" (fwmarkRuleDelArgs egress)
  else pure ()

def deleteFwmarkRules (cfg : Config) (exec : Executor) : NetProgram Unit := do
  let rules ← Executor.captureOrEmpty "ip" ["rule", "show"]
  Program.forEach (deleteFwmarkRule exec rules) cfg.egressInterfaces

/-- Some line of the listing is not blank. -/
def hasRoutes (routeTable : String) : Bool :=
  (lines routeTable.toList).any (fun line => ¬ (trim line).isEmpty)

def flushRouteTable (exec : Executor) (egress : EgressInterface) : NetProgram Unit := do
  let routeTable ← Executor.captureOrEmpty "ip" ["route", "show", "table", toString egress.table]
  if hasRoutes routeTable ∨ ¬ exec.apply then do
    let _ ← exec.runAllowFail "ip" ["route", "flush", "table", toString egress.table]
  else pure ()

def flushExistingRouteTables (cfg : Config) (exec : Executor) : NetProgram Unit :=
  Program.forEach (flushRouteTable exec) cfg.egressInterfaces

def cleanup (cfg : Config) (apply : Bool) : NetProgram Unit := do
  deleteNftTable cfg ⟨apply⟩
  deleteFwmarkRules cfg ⟨apply⟩
  flushExistingRouteTables cfg ⟨apply⟩

/-! ### What cleanup does to the kernel -/

section Effects

variable (env : NetEnv) {cfg : Config}

theorem run_captureOrEmpty (hworks : AllWork env) (program : String) (args : List String)
    (s : NetState) : Program.run (netHost env) (Executor.captureOrEmpty program args) s =
      (.ok ((s.kernel.listing env.tableName program args).getD ""), s.tick) := by
  unfold Executor.captureOrEmpty Executor.capture
  rw [Program.attempt, Program.bind_eq, Program.bind_call, Program.run_call]
  simp only [netHost, listCommand, hworks s.commands]
  cases s.kernel.listing env.tableName program args with
  | none => rfl
  | some text => rfl

theorem leavesKernel_allowFail (hworks : AllWork env) {program : String} (args : List String)
    (hp : program ≠ "ping") (s : NetState) :
    LeavesKernel env ((applying.runAllowFail program args).bind (fun _ => .pure ())) s
      ((s.kernel.command program args).getD s.kernel) := by
  unfold Executor.runAllowFail
  rw [if_neg (by simp), Program.bind_call, LeavesKernel, Program.run_call]
  simp only [netHost, if_neg hp, spawnCommand, hworks s.commands]
  cases s.kernel.command program args with
  | none => exact ⟨_, rfl, rfl⟩
  | some k => exact ⟨_, rfl, rfl⟩

theorem leavesKernel_deleteNftTable (hworks : AllWork env) (s : NetState) :
    LeavesKernel env (deleteNftTable cfg applying) s
      (if s.kernel.nftTables cfg.nft.table then s.kernel.deleteTable cfg.nft.table
        else s.kernel) := by
  unfold deleteNftTable Executor.capture
  rw [Program.attempt, Program.bind_eq, Program.bind_call, LeavesKernel, Program.run_call]
  have hlist : s.kernel.listing env.tableName "nft" ["list", "table", "inet", cfg.nft.table] =
      if s.kernel.nftTables cfg.nft.table then some "" else none := rfl
  simp only [netHost, listCommand, hworks s.commands, hlist]
  by_cases htable : s.kernel.nftTables cfg.nft.table = true
  · rw [if_pos htable, if_pos htable]
    have hcmd : s.kernel.command "nft" (deleteTableArgs cfg) =
        some (s.kernel.deleteTable cfg.nft.table) := if_pos htable
    have hdelete := leavesKernel_allowFail env hworks (deleteTableArgs cfg)
      (by decide : "nft" ≠ "ping") s.tick
    have htick : s.tick.kernel = s.kernel := rfl
    rw [htick, hcmd, Option.getD_some] at hdelete
    exact hdelete
  · rw [if_neg htable, if_neg htable]
    exact ⟨_, rfl, rfl⟩

theorem command_fwmarkRuleDel (k : Kernel) (egress : EgressInterface) :
    (k.command "ip" (fwmarkRuleDelArgs egress)).getD k = k.deleteIpRule (fwmarkRule egress) := by
  have hparse : parseIpRule ["fwmark", toString egress.fwmark, "table", toString egress.table,
      "priority", toString egress.rulePriority] = some (fwmarkRule egress) := by
    simp [parseIpRule, fwmarkRule]
  change ((parseIpRule _).bind _).getD k = _
  rw [hparse, Option.bind_some]
  by_cases hmem : fwmarkRule egress ∈ k.ipRules
  · rw [if_pos hmem, Option.getD_some]
  · rw [if_neg hmem, Option.getD_none, Kernel.deleteIpRule, List.erase_of_not_mem hmem]

/-- Each of the rules deleted once. -/
def Kernel.withoutRules (k : Kernel) (rules : List IpRule) : Kernel :=
  { k with ipRules := k.ipRules.diff rules }

/-- The rules of the egresses that the listing was found to hold are gone. -/
theorem leavesKernel_deleteEach (hworks : AllWork env) (rules : String)
    (egresses : List EgressInterface) (s : NetState) :
    LeavesKernel env (Program.forEach (deleteFwmarkRule applying rules) egresses) s
      (s.kernel.withoutRules ((egresses.filter (fwmarkRuleListed rules)).map fwmarkRule)) := by
  induction egresses generalizing s with
  | nil => exact ⟨s, rfl, rfl⟩
  | cons egress egresses ih =>
      rw [Program.forEach_cons, deleteFwmarkRule]
      by_cases hlisted : fwmarkRuleListed rules egress = true
      · rw [if_pos (Or.inl hlisted), List.filter_cons_of_pos hlisted, List.map_cons,
          Kernel.withoutRules, List.diff_cons]
        refine LeavesKernel.bind env
          (leavesKernel_allowFail env hworks _ (by decide : "ip" ≠ "ping") s) (fun t ht => ?_)
        rw [command_fwmarkRuleDel] at ht
        have hrest := ih t
        rw [ht] at hrest
        exact hrest
      · rw [if_neg (by simp [hlisted]), List.filter_cons_of_neg hlisted]
        exact ih s

theorem hasRoutes_iff (routes : List Route) :
    hasRoutes (String.ofList (routeShow routes)) = true ↔ routes ≠ [] := by
  rw [hasRoutes, String.toList_ofList]
  cases routes with
  | nil => simp [routeShow, lines, linesFrom]
  | cons route routes =>
      rw [iff_true_right (List.cons_ne_nil _ _)]
      -- the word `dev` stands in every line
      have hdev : 'd' ∈ routeLine route := by
        simp [routeLine]
      have htext : 'd' ∈ routeShow (route :: routes) := by
        rw [routeShow, List.flatMap_cons]
        simp [hdev]
      obtain ⟨line, hline, hmem⟩ := exists_line_of_mem (c := 'd') [] (by decide)
        (by decide) (Or.inr htext)
      refine List.any_eq_true.mpr ⟨line, hline, ?_⟩
      have hne := trim_ne_nil (c := 'd') (by decide) hmem
      simpa using hne

variable (cfg) in
theorem leavesKernel_deleteFwmarkRules (hworks : AllWork env) (s : NetState) :
    LeavesKernel env (deleteFwmarkRules cfg applying) s
      (s.kernel.withoutRules ((cfg.egressInterfaces.filter (fwmarkRuleListed
        (String.ofList (ipRuleShow env.tableName s.kernel.ipRules)))).map fwmarkRule)) := by
  rw [deleteFwmarkRules, Program.bind_eq, LeavesKernel,
    Program.run_bind_ok _ (run_captureOrEmpty env hworks _ _ s), listing_ruleShow, Option.getD_some]
  exact leavesKernel_deleteEach env hworks _ _ s.tick

/-- The tables without their routes. -/
def Kernel.withoutRoutes (k : Kernel) (tables : List UInt32) : Kernel :=
  { k with routes := fun table => if table ∈ tables then [] else k.routes table }

theorem withoutRoutes_cons (k : Kernel) (table : UInt32) (tables : List UInt32) :
    k.withoutRoutes (table :: tables) = (k.flushRoutes table).withoutRoutes tables := by
  unfold Kernel.withoutRoutes Kernel.flushRoutes
  congr 1
  funext other
  by_cases hother : other = table
  · dsimp only
    rw [hother, if_pos List.mem_cons_self, Function.update_self, ite_self]
  · simp [hother]

theorem leavesKernel_flushRouteTable (hworks : AllWork env) (egress : EgressInterface)
    (s : NetState) : LeavesKernel env (flushRouteTable applying egress) s
      (s.kernel.flushRoutes egress.table) := by
  have hshow : s.kernel.listing env.tableName "ip" ["route", "show", "table",
      toString egress.table] = some (String.ofList (routeShow (s.kernel.routes egress.table))) := by
    change (parseU32 _).map _ = _
    rw [parseU32_toString, Option.map_some]
  rw [flushRouteTable, Program.bind_eq, LeavesKernel,
    Program.run_bind_ok _ (run_captureOrEmpty env hworks _ _ s), hshow, Option.getD_some]
  have hflush : (s.kernel.command "ip" ["route", "flush", "table", toString egress.table]) =
      some (s.kernel.flushRoutes egress.table) := by
    change (parseU32 _).map _ = _
    rw [parseU32_toString, Option.map_some]
  by_cases hroutes : s.kernel.routes egress.table = []
  · have hnone : hasRoutes (String.ofList (routeShow (s.kernel.routes egress.table))) = false := by
      rw [Bool.eq_false_iff, ne_eq, hasRoutes_iff, not_not]
      exact hroutes
    rw [hnone, if_neg (by simp)]
    refine ⟨s.tick, rfl, ?_⟩
    rw [Kernel.flushRoutes, ← hroutes, Function.update_eq_self]
    rfl
  · rw [if_pos (Or.inl ((hasRoutes_iff _).mpr hroutes))]
    have hrun := leavesKernel_allowFail env hworks ["route", "flush", "table",
      toString egress.table] (by decide : "ip" ≠ "ping") s.tick
    have htick : s.tick.kernel = s.kernel := rfl
    rw [htick, hflush, Option.getD_some] at hrun
    exact hrun

theorem leavesKernel_flushEach (hworks : AllWork env) (egresses : List EgressInterface)
    (s : NetState) : LeavesKernel env (Program.forEach (flushRouteTable applying) egresses) s
      (s.kernel.withoutRoutes (egresses.map (·.table))) := by
  induction egresses generalizing s with
  | nil => exact ⟨s, rfl, by simp [Kernel.withoutRoutes]⟩
  | cons egress egresses ih =>
      rw [Program.forEach_cons, List.map_cons, withoutRoutes_cons]
      refine LeavesKernel.bind env (leavesKernel_flushRouteTable env hworks egress s)
        (fun t ht => ?_)
      rw [← ht]
      exact ih t

variable (cfg) in
/-- The kernel after cleanup, when its commands work. -/
theorem leavesKernel_cleanup (hworks : AllWork env) (s : NetState) {k : Kernel}
    (hk : (if s.kernel.nftTables cfg.nft.table then s.kernel.deleteTable cfg.nft.table
      else s.kernel) = k) :
    LeavesKernel env (cleanup cfg true) s
      ((k.withoutRules ((cfg.egressInterfaces.filter (fwmarkRuleListed
        (String.ofList (ipRuleShow env.tableName k.ipRules)))).map fwmarkRule)).withoutRoutes
          (cfg.egressInterfaces.map (·.table))) := by
  refine LeavesKernel.bind env (leavesKernel_deleteNftTable env hworks s) (fun t ht => ?_)
  rw [hk] at ht
  have hrules := leavesKernel_deleteFwmarkRules env cfg hworks t
  rw [ht] at hrules
  refine LeavesKernel.bind env hrules (fun u hu => ?_)
  rw [← hu]
  exact leavesKernel_flushEach env hworks _ u

end Effects

/-! ### After rounds -/

section Rounds

variable {cfg : Config} {start k : Kernel}

/-- Nothing of the configuration's is in the kernel yet. -/
structure Untouched (cfg : Config) (k : Kernel) : Prop where
  noTable : k.nftTables cfg.nft.table = false
  noChains : ∀ chain, k.nftChains (cfg.nft.table, chain) = none
  noRoutes : ∀ egress ∈ cfg.egressInterfaces, k.routes egress.table = []
  noRules : ∀ rule ∈ k.ipRules, ∀ egress ∈ cfg.egressInterfaces,
    ¬ (rule.fwmark = some egress.fwmark ∧ rule.table = egress.table)

/-- The kernels that rounds can leave, each round on surroundings of its own and cut off at any
point of it. -/
inductive AfterRounds (cfg : Config) (start : Kernel) : Kernel → Prop where
  | start : AfterRounds cfg start start
  | round {env : HostEnv} {order : MapOrder} {s t : HostState}
      (before : AfterRounds cfg start s.1.kernel)
      (hcut : t ∈ Program.visited (host env) (reconcileOnce applying order cfg) s) :
      AfterRounds cfg start t.1.kernel

/-- What rounds have added to a kernel: the nft table, rules of egresses and routes of their
tables. -/
structure Grown (cfg : Config) (start k : Kernel) : Prop where
  tables : ∀ table, table ≠ cfg.nft.table → k.nftTables table = start.nftTables table
  chains : ∀ table chain, table ≠ cfg.nft.table →
    k.nftChains (table, chain) = start.nftChains (table, chain)
  noChains : k.nftTables cfg.nft.table = false → ∀ chain, k.nftChains (cfg.nft.table, chain) = none
  rules : ∃ own, k.ipRules = start.ipRules ++ own ∧ own.Nodup ∧
    ∀ rule ∈ own, ∃ egress ∈ cfg.egressInterfaces, fwmarkRule egress = rule
  routes : ∀ table ∉ cfg.egressInterfaces.map (·.table), k.routes table = start.routes table

theorem grown_start (h : Untouched cfg start) : Grown cfg start start where
  tables := fun _ _ => rfl
  chains := fun _ _ _ => rfl
  noChains := fun _ => h.noChains
  rules := ⟨[], by simp, List.nodup_nil, by simp⟩
  routes := fun _ _ => rfl

theorem roundKeeps_grown (cfg : Config) (start : Kernel) : RoundKeeps cfg (Grown cfg start) where
  addTable k h :=
    { tables := fun table hne =>
        (Function.update_of_ne hne _ _).trans (h.tables table hne)
      chains := h.chains
      noChains := fun hnone => by
        have htrue : (k.addTable cfg.nft.table).nftTables cfg.nft.table = true :=
          Function.update_self _ _ _
        exact absurd (htrue.symm.trans hnone) (by decide)
      rules := h.rules
      routes := h.routes }
  setChain k rules h hexists :=
    { tables := h.tables
      chains := fun table chain hne => by
        have hother : (table, chain) ≠ (cfg.nft.table, cfg.nft.outputChain) :=
          fun he => hne (congrArg Prod.fst he)
        exact (Function.update_of_ne hother _ _).trans (h.chains table chain hne)
      noChains := fun hnone => by
        rcases hexists with htable | hchain
        · exact absurd (htable.symm.trans hnone) (by decide)
        · rw [chainKey, h.noChains hnone] at hchain
          cases hchain
      rules := h.rules
      routes := h.routes }
  replaceDefault k egress h hconfig :=
    { tables := h.tables
      chains := h.chains
      noChains := h.noChains
      rules := h.rules
      routes := fun table hnone => by
        obtain ⟨e, he, hsame⟩ := hconfig
        have hne : table ≠ egress.table := by
          rintro rfl
          exact hnone (List.mem_map.mpr ⟨e, he, table_eq_of_fixed hsame⟩)
        exact (Function.update_of_ne hne _ _).trans (h.routes table hnone) }
  addIpRule k egress h hconfig hfresh :=
    { tables := h.tables
      chains := h.chains
      noChains := h.noChains
      rules := by
        obtain ⟨own, hown, hnodup, hrules⟩ := h.rules
        obtain ⟨e, he, hsame⟩ := hconfig
        have hrule : fwmarkRule e = fwmarkRule egress := by
          change fwmarkRule e.fixed = fwmarkRule egress.fixed
          rw [hsame]
        rw [hown, List.mem_append, not_or] at hfresh
        refine ⟨own ++ [fwmarkRule egress], ?_, ?_, ?_⟩
        · rw [Kernel.addIpRule, hown, List.append_assoc]
        · exact List.nodup_append_comm.mp (List.nodup_cons.mpr ⟨hfresh.2, hnodup⟩)
        · intro rule hmem
          rcases List.mem_append.mp hmem with hmem | hmem
          · exact hrules rule hmem
          · exact ⟨e, he, hrule.trans (List.mem_singleton.mp hmem).symm⟩
      routes := h.routes }

theorem grown_of_afterRounds (hcfg : Accepted cfg) (hstart : Untouched cfg start)
    (h : AfterRounds cfg start k) : Grown cfg start k := by
  induction h with
  | start => exact grown_start hstart
  | @round env order s t before hcut ih =>
      exact keeps_reconcileOnce env (roundKeeps_grown cfg start) hcfg order s ih t hcut

theorem diff_append_left {rules listed : List IpRule} (own : List IpRule)
    (hforeign : ∀ rule ∈ listed, rule ∉ rules) :
    (rules ++ own).diff listed = rules ++ own.diff listed := by
  induction listed generalizing own with
  | nil => rfl
  | cons rule listed ih =>
      rw [List.diff_cons, List.diff_cons,
        List.erase_append_right _ (hforeign rule List.mem_cons_self)]
      exact ih _ (fun r hr => hforeign r (List.mem_cons_of_mem _ hr))

/-- Deleting at least the rules that were added, and none of the others, undoes the adding. -/
theorem diff_own {rules own listed : List IpRule} (hnodup : own.Nodup)
    (hall : ∀ rule ∈ own, rule ∈ listed) (hforeign : ∀ rule ∈ listed, rule ∉ rules) :
    (rules ++ own).diff listed = rules := by
  rw [diff_append_left own hforeign, hnodup.sdiff_eq_filter, List.filter_eq_nil_iff.mpr,
    List.append_nil]
  intro rule hrule
  simpa using hall rule hrule

/-- After rounds from a kernel without anything of the configuration's, cleanup brings back that
kernel: no rule of others is deleted, and nothing is left behind. -/
theorem cleanup_restores {env : NetEnv} {s : NetState} (hcfg : cfg.validate = .ok ())
    (htables : ∀ egress ∈ cfg.egressInterfaces, ¬ Reserved egress.table)
    (hstart : Untouched cfg start) (hrounds : AfterRounds cfg start s.kernel)
    (hworks : AllWork env) (hnames : env.tableName = printedName) :
    ∃ t, Program.run (netHost env) (cleanup cfg true) s = (.ok (), t) ∧ t.kernel = start := by
  have hgrown := grown_of_afterRounds (accepted_of_validate hcfg) hstart hrounds
  obtain ⟨own, hown, hnodup, hrules⟩ := hgrown.rules
  obtain ⟨t, hrun, hkernel⟩ := leavesKernel_cleanup env cfg hworks s rfl
  refine ⟨t, hrun, hkernel.trans ?_⟩
  set k := if s.kernel.nftTables cfg.nft.table then s.kernel.deleteTable cfg.nft.table
    else s.kernel with hk
  have hkRules : k.ipRules = start.ipRules ++ own := by
    rw [hk, ← hown]
    split_ifs <;> rfl
  have hkRoutes : k.routes = s.kernel.routes := by
    rw [hk]
    split_ifs <;> rfl
  apply Kernel.ext
  · -- the nft tables
    change k.nftTables = start.nftTables
    funext table
    by_cases htable : table = cfg.nft.table
    · rw [htable, hstart.noTable, hk]
      split_ifs with hlisted
      · exact Function.update_self _ _ _
      · simpa using hlisted
    · rw [← hgrown.tables table htable, hk]
      split_ifs
      · exact Function.update_of_ne htable _ _
      · rfl
  · -- the chains
    change k.nftChains = start.nftChains
    funext ⟨table, chain⟩
    by_cases htable : table = cfg.nft.table
    · rw [htable, hstart.noChains, hk]
      split_ifs with hlisted
      · exact if_pos rfl
      · exact hgrown.noChains (by simpa using hlisted) chain
    · rw [← hgrown.chains table chain htable, hk]
      split_ifs
      · exact if_neg htable
      · rfl
  · -- the ip rules
    change k.ipRules.diff _ = start.ipRules
    rw [hkRules]
    apply diff_own hnodup
    · intro rule hrule
      obtain ⟨egress, he, rfl⟩ := hrules rule hrule
      refine List.mem_map_of_mem (List.mem_filter.mpr ⟨he, ?_⟩)
      rw [hnames]
      exact (finds_covers egress _).mpr ⟨_, List.mem_append_right _ hrule, htables egress he,
        shadows_self egress⟩
    · intro rule hrule hforeign
      obtain ⟨egress, he, rfl⟩ := List.mem_map.mp hrule
      exact hstart.noRules _ hforeign egress (List.mem_of_mem_filter he) ⟨rfl, rfl⟩
  · -- the routes
    funext table
    by_cases htable : table ∈ cfg.egressInterfaces.map (·.table)
    · obtain ⟨egress, he, hsame⟩ := List.mem_map.mp htable
      rw [← hsame, hstart.noRoutes egress he]
      exact if_pos (List.mem_map_of_mem he)
    · rw [← hgrown.routes table htable, ← hkRoutes]
      exact if_neg htable

end Rounds

/-- Cleanup after a round that failed at the route of the second egress. -/
theorem cleanup_restores_branch :
    ∃ t, Program.run (netHost ⟨fun _ => .works, printedName⟩) (cleanup branchConfig true)
        (Program.run (host (failingAt 7)) (reconcileOnce applying listOrder branchConfig)
          bareState).2.1 = (.ok (), t) ∧ t.kernel = bareState.1.kernel := by
  have hstart : Untouched branchConfig bareState.1.kernel :=
    ⟨rfl, fun _ => rfl, fun _ _ => rfl, fun rule hrule => absurd hrule List.not_mem_nil⟩
  have hrounds : AfterRounds branchConfig bareState.1.kernel (Program.run (host (failingAt 7))
      (reconcileOnce applying listOrder branchConfig) bareState).2.1.kernel :=
    .round .start (Program.run_mem_visited _ _ _)
  exact cleanup_restores (by decide) (by decide) hstart hrounds (fun _ => rfl) rfl

end EveNet
