import EveNet.Paths
import EveNet.SharedLists
import EveNet.PacketRouting

/-!
# Rounds side by side

The service, a reconcile by hand and anything else that runs rounds are separate processes, and
nothing keeps two rounds from flushing and filling the policy chain at the same time. When all
of them have returned, every packet still gets the mark that one of the rounds alone would have
given it; and at no moment does the chain hold a rule that no policy asks for.
-/

namespace EveNet

/-! ### What calls write to the chain -/

/-- The rules in a chain; a chain that does not exist holds none. -/
def chainAt (key : String × String) (k : Kernel) : List NftRule := (k.nftChains key).getD []

section Writes

variable (key : String × String)

/-- What an nft command line writes to the chain. -/
def chainWrite : List String → Option (ListWrite NftRule)
  | ["flush", "chain", "inet", table, chain] => if (table, chain) = key then some .clear else none
  | ["delete", "table", "inet", table] => if table = key.1 then some .clear else none
  | "add" :: "rule" :: "inet" :: table :: chain :: expr =>
    if (table, chain) = key then (parseNftRule expr).map .add else none
  | _ => none

/-- What a call with its answer has written to the chain. -/
def chainLog (e : Program.Exchange hostInterface) : List (ListWrite NftRule) :=
  match e with
  | ⟨.inl (.spawn program args), (exit : CommandExit)⟩ =>
    if program = "nft" ∧ exit = .exited true then (chainWrite key args).toList else []
  | _ => []

theorem chainLog_spawn (program : String) (args : List String) (exit : CommandExit) :
    chainLog key ⟨.inl (.spawn program args), exit⟩ =
      if program = "nft" ∧ exit = .exited true then (chainWrite key args).toList else [] := rfl

theorem chainAt_setChain (k : Kernel) (table chain : String) (rules : List NftRule) :
    chainAt key (k.setChain table chain rules) =
      if (table, chain) = key then rules else chainAt key k := by
  unfold chainAt Kernel.setChain
  by_cases hkey : (table, chain) = key
  · rw [if_pos hkey, ← hkey]
    dsimp only
    rw [Function.update_self, Option.getD_some]
  · rw [if_neg hkey]
    dsimp only
    rw [Function.update_of_ne (Ne.symm hkey)]

theorem chainAt_nftCommand {k k' : Kernel} {args : List String} (h : nftCommand k args = some k') :
    chainAt key k' = ListWrite.replay (chainAt key k) (chainWrite key args).toList := by
  unfold nftCommand at h
  split at h
  · -- a table is added
    cases h
    rfl
  · -- a chain is added, empty if it is new
    rename_i table chain _
    split_ifs at h with htable hchain
    · cases h
      rfl
    · cases h
      change chainAt key (k.setChain table chain []) = chainAt key k
      rw [chainAt_setChain]
      split_ifs with hkey
      · rw [chainAt, ← hkey, Option.not_isSome_iff_eq_none.mp hchain]
        rfl
      · rfl
  · -- a chain is flushed
    obtain ⟨rules, -, rfl⟩ := Option.map_eq_some_iff.mp h
    rw [chainAt_setChain, chainWrite]
    split_ifs <;> rfl
  · -- a rule is added
    rename_i table chain expr
    obtain ⟨rules, hrules, h⟩ := Option.bind_eq_some_iff.mp h
    obtain ⟨rule, hrule, h⟩ := Option.bind_eq_some_iff.mp h
    cases h
    rw [chainAt_setChain, chainWrite]
    split_ifs with hkey
    · rw [hrule, chainAt, ← hkey, hrules]
      rfl
    · rfl
  · -- a table is deleted
    rename_i table
    split_ifs at h with htable
    cases h
    change ((if key.1 = table then none else k.nftChains key).getD []) = _
    rw [chainWrite]
    by_cases hkey : table = key.1
    · rw [if_pos hkey.symm, if_pos hkey]
      rfl
    · rw [if_neg (Ne.symm hkey), if_neg hkey]
      rfl
  · cases h

theorem chainAt_ipCommand {k k' : Kernel} {args : List String} (h : ipCommand k args = some k') :
    chainAt key k' = chainAt key k := by
  unfold ipCommand at h
  split at h
  · obtain ⟨r, -, rfl⟩ := Option.map_eq_some_iff.mp h
    rfl
  · obtain ⟨rule, -, h⟩ := Option.bind_eq_some_iff.mp h
    split_ifs at h
    cases h
    rfl
  · obtain ⟨rule, -, h⟩ := Option.bind_eq_some_iff.mp h
    split_ifs at h
    cases h
    rfl
  · obtain ⟨table, -, rfl⟩ := Option.map_eq_some_iff.mp h
    rfl
  · cases h

/-- The chain after any call is the chain before it with what the call has written. -/
theorem chainAt_call (env : HostEnv) (c : hostInterface.Call) (s : HostState) :
    chainAt key (host env c s).2.1.kernel =
      (chainLog key ⟨c, (host env c s).1⟩).foldl ListWrite.apply (chainAt key s.1.kernel) := by
  cases c with
  | inr c => rfl
  | inl c =>
      cases c with
      | output program args =>
          change chainAt key (netHost env.net (.output program args) s.1).2.kernel = _
          rw [netHost_output]
          rfl
      | outputJson program args => rfl
      | interfaceExists name => rfl
      | operstate name => rfl
      | spawn program args =>
          change chainAt key (netHost env.net (.spawn program args) s.1).2.kernel =
            (if program = "nft" ∧ (netHost env.net (.spawn program args) s.1).1 = .exited true
              then (chainWrite key args).toList else []).foldl ListWrite.apply _
          by_cases hping : program = "ping"
          · have hnft : ¬ program = "nft" := by
              rw [hping]
              decide
            rw [if_neg fun hboth => hnft hboth.1]
            simp only [netHost, if_pos hping]
            rfl
          · simp only [netHost, if_neg hping, spawnCommand]
            cases env.net.fate s.1.commands with
            | notSpawned cause => simp [NetState.tick]
            | fails => simp [NetState.tick]
            | works =>
                cases hcmd : s.1.kernel.command program args with
                | none => simp [NetState.tick]
                | some k =>
                    rw [Kernel.command] at hcmd
                    by_cases hnft : program = "nft"
                    · rw [if_pos hnft] at hcmd
                      rw [if_pos ⟨hnft, rfl⟩]
                      exact chainAt_nftCommand key hcmd
                    · rw [if_neg hnft] at hcmd
                      rw [if_neg fun hboth => hnft hboth.1]
                      split_ifs at hcmd with hip
                      exact chainAt_ipCommand key hcmd

end Writes

/-! ### What a round writes -/

/-- The call writes nothing to the chain, whatever it is answered. -/
def LeavesChain (key : String × String) (c : hostInterface.Call) : Prop :=
  ∀ r, chainLog key ⟨c, r⟩ = []

/-- An answer that the surroundings give in some state with these links. -/
def AnsweredOn (env : HostEnv) (links : String → LinkState)
    (e : Program.Exchange hostInterface) : Prop :=
  ∃ s : HostState, s.1.links = links ∧ e.2 = (host env e.1 s).1

section Silent

variable (key : String × String) (env : NetEnv)

theorem leavesChain_ip (args : List String) : LeavesChain key (.inl (.spawn "ip" args)) :=
  fun exit => (chainLog_spawn key "ip" args exit).trans (if_neg fun h => absurd h.1 (by decide))

theorem leavesChain_cache (c : CacheCall) : LeavesChain key (.inr c) := fun _ => rfl

/-- A command other than a ping is counted. -/
theorem ping_of_readsOnly {program : String} {args : List String}
    (h : ReadsOnly env (.spawn program args)) : program = "ping" := by
  by_contra hp
  have hstate := congrArg NetState.commands (h ⟨⟨fun _ => false, fun _ => none, [], fun _ => []⟩,
    fun _ => linkUp, 0⟩)
  simp only [netHost, if_neg hp, spawnCommand] at hstate
  split at hstate
  · simp [NetState.tick] at hstate
  · simp [NetState.tick] at hstate
  · split at hstate <;> simp [NetState.tick] at hstate

theorem leavesChain_of_readsOnly {c : NetCall} (h : ReadsOnly env c) :
    LeavesChain key (.inl c) := by
  intro r
  cases c with
  | spawn program args =>
      refine (chainLog_spawn key program args r).trans (if_neg fun hnft => ?_)
      rw [ping_of_readsOnly env h] at hnft
      exact absurd hnft.1 (by decide)
  | output program args => rfl
  | outputJson program args => rfl
  | interfaceExists name => rfl
  | operstate name => rfl

/-- What only reads the host is answered from its links. -/
theorem answer_of_readsOnly {c : NetCall} (h : ReadsOnly env c) {s t : NetState}
    (hlinks : s.links = t.links) : (netHost env c s).1 = (netHost env c t).1 := by
  cases c with
  | spawn program args =>
      have hping := ping_of_readsOnly env h
      simp only [netHost, if_pos hping]
      unfold pingExit
      split <;> simp [hlinks]
  | output program args =>
      have hstate := congrArg NetState.commands (h s)
      rw [netHost_output] at hstate
      simp [NetState.tick] at hstate
  | outputJson program args =>
      simp only [netHost]
      unfold jsonListing
      split <;> simp [hlinks]
  | interfaceExists name => simp only [netHost, hlinks]
  | operstate name => simp only [netHost, hlinks]

/-- A command other than one of nft, and one of nft that is not about the rules of a chain. -/
theorem calls_run_silent {program : String} {args : List String}
    (h : LeavesChain key (.inl (.spawn program args))) :
    (applying.run program args).Calls (fun c => LeavesChain key (.inl c)) := by
  refine .call h fun exit => ?_
  rcases exit with cause | (_ | _)
  · exact .fail _
  · exact .fail _
  · exact .pure _

theorem calls_capture_silent (program : String) (args : List String) :
    (Executor.capture program args).Calls (fun c => LeavesChain key (.inl c)) := by
  refine .call (fun _ => rfl) fun out => ?_
  cases out with
  | notSpawned cause => exact .fail _
  | failed => exact .fail _
  | stdout text => exact .pure _

theorem calls_ensureTableAndChain_silent (cfg : Config) :
    (ensureTableAndChain applying cfg).Calls (fun c => LeavesChain key (.inl c)) := by
  have hlisted : ∀ (listArgs : List String) {addArgs : List String}, chainWrite key addArgs = none →
      (ensureListed applying listArgs addArgs).Calls (fun c => LeavesChain key (.inl c)) := by
    intro listArgs addArgs hnone
    refine Program.Calls.bind (Program.Calls.attempt (calls_capture_silent key _ _)) fun listed => ?_
    cases listed with
    | ok text => exact .pure _
    | error e =>
        refine calls_run_silent key fun exit => (chainLog_spawn key "nft" addArgs exit).trans ?_
        rw [hnone]
        exact ite_self _
  exact Program.Calls.bind (hlisted _ rfl) fun _ => hlisted _ rfl

theorem calls_ensureEgressRoute_silent (egress : EgressInterface) :
    (ensureEgressRoute applying egress).Calls (fun c => LeavesChain key (.inl c)) := by
  refine Program.Calls.bind (calls_run_silent key (leavesChain_ip key _)) fun _ => ?_
  refine Program.Calls.bind (calls_capture_silent key _ _) fun rules => ?_
  by_cases hlisted : fwmarkRuleListed rules egress = true
  · rw [if_pos hlisted]
    exact .pure _
  · rw [if_neg hlisted]
    exact calls_run_silent key (leavesChain_ip key _)

end Silent

/-- The addresses found for a policy with a healthy egress: its domain can be resolved to them on
answers of this kind. -/
def MayFind (A : Program.Exchange cacheInterface → Prop) (links : String → LinkState)
    (cfg : Config) (policy : Policy) (ips : List String) : Prop :=
  ∀ domain ∈ policy.matchSpec.domain,
    (KeyedList.lookup (·.name) policy.action.egress (configuredHealthy links cfg)).isSome →
    ∃ outcome : Except Error DomainResolution, ips = resolutionIps outcome ∧
      Program.CanReturn A ((resolveForRuntime cfg domain true).attempt :
        CacheProgram (Except Error DomainResolution)) outcome

theorem MayFind.mono {A A' : Program.Exchange cacheInterface → Prop} {links : String → LinkState}
    {cfg : Config} {policy : Policy} {ips : List String} (h : MayFind A links cfg policy ips)
    (hA : ∀ e, A e → A' e) : MayFind A' links cfg policy ips := by
  intro domain hdomain hegress
  obtain ⟨outcome, hips, hcan⟩ := h domain hdomain hegress
  exact ⟨outcome, hips, hcan.mono hA⟩

/-- The rules that a round makes on these links from answers of this kind. -/
def RoundRules (A : Program.Exchange cacheInterface → Prop) (links : String → LinkState)
    (cfg : Config) (rules : List NftRule) : Prop :=
  ∃ resolved : List (Policy × List String), resolved.map Prod.fst = cfg.enabledPolicies ∧
    (∀ r ∈ resolved, MayFind A links cfg r.1 r.2) ∧
    rules = chainOf (configuredHealthy links cfg) resolved

theorem chainWrite_flush (cfg : Config) : chainWrite (chainKey cfg) (flushArgs cfg) = some .clear :=
  if_pos rfl

theorem chainWrite_addRule (cfg : Config) (rule : NftRule) :
    chainWrite (chainKey cfg)
      (["add", "rule", "inet", cfg.nft.table, cfg.nft.outputChain] ++ ruleArgs rule) =
        some (.add rule) := by
  change ite ((cfg.nft.table, cfg.nft.outputChain) = chainKey cfg)
    ((parseNftRule (ruleArgs rule)).map ListWrite.add) none = _
  rw [parseNftRule_ruleArgs]
  exact if_pos rfl

section YieldedByNet

variable {A : Program.Exchange netInterface → Prop}

/-- What a call on the network writes to the chain. -/
abbrev netLog (key : String × String) (e : Program.Exchange netInterface) :
    List (ListWrite NftRule) :=
  chainLog key e.inl

theorem yields_run_nft (key : String × String) (args : List String) :
    Program.Yields A (netLog key) (applying.run "nft" args)
      (fun _ l => l = (chainWrite key args).toList) := by
  refine Program.Yields.call fun exit _ => ?_
  rcases exit with cause | (_ | _)
  · exact Program.Yields.fail
  · exact Program.Yields.fail
  · refine Program.Yields.pure ?_
    rw [List.append_nil]
    exact (chainLog_spawn key "nft" args _).trans (if_pos ⟨rfl, rfl⟩)

theorem yields_flush (cfg : Config) :
    Program.Yields A (netLog (chainKey cfg)) (flushPolicyChain applying cfg)
      (fun _ l => l = [.clear]) := by
  refine (yields_run_nft (chainKey cfg) (flushArgs cfg)).mono fun _ l hl => ?_
  rw [hl, chainWrite_flush]
  rfl

theorem yields_addPolicyRuleWithMatch (cfg : Config) (egress : EgressInterface)
    (spec : MatchSpec) :
    Program.Yields A (netLog (chainKey cfg)) (addPolicyRuleWithMatch applying cfg egress spec)
      (fun _ l => l = [.add (ruleOf egress spec)]) := by
  unfold addPolicyRuleWithMatch
  rcases appendMatch_eq egress spec ["add", "rule", "inet", cfg.nft.table, cfg.nft.outputChain]
    with ⟨e, he⟩ | ⟨args, hargs, hrule⟩
  · rw [he]
    exact Program.Yields.fail
  · rw [hargs]
    change Program.Yields _ _ (applying.run "nft" _) _
    rw [hrule]
    refine (yields_run_nft (chainKey cfg) _).mono fun _ l hl => ?_
    rw [hl, chainWrite_addRule]
    rfl

theorem yields_applyResolution (cfg : Config) (policy : Policy) (egress : EgressInterface)
    (outcome : Except Error DomainResolution) :
    Program.Yields A (netLog (chainKey cfg)) (applyResolution applying cfg policy egress outcome)
      (fun _ l => l = (resolutionIps outcome).flatMap
        (fun ip => [.add (ruleOf egress (resolvedSpec policy.matchSpec ip))])) := by
  cases outcome with
  | error e => exact Program.Yields.pure rfl
  | ok resolution =>
      exact Program.Yields.forEach fun ip _ => yields_addPolicyRuleWithMatch cfg egress _

end YieldedByNet

section Yielded

variable {A : Program.Exchange hostInterface → Prop} {env : HostEnv} {links : String → LinkState}
  {cfg : Config} {healthy : List EgressInterface}

theorem yields_silent {key : String × String} {p : NetProgram Unit}
    (h : p.Calls (fun c => LeavesChain key (.inl c))) :
    Program.Yields A (chainLog key) p.left (fun _ l => l = []) :=
  Program.Yields.left (Program.Yields.silent (fun _ hc => hc) h)

/-- A path of the healthy egresses ends with those that the links show. -/
theorem yields_healthyEgressMap (key : String × String) (cfg : Config)
    (hA : ∀ e, A e → AnsweredOn env links e) :
    Program.Yields A (chainLog key) (healthyEgressMap applying cfg).left
      (fun healthy l => l = [] ∧ healthyEgresses links cfg = .ok healthy) := by
  refine Program.Yields.and (Program.Yields.left (Program.Yields.silent
    (fun _ hc => leavesChain_of_readsOnly key env.net hc) (calls_healthyEgressMap env.net cfg))) ?_
  intro xs healthy hxs hpath
  obtain ⟨ys, p', rfl, hpure, hleft⟩ := Program.path_left hpath
  rw [Program.left_eq_pure hpure] at hleft
  let s : NetState := ⟨⟨fun _ => false, fun _ => none, [], fun _ => []⟩, links, 0⟩
  have htells : ∀ c, ReadsOnly env.net c → ∀ u v : NetState, u.links = v.links →
      (netHost env.net c u).1 = (netHost env.net c v).1 :=
    fun c hc u v huv => answer_of_readsOnly env.net hc huv
  have hrun := Program.run_of_path (s := s) htells (fun c _ u => netHost_links env.net c u)
    (calls_healthyEgressMap env.net cfg)
    (fun e he => by
      obtain ⟨u, hu, hanswer⟩ := hA _ (hxs _ (List.mem_map_of_mem he))
      exact ⟨u.1, hu, hanswer⟩) hleft
  rwa [run_healthyEgressMap] at hrun

theorem yields_applyPolicy
    (hfixed : healthy.map (·.fixed) = (configuredHealthy links cfg).map (·.fixed))
    (policy : Policy) :
    Program.Yields A (chainLog (chainKey cfg)) (applyPolicy applying cfg healthy policy)
      (fun _ l => ∃ ips, MayFind (fun e => A e.inr) links cfg policy ips ∧
        l = (rulesFor (configuredHealthy links cfg) policy ips).map .add) := by
  rw [← rulesFor_congr hfixed]
  unfold applyPolicy
  rcases lookup_of_fixed hfixed policy.action.egress with ⟨hnone, hnone'⟩ | ⟨egress, e, hsome, -, -⟩
  · rw [hnone]
    refine Program.Yields.pure ⟨[], fun domain _ h => ?_, ?_⟩
    · rw [hnone'] at h
      cases h
    · rw [rulesFor, hnone]
      rfl
  · rw [hsome]
    cases hdomain : policy.matchSpec.domain with
    | none =>
        dsimp only
        rw [addPolicyRule_eq hdomain]
        refine (Program.Yields.left (yields_addPolicyRuleWithMatch cfg egress
          policy.matchSpec)).mono fun _ l hl => ⟨[], fun domain h => ?_, ?_⟩
        · rw [hdomain] at h
          cases h
        · rw [hl, rulesFor_some hsome]
          simp [policySpecs, hdomain]
    | some domain =>
        dsimp only
        refine Program.Yields.bind (Program.Yields.right
          (Program.Yields.and (Program.Yields.silent (fun c _ => leavesChain_cache _ c)
            (Program.Calls.any _)) Program.Yields.canReturn)) fun outcome l hl => ?_
        obtain ⟨rfl, hcan⟩ := hl
        refine (Program.Yields.left (yields_applyResolution cfg policy egress outcome)).mono
          fun _ l hl => ⟨resolutionIps outcome, fun d hd _ => ?_, ?_⟩
        · rw [hdomain] at hd
          cases hd
          exact ⟨outcome, rfl, hcan⟩
        · rw [List.nil_append, hl, rulesFor_some hsome, ← List.map_eq_flatMap]
          simp [policySpecs, hdomain]

/-- A round that returns has rebuilt the chain: it has cleared it once and then added, in their
order, the rules that it makes from what it was told. -/
theorem yields_reconcileOnce (hcfg : Accepted cfg) (order : MapOrder)
    (hA : ∀ e, A e → AnsweredOn env links e) :
    Program.Yields A (chainLog (chainKey cfg)) (reconcileOnce applying order cfg)
      (fun _ l => ∃ rules, RoundRules (fun e => A e.inr) links cfg rules ∧
        l = ListWrite.rebuild rules) := by
  refine Program.Yields.bind (yields_silent (calls_ensureTableAndChain_silent _ cfg))
    fun _ l hl => ?_
  subst hl
  refine Program.Yields.bind (yields_healthyEgressMap _ cfg hA) fun healthy l hl => ?_
  obtain ⟨rfl, hhealthy⟩ := hl
  have hfixed := fixed_of_healthyEgresses hcfg hhealthy
  by_cases hclosed : healthy = [] ∧ cfg.runtime.failClosed = true
  · rw [if_pos hclosed]
    refine (Program.Yields.left (yields_flush cfg)).mono fun _ l hl => ⟨[], ?_, hl⟩
    have hnone : configuredHealthy links cfg = [] := by
      rw [hclosed.1] at hfixed
      exact List.map_eq_nil_iff.mp hfixed.symm
    refine ⟨cfg.enabledPolicies.map (fun policy => (policy, [])), ?_, fun r _ domain _ h => ?_, ?_⟩
    · rw [List.map_map]
      exact List.map_id _
    · rw [hnone] at h
      cases h
    · rw [hnone, chainOf_no_egresses]
  · rw [if_neg hclosed]
    refine Program.Yields.bind (yields_silent (Program.Calls.forEach
      fun egress _ => calls_ensureEgressRoute_silent _ egress)) fun _ l hl => ?_
    subst hl
    refine Program.Yields.bind (Program.Yields.left (yields_flush cfg)) fun _ l hl => ?_
    subst hl
    refine (Program.Yields.forEach_chosen fun policy _ => yields_applyPolicy hfixed policy).mono
      fun _ l hl => ?_
    obtain ⟨resolved, hpolicies, hmay, rfl⟩ := hl
    refine ⟨_, ⟨resolved, hpolicies, hmay, rfl⟩, ?_⟩
    rw [ListWrite.rebuild, chainOf, List.map_flatMap]
    rfl

end Yielded

/-! ### What a round writes before it ends -/

/-- The rule of an enabled policy with a healthy egress, whose addresses are the policy's own or
found on answers of this kind. -/
def PolicyRule (A : Program.Exchange cacheInterface → Prop) (links : String → LinkState)
    (cfg : Config) (rule : NftRule) : Prop :=
  ∃ policy ∈ cfg.enabledPolicies, ∃ ips, MayFind A links cfg policy ips ∧
    rule ∈ rulesFor (configuredHealthy links cfg) policy ips

section Emitted

variable {A : Program.Exchange netInterface → Prop} {P : ListWrite NftRule → Prop}

theorem emits_run_nft {key : String × String} {args : List String}
    (h : ∀ w ∈ chainWrite key args, P w) :
    Program.Emits A (netLog key) (applying.run "nft" args) P := by
  refine Program.Emits.call (fun exit _ w hw => ?_) fun exit _ => ?_
  · rw [netLog, Program.Exchange.inl, chainLog_spawn] at hw
    split_ifs at hw
    · exact h w (Option.mem_toList.mp hw)
    · exact absurd hw List.not_mem_nil
  · rcases exit with cause | (_ | _)
    · exact Program.Emits.fail _
    · exact Program.Emits.fail _
    · exact Program.Emits.pure _

theorem emits_flush (cfg : Config) (h : P .clear) :
    Program.Emits A (netLog (chainKey cfg)) (flushPolicyChain applying cfg) P := by
  refine emits_run_nft fun w hw => ?_
  rw [chainWrite_flush] at hw
  cases hw
  exact h

theorem emits_addPolicyRuleWithMatch {cfg : Config} {egress : EgressInterface} {spec : MatchSpec}
    (h : P (.add (ruleOf egress spec))) :
    Program.Emits A (netLog (chainKey cfg)) (addPolicyRuleWithMatch applying cfg egress spec) P := by
  unfold addPolicyRuleWithMatch
  rcases appendMatch_eq egress spec ["add", "rule", "inet", cfg.nft.table, cfg.nft.outputChain]
    with ⟨e, he⟩ | ⟨args, hargs, hrule⟩
  · rw [he]
    exact Program.Emits.fail e
  · rw [hargs]
    change Program.Emits _ _ (applying.run "nft" _) _
    rw [hrule]
    refine emits_run_nft fun w hw => ?_
    rw [chainWrite_addRule] at hw
    cases hw
    exact h

end Emitted

section EmittedByRound

variable {A : Program.Exchange hostInterface → Prop} {env : HostEnv} {links : String → LinkState}
  {cfg : Config} {healthy : List EgressInterface}

/-- A write of the chain that is a clear or the rule of a policy. -/
abbrev PolicyWrite (A : Program.Exchange hostInterface → Prop) (links : String → LinkState)
    (cfg : Config) (w : ListWrite NftRule) : Prop :=
  ∀ rule, w = .add rule → PolicyRule (fun e => A e.inr) links cfg rule

theorem emits_silent {key : String × String} {p : NetProgram Unit} {P : ListWrite NftRule → Prop}
    (h : p.Calls (fun c => LeavesChain key (.inl c))) :
    Program.Emits A (chainLog key) p.left P :=
  Program.Emits.left (Program.Emits.silent (fun _ hc => hc) h)

theorem emits_applyPolicy
    (hfixed : healthy.map (·.fixed) = (configuredHealthy links cfg).map (·.fixed))
    {policy : Policy} (hpolicy : policy ∈ cfg.enabledPolicies) :
    Program.Emits A (chainLog (chainKey cfg)) (applyPolicy applying cfg healthy policy)
      (PolicyWrite A links cfg) := by
  have hwrite : ∀ ips rule, MayFind (fun e => A e.inr) links cfg policy ips →
      rule ∈ rulesFor healthy policy ips → PolicyWrite A links cfg (.add rule) := by
    rintro ips rule hmay hrule _ ⟨⟩
    rw [rulesFor_congr hfixed] at hrule
    exact ⟨policy, hpolicy, ips, hmay, hrule⟩
  unfold applyPolicy
  cases hegress : KeyedList.lookup (·.name) policy.action.egress healthy with
  | none => exact Program.Emits.pure _
  | some egress =>
      cases hdomain : policy.matchSpec.domain with
      | none =>
          dsimp only
          rw [addPolicyRule_eq hdomain]
          refine Program.Emits.left (emits_addPolicyRuleWithMatch (hwrite [] _ ?_ ?_))
          · intro domain h
            rw [hdomain] at h
            cases h
          · rw [rulesFor_some hegress]
            simp [policySpecs, hdomain]
      | some domain =>
          dsimp only
          refine Program.Emits.bind ?_ (Program.Yields.right Program.Yields.canReturn)
            fun outcome _ hcan => Program.Emits.left ?_
          · exact Program.Emits.silent (fun _ hc => hc)
              (Program.Calls.right (fun c _ => leavesChain_cache _ c) (Program.Calls.any _))
          · cases outcome with
            | error e => exact Program.Emits.pure _
            | ok resolution =>
                refine Program.Emits.forEach fun ip hip => emits_addPolicyRuleWithMatch
                  (hwrite resolution.ips _ (fun d hd _ => ?_) ?_)
                · rw [hdomain] at hd
                  cases hd
                  exact ⟨.ok resolution, rfl, hcan⟩
                · rw [rulesFor_some hegress]
                  simp only [policySpecs, hdomain, Option.isSome_some, if_true, List.map_map]
                  exact List.mem_map.mpr ⟨ip, hip, rfl⟩

/-- However far a round has come, it has added rules of its own policies only. -/
theorem emits_reconcileOnce (hcfg : Accepted cfg) (order : MapOrder)
    (hA : ∀ e, A e → AnsweredOn env links e) :
    Program.Emits A (chainLog (chainKey cfg)) (reconcileOnce applying order cfg)
      (PolicyWrite A links cfg) := by
  have hclear : PolicyWrite A links cfg .clear := nofun
  refine Program.Emits.bind (Φ := fun _ _ => True)
    (emits_silent (calls_ensureTableAndChain_silent _ cfg)) (fun _ _ _ _ => trivial) fun _ _ _ => ?_
  refine Program.Emits.bind (Program.Emits.left (Program.Emits.silent
    (fun _ hc => leavesChain_of_readsOnly _ env.net hc) (calls_healthyEgressMap env.net cfg)))
    (yields_healthyEgressMap _ cfg hA) fun healthy _ hmap => ?_
  have hfixed := fixed_of_healthyEgresses hcfg hmap.2
  by_cases hclosed : healthy = [] ∧ cfg.runtime.failClosed = true
  · rw [if_pos hclosed]
    exact Program.Emits.left (emits_flush cfg hclear)
  · rw [if_neg hclosed]
    refine Program.Emits.bind (Φ := fun _ _ => True) (emits_silent (Program.Calls.forEach
      fun egress _ => calls_ensureEgressRoute_silent _ egress)) (fun _ _ _ _ => trivial) fun _ _ _ => ?_
    refine Program.Emits.bind (Φ := fun _ _ => True) (Program.Emits.left (emits_flush cfg hclear))
      (fun _ _ _ _ => trivial) fun _ _ _ => ?_
    exact Program.Emits.forEach fun policy hpolicy => emits_applyPolicy hfixed hpolicy

end EmittedByRound

/-! ### Processes side by side -/

/-- What runs on the host: a round, or something else. -/
inductive Process where
  | round (order : MapOrder) (cfg : Config)
  | other (p : HostProgram Unit)

namespace Process

def program : Process → HostProgram Unit
  | .round order cfg => reconcileOnce applying order cfg
  | .other p => p

def isRound : Process → Bool
  | .round _ _ => true
  | .other _ => false

/-- Rounds are for this chain, and nothing else writes to it. -/
def Fits (key : String × String) : Process → Prop
  | .round _ cfg => cfg.validate = .ok () ∧ chainKey cfg = key
  | .other p => p.Calls (LeavesChain key)

end Process

/-- The last rule that matches decides. -/
theorem markBehind_eq_lastWith {α : Type} (covers : String → Set α)
    [∀ text addr, Decidable (addr ∈ covers text)] (p : OutPacket α) (rules : List NftRule)
    (mark : UInt32) : markBehind covers p rules mark =
      ((lastWith (fun rule => rule.Matches covers p) rules).map (·.mark)).getD mark := by
  rw [← foldl_overwrite]
  simp only [decide_eq_true_eq]
  rfl

section Schedules

variable {ι : Type} [DecidableEq ι] (env : HostEnv) (procs : ι → Process) (s : HostState)
  (schedule : List ι)

/-- The processes after the steps of a schedule, and the host they share. -/
abbrev sideBySide : Program.Pool hostInterface Error Unit HostState ι :=
  Program.interleave (host env) schedule (fun i => (procs i).program, s)

/-- What one of the processes has asked and been answered. -/
abbrev told (i : ι) : List (Program.Exchange hostInterface) :=
  Program.exchangesOf i (Program.trace (host env) schedule (fun i => (procs i).program, s))

theorem host_links (c : hostInterface.Call) (s : HostState) :
    (host env c s).2.1.links = s.1.links := by
  cases c with
  | inl c => exact netHost_links env.net c s.1
  | inr c => rfl

theorem answeredOn_told (i : ι) : ∀ e ∈ told env procs s schedule i, AnsweredOn env s.1.links e := by
  intro e he
  obtain ⟨event, hevent, rfl⟩ := List.mem_map.mp he
  exact Program.given_trace (host env) (Q := fun x => x.1.links = s.1.links)
    (fun c x hx => (host_links env c x).trans hx) rfl event (List.mem_of_mem_filter hevent)

theorem path_told {i : ι} {proc : Process} (hproc : procs i = proc) :
    Program.Path proc.program (told env procs s schedule i)
      ((sideBySide env procs s schedule).1 i) := by
  subst hproc
  exact Program.path_trace (host env) i schedule (fun i => (procs i).program, s)

/-- The rules that a round has made on its way to its end. -/
theorem rebuilds_of_round {i : ι} {order : MapOrder} {cfg : Config} (hcfg : cfg.validate = .ok ())
    (hproc : procs i = .round order cfg)
    (hdone : ((sideBySide env procs s schedule).1 i).outcome = some (.ok ())) :
    ∃ rules, RoundRules (fun e => e.inr ∈ told env procs s schedule i) s.1.links cfg rules ∧
      (told env procs s schedule i).flatMap (chainLog (chainKey cfg)) = ListWrite.rebuild rules := by
  have hpath := path_told env procs s schedule hproc
  rw [Program.outcome_eq_ok.mp hdone] at hpath
  obtain ⟨rules, ⟨resolved, hpolicies, hmay, hrules⟩, hlog⟩ :=
    yields_reconcileOnce (A := fun e => AnsweredOn env s.1.links e ∧
      e ∈ told env procs s schedule i) (accepted_of_validate hcfg) order (fun e he => he.1)
      _ () (fun e he => ⟨answeredOn_told env procs s schedule i e he, he⟩) hpath
  exact ⟨rules, ⟨resolved, hpolicies, fun r hr => (hmay r hr).mono fun e he => he.2, hrules⟩, hlog⟩

theorem silent_of_other {key : String × String} {i : ι} {p : HostProgram Unit}
    (hproc : procs i = .other p) (hsilent : p.Calls (LeavesChain key)) :
    (told env procs s schedule i).flatMap (chainLog key) = [] := by
  apply List.flatMap_eq_nil_iff.mpr
  intro e he
  exact Program.calls_of_path hsilent (path_told env procs s schedule hproc) e he e.2

variable {key : String × String}

/-- What a process has written: the rules of its round, or nothing. -/
theorem rebuilds_of_process {i : ι} (hfit : (procs i).Fits key)
    (hdone : (procs i).isRound →
      ((sideBySide env procs s schedule).1 i).outcome = some (.ok ())) :
    ∃ rules, (∀ order cfg, procs i = .round order cfg →
        RoundRules (fun e => e.inr ∈ told env procs s schedule i) s.1.links cfg rules) ∧
      (told env procs s schedule i).flatMap (chainLog key) =
        (if (procs i).isRound then some rules else none).elim [] ListWrite.rebuild := by
  generalize hproc : procs i = proc at hfit hdone
  cases proc with
  | round order cfg =>
      obtain ⟨rules, hround, hlog⟩ := rebuilds_of_round env procs s schedule hfit.1 hproc (hdone rfl)
      refine ⟨rules, fun order' cfg' h => ?_, ?_⟩
      · obtain ⟨-, hcfg⟩ := Process.round.inj h
        rw [← hcfg]
        exact hround
      · rw [← hfit.2]
        exact hlog
  | other p =>
      refine ⟨[], fun _ _ h => Process.noConfusion h, ?_⟩
      exact silent_of_other env procs s schedule hproc hfit

/-- The chain is what the processes have written to it, in the order of the schedule. -/
theorem chain_sideBySide (key : String × String) :
    chainAt key (sideBySide env procs s schedule).2.1.kernel =
      ListWrite.replay (chainAt key s.1.kernel) ((Program.taggedLog (chainLog key)
        (Program.trace (host env) schedule (fun i => (procs i).program, s))).map Prod.snd) :=
  Program.observed_interleave (host env) (fun x => chainAt key x.1.kernel)
    (fun c x => chainAt_call key env c x) schedule _

theorem writesOf_taggedLog (key : String × String) (i : ι) :
    ListWrite.writesOf i (Program.taggedLog (chainLog key)
      (Program.trace (host env) schedule (fun i => (procs i).program, s))) =
        (told env procs s schedule i).flatMap (chainLog key) :=
  Program.taggedLog_of (chainLog key) i _

/-- When all the rounds for a chain have returned, in whatever order their calls came, every
packet gets the mark that one of them alone has seen to: that of the rules it made from the
answers it was given. -/
theorem marks_after_concurrent_rounds (hfits : ∀ i, (procs i).Fits key)
    (hsome : ∃ i, (procs i).isRound)
    (hdone : ∀ i, (procs i).isRound →
      ((sideBySide env procs s schedule).1 i).outcome = some (.ok ())) :
    ∃ rules : ι → List NftRule,
      (∀ i order cfg, procs i = .round order cfg →
        RoundRules (fun e => e.inr ∈ told env procs s schedule i) s.1.links cfg (rules i)) ∧
      ∀ {α : Type} (covers : String → Set α) [∀ text addr, Decidable (addr ∈ covers text)]
        (p : OutPacket α) (mark : UInt32), ∃ i, (procs i).isRound ∧
          markBehind covers p (chainAt key (sideBySide env procs s schedule).2.1.kernel) mark =
            markBehind covers p (rules i) mark := by
  choose rules hround hlog using fun i =>
    rebuilds_of_process env procs s schedule (hfits i) (hdone i)
  refine ⟨rules, hround, fun {α} covers _ p mark => ?_⟩
  set rebuilt : ι → Option (List NftRule) :=
    fun i => if (procs i).isRound then some (rules i) else none with hrebuilt
  have hwrites : ListWrite.Rebuilds rebuilt (Program.taggedLog (chainLog key)
      (Program.trace (host env) schedule (fun i => (procs i).program, s))) :=
    fun i => (writesOf_taggedLog env procs s schedule key i).trans (hlog i)
  have hactive : ∃ i, (rebuilt i).isSome := by
    obtain ⟨i, hi⟩ := hsome
    exact ⟨i, by rw [hrebuilt]; simp [hi]⟩
  obtain ⟨i, l, hl, hlast⟩ := ListWrite.lastWith_replay hwrites hactive (chainAt key s.1.kernel)
    (fun rule => rule.Matches covers p)
  rw [← chain_sideBySide] at hlast
  have hi : (procs i).isRound = true ∧ rules i = l := by
    rw [hrebuilt] at hl
    dsimp only at hl
    split_ifs at hl with hi
    exact ⟨hi, Option.some.inj hl⟩
  refine ⟨i, hi.1, ?_⟩
  rw [markBehind_eq_lastWith, markBehind_eq_lastWith, hlast, hi.2]

/-- At every moment, with rounds failing or killed anywhere, every rule in the chain has been
there from the start or is one that some round has made for a policy of its own. -/
theorem rules_of_concurrent_rounds (hfits : ∀ i, (procs i).Fits key) :
    ∀ rule ∈ chainAt key (sideBySide env procs s schedule).2.1.kernel,
      rule ∈ chainAt key s.1.kernel ∨ ∃ i order cfg, procs i = .round order cfg ∧
        PolicyRule (fun e => e.inr ∈ told env procs s schedule i) s.1.links cfg rule := by
  intro rule hrule
  rw [chain_sideBySide] at hrule
  refine (ListWrite.mem_of_mem_replay hrule).imp_right fun hadd => ?_
  obtain ⟨⟨i, w⟩, hw, hadded⟩ := List.mem_map.mp hadd
  dsimp only at hadded
  subst hadded
  have hmine : ListWrite.add rule ∈ (told env procs s schedule i).flatMap (chainLog key) := by
    rw [← writesOf_taggedLog]
    exact List.mem_map.mpr ⟨_, List.mem_filter.mpr ⟨hw, by simp⟩, rfl⟩
  have hfit := hfits i
  cases hproc : procs i with
  | other p =>
      rw [hproc] at hfit
      rw [silent_of_other env procs s schedule hproc hfit] at hmine
      cases hmine
  | round order cfg =>
      rw [hproc] at hfit
      obtain ⟨hcfg, rfl⟩ := hfit
      obtain ⟨policy, hpolicy, ips, hmay, hin⟩ :=
        emits_reconcileOnce (A := fun e => AnsweredOn env s.1.links e ∧
          e ∈ told env procs s schedule i) (accepted_of_validate hcfg) order (fun e he => he.1) _ _
          (fun e he => ⟨answeredOn_told env procs s schedule i e he, he⟩)
          (path_told env procs s schedule hproc) _ hmine rule rfl
      exact ⟨i, order, cfg, hproc, policy, hpolicy, ips, hmay.mono fun e he => he.2, hin⟩

end Schedules

/-- Rounds of two configurations for one chain. -/
def twoProcesses : Bool → Process
  | false => .round listOrder officeConfig
  | true => .round listOrder branchConfig

/-- The second round runs between the flush of the first one and its rule. -/
def betweenFlushAndRule : List Bool :=
  List.replicate 10 false ++ List.replicate 14 true ++ [false]

theorem fits_twoRounds : ∀ i, (twoProcesses i).Fits (chainKey officeConfig) := by
  intro i
  cases i with
  | false => exact ⟨by decide, rfl⟩
  | true => exact ⟨by decide, rfl⟩

/-- Both rounds return, and the chain holds the rules of both. -/
theorem marks_after_concurrent_rounds_two :
    chainAt (chainKey officeConfig)
        (sideBySide namingHost twoProcesses bareState betweenFlushAndRule).2.1.kernel =
      [officeRule, ⟨some "198.51.100.9", none, 32⟩, officeRule] ∧
    ∃ rules : Bool → List NftRule, ∀ p : OutPacket (BitVec 32), ∃ i,
      markBehind addressesOf p (chainAt (chainKey officeConfig)
        (sideBySide namingHost twoProcesses bareState betweenFlushAndRule).2.1.kernel) 0 =
          markBehind addressesOf p (rules i) 0 := by
  refine ⟨by decide +kernel, ?_⟩
  have hdone : ∀ i, (twoProcesses i).isRound → ((sideBySide namingHost twoProcesses bareState
      betweenFlushAndRule).1 i).outcome = some (.ok ()) := by
    intro i _
    cases i with
    | false => rfl
    | true => rfl
  obtain ⟨rules, -, hmarks⟩ := marks_after_concurrent_rounds namingHost twoProcesses bareState
    betweenFlushAndRule fits_twoRounds ⟨false, rfl⟩ hdone
  refine ⟨rules, fun p => ?_⟩
  obtain ⟨i, -, hmark⟩ := hmarks addressesOf p 0
  exact ⟨i, hmark⟩

/-- The second round stops after its flush, and the rule of the first one follows. -/
theorem rules_of_concurrent_rounds_two :
    officeRule ∈ chainAt (chainKey officeConfig) (sideBySide namingHost twoProcesses bareState
        (List.replicate 10 false ++ List.replicate 12 true ++ [false])).2.1.kernel ∧
    ∀ rule ∈ chainAt (chainKey officeConfig) (sideBySide namingHost twoProcesses bareState
        (List.replicate 10 false ++ List.replicate 12 true ++ [false])).2.1.kernel,
      rule ∈ chainAt (chainKey officeConfig) bareState.1.kernel ∨ ∃ i order cfg,
        twoProcesses i = .round order cfg ∧ PolicyRule (fun e => e.inr ∈ told namingHost twoProcesses
          bareState (List.replicate 10 false ++ List.replicate 12 true ++ [false]) i)
          bareState.1.links cfg rule :=
  ⟨by decide +kernel, rules_of_concurrent_rounds namingHost twoProcesses bareState _ fits_twoRounds⟩

end EveNet
