import EveNet.Delivered

/-!
# Where the addresses in the chain come from

Whatever the proxy, the refreshes and the rounds have done before it, a round that returns
leaves rules with the policies' own addresses and with addresses that somebody has given for
the policies' domains: the resolver, in a lookup of one of the turns, or an upstream, in its
answer to a query of one of the turns. How long ago that was is bounded by the time to live and
the grace period.
-/

namespace EveNet

/-! ### Lookups -/

section Lookups

variable {env : CacheEnv} {cfg : Config} {s t : CacheStore} {answer : DnsCacheEntry}

/-- The resolver gave the answer between two calls, and it has the time of a call just before. -/
def LookedUp (env : CacheEnv) (first last : ℕ) (answer : DnsCacheEntry) : Prop :=
  ∃ j k, first ≤ j ∧ j ≤ k ∧ k ≤ j + 2 ∧ k < last ∧ answer.resolvedAtEpoch = env.clock j ∧
    answerAt env k answer.domain = .ok answer.resolvedIpv4

theorem LookedUp.mono {m m' n n' : ℕ} (h : LookedUp env m n answer) (hm : m' ≤ m) (hn : n ≤ n') :
    LookedUp env m' n' answer := by
  obtain ⟨j, k, hj, hjk, hkj, hk, hrest⟩ := h
  exact ⟨j, k, hm.trans hj, hjk, hkj, hk.trans_le hn, hrest⟩

/-- A resolution that finds nothing fresh in the file asks the resolver. -/
theorem calls_of_asked {domain name : String} {writeCache : Bool} {mode : RefreshMode}
    (hname : normalizeDomain domain = .ok name)
    (hloads : cacheLoads env cfg s (s.calls + 1) = true)
    (hasked : freshEntry mode ((s.files cfg.dnsCache.path).find name) (env.clock s.calls) = none) :
    s.calls + 2 <
      (Program.run (cacheHost env) (resolveWithMode cfg domain writeCache mode) s).2.calls := by
  obtain ⟨henabled, hreads, hcontent⟩ := of_decide_eq_true hloads
  rcases run_loadCacheOrEmpty env cfg.dnsCache.path s.tick with ⟨e, -, hfails | hfile⟩ | hload
  · exact absurd hreads hfails
  · exact absurd hfile hcontent
  · have hnone : freshEntry mode ((loadedFile (s.tick.files cfg.dnsCache.path)).find name)
        (env.clock s.calls) = none := by
      rw [find_loadedFile]
      exact hasked
    rw [run_resolveWithMode writeCache mode s henabled hname, Program.run_bind_ok _ hload,
      resolveFrom, hnone]
    unfold resolveLive resolveDomainV4
    rw [normalizeDomain_normalized hname]
    exact calls_run_lt env (.lookup name) _ s.tick.tick

theorem lookedUp_resolveEvents {domain : String} {writeCache : Bool} {mode : RefreshMode}
    (h : .answered answer ∈ resolveEvents env cfg domain writeCache mode s) :
    LookedUp env s.calls
      (Program.run (cacheHost env) (resolveWithMode cfg domain writeCache mode) s).2.calls
      answer := by
  unfold resolveEvents at h
  cases hname : normalizeDomain domain with
  | error e => simp [hname] at h
  | ok name =>
      simp only [hname] at h
      split_ifs at h with hcond
      · rw [List.mem_singleton] at h
        cases hanswer : answerAt env (s.calls + 2) name with
        | error error =>
            rw [hanswer] at h
            cases h
        | ok ips =>
            rw [hanswer] at h
            obtain rfl := CacheEvent.answered.inj h
            exact ⟨s.calls, s.calls + 2, le_rfl, by omega, le_rfl,
              calls_of_asked hname hcond.2.1 hcond.2.2, rfl, hanswer⟩
      · cases h

theorem lookedUp_refreshEvents {writeCache : Bool} {domains : List String}
    (h : .answered answer ∈ refreshEvents env cfg writeCache domains s) :
    LookedUp env s.calls
      (Program.run (cacheHost env) (refreshEach cfg writeCache domains) s).2.calls answer := by
  induction domains generalizing s with
  | nil => cases h
  | cons domain domains ih =>
      rw [refreshEach, Program.bind_eq]
      rcases hrun : Program.run (cacheHost env) (refreshDomain cfg domain writeCache) s with
        ⟨e | res, t⟩
      · rw [Program.run_bind_error _ hrun]
        rcases List.mem_append.mp h with h | h
        · have hlooked := lookedUp_resolveEvents h
          rw [← refreshDomain, hrun] at hlooked
          exact hlooked
        · rw [hrun] at h
          cases h
      · rw [Program.run_bind_ok _ hrun, Program.bind_eq]
        simp only [Program.pure_eq, Program.run_bind_pure_state]
        have hstart : s.calls ≤ t.calls := by
          have hle := calls_run_le env (refreshDomain cfg domain writeCache) s
          rwa [hrun] at hle
        rcases List.mem_append.mp h with h | h
        · have hlooked := lookedUp_resolveEvents h
          rw [← refreshDomain, hrun] at hlooked
          exact hlooked.mono le_rfl (calls_run_le env _ t)
        · rw [hrun] at h
          exact (ih h).mono hstart le_rfl

/-- The proxy handed over the addresses that it has cached. -/
def HandedOver (env : CacheEnv) (s : CacheStore) (op : CacheOp) (answer : DnsCacheEntry) : Prop :=
  ∃ domain ips writeCache, op = .proxy domain ips writeCache ∧
    normalizeDomain domain = .ok answer.domain ∧ answer.resolvedIpv4 = uniqueSorted ips ∧
    answer.resolvedAtEpoch = env.clock (s.calls + 1)

/-- An answer of an operation was looked up in it, or handed over to it. -/
theorem origin_of_event {op : CacheOp} (h : .answered answer ∈ op.events env cfg s) :
    LookedUp env s.calls (op.run env cfg s).calls answer ∨ HandedOver env s op answer := by
  cases op with
  | runtime domain writeCache =>
      rw [CacheOp.events] at h
      rw [CacheOp.run, resolveForRuntime]
      exact Or.inl (lookedUp_resolveEvents h)
  | refresh domain writeCache =>
      rw [CacheOp.events] at h
      rw [CacheOp.run, refreshDomain]
      exact Or.inl (lookedUp_resolveEvents h)
  | refreshAll writeCache =>
      rw [CacheOp.events] at h
      rw [CacheOp.run, refreshDomainPolicies]
      cases hdomains : enabledDomains cfg with
      | error e => simp [hdomains] at h
      | ok domains =>
          rw [hdomains] at h
          exact Or.inl (lookedUp_refreshEvents h)
  | prune writeCache => cases h
  | proxy domain ips writeCache =>
      rw [CacheOp.events, proxyEvents] at h
      cases hname : normalizeDomain domain with
      | error e => simp [hname] at h
      | ok name =>
          simp only [hname] at h
          split_ifs at h
          · obtain rfl := CacheEvent.answered.inj (List.mem_singleton.mp h)
            exact Or.inr ⟨domain, ips, writeCache, rfl, hname, rfl, rfl⟩
          · cases h

theorem origin_of_single {op : CacheOp} (h : .answered answer ∈ story env cfg [op] s) :
    LookedUp env s.calls (runOps env cfg [op] s).calls answer ∨ HandedOver env s op answer := by
  rw [story, story, List.append_nil] at h
  exact origin_of_event h

theorem story_append (ops ops' : List CacheOp) (s : CacheStore) :
    story env cfg (ops ++ ops') s = story env cfg ops s ++ story env cfg ops' (runOps env cfg ops s) := by
  induction ops generalizing s with
  | nil => rfl
  | cons op ops ih =>
      rw [List.cons_append, story, ih, story, List.append_assoc]
      rfl

theorem runOps_append (ops ops' : List CacheOp) (s : CacheStore) :
    runOps env cfg (ops ++ ops') s = runOps env cfg ops' (runOps env cfg ops s) :=
  List.foldl_append

/-- Without insertions of the proxy, everything was looked up. -/
theorem lookedUp_story {ops : List CacheOp} (hops : ∀ op ∈ ops, ∃ domain writeCache,
      op = .runtime domain writeCache) (h : .answered answer ∈ story env cfg ops s) :
    LookedUp env s.calls (runOps env cfg ops s).calls answer := by
  induction ops generalizing s with
  | nil => cases h
  | cons op ops ih =>
      obtain ⟨domain, writeCache, rfl⟩ := hops op List.mem_cons_self
      have hrest := fun o ho => hops o (List.mem_cons_of_mem _ ho)
      have hcons : runOps env cfg (.runtime domain writeCache :: ops) s =
          runOps env cfg ops (CacheOp.run env cfg s (.runtime domain writeCache)) :=
        List.foldl_cons
      have hfirst : s.calls ≤ (CacheOp.run env cfg s (.runtime domain writeCache)).calls :=
        calls_op_le _
      rw [story] at h
      rw [hcons]
      rcases List.mem_append.mp h with h | h
      · rcases origin_of_event h with hlooked | ⟨_, _, _, hop, -⟩
        · exact hlooked.mono le_rfl (calls_runOps_le ops)
        · cases hop
      · exact (ih hrest h).mono hfirst le_rfl

/-! ### What a resolution returns -/

theorem recentEnough_now {now : UInt64} (httl : cfg.dnsCache.ttlSec ≠ 0)
    (hat : answer.resolvedAtEpoch = now) : RecentEnough cfg now answer := by
  have hpos : 0 < cfg.dnsCache.ttlSec.toNat := by
    apply Nat.pos_of_ne_zero
    intro hzero
    exact httl (UInt64.toNat_inj.mp hzero)
  rw [RecentEnough, hat]
  refine ⟨UInt64.le_refl _, ?_, fun _ => ?_⟩
  · omega
  · omega

/-- An address that a resolution returns is one of an answer that the file holds or that this
resolution has obtained, and the answer is recent enough. -/
theorem answer_of_resolution {events : List CacheEvent} {domain ip : String}
    {res : DomainResolution} (httl : cfg.dnsCache.ttlSec ≠ 0)
    (hclock : ∀ i j, i ≤ j → env.clock i ≤ env.clock j)
    (htold : Told (s.files cfg.dnsCache.path) events)
    (hdated : ∀ answer, .answered answer ∈ events → Dated env cfg s.calls answer)
    (hrun : Program.run (cacheHost env) (resolveForRuntime cfg domain true) s = (.ok res, t))
    (hip : ip ∈ res.ips) :
    ∃ answer, normalizeDomain domain = .ok answer.domain ∧ ip ∈ answer.resolvedIpv4 ∧
      RecentEnough cfg (env.clock s.calls) answer ∧
      (.answered answer ∈ events ∨ LookedUp env s.calls t.calls answer) := by
  rw [resolveForRuntime] at hrun
  have hips : res.ips ≠ [] := List.ne_nil_of_mem hip
  cases hname : normalizeDomain domain with
  | error e =>
      rw [run_resolveWithMode_refused true .preferFreshCache s hname] at hrun
      cases hrun
  | ok name =>
      cases henabled : cfg.dnsCache.enabled with
      | false =>
          obtain ⟨r, hrun', hanswer⟩ :=
            run_resolveWithMode_disabled true .preferFreshCache s henabled hname
          rw [hrun', Prod.mk.injEq] at hrun
          obtain ⟨hres, rfl⟩ := hrun
          refine ⟨answerEntry cfg name res.ips (env.clock s.calls) "live", rfl, hip,
            recentEnough_now httl rfl, Or.inr ⟨s.calls, s.calls, le_rfl, le_rfl, ?_, ?_, rfl, ?_⟩⟩
          · exact Nat.le_add_right _ _
          · exact Nat.lt_succ_self _
          · exact hanswer res hres hips
      | true =>
          -- an entry that is served is an answer of the story, with its times
          have hentry : ∀ entry, (s.files cfg.dnsCache.path).find name = some entry →
              ∃ answer, .answered answer ∈ events ∧ answer.domain = name ∧
                answer.resolvedIpv4 = entry.resolvedIpv4 ∧
                ∃ k ≤ s.calls, answer.resolvedAtEpoch = env.clock k ∧
                  entry.expiresAtEpoch = saturatingAdd (env.clock k) cfg.dnsCache.ttlSec := by
            intro entry hfind
            obtain ⟨answer, hmem, hdomain, hsame⟩ := htold name entry hfind
            obtain ⟨k, hk, hat, hexpires⟩ := hdated answer hmem
            have hsameIps : answer.answer.resolvedIpv4 = entry.answer.resolvedIpv4 := by rw [hsame]
            have hsameExpires : answer.answer.expiresAtEpoch = entry.answer.expiresAtEpoch := by
              rw [hsame]
            exact ⟨answer, hmem, hdomain, hsameIps, k, hk, hat, hsameExpires.symm.trans hexpires⟩
          have hfirst : (Program.run (cacheHost env)
              (resolveWithMode cfg domain true .preferFreshCache) s).1 = .ok res := by rw [hrun]
          rcases resolveWithMode_cases env true .preferFreshCache s henabled hname with
            ⟨e, hrun', -⟩ | ⟨e, hrun', -⟩ | ⟨res', hok, hgood⟩
          · rw [hrun'] at hrun
            cases hrun
          · rw [hrun] at hrun'
            cases hrun'
          · rw [hrun] at hok hgood
            obtain rfl := Except.ok.inj hok
            generalize (Except.ok res, t).2.files cfg.dnsCache.path = after at hgood
            cases hgood with
            | fresh entry hfind hmode hnow _ =>
                obtain ⟨answer, hmem, hdomain, hsame, k, hk, hat, hexpires⟩ := hentry entry hfind
                refine ⟨answer, by rw [hdomain], by rw [hsame]; exact hip, ?_, Or.inl hmem⟩
                exact recentEnough_of_fresh hat (hclock k _ hk) (hexpires ▸ hnow)
            | live hasked hanswer =>
                have hlooked := lookedUp_resolveEvents
                  (answered_of_live henabled hname hasked hanswer hfirst)
                rw [hrun] at hlooked
                exact ⟨_, rfl, hip, recentEnough_now httl rfl, Or.inr hlooked⟩
            | unknown error hasked hanswer hfind => exact absurd rfl hips
            | stale entry error hasked hanswer hfind hstale =>
                obtain ⟨answer, hmem, hdomain, hsame, k, hk, hat, hexpires⟩ := hentry entry hfind
                refine ⟨answer, by rw [hdomain], by rw [hsame]; exact hip, ?_, Or.inl hmem⟩
                exact recentEnough_of_stale hat (hclock k _ hk) hexpires hstale
            | expired entry error hasked hanswer hfind hstale => exact absurd rfl hips

end Lookups

/-! ### Answers of the turns -/

section Turns

variable {env : SystemEnv} {cfg : Config} {s : SystemState} {answer : DnsCacheEntry}

/-- The turn is a query, and the answer has the addresses in an upstream's reply to it. -/
def FromUpstream (env : SystemEnv) (cfg : Config) (s : SystemState) (turn : Turn)
    (answer : DnsCacheEntry) : Prop :=
  ∃ datagram reply question ips, turn = .query datagram ∧
    parseQuestion (datagram.take bufferSize) = .ok question ∧
    firstAnswer env.udp (datagram.take bufferSize) cfg.dnsInterception.timeoutMs s.exchanges
      cfg.dnsInterception.effectiveUpstreams = some reply ∧
    parseARecords (reply.take bufferSize) = .ok ⟨ips⟩ ∧
    normalizeDomain question.domain = .ok answer.domain ∧ answer.resolvedIpv4 = uniqueSorted ips ∧
    answer.resolvedAtEpoch = env.cache.clock (s.cache.calls + 1)

/-- The answer is obtained in the turn, from the resolver or from an upstream. -/
def Learnt (env : SystemEnv) (cfg : Config) (s : SystemState) (turn : Turn)
    (answer : DnsCacheEntry) : Prop :=
  LookedUp env.cache s.cache.calls (turn.run env cfg s).cache.calls answer ∨
    FromUpstream env cfg s turn answer

/-- The answer is obtained in one of the turns. -/
def LearntIn (env : SystemEnv) (cfg : Config) (s : SystemState) (turns : List Turn)
    (answer : DnsCacheEntry) : Prop :=
  ∃ before turn after, turns = before ++ turn :: after ∧
    Learnt env cfg (runTurns env cfg before s) turn answer

theorem LearntIn.append {turns : List Turn} (h : LearntIn env cfg s turns answer)
    (later : List Turn) : LearntIn env cfg s (turns ++ later) answer := by
  obtain ⟨before, turn, after, rfl, hlearnt⟩ := h
  exact ⟨before, turn, after ++ later, by simp, hlearnt⟩

theorem LearntIn.cons {turn : Turn} {turns : List Turn}
    (h : LearntIn env cfg (turn.run env cfg s) turns answer) :
    LearntIn env cfg s (turn :: turns) answer := by
  obtain ⟨before, later, after, rfl, hlearnt⟩ := h
  exact ⟨turn :: before, later, after, rfl, hlearnt⟩

theorem runtime_of_mem_resolutionsOf {egresses : List EgressInterface} {policies : List Policy} :
    ∀ op ∈ resolutionsOf egresses policies, ∃ domain writeCache,
      op = .runtime domain writeCache := by
  induction policies with
  | nil =>
      intro op hop
      cases hop
  | cons policy policies ih =>
      intro op hop
      rw [resolutionsOf] at hop
      split at hop
      · rcases List.mem_cons.mp hop with rfl | hop
        · exact ⟨_, _, rfl⟩
        · exact ih op hop
      · exact ih op hop

/-- What a turn puts into the cache it has learnt. -/
theorem learnt_of_does {turn : Turn} {ops : List CacheOp} (hdoes : Does env cfg s turn ops)
    (hcache : (turn.run env cfg s).cache = runOps env.cache cfg ops s.cache)
    (h : .answered answer ∈ story env.cache cfg ops s.cache) : Learnt env cfg s turn answer := by
  cases hdoes with
  | passed datagram => cases h
  | changed net => cases h
  | accepted hquestion hA hpolicy hanswer hrecords =>
      rcases origin_of_single h with hlooked | ⟨domain, ips, writeCache, hop, hname, hips, hat⟩
      · rw [Learnt, hcache]
        exact Or.inl hlooked
      · obtain ⟨rfl, rfl, rfl⟩ := CacheOp.proxy.inj hop
        exact Or.inr ⟨_, _, _, _, rfl, hquestion, hanswer, hrecords, hname, hips, hat⟩
  | refreshed =>
      rcases origin_of_single h with hlooked | ⟨_, _, _, hop, -⟩
      · rw [Learnt, hcache]
        exact Or.inl hlooked
      · cases hop
  | resolved hpart =>
      rw [Learnt, hcache]
      exact Or.inl (lookedUp_story runtime_of_mem_resolutionsOf h)

variable (env) in
/-- The turns do to the cache what some operations do, and the answers of these operations are
learnt in the turns. -/
theorem learnt_turns (hcfg : Accepted cfg) (turns : List Turn) (s : SystemState) :
    ∃ ops, (runTurns env cfg turns s).cache = runOps env.cache cfg ops s.cache ∧
      ∀ answer, .answered answer ∈ story env.cache cfg ops s.cache →
        LearntIn env cfg s turns answer := by
  induction turns generalizing s with
  | nil => exact ⟨[], rfl, fun answer h => by cases h⟩
  | cons turn turns ih =>
      obtain ⟨ops, hdoes, hcache⟩ := does_turn env s hcfg turn
      obtain ⟨later, hlater, hlearnt⟩ := ih (turn.run env cfg s)
      refine ⟨ops ++ later, ?_, ?_⟩
      · rw [runOps_append, ← hcache]
        exact hlater
      · intro answer h
        rw [story_append, ← hcache] at h
        rcases List.mem_append.mp h with h | h
        · exact ⟨[], turn, turns, rfl, learnt_of_does hdoes hcache h⟩
        · exact (hlearnt answer h).cons

end Turns

/-! ### Addresses in the chain -/

section Chain

variable {env : SystemEnv} {cfg : Config} {s : SystemState} {v : HostState} {rule : NftRule}

/-- The addresses of a policy are found after the resolutions of the policies before it. -/
theorem split_of_mem_resolutions {cache : CacheEnv} {egresses : List EgressInterface}
    {policies : List Policy} {store : CacheStore} {r : Policy × List String}
    (h : r ∈ resolutions cache cfg egresses policies store) :
    ∃ before after, policies = before ++ r.1 :: after ∧
      r.2 = (resolvePolicy cache cfg egresses r.1
        (cacheAfter cache cfg egresses before store)).1 := by
  induction policies generalizing store with
  | nil => cases h
  | cons policy policies ih =>
      rcases List.mem_cons.mp h with rfl | h
      · exact ⟨[], policies, rfl, rfl⟩
      · obtain ⟨before, after, rfl, hips⟩ := ih h
        exact ⟨policy :: before, after, rfl, hips⟩

/-- The rule's address was given for the policy's domain in one of the turns, and was recent
enough when the round, between two calls, resolved the domain. -/
def LearntAddress (env : SystemEnv) (cfg : Config) (s : SystemState) (turns : List Turn)
    (first last : ℕ) (policy : Policy) (rule : NftRule) : Prop :=
  ∃ domain ip answer k, policy.matchSpec.domain = some domain ∧ rule.daddr = some ip ∧
    normalizeDomain domain = .ok answer.domain ∧ ip ∈ answer.resolvedIpv4 ∧
    LearntIn env cfg s turns answer ∧ first ≤ k ∧ k < last ∧
    RecentEnough cfg (env.cache.clock k) answer

/-- An address of a rule comes from the resolution of the policy's domain. -/
theorem resolution_of_address {egresses : List EgressInterface} {policy : Policy}
    {cache : CacheEnv} {store : CacheStore} {domain ip : String}
    (hdomain : policy.matchSpec.domain = some domain)
    (hip : ip ∈ (resolvePolicy cache cfg egresses policy store).1) :
    ∃ res t, Program.run (cacheHost cache) (resolveForRuntime cfg domain true) store = (.ok res, t) ∧
      ip ∈ res.ips ∧ (resolvePolicy cache cfg egresses policy store).2 = t := by
  unfold resolvePolicy at hip ⊢
  cases hegress : KeyedList.lookup (·.name) policy.action.egress egresses with
  | none =>
      rw [hegress] at hip
      cases hip
  | some egress =>
      rw [hegress, hdomain] at hip
      rw [hdomain]
      dsimp only at hip ⊢
      rcases hrun : Program.run (cacheHost cache) (resolveForRuntime cfg domain true) store with
        ⟨e | res, t⟩
      · rw [hrun] at hip
        cases hip
      · rw [hrun] at hip
        exact ⟨res, t, rfl, hip, rfl⟩

theorem calls_of_resolution {cache : CacheEnv} {store t : CacheStore} {domain : String}
    {res : DomainResolution}
    (hrun : Program.run (cacheHost cache) (resolveForRuntime cfg domain true) store = (.ok res, t)) :
    store.calls < t.calls := by
  rw [resolveForRuntime] at hrun
  cases hname : normalizeDomain domain with
  | error e =>
      rw [run_resolveWithMode_refused true .preferFreshCache store hname] at hrun
      cases hrun
  | ok name =>
      cases henabled : cfg.dnsCache.enabled with
      | false =>
          obtain ⟨r, hrun', -⟩ :=
            run_resolveWithMode_disabled true .preferFreshCache store henabled hname
          rw [hrun', Prod.mk.injEq] at hrun
          rw [← hrun.2]
          exact Nat.lt_succ_self _
      | true =>
          have hcalls := calls_resolve cache true .preferFreshCache store henabled hname
          rw [hrun] at hcalls
          exact Nat.lt_of_succ_lt hcalls

/-- An address that a round finds for a policy, after any turns since there was no cache file. -/
theorem learnt_of_resolved {egresses : List EgressInterface} {policy : Policy}
    {before : List Policy} {domain ip : String} {last : ℕ} (hcfg : Accepted cfg)
    (hclock : ∀ i j, i ≤ j → env.cache.clock i ≤ env.cache.clock j)
    (htorn : TornUnreadable env.cache) (hstart : s.cache.files cfg.dnsCache.path = .absent)
    (turns : List Turn) (hdomain : policy.matchSpec.domain = some domain)
    (hip : ip ∈ (resolvePolicy env.cache cfg egresses policy
      (cacheAfter env.cache cfg egresses before (runTurns env cfg turns s).cache)).1)
    (hafter : (resolvePolicy env.cache cfg egresses policy
      (cacheAfter env.cache cfg egresses before (runTurns env cfg turns s).cache)).2.calls ≤ last)
    (hlast : last ≤ (Turn.run env cfg (runTurns env cfg turns s) .reconcile).cache.calls) :
    ∃ answer k, normalizeDomain domain = .ok answer.domain ∧ ip ∈ answer.resolvedIpv4 ∧
      LearntIn env cfg s (turns ++ [.reconcile]) answer ∧
      (runTurns env cfg turns s).cache.calls ≤ k ∧ k < last ∧
      RecentEnough cfg (env.cache.clock k) answer := by
  obtain ⟨ops, hops, hlearnt⟩ := learnt_turns env hcfg turns s
  have hempty : Told (s.cache.files cfg.dnsCache.path) [] := by
    intro d entry hentry
    rw [hstart] at hentry
    cases hentry
  have htold := told_ops (ops ++ resolutionsOf egresses before) htorn hempty
  have hdated : ∀ answer,
      .answered answer ∈ story env.cache cfg (ops ++ resolutionsOf egresses before) s.cache →
        Dated env.cache cfg
          (runOps env.cache cfg (ops ++ resolutionsOf egresses before) s.cache).calls answer :=
    fun _ => dated_story
  have hbefore := calls_cacheAfter_le env.cache cfg egresses before (runTurns env cfg turns s).cache
  rw [List.nil_append] at htold
  rw [runOps_append, ← hops, ← cacheAfter_eq_runOps] at htold hdated
  obtain ⟨res, t, hrun, hmem, ht⟩ := resolution_of_address hdomain hip
  have hnow := calls_of_resolution hrun
  rw [ht] at hafter
  obtain ⟨answer, hname, hanswer, hrecent, horigin⟩ :=
    answer_of_resolution hcfg.ttlSec hclock htold hdated hrun hmem
  refine ⟨answer, _, hname, hanswer, ?_, hbefore, hnow.trans_le hafter, hrecent⟩
  -- what the round itself has looked up, it has looked up between its first and its last call
  have hround : ∀ {m n : ℕ}, LookedUp env.cache m n answer →
      (runTurns env cfg turns s).cache.calls ≤ m → n ≤ last →
      LearntIn env cfg s (turns ++ [.reconcile]) answer := by
    intro m n hlooked hm hn
    exact ⟨turns, .reconcile, [], rfl, Or.inl (hlooked.mono hm (hn.trans hlast))⟩
  rcases horigin with hstory | hlooked
  · rw [story_append] at hstory
    rcases List.mem_append.mp hstory with hearlier | hfirst
    · exact (hlearnt answer hearlier).append _
    · rw [← hops] at hfirst
      have hlooked := lookedUp_story runtime_of_mem_resolutionsOf hfirst
      rw [← cacheAfter_eq_runOps] at hlooked
      exact hround hlooked le_rfl (hnow.le.trans hafter)
  · exact hround hlooked hbefore hafter

/-- The rules that a round leaves, after any turns since there was no cache file, with a clock
that never goes back: each belongs to an enabled policy with a usable egress, and has the
destination of the policy, or an address that was given for its domain in one of the turns and is
no older than the configuration allows. -/
theorem addresses_learnt (hcfg : cfg.validate = .ok ())
    (hclock : ∀ i j, i ≤ j → env.cache.clock i ≤ env.cache.clock j)
    (htorn : TornUnreadable env.cache) (hstart : s.cache.files cfg.dnsCache.path = .absent)
    (turns : List Turn)
    (hround : Program.run (host ⟨env.net, env.cache⟩) (reconcileOnce applying
      (env.order (runTurns env cfg turns s).rounds) cfg) (runTurns env cfg turns s).host =
        (.ok (), v))
    (hrule : rule ∈ policyChain cfg v.1.kernel) :
    ∃ policy ∈ cfg.enabledPolicies,
      ∃ egress ∈ configuredHealthy (runTurns env cfg turns s).net.links cfg,
        egress.name = policy.action.egress ∧ rule.mark = egress.fwmark ∧
        rule.skuid = policy.matchSpec.uid ∧
        (policy.matchSpec.domain = none ∧ rule.daddr = matchDest policy.matchSpec ∨
          LearntAddress env cfg s (turns ++ [.reconcile])
            (runTurns env cfg turns s).cache.calls v.2.calls policy rule) := by
  have haccepted := accepted_of_validate hcfg
  have hend := resolvesUpTo_reconcileOnce ⟨env.net, env.cache⟩
    (env.order (runTurns env cfg turns s).rounds) haccepted
    (runTurns env cfg turns s).host
  rw [hround] at hend
  obtain ⟨done, -, hcache, hwhole⟩ := hend
  rw [hwhole rfl] at hcache
  rw [chain_reconcileOnce ⟨env.net, env.cache⟩ haccepted hround, mem_chainOf_iff] at hrule
  obtain ⟨r, hr, egress, hegress, hrule⟩ := hrule
  obtain ⟨before, after, hsplit, hips⟩ := split_of_mem_resolutions hr
  refine ⟨r.1, fst_mem_of_mem_resolutions hr, egress, KeyedList.mem_of_lookup _ hegress,
    KeyedList.key_of_lookup _ hegress, mark_of_mem_policyRules hrule, ?_⟩
  cases hdomain : r.1.matchSpec.domain with
  | none =>
      rw [policyRules, hdomain] at hrule
      obtain rfl := List.mem_singleton.mp hrule
      exact ⟨rfl, Or.inl ⟨rfl, rfl⟩⟩
  | some domain =>
      rw [policyRules, hdomain] at hrule
      obtain ⟨ip, hip, rfl⟩ := List.mem_map.mp hrule
      rw [hips] at hip
      rw [hsplit, cacheAfter_append, cacheAfter] at hcache
      have hlater := calls_cacheAfter_le env.cache cfg
        (configuredHealthy (runTurns env cfg turns s).net.links cfg) after
        (resolvePolicy env.cache cfg (configuredHealthy (runTurns env cfg turns s).net.links cfg)
          r.1 (cacheAfter env.cache cfg
            (configuredHealthy (runTurns env cfg turns s).net.links cfg) before
            (runTurns env cfg turns s).cache)).2
      have hlast : v.2.calls ≤
          (Turn.run env cfg (runTurns env cfg turns s) .reconcile).cache.calls := by
        rw [Turn.run, hround]
      obtain ⟨answer, k, hname, hanswer, hlearnt, hfirst, hk, hrecent⟩ :=
        learnt_of_resolved haccepted hclock htorn hstart turns hdomain hip
          (hlater.trans_eq (congrArg CacheStore.calls hcache.symm)) hlast
      exact ⟨rfl, Or.inr ⟨domain, ip, answer, k, hdomain, rfl, hname, hanswer, hlearnt, hfirst, hk,
        hrecent⟩⟩

end Chain

/-- A round on the host on which the proxy has answered its first query. -/
def secondTurn : Except Error Unit × HostState :=
  Program.run (host ⟨rotatingHost.net, rotatingHost.cache⟩)
    (reconcileOnce applying (rotatingHost.order 0) domainConfig)
    (runTurns rotatingHost domainConfig [.query hostQuery.datagram] firstTurn).host

theorem addresses_learnt_host :
    ∃ policy ∈ domainConfig.enabledPolicies,
      ∃ egress ∈ configuredHealthy (runTurns rotatingHost domainConfig
          [.query hostQuery.datagram] firstTurn).net.links domainConfig,
        egress.name = policy.action.egress ∧ 16 = egress.fwmark ∧ none = policy.matchSpec.uid ∧
        (policy.matchSpec.domain = none ∧ some "192.0.2.1" = matchDest policy.matchSpec ∨
          LearntAddress rotatingHost domainConfig firstTurn [.query hostQuery.datagram, .reconcile]
            (runTurns rotatingHost domainConfig [.query hostQuery.datagram] firstTurn).cache.calls
            secondTurn.2.2.calls policy ⟨some "192.0.2.1", none, 16⟩) := by
  have htorn : TornUnreadable rotatingHost.cache := fun k cause left h => by cases h
  have hround : secondTurn = (.ok (), secondTurn.2) := Prod.ext (by decide +kernel) rfl
  have hrule : ⟨some "192.0.2.1", none, 16⟩ ∈ policyChain domainConfig secondTurn.2.1.kernel := by
    decide +kernel
  exact addresses_learnt (by decide) (fun _ _ _ => UInt64.le_refl _) htorn rfl
    [.query hostQuery.datagram] hround hrule

end EveNet
