import EveNet.ProxyToChain
import EveNet.UpstreamSockets
import EveNet.Staleness

/-!
# Delivered addresses

The proxy, the refreshes and the rounds take turns on one host. The addresses that the proxy
has delivered for a policy domain stay in the cache file until another answer for the domain
is obtained: an answer replaces the one before it, it does not add to it.
-/

namespace EveNet

/-! ### What an operation keeps -/

section Kept

variable {env : CacheEnv} {cfg : Config} {d : String} {content after : FileContent}
  {events : List CacheEvent} {s : CacheStore}

/-- No write breaks off. -/
def NeverTorn (env : CacheEnv) : Prop := ∀ k cause left, env.writes k ≠ .interrupted cause left

/-- The answer for the domain is kept, or another one was obtained for it. -/
def Kept (d : String) (content : FileContent) (events : List CacheEvent) (after : FileContent) :
    Prop :=
  ∀ entry, content.find d = some entry →
    (∃ held, after.find d = some held ∧ held.answer = entry.answer) ∨
      ∃ answer, .answered answer ∈ events ∧ answer.domain = d

theorem Kept.refl (events : List CacheEvent) : Kept d content events content :=
  fun entry hentry => Or.inl ⟨entry, hentry, rfl⟩

theorem Kept.trans {later : List CacheEvent} {last : FileContent}
    (h : Kept d content events after) (h' : Kept d after later last) :
    Kept d content (events ++ later) last := by
  intro entry hentry
  rcases h entry hentry with ⟨held, hheld, hsame⟩ | ⟨answer, hmem, hdomain⟩
  · rcases h' held hheld with ⟨held', hheld', hsame'⟩ | ⟨answer, hmem, hdomain⟩
    · exact Or.inl ⟨held', hheld', hsame'.trans hsame⟩
    · exact Or.inr ⟨answer, List.mem_append_right _ hmem, hdomain⟩
  · exact Or.inr ⟨answer, List.mem_append_left _ hmem, hdomain⟩

theorem Kept.leftBehind {good : FileContent → Prop} (hatomic : NeverTorn env)
    (hleft : LeftBehind env good content after) : Kept d content events after := by
  rcases hleft with rfl | ⟨k, cause, left, file, hbroken, -⟩
  · exact Kept.refl events
  · exact absurd hbroken (hatomic k cause left)

theorem Kept.saved {entry : DnsCacheEntry} (h : .answered entry ∈ events) :
    Kept d content events (savedOver content entry) := by
  intro held hheld
  by_cases hd : entry.domain = d
  · exact Or.inr ⟨entry, h, hd⟩
  · exact Or.inl ⟨held, by rw [find_savedOver, if_neg hd, hheld], rfl⟩

theorem Kept.noted {entry : DnsCacheEntry} {name error : String} {writeCache : Bool}
    (hentry : content.find name = some entry) :
    Kept d content events
      (savedIf writeCache content { entry with lastError := some error }) := by
  cases writeCache with
  | false => exact Kept.refl events
  | true =>
      intro held hheld
      left
      rw [savedIf, if_pos rfl, find_savedOver]
      by_cases hd : entry.domain = d
      · have hname : entry.domain = name := domain_of_find hentry
        rw [← hname, hd, hheld, Option.some.injEq] at hentry
        exact ⟨_, if_pos hd, by rw [hentry]; rfl⟩
      · exact ⟨held, by rw [if_neg hd, hheld], rfl⟩

theorem kept_resolve (domain : String) (writeCache : Bool) (mode : RefreshMode)
    (hatomic : NeverTorn env) :
    Kept d (s.files cfg.dnsCache.path) (resolveEvents env cfg domain writeCache mode s)
      ((Program.run (cacheHost env) (resolveWithMode cfg domain writeCache mode) s).2.files
        cfg.dnsCache.path) := by
  cases hname : normalizeDomain domain with
  | error e =>
      rw [run_resolveWithMode_refused writeCache mode s hname]
      exact Kept.refl _
  | ok name =>
      cases henabled : cfg.dnsCache.enabled with
      | false =>
          obtain ⟨r, hrun, -⟩ := run_resolveWithMode_disabled writeCache mode s henabled hname
          rw [hrun]
          exact Kept.refl _
      | true =>
          rcases resolveWithMode_cases env writeCache mode s henabled hname with
            ⟨e, hrun, -⟩ | ⟨e, -, hleft, -⟩ | ⟨res, hok, hgood⟩
          · rw [hrun]
            exact Kept.refl _
          · exact Kept.leftBehind hatomic hleft
          · generalize hafter : (Program.run (cacheHost env) (resolveWithMode cfg domain writeCache
              mode) s).2.files cfg.dnsCache.path = after at hgood ⊢
            cases hgood with
            | fresh entry hentry hmode hnow hips => exact Kept.refl _
            | unknown error hasked hanswer hentry => exact Kept.refl _
            | stale entry error hasked hanswer hentry hstale => exact Kept.noted hentry
            | expired entry error hasked hanswer hentry hstale => exact Kept.noted hentry
            | live hasked hanswer =>
                cases writeCache with
                | false => exact Kept.refl _
                | true =>
                    apply Kept.saved
                    exact answered_of_live henabled hname hasked hanswer hok

theorem kept_refreshEach (writeCache : Bool) {domains : List String} (hatomic : NeverTorn env) :
    Kept d (s.files cfg.dnsCache.path) (refreshEvents env cfg writeCache domains s)
      ((Program.run (cacheHost env) (refreshEach cfg writeCache domains) s).2.files
        cfg.dnsCache.path) := by
  induction domains generalizing s with
  | nil => exact Kept.refl _
  | cons domain domains ih =>
      have hfirst : Kept d (s.files cfg.dnsCache.path) _ _ :=
        kept_resolve domain writeCache .forceLive hatomic
      rw [refreshEvents, refreshEach, Program.bind_eq]
      rcases hrun : Program.run (cacheHost env) (refreshDomain cfg domain writeCache) s with
        ⟨e | res, t⟩
      · rw [← refreshDomain, hrun] at hfirst
        rw [Program.run_bind_error _ hrun, List.append_nil]
        exact hfirst
      · rw [← refreshDomain, hrun] at hfirst
        rw [Program.run_bind_ok _ hrun, Program.bind_eq]
        simp only [Program.pure_eq, Program.run_bind_pure_state]
        exact hfirst.trans ih

theorem kept_proxy {domain : String} {ips : List String} (writeCache : Bool)
    (hatomic : NeverTorn env) :
    Kept d (s.files cfg.dnsCache.path) (proxyEvents env cfg domain ips writeCache s)
      ((Program.run (cacheHost env) (upsertLiveIpsFromProxy cfg domain ips writeCache) s).2.files
        cfg.dnsCache.path) := by
  cases hname : normalizeDomain domain with
  | error e =>
      unfold upsertLiveIpsFromProxy
      rw [hname]
      exact Kept.refl _
  | ok name =>
      rcases upsertLiveIpsFromProxy_cases env cfg ips writeCache s hname with
        ⟨e, hrun, -⟩ | ⟨e, -, hleft, -⟩ | ⟨saved, hok, hgood⟩
      · rw [hrun]
        exact Kept.refl _
      · exact Kept.leftBehind hatomic hleft
      · generalize hafter : (Program.run (cacheHost env) (upsertLiveIpsFromProxy cfg domain ips
          writeCache) s).2.files cfg.dnsCache.path = after at hgood ⊢
        cases hgood with
        | skipped _ => exact Kept.refl _
        | saved hips henabled =>
            cases writeCache with
            | false => exact Kept.refl _
            | true =>
                rcases saves_loads_or_unloaded env true s hname with hloads | ⟨e, hrun⟩
                · exact Kept.saved (answered_of_saved hname hips (hloads hips henabled))
                · rw [hrun] at hok
                  cases hok

theorem kept_prune (writeCache : Bool) (hd : d ∈ configuredDomains cfg) (hatomic : NeverTorn env) :
    Kept d (s.files cfg.dnsCache.path) []
      ((Program.run (cacheHost env) (pruneCacheToConfiguredDomains cfg writeCache) s).2.files
        cfg.dnsCache.path) := by
  rcases pruneCacheToConfiguredDomains_cases env cfg writeCache s with
    ⟨e, hrun, -⟩ | ⟨e, -, hleft, -⟩ | ⟨counts, -, hafter⟩
  · rw [hrun]
    exact Kept.refl _
  · exact Kept.leftBehind hatomic hleft
  · rw [hafter, prunedIf]
    dsimp only
    split_ifs
    · intro entry hentry
      left
      refine ⟨entry, ?_, rfl⟩
      rw [FileContent.find, find_sortEntries, DnsCacheFile.find,
        KeyedList.lookup_filter _ (fun e he => by simpa [he] using hd)]
      rw [← find_loadedFile] at hentry
      exact hentry
    · exact Kept.refl _

theorem kept_op (op : CacheOp) (hd : d ∈ configuredDomains cfg) (hatomic : NeverTorn env) :
    Kept d (s.files cfg.dnsCache.path) (op.events env cfg s)
      ((op.run env cfg s).files cfg.dnsCache.path) := by
  cases op with
  | runtime domain writeCache =>
      rw [CacheOp.run, CacheOp.events, resolveForRuntime]
      exact kept_resolve domain writeCache _ hatomic
  | refresh domain writeCache =>
      rw [CacheOp.run, CacheOp.events, refreshDomain]
      exact kept_resolve domain writeCache _ hatomic
  | proxy domain ips writeCache =>
      rw [CacheOp.run, CacheOp.events]
      exact kept_proxy writeCache hatomic
  | prune writeCache =>
      rw [CacheOp.run, CacheOp.events]
      exact kept_prune writeCache hd hatomic
  | refreshAll writeCache =>
      rw [CacheOp.run, CacheOp.events, refreshDomainPolicies]
      cases hdomains : enabledDomains cfg with
      | error e => exact Kept.refl _
      | ok domains => exact kept_refreshEach writeCache hatomic

theorem kept_ops (ops : List CacheOp) (hd : d ∈ configuredDomains cfg) (hatomic : NeverTorn env) :
    Kept d (s.files cfg.dnsCache.path) (story env cfg ops s)
      ((runOps env cfg ops s).files cfg.dnsCache.path) := by
  induction ops generalizing s with
  | nil => exact Kept.refl _
  | cons op ops ih => exact (kept_op op hd hatomic).trans ih

end Kept

/-! ### Turns on one host -/

/-- The surroundings of the turns; each round walks the map in an order of its own. -/
structure SystemEnv where
  udp : UdpEnv
  net : NetEnv
  cache : CacheEnv
  order : ℕ → MapOrder

structure SystemState where
  exchanges : ℕ
  net : NetState
  cache : CacheStore
  rounds : ℕ

namespace SystemState

def proxy (s : SystemState) : ProxyState := (s.exchanges, s.cache)

def host (s : SystemState) : HostState := (s.net, s.cache)

end SystemState

/-- A datagram for the proxy, a refresh of all domains, a round, or a change of the links and
of the kernel by others. -/
inductive Turn where
  | query (datagram : Packet)
  | refresh
  | reconcile
  | change (net : NetState)

def Turn.run (env : SystemEnv) (cfg : Config) (s : SystemState) : Turn → SystemState
  | .query datagram =>
    let t := (Program.run (proxyHost ⟨env.udp, env.cache⟩)
      (serve cfg cfg.dnsInterception.effectiveUpstreams true datagram) s.proxy).2
    { s with exchanges := t.1, cache := t.2 }
  | .refresh =>
    { s with cache :=
        (Program.run (cacheHost env.cache) (refreshDomainPolicies cfg true) s.cache).2 }
  | .reconcile =>
    let t := (Program.run (host ⟨env.net, env.cache⟩)
      (reconcileOnce applying (env.order s.rounds) cfg) s.host).2
    ⟨s.exchanges, t.1, t.2, s.rounds + 1⟩
  | .change net => { s with net := net }

def runTurns (env : SystemEnv) (cfg : Config) (turns : List Turn) (s : SystemState) :
    SystemState :=
  turns.foldl (Turn.run env cfg) s

/-- The resolutions of a round that gets through some policies. -/
def resolutionsOf (egresses : List EgressInterface) : List Policy → List CacheOp
  | [] => []
  | policy :: policies =>
    match KeyedList.lookup (·.name) policy.action.egress egresses, policy.matchSpec.domain with
    | some _, some domain => .runtime domain true :: resolutionsOf egresses policies
    | _, _ => resolutionsOf egresses policies

section Turns

variable {env : SystemEnv} {cfg : Config} {s : SystemState}

/-- What a turn does to the cache. -/
inductive Does (env : SystemEnv) (cfg : Config) (s : SystemState) : Turn → List CacheOp → Prop where
  | passed (datagram : Packet) : Does env cfg s (.query datagram) []
  | accepted {datagram answer : Packet} {question : DnsQuestion} {policy : Policy}
      {ips : List String} (hquestion : parseQuestion (datagram.take bufferSize) = .ok question)
      (hA : qtypeIsA question = true)
      (hpolicy : findEnabledDomainPolicy cfg question.domain = .ok (some policy))
      (hanswer : firstAnswer env.udp (datagram.take bufferSize) cfg.dnsInterception.timeoutMs
        s.exchanges cfg.dnsInterception.effectiveUpstreams = some answer)
      (hrecords : parseARecords (answer.take bufferSize) = .ok ⟨ips⟩) :
      Does env cfg s (.query datagram) [.proxy question.domain ips true]
  | refreshed : Does env cfg s .refresh [.refreshAll true]
  | resolved {policies : List Policy} (hpart : policies <+: cfg.enabledPolicies) :
      Does env cfg s .reconcile (resolutionsOf (configuredHealthy s.net.links cfg) policies)
  | changed (net : NetState) : Does env cfg s (.change net) []

theorem cacheAfter_eq_runOps (env : CacheEnv) (cfg : Config) (egresses : List EgressInterface)
    (policies : List Policy) (store : CacheStore) :
    cacheAfter env cfg egresses policies store =
      runOps env cfg (resolutionsOf egresses policies) store := by
  induction policies generalizing store with
  | nil => rfl
  | cons policy policies ih =>
      rw [cacheAfter, ih, resolvePolicy, resolutionsOf]
      cases KeyedList.lookup (·.name) policy.action.egress egresses with
      | none => rfl
      | some egress =>
          cases policy.matchSpec.domain with
          | none => rfl
          | some domain => simp only [runOps, List.foldl_cons, CacheOp.run]

variable (env s) in
theorem does_turn (hcfg : Accepted cfg) (turn : Turn) :
    ∃ ops, Does env cfg s turn ops ∧
      (turn.run env cfg s).cache = runOps env.cache cfg ops s.cache := by
  cases turn with
  | query datagram =>
      rw [Turn.run, run_serve]
      rcases cache_handleQuery ⟨env.udp, env.cache⟩ cfg cfg.dnsInterception.effectiveUpstreams true
        (datagram.take bufferSize) s.proxy with
        hsame | ⟨question, policy, answer, ips, hquestion, hA, hpolicy, hanswer, hrecords, hcache⟩
      · exact ⟨[], .passed datagram, hsame⟩
      · exact ⟨_, .accepted hquestion hA hpolicy hanswer hrecords, hcache⟩
  | refresh => exact ⟨_, .refreshed, rfl⟩
  | reconcile =>
      obtain ⟨done, hpart, hcache, -⟩ :=
        resolvesUpTo_reconcileOnce ⟨env.net, env.cache⟩ (env.order s.rounds) hcfg s.host
      exact ⟨_, .resolved hpart, hcache.trans (cacheAfter_eq_runOps _ _ _ _ _)⟩
  | change net => exact ⟨[], .changed net, rfl⟩

/-- An answer for the domain is obtained in one of the turns. -/
def AnsweredIn (env : SystemEnv) (cfg : Config) (d : String) : List Turn → SystemState → Prop
  | [], _ => False
  | turn :: turns, s =>
    (∃ ops answer, Does env cfg s turn ops ∧
        (turn.run env cfg s).cache = runOps env.cache cfg ops s.cache ∧
        .answered answer ∈ story env.cache cfg ops s.cache ∧ answer.domain = d) ∨
      AnsweredIn env cfg d turns (turn.run env cfg s)

variable {d : String} {ips : List String} {now : UInt64}

/-- The file holds the addresses until another answer is obtained. -/
theorem cachedUntil_turns (hcfg : Accepted cfg) (hd : d ∈ configuredDomains cfg)
    (hatomic : NeverTorn env.cache) (turns : List Turn)
    (h : CachedUntil cfg (s.cache.files cfg.dnsCache.path) d ips now) :
    AnsweredIn env cfg d turns s ∨
      CachedUntil cfg ((runTurns env cfg turns s).cache.files cfg.dnsCache.path) d ips now := by
  induction turns generalizing s with
  | nil => exact Or.inr h
  | cons turn turns ih =>
      obtain ⟨ops, hdoes, hcache⟩ := does_turn env s hcfg turn
      obtain ⟨entry, hentry, hips, hexpires⟩ := h
      have hkept : Kept d _ _ _ := kept_ops (s := s.cache) ops hd hatomic
      rcases hkept entry hentry with ⟨held, hheld, hsame⟩ | ⟨answer, hmem, hdomain⟩
      · have hsameIps : held.answer.resolvedIpv4 = entry.answer.resolvedIpv4 := by rw [hsame]
        have hsameExpires : held.answer.expiresAtEpoch = entry.answer.expiresAtEpoch := by
          rw [hsame]
        rcases ih (s := turn.run env cfg s) ⟨held, by rw [hcache]; exact hheld,
          hsameIps.trans hips, hsameExpires.trans hexpires⟩ with hlater | hstill
        · exact Or.inl (Or.inr hlater)
        · exact Or.inr hstill
      · exact Or.inl (Or.inl ⟨ops, answer, hdoes, hcache, hmem, hdomain⟩)

/-- The addresses that the proxy has delivered for the domain of a policy are in its cache entry
until another answer for the domain is obtained. As long as they are there and fresh, every
round that returns and can read the file installs a rule for each of them, if the policy's egress
is usable in it. -/
theorem delivered_until_next_answer {datagram reply : Packet} {question : DnsQuestion}
    {policy : Policy} {domain : String} {t : ProxyState} (hcfg : cfg.validate = .ok ())
    (hcached : cfg.dnsCache.enabled = true)
    (hanswers : cfg.dnsInterception.cacheAnswers = true) (hatomic : NeverTorn env.cache)
    (hpolicy : policy ∈ cfg.enabledPolicies) (hdomain : policy.matchSpec.domain = some domain)
    (hquestion : parseQuestion (datagram.take bufferSize) = .ok question)
    (hA : qtypeIsA question = true) (hname : normalizeDomain domain = .ok question.domain)
    (hserved : Program.run (proxyHost ⟨env.udp, env.cache⟩)
      (serve cfg cfg.dnsInterception.effectiveUpstreams true datagram) s.proxy = (.ok reply, t))
    (hrecords : parseARecords reply = .ok ⟨ips⟩) (hips : ips ≠ []) (later : List Turn) :
    AnsweredIn env cfg question.domain later (Turn.run env cfg s (.query datagram)) ∨
      CachedUntil cfg ((runTurns env cfg (.query datagram :: later) s).cache.files
        cfg.dnsCache.path) question.domain ips (env.cache.clock (s.cache.calls + 1)) ∧
      ∀ order egress v, KeyedList.lookup (·.name) policy.action.egress (configuredHealthy
          (runTurns env cfg (.query datagram :: later) s).net.links cfg) = some egress →
        Program.run (host ⟨env.net, env.cache⟩) (reconcileOnce applying order cfg)
          (runTurns env cfg (.query datagram :: later) s).host = (.ok (), v) →
        (∀ k, (runTurns env cfg (.query datagram :: later) s).cache.calls ≤ k → k < v.2.calls →
          env.cache.readFails k = none ∧ env.cache.clock k <
            saturatingAdd (env.cache.clock (s.cache.calls + 1)) cfg.dnsCache.ttlSec) →
        ∀ ip ∈ ips, ⟨some ip, policy.matchSpec.uid, egress.fwmark⟩ ∈ policyChain cfg v.1.kernel := by
  have haccepted := accepted_of_validate hcfg
  obtain ⟨found, hfound⟩ := found_of_reply hpolicy hdomain hquestion hname hserved hrecords hips
  have hstart := cached_of_serve hquestion hA hfound hserved hrecords hips hanswers hcached
  have hfirst : (Turn.run env cfg s (.query datagram)).cache = t.2 := by
    rw [Turn.run, hserved]
  rw [← hfirst] at hstart
  have hd : question.domain ∈ configuredDomains cfg :=
    mem_configuredDomains (List.mem_filter.mp hpolicy).1 hdomain hname
  rcases cachedUntil_turns haccepted hd hatomic later hstart with hlater | hstill
  · exact Or.inl hlater
  · refine Or.inr ⟨hstill, ?_⟩
    intro order egress v hegress hround hwindow ip hip
    obtain ⟨entry, hentry, hsame, hexpires⟩ := hstill
    obtain ⟨before, after, hsplit⟩ := List.append_of_mem (List.mem_filter.mp hpolicy).1
    have henabled : policy.enabled = true := (List.mem_filter.mp hpolicy).2
    have hfresh : StaysFresh env.cache.clock (runTurns env cfg (.query datagram :: later) s).cache.calls
        v.2.calls ((runTurns env cfg (.query datagram :: later) s).cache.files cfg.dnsCache.path)
        question.domain ips :=
      ⟨entry, hentry, hsame, fun k hk hlast => hexpires ▸ (hwindow k hk hlast).2⟩
    rw [chain_of_fresh ⟨env.net, env.cache⟩ haccepted hcached hsplit henabled hdomain hname hips
      hfresh (fun k hk hlast => (hwindow k hk hlast).1) hatomic hegress hround]
    apply List.mem_append_left
    apply List.mem_append_right
    exact List.mem_map.mpr ⟨ip, hip, rfl⟩

end Turns

/-- A record with another address. -/
def otherAnswer : Packet :=
  [0, 0, 0x80, 0, 0, 0, 0, 1, 0, 0, 0, 0] ++
    [0, 0, 1, 0, 1, 0, 0, 0, 60, 0, 4, 192, 0, 2, 2]

/-- A host on which the upstreams' first answer has one address and all later ones another. -/
def rotatingHost : SystemEnv :=
  ⟨fun k _ => .received (if k = 0 then bothAnswer else otherAnswer), quietHost.net,
    quietHost.cache, fun _ => listOrder⟩

def firstTurn : SystemState := ⟨0, bareState.1, bareState.2, 0⟩

/-- The proxy's first turn. -/
def firstServed : Except Error Packet × ProxyState :=
  Program.run (proxyHost ⟨rotatingHost.udp, rotatingHost.cache⟩)
    (serve domainConfig domainConfig.dnsInterception.effectiveUpstreams true hostQuery.datagram)
    firstTurn.proxy

theorem firstServed_spec : firstServed.1 = .ok bothAnswer := by decide +kernel

theorem run_firstServed : Program.run (proxyHost ⟨rotatingHost.udp, rotatingHost.cache⟩)
    (serve domainConfig domainConfig.dnsInterception.effectiveUpstreams true hostQuery.datagram)
    firstTurn.proxy = (.ok bothAnswer, firstServed.2) :=
  Prod.ext firstServed_spec rfl

/-- The turns after the query: a refresh that gets no answer, and a round. -/
def quietTurns : List Turn := [.refresh, .reconcile]

theorem unanswered_quietTurns : ¬ AnsweredIn rotatingHost domainConfig "a.example" quietTurns
    (Turn.run rotatingHost domainConfig firstTurn (.query hostQuery.datagram)) := by
  rintro (⟨ops, answer, hdoes, -, hmem, -⟩ | ⟨ops, answer, hdoes, -, hmem, -⟩ | hfalse)
  · cases hdoes
    revert hmem
    rw [show story rotatingHost.cache domainConfig [.refreshAll true]
      (Turn.run rotatingHost domainConfig firstTurn (.query hostQuery.datagram)).cache =
        [.failed "a.example" "failed to resolve domain: a.example"] by decide +kernel]
    simp
  · cases hdoes with
    | resolved hpart =>
        have hlen : _ ≤ 1 := hpart.length_le
        rcases List.prefix_cons_iff.mp hpart with rfl | ⟨rest, rfl, hrest⟩
        · cases hmem
        · obtain rfl := List.prefix_nil.mp hrest
          revert hmem
          rw [show story rotatingHost.cache domainConfig _ _ = [] by decide +kernel]
          simp
  · exact hfalse

/-- The round after these turns. -/
def roundAfterTurns : Except Error Unit × HostState :=
  Program.run (host ⟨rotatingHost.net, rotatingHost.cache⟩)
    (reconcileOnce applying listOrder domainConfig)
    (runTurns rotatingHost domainConfig (.query hostQuery.datagram :: quietTurns) firstTurn).host

theorem delivered_until_next_answer_host :
    CachedUntil domainConfig ((runTurns rotatingHost domainConfig
        (.query hostQuery.datagram :: quietTurns) firstTurn).cache.files
          domainConfig.dnsCache.path) "a.example" ["192.0.2.1"] 1000 ∧
      roundAfterTurns.1 = .ok () ∧
      ⟨some "192.0.2.1", none, 16⟩ ∈ policyChain domainConfig roundAfterTurns.2.1.kernel := by
  have hatomic : NeverTorn rotatingHost.cache := fun k cause left h => by cases h
  have hok : roundAfterTurns.1 = .ok () := by decide +kernel
  rcases delivered_until_next_answer (s := firstTurn) (by decide) rfl rfl hatomic
    List.mem_cons_self rfl servedHost_spec.1 (by decide) (by decide) run_firstServed
    bothAnswer_spec.2.2 (by decide) quietTurns with hanswered | ⟨hcached, hrules⟩
  · exact absurd hanswered unanswered_quietTurns
  · have hegress : KeyedList.lookup (·.name) (domainPolicy "web" "a.example" "tun0").action.egress
        (configuredHealthy (runTurns rotatingHost domainConfig
          (.query hostQuery.datagram :: quietTurns) firstTurn).net.links domainConfig) =
        some (tunnel "tun0" 100 16) := by decide +kernel
    exact ⟨hcached, hok, hrules listOrder _ roundAfterTurns.2 hegress (Prod.ext hok rfl)
      (fun k _ _ => ⟨rfl, by change (1000 : UInt64) < saturatingAdd 1000 300; decide⟩) _
      List.mem_cons_self⟩

/-- The datagram asks for the address of a policy's domain. -/
def AsksPolicyDomain (cfg : Config) (datagram : Packet) : Prop :=
  ∃ question policy, parseQuestion (datagram.take bufferSize) = .ok question ∧
    qtypeIsA question = true ∧ findEnabledDomainPolicy cfg question.domain = .ok (some policy)

/-- The same query again is answered with another address, and the first one is gone from the
cache entry at once. -/
theorem not_delivered_until_expiry : ¬ ∀ (env : SystemEnv) (cfg : Config) (s : SystemState)
    (datagram reply : Packet) (question : DnsQuestion) (policy : Policy) (domain : String)
    (t : ProxyState) (ips : List String) (later : List Turn), cfg.validate = .ok () →
    cfg.dnsCache.enabled = true → cfg.dnsInterception.cacheAnswers = true →
    Working env.cache → policy ∈ cfg.enabledPolicies → policy.matchSpec.domain = some domain →
    parseQuestion (datagram.take bufferSize) = .ok question → qtypeIsA question = true →
    normalizeDomain domain = .ok question.domain →
    Program.run (proxyHost ⟨env.udp, env.cache⟩)
      (serve cfg cfg.dnsInterception.effectiveUpstreams true datagram) s.proxy = (.ok reply, t) →
    parseARecords reply = .ok ⟨ips⟩ →
    (∀ turn ∈ later, turn = .refresh ∨ turn = .reconcile ∨
      ∃ query, turn = .query query ∧ AsksPolicyDomain cfg query) →
    (∀ k, env.cache.clock k <
      saturatingAdd (env.cache.clock (s.cache.calls + 1)) cfg.dnsCache.ttlSec) →
    ∀ ip ∈ ips, ∃ entry, ((runTurns env cfg (.query datagram :: later) s).cache.files
      cfg.dnsCache.path).find question.domain = some entry ∧ ip ∈ entry.resolvedIpv4 := by
  intro hclaim
  have hasks : AsksPolicyDomain domainConfig hostQuery.datagram :=
    ⟨_, domainPolicy "web" "a.example" "tun0", servedHost_spec.1, by decide, by decide⟩
  have hlater : ∀ turn ∈ [Turn.query hostQuery.datagram], turn = .refresh ∨ turn = .reconcile ∨
      ∃ query, turn = .query query ∧ AsksPolicyDomain domainConfig query := by
    intro turn hturn
    rw [List.mem_singleton.mp hturn]
    exact Or.inr (Or.inr ⟨_, rfl, hasks⟩)
  obtain ⟨entry, hentry, hmem⟩ := hclaim rotatingHost domainConfig firstTurn hostQuery.datagram
    bothAnswer ⟨"a.example", qtypeA, qclassIn⟩ (domainPolicy "web" "a.example" "tun0") "a.example"
    firstServed.2 ["192.0.2.1"] [.query hostQuery.datagram] (by decide) rfl rfl
    ⟨fun _ => rfl, fun _ => rfl, fun _ => rfl⟩ List.mem_cons_self rfl servedHost_spec.1 (by decide)
    (by decide) run_firstServed bothAnswer_spec.2.2 hlater fresh_quietHost "192.0.2.1" (by simp)
  have hreplaced : (((runTurns rotatingHost domainConfig
      [.query hostQuery.datagram, .query hostQuery.datagram] firstTurn).cache.files
        domainConfig.dnsCache.path).find "a.example").map DnsCacheEntry.resolvedIpv4 =
      some ["192.0.2.2"] := by decide +kernel
  rw [hentry, Option.map_some, Option.some.injEq] at hreplaced
  rw [hreplaced] at hmem
  exact absurd hmem (by decide)

end EveNet
