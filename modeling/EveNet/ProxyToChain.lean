import EveNet.Outcomes
import EveNet.ProxyCache
import EveNet.PolicyChain

/-!
# From an answered query to the policy chain

The addresses that the proxy writes to the cache file are the ones that the next round
installs: the entry stays in the file, and fresh, while the round resolves its policies one
after the other, and the resolution of the policy's own domain is served from it.
-/

namespace EveNet

/-- An error response has no addresses. -/
theorem ips_of_errorReply {query reply : Packet} {ips : List String} (h : ErrorReply query reply)
    (hrecords : parseARecords reply = .ok ⟨ips⟩) : ips = [] := by
  obtain ⟨-, hcount, -⟩ := h.header
  obtain ⟨_, -, hrest⟩ := except_bind_eq_ok.mp hrecords
  obtain ⟨_, -, hrest⟩ := except_bind_eq_ok.mp hrest
  obtain ⟨ancount, han, hrest⟩ := except_bind_eq_ok.mp hrest
  obtain ⟨_, -, hrest⟩ := except_bind_eq_ok.mp hrest
  obtain ⟨found, hfound, hrest⟩ := except_bind_eq_ok.mp hrest
  have hzero : ancount = 0 := Except.ok.inj (han.symm.trans hcount)
  rw [hzero, UInt16.toNat_zero, readAnswers, Except.ok.injEq] at hfound
  rw [Except.ok.injEq, ARecordSet.mk.injEq] at hrest
  rw [← hrest, ← hfound]
  rfl

/-- A reply with addresses to an address question for a policy domain has them in the file. -/
theorem cached_of_serve {env : ProxyEnv} {cfg : Config} {upstreams : List SocketAddr}
    {datagram reply : Packet} {question : DnsQuestion} {policy : Policy} {s t : ProxyState}
    {ips : List String} (hquestion : parseQuestion (datagram.take bufferSize) = .ok question)
    (hA : qtypeIsA question = true)
    (hpolicy : findEnabledDomainPolicy cfg question.domain = .ok (some policy))
    (hrun : Program.run (proxyHost env) (serve cfg upstreams true datagram) s = (.ok reply, t))
    (hrecords : parseARecords reply = .ok ⟨ips⟩) (hips : ips ≠ [])
    (hcache : cfg.dnsInterception.cacheAnswers = true) (henabled : cfg.dnsCache.enabled = true) :
    CachedUntil cfg (t.2.files cfg.dnsCache.path) question.domain ips
      (env.cache.clock (s.2.calls + 1)) := by
  have hlen : 12 ≤ (datagram.take bufferSize).length := by
    obtain ⟨_, hlen, -⟩ := except_bind_eq_ok.mp hquestion
    rw [refuseIf_eq_ok] at hlen
    omega
  rw [run_serve, Prod.mk.injEq, Except.ok.injEq] at hrun
  obtain ⟨hreply, ht⟩ := hrun
  rcases handleQuery_cases env cfg upstreams true (datagram.take bufferSize) s with
    hrefused | ⟨question', policy', answer, hquestion', hpolicy', hasked, hanswer, hout⟩
  · have herror := errorReply_of_refused hlen hrefused
    rw [hreply] at herror
    exact absurd (ips_of_errorReply herror hrecords) hips
  · obtain rfl : question = question' := Except.ok.inj (hquestion.symm.trans hquestion')
    obtain rfl : some policy = policy' := Except.ok.inj (hpolicy.symm.trans hpolicy')
    obtain ⟨k, hrun⟩ := run_handleQuery_answered true hquestion hpolicy hasked hanswer
    rw [hout] at hreply
    have hresponse : answer.take bufferSize = reply := hreply
    rw [hresponse, Option.isSome_some] at hrun
    rw [hresponse] at hout
    rw [run_acceptAnswer_ips ⟨rfl, hA⟩ hrecords hips, if_pos hcache] at hrun
    rw [hrun] at ht hout
    rcases hsave : Program.run (cacheHost env.cache)
      (upsertLiveIpsFromProxy cfg question.domain ips true) s.2 with ⟨e | saved, u⟩
    · rw [hsave] at hout
      cases hout
    · rw [hsave] at ht
      rw [← ht]
      exact cached_of_upsert (normalized_of_parseQuestion hquestion)
        (uniqueSorted_of_parseARecords hrecords) hips hsave henabled rfl

/-! ### A fresh entry during a round -/

section Fresh

variable {env : CacheEnv} {cfg : Config} {name : String} {ips : List String} {first last : ℕ}

/-- The file has an entry with these addresses that is fresh at the calls from `first` on and
before `last`. -/
def StaysFresh (clock : ℕ → UInt64) (first last : ℕ) (content : FileContent) (name : String)
    (ips : List String) : Prop :=
  ∃ entry, content.find name = some entry ∧ entry.resolvedIpv4 = ips ∧
    ∀ k, first ≤ k → k < last → clock k < entry.expiresAtEpoch

variable (env) in
/-- The file is loaded, and the fresh entry in it is what the resolution goes on with. -/
theorem load_fresh (store : CacheStore) (hreads : env.readFails store.calls = none)
    (hips : ips ≠ [])
    (hfresh : StaysFresh env.clock first last (store.files cfg.dnsCache.path) name ips) :
    ∃ entry, entry.resolvedIpv4 = ips ∧
      Program.run (cacheHost env) (loadCacheOrEmpty cfg.dnsCache.path) store =
        (.ok (loadedFile (store.files cfg.dnsCache.path)), store.tick) ∧
      ∀ k, first ≤ k → k < last → ∀ writeCache, resolveFrom cfg name writeCache .preferFreshCache
        (env.clock k) (loadedFile (store.files cfg.dnsCache.path)) =
          .pure ⟨name, ips, .cacheFresh, some entry, entry.lastError⟩ := by
  obtain ⟨entry, hentry, rfl, hclock⟩ := hfresh
  refine ⟨entry, rfl, ?_, fun k hfirst hlast writeCache => ?_⟩
  · rcases run_loadCacheOrEmpty env cfg.dnsCache.path store with ⟨e, -, hfails | hmalformed⟩ | hload
    · exact absurd hreads hfails
    · rw [hmalformed] at hentry
      cases hentry
    · exact hload
  · have hserved : freshEntry .preferFreshCache (some entry) (env.clock k) = some entry := by
      simp [freshEntry, hclock k hfirst hlast, hips]
    rw [resolveFrom, find_loadedFile, hentry, hserved]

variable (env) in
/-- A fresh entry is served without asking the resolver. -/
theorem run_resolve_fresh {domain : String} (henabled : cfg.dnsCache.enabled = true)
    (hname : normalizeDomain domain = .ok name) {store : CacheStore}
    (hreads : env.readFails (store.calls + 1) = none) (hips : ips ≠ [])
    (hfresh : StaysFresh env.clock first last (store.files cfg.dnsCache.path) name ips)
    (hfirst : first ≤ store.calls) (hlast : store.calls < last) :
    ∃ entry, Program.run (cacheHost env) (resolveForRuntime cfg domain true) store =
      (.ok ⟨name, ips, .cacheFresh, some entry, entry.lastError⟩, store.tick.tick) := by
  obtain ⟨entry, -, hload, hserved⟩ := load_fresh env store.tick hreads hips hfresh
  refine ⟨entry, ?_⟩
  rw [resolveForRuntime, run_resolveWithMode true .preferFreshCache store henabled hname,
    Program.run_bind_ok _ hload, hserved _ hfirst hlast]
  rfl

theorem made_loadCacheOrEmpty (path : String) (store : CacheStore) :
    Program.made (cacheHost env) (loadCacheOrEmpty path) store = [.read path] := by
  rw [loadCacheOrEmpty, Program.made]
  cases (cacheHost env (.read path) store).1 with
  | error cause => rfl
  | ok content => cases content <;> rfl

variable (env) in
/-- It reads the clock and the file, and that is all. -/
theorem made_resolve_fresh {domain : String} (henabled : cfg.dnsCache.enabled = true)
    (hname : normalizeDomain domain = .ok name) {store : CacheStore}
    (hreads : env.readFails (store.calls + 1) = none) (hips : ips ≠ [])
    (hfresh : StaysFresh env.clock first last (store.files cfg.dnsCache.path) name ips)
    (hfirst : first ≤ store.calls) (hlast : store.calls < last) :
    Program.made (cacheHost env) (resolveForRuntime cfg domain true) store =
      [.nowEpoch, .read cfg.dnsCache.path] := by
  obtain ⟨entry, -, hload, hserved⟩ := load_fresh env store.tick hreads hips hfresh
  rw [resolveForRuntime, resolveWithMode_eq true .preferFreshCache henabled hname, Program.made]
  change _ :: Program.made (cacheHost env) ((loadCacheOrEmpty cfg.dnsCache.path).bind
    (resolveFrom cfg name true .preferFreshCache (env.clock store.calls))) store.tick = _
  rw [Program.made_bind_ok _ hload, made_loadCacheOrEmpty, hserved _ hfirst hlast]
  rfl

theorem StaysFresh.savedOver {clock : ℕ → UInt64} {content : FileContent} {entry : DnsCacheEntry}
    (h : StaysFresh clock first last content name ips) (hother : entry.domain ≠ name) :
    StaysFresh clock first last (savedOver content entry) name ips := by
  obtain ⟨held, hheld, hrest⟩ := h
  exact ⟨held, by rw [find_savedOver, if_neg hother, hheld], hrest⟩

/-- A resolution keeps what is fresh, whichever domain it is for. -/
theorem staysFresh_resolve (domain : String) (store : CacheStore)
    (henabled : cfg.dnsCache.enabled = true)
    (hatomic : ∀ k cause left, env.writes k ≠ .interrupted cause left) (hips : ips ≠ [])
    (hfresh : StaysFresh env.clock first last (store.files cfg.dnsCache.path) name ips)
    (hfirst : first ≤ store.calls)
    (hlast : (Program.run (cacheHost env)
      (resolveForRuntime cfg domain true) store).2.calls ≤ last) :
    StaysFresh env.clock first last ((Program.run (cacheHost env)
      (resolveForRuntime cfg domain true) store).2.files cfg.dnsCache.path) name ips := by
  unfold resolveForRuntime at hlast ⊢
  cases hname : normalizeDomain domain with
  | error e => rwa [run_resolveWithMode_refused true .preferFreshCache store hname]
  | ok found =>
      have hnow := calls_resolve env true .preferFreshCache store henabled hname
      rcases resolveWithMode_cases env true .preferFreshCache store henabled hname with
        ⟨e, hrun, -⟩ | ⟨e, -, hleft, -⟩ | ⟨res, -, hgood⟩
      · rwa [hrun]
      · rcases hleft with hsame | ⟨k, cause, left, file, hbroken, -⟩
        · rwa [hsame]
        · exact absurd hbroken (hatomic _ _ _)
      · -- the domain itself is served from its entry, so only other entries are written
        have hasked : freshEntry .preferFreshCache ((store.files cfg.dnsCache.path).find found)
            (env.clock store.calls) = none → found ≠ name := by
          rintro hnone rfl
          obtain ⟨entry, hentry, rfl, hclock⟩ := hfresh
          have hstill := hclock store.calls hfirst (by omega)
          simp [freshEntry, hentry, hstill, hips] at hnone
        generalize (Program.run (cacheHost env) (resolveWithMode cfg domain true
          .preferFreshCache) store).2.files cfg.dnsCache.path = after at hgood ⊢
        cases hgood with
        | fresh entry hentry hmode hnow hne => exact hfresh
        | live hnone hanswer => exact hfresh.savedOver (hasked hnone)
        | unknown error hnone hanswer hentry => exact hfresh
        | stale entry error hnone hanswer hentry hstale =>
            refine hfresh.savedOver ?_
            change entry.domain ≠ name
            rw [domain_of_find hentry]
            exact hasked hnone
        | expired entry error hnone hanswer hentry hstale =>
            refine hfresh.savedOver ?_
            change entry.domain ≠ name
            rw [domain_of_find hentry]
            exact hasked hnone

variable (env cfg) in
/-- The resolution of a policy leaves the cache alone or is one of its domain. -/
theorem cache_resolvePolicy (egresses : List EgressInterface) (policy : Policy)
    (store : CacheStore) :
    (resolvePolicy env cfg egresses policy store).2 = store ∨
      ∃ domain, (resolvePolicy env cfg egresses policy store).2 =
        (Program.run (cacheHost env) (resolveForRuntime cfg domain true) store).2 := by
  unfold resolvePolicy
  split
  · next domain _ _ =>
      dsimp only
      exact Or.inr ⟨domain, rfl⟩
  · exact Or.inl rfl

variable (env cfg) in
theorem resolvePolicy_found {egresses : List EgressInterface} {policy : Policy}
    {egress : EgressInterface} {domain : String}
    (hegress : KeyedList.lookup (·.name) policy.action.egress egresses = some egress)
    (hdomain : policy.matchSpec.domain = some domain) (store : CacheStore) :
    resolvePolicy env cfg egresses policy store =
      (resolutionIps (Program.run (cacheHost env) (resolveForRuntime cfg domain true) store).1,
        (Program.run (cacheHost env) (resolveForRuntime cfg domain true) store).2) := by
  rw [resolvePolicy, hegress, hdomain]

variable (env cfg) in
theorem calls_resolvePolicy_le (egresses : List EgressInterface) (policy : Policy)
    (store : CacheStore) :
    store.calls ≤ (resolvePolicy env cfg egresses policy store).2.calls := by
  rcases cache_resolvePolicy env cfg egresses policy store with hsame | ⟨domain, hresolved⟩
  · rw [hsame]
  · rw [hresolved]
    exact calls_run_le env _ store

variable (env cfg) in
theorem calls_cacheAfter_le (egresses : List EgressInterface) (policies : List Policy)
    (store : CacheStore) :
    store.calls ≤ (cacheAfter env cfg egresses policies store).calls := by
  induction policies generalizing store with
  | nil => exact le_rfl
  | cons policy policies ih =>
      exact (calls_resolvePolicy_le env cfg egresses policy store).trans (ih _)

theorem staysFresh_cacheAfter (egresses : List EgressInterface) (policies : List Policy)
    (store : CacheStore) (henabled : cfg.dnsCache.enabled = true)
    (hatomic : ∀ k cause left, env.writes k ≠ .interrupted cause left) (hips : ips ≠ [])
    (hfresh : StaysFresh env.clock first last (store.files cfg.dnsCache.path) name ips)
    (hfirst : first ≤ store.calls)
    (hlast : (cacheAfter env cfg egresses policies store).calls ≤ last) :
    StaysFresh env.clock first last
      ((cacheAfter env cfg egresses policies store).files cfg.dnsCache.path) name ips := by
  induction policies generalizing store with
  | nil => exact hfresh
  | cons policy policies ih =>
      have hlater := calls_cacheAfter_le env cfg egresses policies
        (resolvePolicy env cfg egresses policy store).2
      have hstep := calls_resolvePolicy_le env cfg egresses policy store
      rw [cacheAfter] at hlast
      apply ih _ _ (hfirst.trans hstep) hlast
      rcases cache_resolvePolicy env cfg egresses policy store with
        hsame | ⟨domain, hresolved⟩
      · rw [hsame]
        exact hfresh
      · have hend := hlater.trans hlast
        rw [hresolved] at hend ⊢
        exact staysFresh_resolve domain store henabled hatomic hips hfresh hfirst hend

end Fresh

/-! ### The answered addresses in the chain -/

section Answered

variable {proxy : ProxyEnv} {env : HostEnv} {order : MapOrder} {cfg : Config}
  {upstreams : List SocketAddr} {datagram reply : Packet} {question : DnsQuestion}
  {policy : Policy} {s t : ProxyState} {u v : HostState} {ips : List String}

/-- A reply with addresses to a question for the domain of an enabled policy: some policy was
found for it. -/
theorem found_of_reply {domain : String} (hmem : policy ∈ cfg.enabledPolicies)
    (hdomain : policy.matchSpec.domain = some domain)
    (hquestion : parseQuestion (datagram.take bufferSize) = .ok question)
    (hname : normalizeDomain domain = .ok question.domain)
    (hserved : Program.run (proxyHost proxy) (serve cfg upstreams true datagram) s = (.ok reply, t))
    (hrecords : parseARecords reply = .ok ⟨ips⟩) (hips : ips ≠ []) :
    ∃ found, findEnabledDomainPolicy cfg question.domain = .ok (some found) := by
  have hlen : 12 ≤ (datagram.take bufferSize).length := by
    obtain ⟨_, hlen, -⟩ := except_bind_eq_ok.mp hquestion
    rw [refuseIf_eq_ok] at hlen
    omega
  have hhas : policy.hasName question.domain = true := by
    simp [Policy.hasName, hdomain, hname]
  rcases find_of_hasName hmem (normalizeDomain_normalized hname) hhas with ⟨e, hpolicy⟩ | hfound
  · rw [run_serve, run_handleQuery_unmatched hquestion hpolicy, Prod.mk.injEq,
      Except.ok.injEq] at hserved
    have herror := errorReply_of_refused hlen (Or.inr ⟨e, rfl⟩)
    rw [hserved.1] at herror
    exact absurd (ips_of_errorReply herror hrecords) hips
  · exact hfound

theorem rulesFor_domain {egresses : List EgressInterface} {egress : EgressInterface}
    (hegress : KeyedList.lookup (·.name) policy.action.egress egresses = some egress)
    (hdomain : policy.matchSpec.domain.isSome = true) :
    rulesFor egresses policy ips =
      ips.map (fun ip => ⟨some ip, policy.matchSpec.uid, egress.fwmark⟩) := by
  rw [rulesFor_some hegress, policySpecs, if_pos hdomain]
  exact List.map_map

variable (env) in
/-- A round that finds a fresh entry for the domain of a policy installs its addresses between
the rules of the policies before and after. -/
theorem chain_of_fresh {domain name : String} {before after : List Policy}
    {egress : EgressInterface} (hcfg : Accepted cfg) (hcached : cfg.dnsCache.enabled = true)
    (hsplit : cfg.policies = before ++ policy :: after) (henabled : policy.enabled = true)
    (hdomain : policy.matchSpec.domain = some domain) (hname : normalizeDomain domain = .ok name)
    (hips : ips ≠ [])
    (hfresh : StaysFresh env.cache.clock u.2.calls v.2.calls (u.2.files cfg.dnsCache.path) name ips)
    (hreads : ∀ k, u.2.calls ≤ k → k < v.2.calls → env.cache.readFails k = none)
    (hatomic : ∀ k cause left, env.cache.writes k ≠ .interrupted cause left)
    (hegress : KeyedList.lookup (·.name) policy.action.egress (configuredHealthy u.1.links cfg) =
      some egress)
    (hround : Program.run (host env) (reconcileOnce applying order cfg) u = (.ok (), v)) :
    policyChain cfg v.1.kernel =
      chainOf (configuredHealthy u.1.links cfg)
          (resolutions env.cache cfg (configuredHealthy u.1.links cfg) (enabledOf before) u.2) ++
        ips.map (fun ip => ⟨some ip, policy.matchSpec.uid, egress.fwmark⟩) ++
        chainOf (configuredHealthy u.1.links cfg)
          (resolutions env.cache cfg (configuredHealthy u.1.links cfg) (enabledOf after)
            (cacheAfter env.cache cfg (configuredHealthy u.1.links cfg)
              (enabledOf before ++ [policy]) u.2)) := by
  have hall : cfg.enabledPolicies = enabledOf before ++ policy :: enabledOf after := by
    simp [Config.enabledPolicies, enabledOf, hsplit, henabled]
  have hend := resolvesUpTo_reconcileOnce env order hcfg u
  rw [hround] at hend
  obtain ⟨done, -, hcache, hwhole⟩ := hend
  rw [hwhole rfl, hall, cacheAfter_append, cacheAfter] at hcache
  set egresses := configuredHealthy u.1.links cfg
  -- the calls of the policy's resolution lie between those before and the end of the round
  have hbefore := calls_cacheAfter_le env.cache cfg egresses (enabledOf before) u.2
  have hlater := calls_cacheAfter_le env.cache cfg egresses (enabledOf after)
    (resolvePolicy env.cache cfg egresses policy
      (cacheAfter env.cache cfg egresses (enabledOf before) u.2)).2
  rw [← hcache] at hlater
  have hasks : (cacheAfter env.cache cfg egresses (enabledOf before) u.2).calls + 1 <
      (resolvePolicy env.cache cfg egresses policy
        (cacheAfter env.cache cfg egresses (enabledOf before) u.2)).2.calls := by
    rw [resolvePolicy_found env.cache cfg hegress hdomain]
    dsimp only
    rw [resolveForRuntime]
    exact calls_resolve env.cache true .preferFreshCache _ hcached hname
  have hnow : (cacheAfter env.cache cfg egresses (enabledOf before) u.2).calls + 1 < v.2.calls :=
    hasks.trans_le hlater
  have hstill := staysFresh_cacheAfter egresses (enabledOf before) u.2 hcached hatomic hips hfresh
    le_rfl (by omega)
  have hresolved : (resolvePolicy env.cache cfg egresses policy
      (cacheAfter env.cache cfg egresses (enabledOf before) u.2)).1 = ips := by
    obtain ⟨entry, hrun⟩ := run_resolve_fresh env.cache hcached hname
      (hreads _ (hbefore.trans (Nat.le_succ _)) hnow) hips hstill hbefore (by omega)
    rw [resolvePolicy_found env.cache cfg hegress hdomain, hrun]
    rfl
  rw [chain_reconcileOnce env hcfg hround, hall, resolutions_append, resolutions, hresolved,
    chainOf, List.flatMap_append, List.flatMap_cons, rulesFor_domain hegress (by rw [hdomain]; rfl),
    ← List.append_assoc]
  have hafter : cacheAfter env.cache cfg egresses (enabledOf before ++ [policy]) u.2 =
      (resolvePolicy env.cache cfg egresses policy
        (cacheAfter env.cache cfg egresses (enabledOf before) u.2)).2 := by
    rw [cacheAfter_append]
    rfl
  rw [hafter]
  rfl

/-- The addresses of an answer that the proxy has returned for a policy's domain are the ones
that the next round installs for the policy, as long as they are fresh and the round can read
the cache file. They are looked up nowhere else: the clock and the file are all that is read. -/
theorem answered_addresses_routed {domain : String} {before after : List Policy}
    {egress : EgressInterface} (hcfg : cfg.validate = .ok ())
    (hcached : cfg.dnsCache.enabled = true)
    (hanswers : cfg.dnsInterception.cacheAnswers = true)
    (hsplit : cfg.policies = before ++ policy :: after) (henabled : policy.enabled = true)
    (hdomain : policy.matchSpec.domain = some domain)
    (hquestion : parseQuestion (datagram.take bufferSize) = .ok question)
    (hA : qtypeIsA question = true) (hname : normalizeDomain domain = .ok question.domain)
    (hserved : Program.run (proxyHost proxy) (serve cfg upstreams true datagram) s = (.ok reply, t))
    (hrecords : parseARecords reply = .ok ⟨ips⟩) (hips : ips ≠ [])
    (hfile : u.2.files cfg.dnsCache.path = t.2.files cfg.dnsCache.path)
    (hclock : ∀ k, env.cache.clock k <
      saturatingAdd (proxy.cache.clock (s.2.calls + 1)) cfg.dnsCache.ttlSec)
    (hreads : ∀ k, env.cache.readFails k = none)
    (hatomic : ∀ k cause left, env.cache.writes k ≠ .interrupted cause left)
    (hegress : KeyedList.lookup (·.name) policy.action.egress (configuredHealthy u.1.links cfg) =
      some egress)
    (hround : Program.run (host env) (reconcileOnce applying order cfg) u = (.ok (), v)) :
    ips.Nodup ∧
      policyChain cfg v.1.kernel =
        chainOf (configuredHealthy u.1.links cfg)
            (resolutions env.cache cfg (configuredHealthy u.1.links cfg) (enabledOf before) u.2) ++
          ips.map (fun ip => ⟨some ip, policy.matchSpec.uid, egress.fwmark⟩) ++
          chainOf (configuredHealthy u.1.links cfg)
            (resolutions env.cache cfg (configuredHealthy u.1.links cfg) (enabledOf after)
              (cacheAfter env.cache cfg (configuredHealthy u.1.links cfg)
                (enabledOf before ++ [policy]) u.2)) ∧
      ∀ lookups, ∃ resolution, resolution.ips = ips ∧
        Program.run (cacheHost { env.cache with lookups := lookups })
            (resolveForRuntime cfg domain true)
            (cacheAfter env.cache cfg (configuredHealthy u.1.links cfg) (enabledOf before) u.2) =
          (.ok resolution, (cacheAfter env.cache cfg (configuredHealthy u.1.links cfg)
            (enabledOf before) u.2).tick.tick) ∧
        Program.made (cacheHost { env.cache with lookups := lookups })
            (resolveForRuntime cfg domain true)
            (cacheAfter env.cache cfg (configuredHealthy u.1.links cfg) (enabledOf before) u.2) =
          [.nowEpoch, .read cfg.dnsCache.path] := by
  have hmem : policy ∈ cfg.enabledPolicies := by
    rw [Config.enabledPolicies, hsplit]
    simp [henabled]
  obtain ⟨found, hfound⟩ := found_of_reply hmem hdomain hquestion hname hserved hrecords hips
  obtain ⟨entry, hentry, hentryIps, hexpires⟩ :=
    cached_of_serve hquestion hA hfound hserved hrecords hips hanswers hcached
  set egresses := configuredHealthy u.1.links cfg
  have hstart : ∀ last, StaysFresh env.cache.clock u.2.calls last (u.2.files cfg.dnsCache.path)
      question.domain ips := by
    rw [hfile]
    exact fun last => ⟨entry, hentry, hentryIps, fun k _ _ => hexpires ▸ hclock k⟩
  refine ⟨?_, ?_, ?_⟩
  · have hsorted : uniqueSorted ips = ips := uniqueSorted_of_parseARecords hrecords
    exact hsorted ▸ nodup_uniqueSorted ips
  · exact chain_of_fresh env (accepted_of_validate hcfg) hcached hsplit henabled hdomain hname hips
      (hstart _) (fun k _ _ => hreads k) hatomic hegress hround
  · intro lookups
    set store := cacheAfter env.cache cfg egresses (enabledOf before) u.2
    have hbefore : u.2.calls ≤ store.calls := calls_cacheAfter_le env.cache cfg egresses _ u.2
    have hstill : StaysFresh env.cache.clock u.2.calls (store.calls + 1)
        (store.files cfg.dnsCache.path) question.domain ips :=
      staysFresh_cacheAfter egresses (enabledOf before) u.2 hcached hatomic hips (hstart _) le_rfl
        (Nat.le_succ _)
    obtain ⟨entry, hrun⟩ := run_resolve_fresh { env.cache with lookups := lookups } hcached hname
      (hreads _) hips hstill hbefore (by omega)
    exact ⟨_, rfl, hrun, made_resolve_fresh { env.cache with lookups := lookups } hcached hname
      (hreads _) hips hstill hbefore (by omega)⟩

end Answered

/-- The proxy's turn with the query for the policy domain. -/
def servedHost : Except Error Packet × ProxyState :=
  Program.run (proxyHost ⟨answeringUpstreams, quietHost.cache⟩)
    (serve domainConfig domainConfig.dnsInterception.effectiveUpstreams true hostQuery.datagram)
    (0, bareState.2)

/-- A round on the host with the cache file that the proxy has left. -/
def roundAfter (env : HostEnv) : Except Error Unit × HostState :=
  Program.run (host env) (reconcileOnce applying listOrder domainConfig)
    (bareState.1, servedHost.2.2)

theorem servedHost_spec : parseQuestion (hostQuery.datagram.take bufferSize) =
      .ok ⟨"a.example", qtypeA, qclassIn⟩ ∧ servedHost.1 = .ok bothAnswer := by
  decide +kernel

theorem fresh_quietHost : ∀ k, quietHost.cache.clock k <
    saturatingAdd (quietHost.cache.clock (bareState.2.calls + 1)) domainConfig.dnsCache.ttlSec := by
  intro k
  change (1000 : UInt64) < saturatingAdd 1000 300
  decide

theorem answered_addresses_routed_host :
    ["192.0.2.1"].Nodup ∧ policyChain domainConfig (roundAfter quietHost).2.1.kernel =
      [⟨some "192.0.2.1", none, 16⟩] := by
  have hserved : Program.run (proxyHost ⟨answeringUpstreams, quietHost.cache⟩)
      (serve domainConfig domainConfig.dnsInterception.effectiveUpstreams true
        hostQuery.datagram) (0, bareState.2) = (.ok bothAnswer, servedHost.2) :=
    Prod.ext servedHost_spec.2 rfl
  have hround : Program.run (host quietHost) (reconcileOnce applying listOrder domainConfig)
      (bareState.1, servedHost.2.2) = (.ok (), (roundAfter quietHost).2) :=
    Prod.ext (by decide +kernel) rfl
  have hsplit : domainConfig.policies =
      [] ++ domainPolicy "web" "a.example" "tun0" :: [] := rfl
  have hegress : KeyedList.lookup (·.name) (domainPolicy "web" "a.example" "tun0").action.egress
      (configuredHealthy bareState.1.links domainConfig) = some (tunnel "tun0" 100 16) := by decide
  have hatomic : ∀ k cause left, quietHost.cache.writes k ≠ .interrupted cause left :=
    fun k cause left h => by cases h
  have hchain := answered_addresses_routed (u := (bareState.1, servedHost.2.2)) (by decide) rfl rfl
    hsplit rfl rfl servedHost_spec.1 (by decide) (by decide) hserved bothAnswer_spec.2.2
    (by decide) rfl fresh_quietHost (fun k => rfl) hatomic hegress hround
  exact ⟨hchain.1, hchain.2.1⟩

/-- The same host, except that the cache file cannot be read. -/
def blindHost : HostEnv :=
  { quietHost with cache := { quietHost.cache with readFails := fun _ => some "I/O error" } }

theorem blind_round : (roundAfter blindHost).1 = .ok () ∧
    policyChain domainConfig (roundAfter blindHost).2.1.kernel = [] := by
  decide +kernel

/-- A round that cannot read the cache file installs no rule for the policy, and returns. -/
theorem not_answered_addresses_routed : ¬ ∀ (cfg : Config) (proxy : ProxyEnv) (env : HostEnv)
    (order : MapOrder) (datagram reply : Packet) (question : DnsQuestion) (policy : Policy)
    (egress : EgressInterface) (s t : ProxyState) (u v : HostState) (domain : String)
    (ips : List String), cfg.validate = .ok () → cfg.dnsCache.enabled = true →
    cfg.dnsInterception.cacheAnswers = true → policy ∈ cfg.enabledPolicies →
    policy.matchSpec.domain = some domain →
    parseQuestion (datagram.take bufferSize) = .ok question → qtypeIsA question = true →
    normalizeDomain domain = .ok question.domain →
    Program.run (proxyHost proxy) (serve cfg cfg.dnsInterception.effectiveUpstreams true datagram)
      s = (.ok reply, t) →
    parseARecords reply = .ok ⟨ips⟩ → ips ≠ [] → u.2 = t.2 →
    (∀ k, env.cache.clock k <
      saturatingAdd (proxy.cache.clock (s.2.calls + 1)) cfg.dnsCache.ttlSec) →
    KeyedList.lookup (·.name) policy.action.egress (configuredHealthy u.1.links cfg) =
      some egress →
    Program.run (host env) (reconcileOnce applying order cfg) u = (.ok (), v) →
    ∀ ip ∈ ips, ⟨some ip, policy.matchSpec.uid, egress.fwmark⟩ ∈ policyChain cfg v.1.kernel := by
  intro hclaim
  have hserved : Program.run (proxyHost ⟨answeringUpstreams, quietHost.cache⟩)
      (serve domainConfig domainConfig.dnsInterception.effectiveUpstreams true
        hostQuery.datagram) (0, bareState.2) = (.ok bothAnswer, servedHost.2) :=
    Prod.ext servedHost_spec.2 rfl
  have hround : Program.run (host blindHost) (reconcileOnce applying listOrder domainConfig)
      (bareState.1, servedHost.2.2) = (.ok (), (roundAfter blindHost).2) :=
    Prod.ext blind_round.1 rfl
  have hegress : KeyedList.lookup (·.name) (domainPolicy "web" "a.example" "tun0").action.egress
      (configuredHealthy bareState.1.links domainConfig) = some (tunnel "tun0" 100 16) := by decide
  have hrule := hclaim domainConfig ⟨answeringUpstreams, quietHost.cache⟩ blindHost listOrder
    hostQuery.datagram bothAnswer ⟨"a.example", qtypeA, qclassIn⟩
    (domainPolicy "web" "a.example" "tun0") (tunnel "tun0" 100 16) (0, bareState.2) servedHost.2
    (bareState.1, servedHost.2.2) (roundAfter blindHost).2 "a.example" ["192.0.2.1"] (by decide)
    rfl rfl (by decide) rfl servedHost_spec.1 (by decide) (by decide) hserved
    bothAnswer_spec.2.2 (by decide) rfl fresh_quietHost hegress hround "192.0.2.1" (by simp)
  rw [blind_round.2] at hrule
  cases hrule

end EveNet
