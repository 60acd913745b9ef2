import EveNet.ProxyReplies
import EveNet.CacheRuns

/-!
# The proxy and the cache file

The addresses of a policy domain leave the proxy only after they have been written to the
cache file, where they are to be, and every other reply to a question for them is an error
response. Questions that are not for the address of a policy domain never touch the file.
-/

namespace EveNet

theorem uniqueSorted_of_parseARecords {response : Packet} {records : ARecordSet}
    (h : parseARecords response = .ok records) : uniqueSorted records.ips = records.ips := by
  obtain ⟨_, -, h⟩ := except_bind_eq_ok.mp h
  obtain ⟨_, -, h⟩ := except_bind_eq_ok.mp h
  obtain ⟨_, -, h⟩ := except_bind_eq_ok.mp h
  obtain ⟨_, -, h⟩ := except_bind_eq_ok.mp h
  obtain ⟨ips, -, h⟩ := except_bind_eq_ok.mp h
  rw [← Except.ok.inj h]
  exact uniqueSorted_uniqueSorted ips

section Caching

variable {env : ProxyEnv} {cfg : Config} {writeCache : Bool} {query response : Packet}
  {question : DnsQuestion} {s : ProxyState} {upstreams : List SocketAddr}

/-- The file holds, for the domain of the question, these addresses until their time is over. -/
def CachedUntil (cfg : Config) (content : FileContent) (domain : String) (ips : List String)
    (now : UInt64) : Prop :=
  ∃ entry, content.find domain = some entry ∧ entry.resolvedIpv4 = ips ∧
    entry.expiresAtEpoch = saturatingAdd now cfg.dnsCache.ttlSec

/-- The addresses of an accepted answer are in the file when the answer is returned. -/
theorem cached_of_upsert {ips : List String} {saved : Option DnsCacheEntry} {t : CacheStore}
    (hdomain : normalizeDomain question.domain = .ok question.domain)
    (hsorted : uniqueSorted ips = ips) (hips : ips ≠ [])
    (hrun : Program.run (cacheHost env.cache)
      (upsertLiveIpsFromProxy cfg question.domain ips writeCache) s.2 = (.ok saved, t))
    (henabled : cfg.dnsCache.enabled = true) (hwrite : writeCache = true) :
    CachedUntil cfg (t.files cfg.dnsCache.path) question.domain ips
      (env.cache.clock (s.2.calls + 1)) := by
  subst hwrite
  rcases upsertLiveIpsFromProxy_cases env.cache cfg ips true s.2 hdomain with
    ⟨e, he, -⟩ | ⟨e, he, -⟩ | ⟨a, ha, hgood⟩
  · rw [hrun] at he
    cases he
  · rw [hrun] at he
    cases he
  · rw [hrun] at hgood
    generalize t.files cfg.dnsCache.path = after at hgood ⊢
    cases hgood with
    | skipped h =>
        rcases h with h | h
        · exact absurd h hips
        · rw [henabled] at h
          cases h
    | saved _ _ =>
        refine ⟨answerEntry cfg question.domain (uniqueSorted ips)
          (env.cache.clock (s.2.calls + 1)) "dns-proxy", ?_, hsorted, rfl⟩
        rw [savedIf, if_pos rfl, find_savedOver]
        exact if_pos rfl

variable (env writeCache query response s) in
/-- What is done with an answer to an address question for a policy domain: it is refused, or
its addresses are returned and, where the cache is in use, are in the file. -/
theorem acceptAnswer_ips {isPolicyDomain : Bool} (hfail : hardFailClosed cfg = true)
    (hpolicy : isPolicyDomain ∧ qtypeIsA question)
    (hdomain : normalizeDomain question.domain = .ok question.domain) :
    Refused query (Program.run (proxyHost env)
        (acceptAnswer cfg writeCache query question isPolicyDomain response) s).1 ∨
      (Program.run (proxyHost env)
        (acceptAnswer cfg writeCache query question isPolicyDomain response) s).1 =
          .ok response ∧
      ∃ ips, parseARecords response = .ok ⟨ips⟩ ∧ ips ≠ [] ∧
        (cfg.dnsInterception.cacheAnswers = true → cfg.dnsCache.enabled = true →
          writeCache = true → CachedUntil cfg ((Program.run (proxyHost env)
            (acceptAnswer cfg writeCache query question isPolicyDomain response) s).2.2.files
              cfg.dnsCache.path) question.domain ips (env.cache.clock (s.2.calls + 1))) := by
  cases hrecords : parseARecords response with
  | error e =>
      rw [run_acceptAnswer_unread hpolicy hrecords]
      exact Or.inl (Or.inr ⟨e, rfl⟩)
  | ok records =>
      obtain ⟨ips⟩ := records
      by_cases hips : ips = []
      · subst hips
        rw [run_acceptAnswer_empty hpolicy hrecords, if_pos hfail]
        exact Or.inl (Or.inl rfl)
      · rw [run_acceptAnswer_ips hpolicy hrecords hips]
        have hsorted : uniqueSorted ips = ips := uniqueSorted_of_parseARecords hrecords
        by_cases hcache : cfg.dnsInterception.cacheAnswers = true
        · rw [if_pos hcache]
          rcases hrun : Program.run (cacheHost env.cache)
            (upsertLiveIpsFromProxy cfg question.domain ips writeCache) s.2 with ⟨e | saved, t⟩
          · exact Or.inl (Or.inr ⟨e, rfl⟩)
          · exact Or.inr ⟨rfl, ips, rfl, hips, fun _ henabled hwrite =>
              cached_of_upsert hdomain hsorted hips hrun henabled hwrite⟩
        · rw [if_neg hcache]
          exact Or.inr ⟨rfl, ips, rfl, hips, fun h => absurd h hcache⟩

/-- Only an accepted answer to an address question for a policy domain touches the cache. -/
theorem files_handleQuery
    (hother : ∀ question policy, parseQuestion query = .ok question →
      findEnabledDomainPolicy cfg question.domain = .ok (some policy) →
      qtypeIsA question = false) :
    (Program.run (proxyHost env) (handleQuery cfg upstreams writeCache query) s).2.2.files =
      s.2.files := by
  cases hquestion : parseQuestion query with
  | error e => rw [run_handleQuery_unread hquestion]
  | ok question =>
      cases hpolicy : findEnabledDomainPolicy cfg question.domain with
      | error e => rw [run_handleQuery_unmatched hquestion hpolicy]
      | ok policy =>
          cases hdenied : deniesAaaa cfg question policy.isSome with
          | true => rw [run_handleQuery_denied hquestion hpolicy hdenied]
          | false =>
              cases hanswer : firstAnswer env.udp query cfg.dnsInterception.timeoutMs s.1
                  upstreams with
              | none =>
                  obtain ⟨r, k, hrun, -⟩ :=
                    run_handleQuery_unanswered writeCache hquestion hpolicy hdenied hanswer
                  rw [hrun]
              | some answer =>
                  obtain ⟨k, hrun⟩ :=
                    run_handleQuery_answered writeCache hquestion hpolicy hdenied hanswer
                  have hplain : ¬ (policy.isSome = true ∧ qtypeIsA question = true) := by
                    rintro ⟨hsome, hA⟩
                    obtain ⟨p, rfl⟩ := Option.isSome_iff_exists.mp hsome
                    rw [hother question p hquestion hpolicy] at hA
                    cases hA
                  rw [hrun, run_acceptAnswer_plain hplain]

/-- A policy with the name is found, or another one, or the search ends at a domain that cannot
be normalized. -/
theorem find_of_hasName {policy : Policy} {name : String} (hmem : policy ∈ cfg.enabledPolicies)
    (hname : normalizeDomain name = .ok name) (hhas : policy.hasName name = true) :
    (∃ e, findEnabledDomainPolicy cfg name = .error e) ∨
      ∃ found, findEnabledDomainPolicy cfg name = .ok (some found) := by
  cases hpolicy : findEnabledDomainPolicy cfg name with
  | error e => exact Or.inl ⟨e, rfl⟩
  | ok found =>
      obtain ⟨hfind, -⟩ := (findEnabledDomainPolicy_eq_ok_iff hname).mp hpolicy
      cases found with
      | some found => exact Or.inr ⟨found, rfl⟩
      | none => exact absurd hhas (List.find?_eq_none.mp hfind policy hmem)

/-- With both fail-closed flags set, an address question for a policy domain is answered by an
error response, or by an upstream answer with addresses that the cache file holds by then;
every other question leaves the cache file as it is. -/
theorem serve_fails_closed (env : ProxyEnv) (s : ProxyState) (upstreams : List SocketAddr)
    (writeCache : Bool) (datagram : Packet)
    (hdeny : cfg.dnsInterception.denyUnresolvedPolicyDomains = true)
    (hfail : cfg.dnsCache.failClosedUnresolved = true) :
    (∀ question policy, parseQuestion (datagram.take bufferSize) = .ok question →
      qtypeIsA question = true → policy ∈ cfg.enabledPolicies →
      policy.hasName question.domain = true →
      ∃ reply t, Program.run (proxyHost env) (serve cfg upstreams writeCache datagram) s =
          (.ok reply, t) ∧
        (ErrorReply (datagram.take bufferSize) reply ∧ readU16 reply 6 = .ok 0 ∨
          ∃ answer ips, firstAnswer env.udp (datagram.take bufferSize)
              cfg.dnsInterception.timeoutMs s.1 upstreams = some answer ∧
            reply = answer.take bufferSize ∧ parseARecords reply = .ok ⟨ips⟩ ∧ ips ≠ [] ∧
            (cfg.dnsInterception.cacheAnswers = true → cfg.dnsCache.enabled = true →
              writeCache = true → CachedUntil cfg (t.2.files cfg.dnsCache.path) question.domain
                ips (env.cache.clock (s.2.calls + 1))))) ∧
    ((∀ question policy, parseQuestion (datagram.take bufferSize) = .ok question →
        findEnabledDomainPolicy cfg question.domain = .ok (some policy) →
        qtypeIsA question = false) →
      (Program.run (proxyHost env) (serve cfg upstreams writeCache datagram) s).2.2.files =
        s.2.files) := by
  simp only [run_serve]
  constructor
  · intro question policy hquestion hA hmem hname
    have hlen : 12 ≤ (datagram.take bufferSize).length := by
      obtain ⟨_, hlen, -⟩ := except_bind_eq_ok.mp hquestion
      rw [refuseIf_eq_ok] at hlen
      omega
    have hclosed : hardFailClosed cfg = true := decide_eq_true ⟨hdeny, hfail⟩
    have hasked : deniesAaaa cfg question true = false := by
      have hqtype : question.qtype = qtypeA := (of_decide_eq_true hA).1
      rw [deniesAaaa, hqtype]
      exact decide_eq_false (fun h => absurd h.2.1 (by decide))
    have hcanonical := normalized_of_parseQuestion hquestion
    refine ⟨_, _, rfl, ?_⟩
    rcases find_of_hasName hmem hcanonical hname with ⟨e, hfails⟩ | ⟨found, hpolicy⟩
    · rw [run_handleQuery_unmatched hquestion hfails]
      have herror := errorReply_of_refused hlen (Or.inr ⟨e, rfl⟩)
      exact Or.inl ⟨herror, herror.header.2.1⟩
    cases hanswer : firstAnswer env.udp (datagram.take bufferSize) cfg.dnsInterception.timeoutMs
        s.1 upstreams with
    | none =>
        obtain ⟨r, k, hrun, hrefused⟩ :=
          run_handleQuery_unanswered writeCache hquestion hpolicy hasked hanswer
        rw [hrun]
        have herror := errorReply_of_refused hlen hrefused
        exact Or.inl ⟨herror, herror.header.2.1⟩
    | some answer =>
        obtain ⟨k, hrun⟩ := run_handleQuery_answered writeCache hquestion hpolicy hasked hanswer
        rw [Option.isSome_some] at hrun
        rw [hrun]
        rcases acceptAnswer_ips env writeCache (datagram.take bufferSize) (answer.take bufferSize)
          (k, s.2) hclosed ⟨rfl, hA⟩ hcanonical with
          hrefused | ⟨hreply, ips, hips⟩
        · have herror := errorReply_of_refused hlen hrefused
          exact Or.inl ⟨herror, herror.header.2.1⟩
        · rw [hreply]
          exact Or.inr ⟨answer, ips, rfl, rfl, hips⟩
  · exact files_handleQuery

end Caching

/-- Upstreams that answer every query with one A and one AAAA record. -/
def answeringUpstreams : UdpEnv := fun _ _ => .received bothAnswer

theorem serve_fails_closed_host :
    ∃ reply t, Program.run (proxyHost ⟨answeringUpstreams, quietHost.cache⟩)
        (serve domainConfig domainConfig.dnsInterception.effectiveUpstreams true
          hostQuery.datagram) (0, bareState.2) = (.ok reply, t) ∧
      (ErrorReply (hostQuery.datagram.take bufferSize) reply ∧ readU16 reply 6 = .ok 0 ∨
        ∃ answer ips, firstAnswer answeringUpstreams (hostQuery.datagram.take bufferSize)
            domainConfig.dnsInterception.timeoutMs 0
            domainConfig.dnsInterception.effectiveUpstreams = some answer ∧
          reply = answer.take bufferSize ∧ parseARecords reply = .ok ⟨ips⟩ ∧ ips ≠ [] ∧
          (domainConfig.dnsInterception.cacheAnswers = true →
            domainConfig.dnsCache.enabled = true → true = true →
              CachedUntil domainConfig (t.2.files domainConfig.dnsCache.path) "a.example" ips
                1000)) :=
  (serve_fails_closed ⟨answeringUpstreams, quietHost.cache⟩ (0, bareState.2)
    domainConfig.dnsInterception.effectiveUpstreams true hostQuery.datagram rfl rfl).1
    ⟨"a.example", qtypeA, qclassIn⟩ (domainPolicy "web" "a.example" "tun0") (by decide +kernel)
    (by decide) (by decide) (by decide)

end EveNet
