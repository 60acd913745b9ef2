import EveNet.ProxyReplies

/-!
# The order of the upstreams

The configured entries that parse are tried one after the other, each address once, until one
answers. The entries that are passed over are the blank ones and those that are reported as
malformed.
-/

namespace EveNet

/-! ### Configured entries -/

/-- The address an entry stands for. -/
def entryAddr (entry : String) : Option SocketAddr :=
  if trimmedEmpty entry then none else SocketAddr.parse (String.ofList (trim entry.toList))

namespace DnsInterceptionConfig

variable (dns : DnsInterceptionConfig)

def malformedUpstreamEntries : List String :=
  dns.configuredUpstreamEntries.filterMap fun entry =>
    if trimmedEmpty entry then none
    else if (SocketAddr.parse (String.ofList (trim entry.toList))).isNone then some entry
    else none

theorem collectUpstreams_cons (upstreams : List SocketAddr) (entry : String)
    (entries : List String) :
    collectUpstreams upstreams (entry :: entries) =
      match entryAddr entry with
      | none => collectUpstreams upstreams entries
      | some addr =>
        if addr ∈ upstreams then collectUpstreams upstreams entries
        else collectUpstreams (upstreams ++ [addr]) entries := by
  by_cases hblank : trimmedEmpty entry = true
  · simp [collectUpstreams, entryAddr, hblank]
  · cases hparse : SocketAddr.parse (String.ofList (trim entry.toList)) <;>
      simp [collectUpstreams, entryAddr, hblank, hparse]

theorem collectUpstreams_eq (upstreams : List SocketAddr) (entries : List String) :
    collectUpstreams upstreams entries =
      upstreams ++ ((entries.filterMap entryAddr).filter (· ∉ upstreams)).eraseDups := by
  induction entries generalizing upstreams with
  | nil => simp [collectUpstreams]
  | cons entry entries ih =>
      rw [collectUpstreams_cons, List.filterMap_cons]
      cases entryAddr entry with
      | none => exact ih upstreams
      | some addr =>
          dsimp only
          by_cases hseen : addr ∈ upstreams
          · rw [if_pos hseen, ih, List.filter_cons_of_neg (by simpa using hseen)]
          · rw [if_neg hseen, ih, List.filter_cons_of_pos (by simpa using hseen),
              List.eraseDups_cons, List.filter_filter, List.append_assoc, List.singleton_append]
            congr 3
            refine List.filter_congr (fun other _ => ?_)
            by_cases hother : other = addr <;> simp [hother]

theorem nodup_collectUpstreams {upstreams : List SocketAddr} (h : upstreams.Nodup)
    (entries : List String) : (collectUpstreams upstreams entries).Nodup := by
  induction entries generalizing upstreams with
  | nil => exact h
  | cons entry entries ih =>
      rw [collectUpstreams_cons]
      cases entryAddr entry with
      | none => exact ih h
      | some addr =>
          dsimp only
          by_cases hseen : addr ∈ upstreams
          · rw [if_pos hseen]
            exact ih h
          · rw [if_neg hseen]
            exact ih (List.concat_eq_append ▸ h.concat hseen)

/-- The addresses of the entries in the order of their first occurrence. -/
theorem effectiveUpstreams_eq :
    dns.effectiveUpstreams = (dns.configuredUpstreamEntries.filterMap entryAddr).eraseDups := by
  rw [effectiveUpstreams, collectUpstreams_eq]
  simp

/-- The entries are those of the list, or the single one where the list is empty. -/
theorem effectiveUpstreams_declared :
    dns.effectiveUpstreams =
      (((if dns.upstreams = [] then [dns.upstreamAddr] else dns.upstreams).filter
        (fun entry => ¬ trimmedEmpty entry)).filterMap
        (fun entry => SocketAddr.parse (String.ofList (trim entry.toList)))).eraseDups := by
  have hentry : ∀ entries : List String, entries.filterMap entryAddr =
      (entries.filter (fun entry => ¬ trimmedEmpty entry)).filterMap
        (fun entry => SocketAddr.parse (String.ofList (trim entry.toList))) := by
    intro entries
    rw [List.filterMap_filter]
    refine List.filterMap_congr fun entry _ => ?_
    unfold entryAddr
    by_cases hblank : trimmedEmpty entry = true <;> simp [hblank]
  rw [effectiveUpstreams_eq, hentry, configuredUpstreamEntries]
  by_cases hlist : dns.upstreams = []
  · by_cases hblank : trimmedEmpty dns.upstreamAddr = true <;> simp [hlist, hblank]
  · simp [hlist]

theorem mem_configured_of_declared {entry : String}
    (hentry : entry ∈ if dns.upstreams = [] then [dns.upstreamAddr] else dns.upstreams)
    (hblank : trimmedEmpty entry = false) : entry ∈ dns.configuredUpstreamEntries := by
  unfold configuredUpstreamEntries
  by_cases hlist : dns.upstreams = []
  · rw [if_pos hlist, List.mem_singleton] at hentry
    rw [hentry] at hblank ⊢
    simp [hlist, hblank]
  · rw [if_neg hlist] at hentry
    rwa [if_pos hlist]

theorem nodup_effectiveUpstreams : dns.effectiveUpstreams.Nodup :=
  nodup_collectUpstreams List.nodup_nil _

theorem mem_effectiveUpstreams {addr : SocketAddr} :
    addr ∈ dns.effectiveUpstreams ↔
      ∃ entry ∈ dns.configuredUpstreamEntries, entryAddr entry = some addr := by
  rw [effectiveUpstreams_eq, List.mem_eraseDups, List.mem_filterMap]

/-- An entry that is not blank is used or reported, never both. -/
theorem used_iff_not_malformed {entry : String} (hentry : entry ∈ dns.configuredUpstreamEntries)
    (hblank : trimmedEmpty entry = false) :
    (∃ addr ∈ dns.effectiveUpstreams,
        SocketAddr.parse (String.ofList (trim entry.toList)) = some addr) ↔
      entry ∉ dns.malformedUpstreamEntries := by
  have haddr : entryAddr entry = SocketAddr.parse (String.ofList (trim entry.toList)) := by
    rw [entryAddr, if_neg (by simp [hblank])]
  rw [← haddr]
  constructor
  · rintro ⟨addr, -, haddress⟩ hmem
    obtain ⟨other, -, hother⟩ := List.mem_filterMap.mp hmem
    by_cases hother' : trimmedEmpty other = true
    · rw [if_pos hother'] at hother
      cases hother
    · rw [if_neg hother'] at hother
      split_ifs at hother with hnone
      obtain rfl := Option.some.inj hother
      rw [← haddr, haddress] at hnone
      cases hnone
  · intro hused
    cases hparse : entryAddr entry with
    | some addr => exact ⟨addr, dns.mem_effectiveUpstreams.mpr ⟨entry, hentry, hparse⟩, rfl⟩
    | none =>
        refine absurd (List.mem_filterMap.mpr ⟨entry, hentry, ?_⟩) hused
        rw [if_neg (by simp [hblank]), ← haddr, hparse]
        rfl

end DnsInterceptionConfig

/-! ### Contacts -/

/-- The datagram that comes back from the `i`-th of the upstreams, if one does. -/
def answerOf (env : UdpEnv) (query : Packet) (timeoutMs : UInt64) (k : ℕ)
    (upstreams : List SocketAddr) (i : ℕ) : Option Packet :=
  match upstreams[i]? with
  | none => none
  | some upstream =>
    match env (k + i) ⟨upstream, query, timeoutMs⟩ with
    | .received datagram => some datagram
    | _ => none

/-- The upstreams that a query is sent to, in order. -/
def contacted (env : UdpEnv) (query : Packet) (timeoutMs : UInt64) (failures : List String)
    (upstreams : List SocketAddr) (k : ℕ) : List SocketAddr :=
  (Program.made (udpHost env) (forwardQueryWithFailover query timeoutMs failures upstreams)
    k).map (·.upstream)

/-- One upstream after the other is tried, up to the first that answers. -/
def TriedInOrder (answer : ℕ → Option Packet) (upstreams contacted : List SocketAddr)
    (result : Except Error Packet) : Prop :=
  (∃ n datagram, answer n = some datagram ∧ (∀ i < n, answer i = none) ∧
    contacted = upstreams.take (n + 1) ∧ result = .ok (datagram.take bufferSize)) ∨
  (∀ i, answer i = none) ∧ contacted = upstreams ∧ ∃ e, result = .error e

section Contacts

variable (env : UdpEnv) (query : Packet) (timeoutMs : UInt64)

theorem answerOf_succ (upstream : SocketAddr) (upstreams : List SocketAddr) (k i : ℕ) :
    answerOf env query timeoutMs k (upstream :: upstreams) (i + 1) =
      answerOf env query timeoutMs (k + 1) upstreams i := by
  rw [answerOf, answerOf, List.getElem?_cons_succ, Nat.add_assoc, Nat.add_comm 1 i]

/-- An upstream that does not answer comes before those that are tried next. -/
theorem TriedInOrder.cons {answer : ℕ → Option Packet} {upstreams contacted : List SocketAddr}
    {result : Except Error Packet} (upstream : SocketAddr) (hnone : answer 0 = none)
    (h : TriedInOrder (fun i => answer (i + 1)) upstreams contacted result) :
    TriedInOrder answer (upstream :: upstreams) (upstream :: contacted) result := by
  rcases h with ⟨n, datagram, hanswer, hbefore, rfl, hresult⟩ | ⟨hsilent, rfl, hresult⟩
  · refine Or.inl ⟨n + 1, datagram, hanswer, ?_, rfl, hresult⟩
    intro i hi
    cases i with
    | zero => exact hnone
    | succ i => exact hbefore i (by omega)
  · refine Or.inr ⟨fun i => ?_, rfl, hresult⟩
    cases i with
    | zero => exact hnone
    | succ i => exact hsilent i

theorem tried_in_order (failures : List String) (upstreams : List SocketAddr) (k : ℕ) :
    TriedInOrder (answerOf env query timeoutMs k upstreams) upstreams
      (contacted env query timeoutMs failures upstreams k)
      (Program.run (udpHost env) (forwardQueryWithFailover query timeoutMs failures upstreams)
        k).1 := by
  induction upstreams generalizing failures k with
  | nil => exact Or.inr ⟨fun _ => rfl, rfl, _, rfl⟩
  | cons upstream upstreams ih =>
      have hrest : ∀ failures, (answerOf env query timeoutMs k (upstream :: upstreams) 0 = none) →
          TriedInOrder (answerOf env query timeoutMs k (upstream :: upstreams))
            (upstream :: upstreams)
            (upstream :: contacted env query timeoutMs failures upstreams (k + 1))
            (Program.run (udpHost env) (forwardQueryWithFailover query timeoutMs failures upstreams)
              (k + 1)).1 := by
        intro failures hnone
        apply TriedInOrder.cons upstream hnone
        have hlater := ih failures (k + 1)
        rwa [← funext (answerOf_succ env query timeoutMs upstream upstreams k)] at hlater
      rw [contacted, forwardQueryWithFailover, forwardQuery, Program.attempt, Program.bind_call,
        Program.made, Program.run_call]
      dsimp only [udpHost]
      cases hfate : env k ⟨upstream, query, timeoutMs⟩ with
      | received datagram =>
          refine Or.inl ⟨0, datagram, ?_, by simp, rfl, rfl⟩
          simp [answerOf, hfate]
      | bindFailed cause => exact hrest _ (by simp [answerOf, hfate])
      | sendFailed cause => exact hrest _ (by simp [answerOf, hfate])
      | timedOut => exact hrest _ (by simp [answerOf, hfate])
      | receiveFailed cause => exact hrest _ (by simp [answerOf, hfate])

end Contacts

/-! ### Replies without an answer -/

/-- Some enabled policy has this domain. -/
def asksPolicyDomain (cfg : Config) (domain : String) : Bool :=
  cfg.enabledPolicies.any (·.hasName domain)

/-- The code of the reply to a query that no upstream answers. -/
def failureCode (cfg : Config) (domain : String) : UInt16 :=
  if asksPolicyDomain cfg domain ∧ cfg.dnsInterception.denyUnresolvedPolicyDomains ∧
    cfg.dnsCache.failClosedUnresolved then rcodeRefused
  else rcodeServfail

theorem find_policy_of_usable {cfg : Config} {domain : String}
    (hdomains : ∀ policy ∈ cfg.enabledPolicies, policy.domainUsable = true)
    (hname : normalizeDomain domain = .ok domain) :
    ∃ policy, findEnabledDomainPolicy cfg domain = .ok policy ∧
      policy.isSome = asksPolicyDomain cfg domain := by
  refine ⟨cfg.enabledPolicies.find? (·.hasName domain), ?_, ?_⟩
  · rw [findEnabledDomainPolicy_iff hname]
    exact fun policy hpolicy => hdomains policy (List.takeWhile_subset _ hpolicy)
  · rw [Bool.eq_iff_iff, List.find?_isSome, asksPolicyDomain, List.any_eq_true]

theorem reply_without_answer {env : ProxyEnv} {cfg : Config} {s : ProxyState} {datagram : Packet}
    {question : DnsQuestion} {upstreams : List SocketAddr} {e : Error} (writeCache : Bool)
    (hdomains : ∀ policy ∈ cfg.enabledPolicies, policy.domainUsable = true)
    (hquestion : parseQuestion (datagram.take bufferSize) = .ok question)
    (hasked : deniesAaaa cfg question (asksPolicyDomain cfg question.domain) = false)
    (hforward : (Program.run (udpHost env.udp) (forwardQueryWithFailover (datagram.take bufferSize)
      cfg.dnsInterception.timeoutMs [] upstreams) s.1).1 = .error e) :
    ∃ reply t, Program.run (proxyHost env) (serve cfg upstreams writeCache datagram) s =
        (.ok reply, t) ∧
      buildErrorResponse (datagram.take bufferSize) (failureCode cfg question.domain) =
        .ok reply := by
  have hlen : 12 ≤ (datagram.take bufferSize).length := by
    obtain ⟨_, hlen, -⟩ := except_bind_eq_ok.mp hquestion
    rw [refuseIf_eq_ok] at hlen
    omega
  obtain ⟨policy, hpolicy, hsome⟩ :=
    find_policy_of_usable hdomains (normalized_of_parseQuestion hquestion)
  obtain ⟨refused, -, hrefused, -⟩ := buildErrorResponse_spec hlen rcodeRefused
  obtain ⟨failed, -, hfailed, -⟩ := buildErrorResponse_spec hlen rcodeServfail
  rw [run_serve, run_handleQuery_matched hquestion hpolicy, hsome, if_neg (by simp [hasked]),
    Program.run_bind, Program.run_left, Program.run_attempt, hforward, failureCode]
  dsimp only
  by_cases hclosed : asksPolicyDomain cfg question.domain = true ∧ hardFailClosed cfg = true
  · have hcode : asksPolicyDomain cfg question.domain = true ∧
        cfg.dnsInterception.denyUnresolvedPolicyDomains = true ∧
        cfg.dnsCache.failClosedUnresolved = true := by simpa [hardFailClosed] using hclosed
    rw [if_pos hclosed, if_pos hcode, Program.run_ofExcept, hrefused]
    exact ⟨refused, _, rfl, rfl⟩
  · have hcode : ¬ (asksPolicyDomain cfg question.domain = true ∧
        cfg.dnsInterception.denyUnresolvedPolicyDomains = true ∧
        cfg.dnsCache.failClosedUnresolved = true) := by simpa [hardFailClosed] using hclosed
    have hreply : replyTo (datagram.take bufferSize) (.error e) = failed := by
      simp [replyTo, hfailed]
    rw [if_neg hclosed, if_neg hcode, hfailed, ← hreply]
    exact ⟨_, _, rfl, rfl⟩

/-- Upstreams are tried in the configured order, each once and up to the first that answers;
without an answer the query fails with the code for its domain. Every entry is tried or
reported. -/
theorem upstreams_tried_in_order (cfg : Config)
    (hdomains : ∀ policy ∈ cfg.enabledPolicies, policy.domainUsable = true) :
    cfg.dnsInterception.effectiveUpstreams =
      (((if cfg.dnsInterception.upstreams = [] then [cfg.dnsInterception.upstreamAddr]
          else cfg.dnsInterception.upstreams).filter (fun entry => ¬ trimmedEmpty entry)).filterMap
        (fun entry => SocketAddr.parse (String.ofList (trim entry.toList)))).eraseDups ∧
    (∀ entry ∈ (if cfg.dnsInterception.upstreams = [] then [cfg.dnsInterception.upstreamAddr]
        else cfg.dnsInterception.upstreams), trimmedEmpty entry = false →
      ((∃ addr ∈ cfg.dnsInterception.effectiveUpstreams,
          SocketAddr.parse (String.ofList (trim entry.toList)) = some addr) ↔
        entry ∉ cfg.dnsInterception.malformedUpstreamEntries)) ∧
    ∀ (env : ProxyEnv) (query : Packet) (s : ProxyState),
      (contacted env.udp query cfg.dnsInterception.timeoutMs []
        cfg.dnsInterception.effectiveUpstreams s.1).Nodup ∧
      TriedInOrder
        (answerOf env.udp query cfg.dnsInterception.timeoutMs s.1
          cfg.dnsInterception.effectiveUpstreams)
        cfg.dnsInterception.effectiveUpstreams
        (contacted env.udp query cfg.dnsInterception.timeoutMs []
          cfg.dnsInterception.effectiveUpstreams s.1)
        (Program.run (udpHost env.udp) (forwardQueryWithFailover query
          cfg.dnsInterception.timeoutMs [] cfg.dnsInterception.effectiveUpstreams) s.1).1 ∧
      ∀ (datagram : Packet) (question : DnsQuestion) (writeCache : Bool),
        query = datagram.take bufferSize → parseQuestion query = .ok question →
        deniesAaaa cfg question (asksPolicyDomain cfg question.domain) = false →
        (∀ i, answerOf env.udp query cfg.dnsInterception.timeoutMs s.1
          cfg.dnsInterception.effectiveUpstreams i = none) →
        ∃ reply t, Program.run (proxyHost env) (serve cfg
            cfg.dnsInterception.effectiveUpstreams writeCache datagram) s = (.ok reply, t) ∧
          buildErrorResponse query (failureCode cfg question.domain) = .ok reply := by
  refine ⟨cfg.dnsInterception.effectiveUpstreams_declared, fun entry hentry hblank =>
    cfg.dnsInterception.used_iff_not_malformed
      (cfg.dnsInterception.mem_configured_of_declared hentry hblank) hblank, fun env query s => ?_⟩
  have htried := tried_in_order env.udp query cfg.dnsInterception.timeoutMs []
    cfg.dnsInterception.effectiveUpstreams s.1
  have hnodup := cfg.dnsInterception.nodup_effectiveUpstreams
  refine ⟨?_, htried, ?_⟩
  · rcases htried with ⟨n, _, -, -, hcontacted, -⟩ | ⟨-, hcontacted, -⟩
    · rw [hcontacted]
      exact hnodup.sublist (List.take_sublist _ _)
    · rw [hcontacted]
      exact hnodup
  · rintro datagram question writeCache rfl hquestion hasked hsilent
    rcases htried with ⟨n, answer, hanswer, -⟩ | ⟨-, -, e, hforward⟩
    · rw [hsilent n] at hanswer
      cases hanswer
    · exact reply_without_answer writeCache hdomains hquestion hasked hforward

/-- Two resolvers, the first of them twice, and an entry that is no address. -/
def twoResolvers : Config :=
  { domainConfig with dnsInterception := { domainConfig.dnsInterception with
      upstreams := ["9.9.9.9:53", " 9.9.9.9:53", "nowhere", "1.1.1.1:53"] } }

/-- The first resolver stays silent and the second one answers. -/
def secondAnswers : UdpEnv := fun k _ => if k = 0 then .timedOut else .received bothAnswer

theorem upstreams_tried_in_order_second :
    contacted secondAnswers hostQuery.datagram twoResolvers.dnsInterception.timeoutMs []
        twoResolvers.dnsInterception.effectiveUpstreams 0 = [.v4 9 9 9 9 53, .v4 1 1 1 1 53] ∧
      (Program.run (udpHost secondAnswers) (forwardQueryWithFailover hostQuery.datagram
        twoResolvers.dnsInterception.timeoutMs []
        twoResolvers.dnsInterception.effectiveUpstreams) 0).1 = .ok (bothAnswer.take bufferSize) ∧
      "nowhere" ∈ twoResolvers.dnsInterception.malformedUpstreamEntries := by
  obtain ⟨hdeclared, hentries, hrun⟩ := upstreams_tried_in_order twoResolvers (by decide)
  have hupstreams : twoResolvers.dnsInterception.effectiveUpstreams =
      [.v4 9 9 9 9 53, .v4 1 1 1 1 53] := hdeclared.trans (by decide +kernel)
  have htried := (hrun ⟨secondAnswers, quietHost.cache⟩ hostQuery.datagram (0, bareState.2)).2.1
  refine and_assoc.mp ⟨?_, ?_⟩
  · rw [hupstreams] at htried ⊢
    rcases htried with ⟨n, datagram, hanswer, hbefore, hcontacted, hresult⟩ | ⟨hsilent, -⟩
    · -- the first resolver does not answer, the second one does
      rcases n with _ | _ | n
      · cases hanswer
      · obtain rfl : bothAnswer = datagram := Option.some.inj hanswer
        exact ⟨hcontacted, hresult⟩
      · cases hbefore 1 (by omega)
    · cases hsilent 1
  · by_contra hunreported
    obtain ⟨addr, -, haddr⟩ := (hentries "nowhere" (by decide) (by decide)).mpr hunreported
    revert haddr
    rw [show SocketAddr.parse (String.ofList (trim "nowhere".toList)) = none by decide +kernel]
    nofun

end EveNet
