import EveNet.DnsSections

/-!
# The DNS proxy

`serve` is one turn of the proxy's loop: a datagram comes in, one datagram goes back. It
calls on the upstream resolvers and on the cache's surroundings side by side. Sending a
query to an upstream and waiting for what comes back counts as one call, with everything
that can become of it as its answer.
-/

namespace EveNet

/-! ### Surroundings -/

structure UdpCall where
  upstream : SocketAddr
  query : Packet
  timeoutMs : UInt64
  deriving DecidableEq

inductive ExchangeFate where
  | bindFailed (cause : String)
  | sendFailed (cause : String)
  | timedOut
  | receiveFailed (cause : String)
  | received (datagram : Packet)
  deriving DecidableEq

abbrev udpInterface : Interface where
  Call := UdpCall
  Answer _ := ExchangeFate

/-- What becomes of the `k`-th exchange. -/
abbrev UdpEnv := ℕ → UdpCall → ExchangeFate

def udpHost (env : UdpEnv) : Handler udpInterface ℕ := fun c k => (env k c, k + 1)

abbrev UdpProgram := Program udpInterface Error

abbrev proxyInterface : Interface := udpInterface.sum cacheInterface

abbrev ProxyProgram := Program proxyInterface Error

structure ProxyEnv where
  udp : UdpEnv
  cache : CacheEnv

abbrev ProxyState := ℕ × CacheStore

abbrev proxyHost (env : ProxyEnv) : Handler proxyInterface ProxyState :=
  (udpHost env.udp).both (cacheHost env.cache)

/-! ### Forwarding -/

/-- Size of the buffers that datagrams are received into; what does not fit is lost. -/
def bufferSize : ℕ := 4096

/-- An error with its causes on one line. -/
def Error.chain (e : Error) : String := ": ".intercalate e

def forwardQuery (query : Packet) (timeoutMs : UInt64) (upstream : SocketAddr) :
    UdpProgram Packet :=
  .call ⟨upstream, query, timeoutMs⟩ fun
    | .bindFailed cause => .fail [cause]
    | .sendFailed cause =>
      .fail ["failed to send DNS query to upstream " ++ upstream.display, cause]
    | .timedOut =>
      .fail ["upstream DNS timeout after " ++ toString timeoutMs ++ "ms for " ++ upstream.display,
        "deadline has elapsed"]
    | .receiveFailed cause =>
      .fail ["failed to receive DNS response from upstream " ++ upstream.display, cause]
    | .received datagram => .pure (datagram.take bufferSize)

/-- The upstreams one after the other until one answers, with the failures so far. -/
def forwardQueryWithFailover (query : Packet) (timeoutMs : UInt64) :
    (failures : List String) → List SocketAddr → UdpProgram Packet
  | failures, [] => .fail ["all DNS upstreams failed: " ++ "; ".intercalate failures]
  | failures, upstream :: upstreams =>
    (Program.attempt (forwardQuery query timeoutMs upstream)).bind fun
      | .ok response => .pure response
      | .error err => forwardQueryWithFailover query timeoutMs
          (failures ++ [upstream.display ++ ": " ++ err.chain]) upstreams

/-! ### Policies -/

/-- The first of the policies with this domain, all domains before it being checked. -/
def firstDomainPolicy (domain : String) : List Policy → Except Error (Option Policy)
  | [] => .ok none
  | policy :: policies =>
    match policy.matchSpec.domain with
    | none => firstDomainPolicy domain policies
    | some policyDomain => do
      let policyDomain ← normalizeDomain policyDomain
      if policyDomain = domain then .ok (some policy) else firstDomainPolicy domain policies

def findEnabledDomainPolicy (cfg : Config) (domain : String) : Except Error (Option Policy) := do
  let domain ← normalizeDomain domain
  firstDomainPolicy domain cfg.enabledPolicies

/-! ### Handling a query -/

def qtypeIsA (question : DnsQuestion) : Bool :=
  question.qtype = qtypeA ∧ question.qclass = qclassIn

def hardFailClosed (cfg : Config) : Bool :=
  cfg.dnsInterception.denyUnresolvedPolicyDomains ∧ cfg.dnsCache.failClosedUnresolved

/-- The queries that are refused without asking anybody. -/
def deniesAaaa (cfg : Config) (question : DnsQuestion) (isPolicyDomain : Bool) : Bool :=
  isPolicyDomain ∧ question.qtype = qtypeAaaa ∧ cfg.dnsInterception.denyAaaaForPolicyDomains

/-- What is done with the answer of an upstream. -/
def acceptAnswer (cfg : Config) (writeCache : Bool) (query : Packet) (question : DnsQuestion)
    (isPolicyDomain : Bool) (response : Packet) : ProxyProgram Packet :=
  if isPolicyDomain ∧ qtypeIsA question then do
    let records ← Program.ofExcept (parseARecords response)
    if records.ips = [] then
      if hardFailClosed cfg then Program.ofExcept (buildErrorResponse query rcodeRefused)
      else pure response
    else if cfg.dnsInterception.cacheAnswers then do
      let _ ← (upsertLiveIpsFromProxy cfg question.domain records.ips writeCache).right
      pure response
    else pure response
  else pure response

def handleQuery (cfg : Config) (upstreams : List SocketAddr) (writeCache : Bool)
    (query : Packet) : ProxyProgram Packet := do
  let question ← Program.ofExcept (parseQuestion query)
  let policy ← Program.ofExcept (findEnabledDomainPolicy cfg question.domain)
  if deniesAaaa cfg question policy.isSome then
    Program.ofExcept (buildErrorResponse query rcodeRefused)
  else do
    match ← (Program.attempt
        (forwardQueryWithFailover query cfg.dnsInterception.timeoutMs [] upstreams)).left with
    | .ok response => acceptAnswer cfg writeCache query question policy.isSome response
    | .error err =>
      if policy.isSome ∧ hardFailClosed cfg then
        Program.ofExcept (buildErrorResponse query rcodeRefused)
      else .fail err

/-- What is sent back for the outcome of a query. -/
def replyTo (query : Packet) : Except Error Packet → Packet
  | .ok response => response
  | .error _ =>
    match buildErrorResponse query rcodeServfail with
    | .ok response => response
    | .error _ => query

/-- One turn of the loop: the reply to a datagram. -/
def serve (cfg : Config) (upstreams : List SocketAddr) (writeCache : Bool) (datagram : Packet) :
    ProxyProgram Packet :=
  let query := datagram.take bufferSize
  (Program.attempt (handleQuery cfg upstreams writeCache query)).bind fun outcome =>
    .pure (replyTo query outcome)

/-- What the proxy listens on and forwards to, when it starts at all. -/
def startProxy (cfg : Config) : Except Error (SocketAddr × List SocketAddr) := do
  refuseIf (¬ cfg.dnsInterception.enabled)
    ("dns_interception.enabled=false. Enable it in config before running dns-proxy. " ++
      "This is disabled by default for safety.")
  match SocketAddr.parse cfg.dnsInterception.listenAddr with
  | none => .error ["invalid socket address syntax"]
  | some listenAddr => do
    refuseIf (cfg.dnsInterception.effectiveUpstreams = [])
      ("dns_interception has no valid upstreams; configure dns_interception.upstreams or " ++
        "upstream_addr")
    .ok (listenAddr, cfg.dnsInterception.effectiveUpstreams)

/-! ### The answer of the upstreams -/

/-- The datagram of the first upstream that answers. -/
def firstAnswer (env : UdpEnv) (query : Packet) (timeoutMs : UInt64) :
    (k : ℕ) → List SocketAddr → Option Packet
  | _, [] => none
  | k, upstream :: upstreams =>
    match env k ⟨upstream, query, timeoutMs⟩ with
    | .received datagram => some datagram
    | .bindFailed _ => firstAnswer env query timeoutMs (k + 1) upstreams
    | .sendFailed _ => firstAnswer env query timeoutMs (k + 1) upstreams
    | .timedOut => firstAnswer env query timeoutMs (k + 1) upstreams
    | .receiveFailed _ => firstAnswer env query timeoutMs (k + 1) upstreams

/-- Forwarding returns what the buffer holds of the first answer, and fails without one. -/
theorem run_forwardQueryWithFailover (env : UdpEnv) (query : Packet) (timeoutMs : UInt64)
    (failures : List String) (upstreams : List SocketAddr) (k : ℕ) :
    (Program.run (udpHost env)
        (forwardQueryWithFailover query timeoutMs failures upstreams) k).1.toOption =
      (firstAnswer env query timeoutMs k upstreams).map (·.take bufferSize) := by
  induction upstreams generalizing failures k with
  | nil => rfl
  | cons upstream upstreams ih =>
      rw [forwardQueryWithFailover, firstAnswer, forwardQuery, Program.attempt, Program.bind_call,
        Program.run_call]
      dsimp only [udpHost]
      cases env k ⟨upstream, query, timeoutMs⟩ with
      | received datagram => rfl
      | bindFailed cause => exact ih _ _
      | sendFailed cause => exact ih _ _
      | timedOut => exact ih _ _
      | receiveFailed cause => exact ih _ _

/-- The first answer is one that some upstream gave to the query. -/
theorem received_of_firstAnswer {env : UdpEnv} {query answer : Packet} {timeoutMs : UInt64}
    {k : ℕ} {upstreams : List SocketAddr}
    (h : firstAnswer env query timeoutMs k upstreams = some answer) :
    ∃ i, ∃ upstream ∈ upstreams, env i ⟨upstream, query, timeoutMs⟩ = .received answer := by
  induction upstreams generalizing k with
  | nil => simp [firstAnswer] at h
  | cons upstream upstreams ih =>
      have hlater : firstAnswer env query timeoutMs (k + 1) upstreams = some answer →
          ∃ i, ∃ u ∈ upstream :: upstreams, env i ⟨u, query, timeoutMs⟩ = .received answer := by
        intro hrest
        obtain ⟨i, u, hu, hi⟩ := ih hrest
        exact ⟨i, u, List.mem_cons_of_mem _ hu, hi⟩
      rw [firstAnswer] at h
      cases hfate : env k ⟨upstream, query, timeoutMs⟩ with
      | received datagram =>
          rw [hfate] at h
          exact ⟨k, upstream, List.mem_cons_self, hfate.trans (by rw [Option.some.inj h])⟩
      | bindFailed cause => exact hlater (by simpa [hfate] using h)
      | sendFailed cause => exact hlater (by simpa [hfate] using h)
      | timedOut => exact hlater (by simpa [hfate] using h)
      | receiveFailed cause => exact hlater (by simpa [hfate] using h)

/-! ### Runs of a query -/

section Runs

variable {env : ProxyEnv} {cfg : Config} {upstreams : List SocketAddr} {writeCache : Bool}
  {query : Packet} {question : DnsQuestion} {policy : Option Policy} {s : ProxyState}

theorem run_serve (datagram : Packet) :
    Program.run (proxyHost env) (serve cfg upstreams writeCache datagram) s =
      (.ok (replyTo (datagram.take bufferSize) (Program.run (proxyHost env)
        (handleQuery cfg upstreams writeCache (datagram.take bufferSize)) s).1),
        (Program.run (proxyHost env)
          (handleQuery cfg upstreams writeCache (datagram.take bufferSize)) s).2) := by
  unfold serve
  rw [Program.run_bind, Program.run_attempt]
  rfl

theorem run_handleQuery_unread {e : Error} (hquestion : parseQuestion query = .error e) :
    Program.run (proxyHost env) (handleQuery cfg upstreams writeCache query) s =
      (.error e, s) := by
  apply Program.run_bind_error
  rw [Program.run_ofExcept, hquestion]

theorem run_handleQuery_unmatched {e : Error} (hquestion : parseQuestion query = .ok question)
    (hpolicy : findEnabledDomainPolicy cfg question.domain = .error e) :
    Program.run (proxyHost env) (handleQuery cfg upstreams writeCache query) s =
      (.error e, s) := by
  have hread : Program.run (proxyHost env) (Program.ofExcept (parseQuestion query)) s =
      (.ok question, s) := by rw [Program.run_ofExcept, hquestion]
  rw [handleQuery, Program.bind_eq, Program.run_bind_ok _ hread]
  apply Program.run_bind_error
  rw [Program.run_ofExcept, hpolicy]

/-- Once the question is read and matched, it is refused or goes to the upstreams. -/
theorem run_handleQuery_matched (hquestion : parseQuestion query = .ok question)
    (hpolicy : findEnabledDomainPolicy cfg question.domain = .ok policy) :
    Program.run (proxyHost env) (handleQuery cfg upstreams writeCache query) s =
      Program.run (proxyHost env) (if deniesAaaa cfg question policy.isSome then
          Program.ofExcept (buildErrorResponse query rcodeRefused)
        else
          (Program.attempt (forwardQueryWithFailover query cfg.dnsInterception.timeoutMs []
            upstreams)).left.bind fun
            | .ok response => acceptAnswer cfg writeCache query question policy.isSome response
            | .error err =>
              if policy.isSome ∧ hardFailClosed cfg then
                Program.ofExcept (buildErrorResponse query rcodeRefused)
              else .fail err) s := by
  have hread : Program.run (proxyHost env) (Program.ofExcept (parseQuestion query)) s =
      (.ok question, s) := by rw [Program.run_ofExcept, hquestion]
  have hmatch : Program.run (proxyHost env)
      (Program.ofExcept (findEnabledDomainPolicy cfg question.domain)) s = (.ok policy, s) := by
    rw [Program.run_ofExcept, hpolicy]
  rw [handleQuery, Program.bind_eq, Program.run_bind_ok _ hread, Program.bind_eq,
    Program.run_bind_ok _ hmatch]
  rfl

theorem run_handleQuery_denied (hquestion : parseQuestion query = .ok question)
    (hpolicy : findEnabledDomainPolicy cfg question.domain = .ok policy)
    (hdenied : deniesAaaa cfg question policy.isSome = true) :
    Program.run (proxyHost env) (handleQuery cfg upstreams writeCache query) s =
      (buildErrorResponse query rcodeRefused, s) := by
  rw [run_handleQuery_matched hquestion hpolicy, if_pos hdenied, Program.run_ofExcept]

variable (writeCache) in
/-- The answer of the first upstream that gives one goes on to be accepted. -/
theorem run_handleQuery_answered {answer : Packet} (hquestion : parseQuestion query = .ok question)
    (hpolicy : findEnabledDomainPolicy cfg question.domain = .ok policy)
    (hasked : deniesAaaa cfg question policy.isSome = false)
    (hanswer : firstAnswer env.udp query cfg.dnsInterception.timeoutMs s.1 upstreams =
      some answer) :
    ∃ k, Program.run (proxyHost env) (handleQuery cfg upstreams writeCache query) s =
      Program.run (proxyHost env)
        (acceptAnswer cfg writeCache query question policy.isSome (answer.take bufferSize))
        (k, s.2) := by
  have hforward := run_forwardQueryWithFailover env.udp query cfg.dnsInterception.timeoutMs []
    upstreams s.1
  rw [hanswer] at hforward
  rw [run_handleQuery_matched hquestion hpolicy, if_neg (by simp [hasked]), Program.run_bind,
    Program.run_left, Program.run_attempt]
  cases hout : (Program.run (udpHost env.udp) (forwardQueryWithFailover query
      cfg.dnsInterception.timeoutMs [] upstreams) s.1).1 with
  | error err =>
      rw [hout] at hforward
      cases hforward
  | ok response =>
      rw [hout] at hforward
      rw [Option.some.inj hforward]
      exact ⟨_, rfl⟩

variable (writeCache) in
/-- Without an answer the query is refused or fails, and the cache is left alone. -/
theorem run_handleQuery_unanswered (hquestion : parseQuestion query = .ok question)
    (hpolicy : findEnabledDomainPolicy cfg question.domain = .ok policy)
    (hasked : deniesAaaa cfg question policy.isSome = false)
    (hanswer : firstAnswer env.udp query cfg.dnsInterception.timeoutMs s.1 upstreams = none) :
    ∃ r k, Program.run (proxyHost env) (handleQuery cfg upstreams writeCache query) s =
        (r, (k, s.2)) ∧
      (r = buildErrorResponse query rcodeRefused ∨ ∃ e, r = .error e) := by
  have hforward := run_forwardQueryWithFailover env.udp query cfg.dnsInterception.timeoutMs []
    upstreams s.1
  rw [hanswer] at hforward
  rw [run_handleQuery_matched hquestion hpolicy, if_neg (by simp [hasked]), Program.run_bind,
    Program.run_left, Program.run_attempt]
  cases hout : (Program.run (udpHost env.udp) (forwardQueryWithFailover query
      cfg.dnsInterception.timeoutMs [] upstreams) s.1).1 with
  | ok response =>
      rw [hout] at hforward
      cases hforward
  | error err =>
      dsimp only
      split_ifs
      · exact ⟨_, _, Program.run_ofExcept _ _ _, Or.inl rfl⟩
      · exact ⟨_, _, rfl, Or.inr ⟨err, rfl⟩⟩

end Runs

/-! ### The policy of a domain -/

def Policy.hasName (name : String) (policy : Policy) : Bool :=
  policy.matchSpec.domain.any (fun domain => normalizeDomain domain = .ok name)

/-- A policy without a domain, or with one that can be normalized. -/
def Policy.domainUsable (policy : Policy) : Bool :=
  policy.matchSpec.domain.all (fun domain => (normalizeDomain domain).toOption.isSome)

theorem firstDomainPolicy_eq_ok_iff {name : String} {policies : List Policy}
    {found : Option Policy} :
    firstDomainPolicy name policies = .ok found ↔
      policies.find? (·.hasName name) = found ∧
        ∀ policy ∈ policies.takeWhile (fun policy => !policy.hasName name),
          policy.domainUsable := by
  induction policies with
  | nil => simp [firstDomainPolicy]
  | cons policy policies ih =>
      cases hdomain : policy.matchSpec.domain with
      | none =>
          have hname : policy.hasName name = false := by simp [Policy.hasName, hdomain]
          have husable : policy.domainUsable = true := by simp [Policy.domainUsable, hdomain]
          simp [firstDomainPolicy, hdomain, hname, husable, ih]
      | some domain =>
          cases hnorm : normalizeDomain domain with
          | error e =>
              have hname : policy.hasName name = false := by simp [Policy.hasName, hdomain, hnorm]
              have husable : policy.domainUsable = false := by
                simp [Policy.domainUsable, hdomain, hnorm, Except.toOption]
              simp [firstDomainPolicy, hdomain, hnorm, hname, husable, bind, Except.bind]
          | ok key =>
              have husable : policy.domainUsable = true := by
                simp [Policy.domainUsable, hdomain, hnorm, Except.toOption]
              by_cases hkey : key = name
              · have hname : policy.hasName name = true := by
                  simp [Policy.hasName, hdomain, hnorm, hkey]
                simp [firstDomainPolicy, hdomain, hnorm, hname, hkey, bind, Except.bind]
              · have hname : policy.hasName name = false := by
                  simp [Policy.hasName, hdomain, hnorm, hkey]
                simp [firstDomainPolicy, hdomain, hnorm, hname, husable, hkey, ih, bind,
                  Except.bind]

theorem findEnabledDomainPolicy_eq_ok_iff {cfg : Config} {domain name : String}
    (hname : normalizeDomain domain = .ok name) {found : Option Policy} :
    findEnabledDomainPolicy cfg domain = .ok found ↔
      cfg.enabledPolicies.find? (·.hasName name) = found ∧
        ∀ policy ∈ cfg.enabledPolicies.takeWhile (fun policy => !policy.hasName name),
          policy.domainUsable := by
  rw [findEnabledDomainPolicy, hname]
  exact firstDomainPolicy_eq_ok_iff

end EveNet
