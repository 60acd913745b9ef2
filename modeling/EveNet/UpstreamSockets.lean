import EveNet.ProxyCache

/-!
# What arrives at the upstream sockets

Every exchange with an upstream has a socket of its own, and anybody can send to it. Here the
network delivers any datagrams from any sources to these sockets, in any order. The proxy
takes the first datagram that arrives at the socket: its source, its identifier and its
question are not compared with anything.
-/

namespace EveNet

/-- What arrives at a socket: a datagram with its source, or an error. -/
inductive Arrival where
  | datagram (source : SocketAddr) (bytes : Packet)
  | failure (cause : String)
  deriving DecidableEq

/-- What becomes of the socket of an exchange, with the arrivals before the timeout. -/
inductive SocketFate where
  | bindFailed (cause : String)
  | sendFailed (cause : String)
  | opened (arrivals : List Arrival)
  deriving DecidableEq

/-- The socket is read once. -/
def SocketFate.exchange : SocketFate → ExchangeFate
  | .bindFailed cause => .bindFailed cause
  | .sendFailed cause => .sendFailed cause
  | .opened [] => .timedOut
  | .opened (.failure cause :: _) => .receiveFailed cause
  | .opened (.datagram _ bytes :: _) => .received bytes

/-- What becomes of the socket of the `k`-th exchange. -/
abbrev Network := ℕ → UdpCall → SocketFate

def Network.udp (net : Network) : UdpEnv := fun k c => (net k c).exchange

/-- The exchange with `upstream` is the first one at whose socket a datagram arrives before
anything else, and `bytes` from `source` is this datagram. -/
def FirstArrival (net : Network) (query : Packet) (timeoutMs : UInt64) (k : ℕ)
    (upstreams : List SocketAddr) (upstream source : SocketAddr) (bytes : Packet) : Prop :=
  ∃ before after arrivals, upstreams = before ++ upstream :: after ∧
    (∀ i u, before[i]? = some u →
      ∀ datagram, net.udp (k + i) ⟨u, query, timeoutMs⟩ ≠ .received datagram) ∧
    net (k + before.length) ⟨upstream, query, timeoutMs⟩ =
      .opened (.datagram source bytes :: arrivals)

theorem SocketFate.exchange_eq_received {fate : SocketFate} {bytes : Packet}
    (h : fate.exchange = .received bytes) :
    ∃ source arrivals, fate = .opened (.datagram source bytes :: arrivals) := by
  cases fate with
  | bindFailed cause => cases h
  | sendFailed cause => cases h
  | opened arrivals =>
      cases arrivals with
      | nil => cases h
      | cons arrival arrivals =>
          cases arrival with
          | failure cause => cases h
          | datagram source received =>
              rw [ExchangeFate.received.inj h]
              exact ⟨source, arrivals, rfl⟩

/-- An exchange without a datagram is passed over. -/
theorem FirstArrival.cons {net : Network} {query bytes : Packet} {timeoutMs : UInt64} {k : ℕ}
    {first upstream source : SocketAddr} {upstreams : List SocketAddr}
    (hnone : ∀ datagram, net.udp k ⟨first, query, timeoutMs⟩ ≠ .received datagram)
    (h : FirstArrival net query timeoutMs (k + 1) upstreams upstream source bytes) :
    FirstArrival net query timeoutMs k (first :: upstreams) upstream source bytes := by
  obtain ⟨before, after, arrivals, rfl, hbefore, hat⟩ := h
  refine ⟨first :: before, after, arrivals, rfl, ?_, ?_⟩
  · intro i u hi
    cases i with
    | zero =>
        rw [← Option.some.inj hi]
        exact hnone
    | succ i =>
        rw [Nat.add_comm i 1, ← Nat.add_assoc]
        exact hbefore i u hi
  · rw [List.length_cons, Nat.add_comm before.length 1, ← Nat.add_assoc]
    exact hat

theorem firstArrival_of_firstAnswer {net : Network} {query bytes : Packet} {timeoutMs : UInt64}
    {k : ℕ} {upstreams : List SocketAddr}
    (h : firstAnswer net.udp query timeoutMs k upstreams = some bytes) :
    ∃ upstream source, FirstArrival net query timeoutMs k upstreams upstream source bytes := by
  induction upstreams generalizing k with
  | nil => cases h
  | cons first upstreams ih =>
      -- nothing is taken from the first socket, so the others decide
      have hlater : (∀ datagram, net.udp k ⟨first, query, timeoutMs⟩ ≠ .received datagram) →
          firstAnswer net.udp query timeoutMs (k + 1) upstreams = some bytes →
          ∃ upstream source,
            FirstArrival net query timeoutMs k (first :: upstreams) upstream source bytes := by
        intro hnone hrest
        obtain ⟨upstream, source, harrival⟩ := ih hrest
        exact ⟨upstream, source, harrival.cons hnone⟩
      rw [firstAnswer] at h
      cases hfate : net.udp k ⟨first, query, timeoutMs⟩ with
      | received datagram =>
          rw [hfate, Option.some.injEq] at h
          subst h
          obtain ⟨source, arrivals, hopened⟩ := SocketFate.exchange_eq_received hfate
          exact ⟨first, source, [], upstreams, arrivals, rfl, by simp, hopened⟩
      | bindFailed cause =>
          rw [hfate] at h
          exact hlater (by simp [hfate]) h
      | sendFailed cause =>
          rw [hfate] at h
          exact hlater (by simp [hfate]) h
      | timedOut =>
          rw [hfate] at h
          exact hlater (by simp [hfate]) h
      | receiveFailed cause =>
          rw [hfate] at h
          exact hlater (by simp [hfate]) h

section Handling

variable (env : ProxyEnv) (cfg : Config) (upstreams : List SocketAddr) (writeCache : Bool)
  (query : Packet) (s : ProxyState)

/-- A query leaves the cache alone, or inserts the addresses of the first answer. -/
theorem cache_handleQuery :
    (Program.run (proxyHost env) (handleQuery cfg upstreams writeCache query) s).2.2 = s.2 ∨
      ∃ question policy answer ips, parseQuestion query = .ok question ∧
        qtypeIsA question = true ∧
        findEnabledDomainPolicy cfg question.domain = .ok (some policy) ∧
        firstAnswer env.udp query cfg.dnsInterception.timeoutMs s.1 upstreams = some answer ∧
        parseARecords (answer.take bufferSize) = .ok ⟨ips⟩ ∧
        (Program.run (proxyHost env) (handleQuery cfg upstreams writeCache query) s).2.2 =
          (Program.run (cacheHost env.cache)
            (upsertLiveIpsFromProxy cfg question.domain ips writeCache) s.2).2 := by
  cases hquestion : parseQuestion query with
  | error e => rw [run_handleQuery_unread hquestion]; exact Or.inl rfl
  | ok question =>
      cases hpolicy : findEnabledDomainPolicy cfg question.domain with
      | error e => rw [run_handleQuery_unmatched hquestion hpolicy]; exact Or.inl rfl
      | ok policy =>
          cases hdenied : deniesAaaa cfg question policy.isSome with
          | true => rw [run_handleQuery_denied hquestion hpolicy hdenied]; exact Or.inl rfl
          | false =>
              cases hanswer : firstAnswer env.udp query cfg.dnsInterception.timeoutMs s.1
                  upstreams with
              | none =>
                  obtain ⟨r, k, hrun, -⟩ :=
                    run_handleQuery_unanswered writeCache hquestion hpolicy hdenied hanswer
                  rw [hrun]
                  exact Or.inl rfl
              | some answer =>
                  obtain ⟨k, hrun⟩ :=
                    run_handleQuery_answered writeCache hquestion hpolicy hdenied hanswer
                  rw [hrun]
                  by_cases hplain : policy.isSome = true ∧ qtypeIsA question = true
                  · obtain ⟨p, rfl⟩ := Option.isSome_iff_exists.mp hplain.1
                    cases hrecords : parseARecords (answer.take bufferSize) with
                    | error e => rw [run_acceptAnswer_unread hplain hrecords]; exact Or.inl rfl
                    | ok records =>
                        obtain ⟨ips⟩ := records
                        by_cases hips : ips = []
                        · subst hips
                          rw [run_acceptAnswer_empty hplain hrecords]
                          exact Or.inl rfl
                        · rw [run_acceptAnswer_ips hplain hrecords hips]
                          split_ifs
                          · refine Or.inr ⟨question, p, answer, ips, rfl, hplain.2, hpolicy, rfl,
                              hrecords, ?_⟩
                            dsimp only
                          · exact Or.inl rfl
                  · rw [run_acceptAnswer_plain hplain]
                    exact Or.inl rfl

end Handling

/-- Whatever the network delivers: what goes back to the client as an upstream's answer, and
what is written to the cache, comes from the first datagram that arrives at the socket of the
first upstream at whose socket one arrives. -/
theorem accepted_first_arrival (net : Network) (cache : CacheEnv) (cfg : Config)
    (upstreams : List SocketAddr) (writeCache : Bool) (query : Packet) (s : ProxyState) :
    (∀ reply, (Program.run (proxyHost ⟨net.udp, cache⟩)
        (handleQuery cfg upstreams writeCache query) s).1 = .ok reply →
      ErrorReply query reply ∨ ∃ upstream source bytes,
        FirstArrival net query cfg.dnsInterception.timeoutMs s.1 upstreams upstream source bytes ∧
        reply = bytes.take bufferSize) ∧
    ((Program.run (proxyHost ⟨net.udp, cache⟩)
        (handleQuery cfg upstreams writeCache query) s).2.2 ≠ s.2 →
      ∃ question upstream source bytes ips, parseQuestion query = .ok question ∧
        FirstArrival net query cfg.dnsInterception.timeoutMs s.1 upstreams upstream source bytes ∧
        parseARecords (bytes.take bufferSize) = .ok ⟨ips⟩ ∧
        (Program.run (proxyHost ⟨net.udp, cache⟩)
            (handleQuery cfg upstreams writeCache query) s).2.2 =
          (Program.run (cacheHost cache)
            (upsertLiveIpsFromProxy cfg question.domain ips writeCache) s.2).2) := by
  constructor
  · intro reply hreply
    rcases handleQuery_cases ⟨net.udp, cache⟩ cfg upstreams writeCache query s with
      hrefused | ⟨question, policy, answer, -, -, -, hanswer, hout⟩
    · rw [hreply] at hrefused
      rcases hrefused with hrefused | ⟨e, he⟩
      · exact Or.inl ⟨rcodeRefused, by simp, hrefused.symm⟩
      · cases he
    · obtain ⟨upstream, source, harrival⟩ := firstArrival_of_firstAnswer hanswer
      rw [hout, Except.ok.injEq] at hreply
      exact Or.inr ⟨upstream, source, answer, harrival, hreply.symm⟩
  · intro hchanged
    rcases cache_handleQuery ⟨net.udp, cache⟩ cfg upstreams writeCache query s with
      hsame | ⟨question, policy, answer, ips, hquestion, -, -, hanswer, hrecords, hcache⟩
    · exact absurd hsame hchanged
    · obtain ⟨upstream, source, harrival⟩ := firstArrival_of_firstAnswer hanswer
      exact ⟨question, upstream, source, answer, ips, hquestion, harrival, hrecords, hcache⟩

/-- Somebody who is not an upstream. -/
def stranger : SocketAddr := .v4 203 0 113 66 4444

/-- A network on which a datagram of the stranger's is the first at every socket. -/
def strangerFirst : Network := fun _ _ => .opened [.datagram stranger bothAnswer]

theorem strangerFirst_spec : domainConfig.dnsInterception.effectiveUpstreams =
      [.v4 1 1 1 1 53] ∧
    (Program.run (proxyHost ⟨strangerFirst.udp, quietHost.cache⟩) (handleQuery domainConfig
      [.v4 1 1 1 1 53] true hostQuery.datagram) (0, bareState.2)).1 = .ok bothAnswer ∧
    readU16 bothAnswer 0 ≠ readU16 hostQuery.datagram 0 ∧
    readU16 bothAnswer 6 = .ok 2 := by
  decide +kernel

/-- The stranger's datagram carries another identifier and no question, and is what the client
gets. -/
theorem not_answer_of_upstream : ¬ ∀ (net : Network) (cache : CacheEnv) (cfg : Config)
    (writeCache : Bool) (query reply : Packet) (s : ProxyState), cfg.validate = .ok () →
    (Program.run (proxyHost ⟨net.udp, cache⟩) (handleQuery cfg
      cfg.dnsInterception.effectiveUpstreams writeCache query) s).1 = .ok reply →
    ErrorReply query reply ∨ ∃ upstream ∈ cfg.dnsInterception.effectiveUpstreams, ∃ k bytes arrivals,
      net k ⟨upstream, query, cfg.dnsInterception.timeoutMs⟩ = .opened arrivals ∧
      .datagram upstream bytes ∈ arrivals ∧ reply = bytes.take bufferSize ∧
      readU16 reply 0 = readU16 query 0 ∧ parseQuestion reply = parseQuestion query := by
  intro hclaim
  obtain ⟨hupstreams, hreply, hid, hcount⟩ := strangerFirst_spec
  have haccepted := hclaim strangerFirst quietHost.cache domainConfig true hostQuery.datagram
    bothAnswer (0, bareState.2) (by decide) (by rw [hupstreams]; exact hreply)
  rcases haccepted with herror | ⟨upstream, -, k, bytes, arrivals, -, -, -, hsame, -⟩
  · rw [herror.header.2.1] at hcount
    exact absurd hcount (by decide)
  · exact hid hsame

end EveNet
