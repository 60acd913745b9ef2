import EveNet.DnsProxy
import EveNet.Reconcile

/-!
# What the proxy replies

A reply is an error response of the proxy's own or what the buffer holds of the first
answer of the upstreams. From this the queries are described that pass through unchanged,
those for which an AAAA record can come back, and those whose policy is found at all.
-/

namespace EveNet

/-! ### Looking a policy up -/

/-- The lookup of a name finds its first policy exactly when no policy before it has a domain
that cannot be normalized. -/
theorem findEnabledDomainPolicy_iff {cfg : Config} {domain name : String}
    (hname : normalizeDomain domain = .ok name) :
    findEnabledDomainPolicy cfg domain = .ok (cfg.enabledPolicies.find? (·.hasName name)) ↔
      ∀ policy ∈ cfg.enabledPolicies.takeWhile (fun policy => !policy.hasName name),
        policy.domainUsable := by
  rw [findEnabledDomainPolicy_eq_ok_iff hname]
  exact and_iff_right rfl

/-- A domain that the validator accepts and that cannot be normalized, before one that can. -/
def urlConfig : Config :=
  configOf [tunnel "tun0" 100 16]
    [domainPolicy "web" "http://a.example" "tun0", domainPolicy "mail" "b.example" "tun0"]

theorem findEnabledDomainPolicy_iff_url :
    findEnabledDomainPolicy urlConfig "B.example." =
        .ok (urlConfig.enabledPolicies.find? (·.hasName "b.example")) ↔
      ∀ policy ∈ urlConfig.enabledPolicies.takeWhile (fun policy => !policy.hasName "b.example"),
        policy.domainUsable :=
  findEnabledDomainPolicy_iff (by decide)

theorem not_findEnabledDomainPolicy_first : ¬ ∀ (cfg : Config) (domain name : String),
    cfg.validate = .ok () → normalizeDomain domain = .ok name →
    findEnabledDomainPolicy cfg domain =
      .ok (cfg.enabledPolicies.find? (·.hasName name)) := by
  intro hclaim
  have hfind := hclaim urlConfig "b.example" "b.example" (by decide) (by decide)
  exact absurd hfind (by decide)

/-! ### The two kinds of replies -/

/-- An error response of the proxy to the query. -/
def ErrorReply (query reply : Packet) : Prop :=
  ∃ rcode ∈ [rcodeRefused, rcodeServfail], buildErrorResponse query rcode = .ok reply

theorem ErrorReply.header {query reply : Packet} (h : ErrorReply query reply) :
    12 ≤ reply.length ∧ readU16 reply 6 = .ok 0 ∧
      ∃ flags, readU16 reply 2 = .ok flags ∧
        (flags &&& 0x000f = rcodeRefused ∨ flags &&& 0x000f = rcodeServfail) := by
  obtain ⟨rcode, hrcode, hbuild⟩ := h
  have hlen : 12 ≤ query.length := by
    obtain ⟨_, hlen, -⟩ := except_bind_eq_ok.mp hbuild
    rw [refuseIf_eq_ok] at hlen
    omega
  obtain ⟨out, flags, hout, hlength, -, hflags, hcount, -⟩ := buildErrorResponse_spec hlen rcode
  obtain rfl : reply = out := Except.ok.inj (hbuild.symm.trans hout)
  refine ⟨by omega, hcount, _, hflags, ?_⟩
  rw [rcode_errorFlags]
  rcases List.mem_pair.mp hrcode with rfl | rfl
  · exact Or.inl rfl
  · exact Or.inr rfl

/-- The outcomes for which the loop sends an error response. -/
def Refused (query : Packet) (outcome : Except Error Packet) : Prop :=
  outcome = buildErrorResponse query rcodeRefused ∨ ∃ e, outcome = .error e

theorem errorReply_of_refused {query : Packet} {outcome : Except Error Packet}
    (hlen : 12 ≤ query.length) (h : Refused query outcome) :
    ErrorReply query (replyTo query outcome) := by
  obtain ⟨refused, -, hrefused, -⟩ := buildErrorResponse_spec hlen rcodeRefused
  obtain ⟨servfail, -, hservfail, -⟩ := buildErrorResponse_spec hlen rcodeServfail
  rcases h with rfl | ⟨e, rfl⟩
  · rw [hrefused]
    exact ⟨rcodeRefused, by simp, hrefused⟩
  · rw [replyTo, hservfail]
    exact ⟨rcodeServfail, by simp, hservfail⟩

section Accepting

variable {env : ProxyEnv} {cfg : Config} {writeCache : Bool} {query response : Packet}
  {question : DnsQuestion} {isPolicyDomain : Bool} {s : ProxyState}

theorem run_acceptAnswer_plain (h : ¬ (isPolicyDomain ∧ qtypeIsA question)) :
    Program.run (proxyHost env)
      (acceptAnswer cfg writeCache query question isPolicyDomain response) s =
        (.ok response, s) := by
  rw [acceptAnswer, if_neg h]
  rfl

theorem run_acceptAnswer_unread {e : Error} (h : isPolicyDomain ∧ qtypeIsA question)
    (hrecords : parseARecords response = .error e) :
    Program.run (proxyHost env)
      (acceptAnswer cfg writeCache query question isPolicyDomain response) s = (.error e, s) := by
  rw [acceptAnswer, if_pos h, hrecords]
  rfl

theorem run_acceptAnswer_empty (h : isPolicyDomain ∧ qtypeIsA question)
    (hrecords : parseARecords response = .ok ⟨[]⟩) :
    Program.run (proxyHost env)
      (acceptAnswer cfg writeCache query question isPolicyDomain response) s =
        (if hardFailClosed cfg then buildErrorResponse query rcodeRefused else .ok response, s) := by
  rw [acceptAnswer, if_pos h, hrecords]
  change Program.run _ (if hardFailClosed cfg then _ else _) s = _
  split_ifs
  · exact Program.run_ofExcept _ _ _
  · rfl

/-- An answer with addresses is returned after they have been cached. -/
theorem run_acceptAnswer_ips {ips : List String} (h : isPolicyDomain ∧ qtypeIsA question)
    (hrecords : parseARecords response = .ok ⟨ips⟩) (hips : ips ≠ []) :
    Program.run (proxyHost env)
      (acceptAnswer cfg writeCache query question isPolicyDomain response) s =
        if cfg.dnsInterception.cacheAnswers then
          ((Program.run (cacheHost env.cache)
              (upsertLiveIpsFromProxy cfg question.domain ips writeCache) s.2).1.map
                (fun _ => response),
            (s.1, (Program.run (cacheHost env.cache)
              (upsertLiveIpsFromProxy cfg question.domain ips writeCache) s.2).2))
        else (.ok response, s) := by
  rw [acceptAnswer, if_pos h, hrecords]
  change Program.run _ (if ips = [] then _ else if _ then _ else _) s = _
  rw [if_neg hips]
  split_ifs
  · rw [Program.bind_eq, Program.run_bind, Program.run_right]
    cases (Program.run (cacheHost env.cache)
      (upsertLiveIpsFromProxy cfg question.domain ips writeCache) s.2).1 with
    | error e => rfl
    | ok saved => rfl
  · rfl

/-- An answer is accepted as it is or refused. -/
theorem acceptAnswer_cases :
    (Program.run (proxyHost env)
        (acceptAnswer cfg writeCache query question isPolicyDomain response) s).1 = .ok response ∨
      Refused query (Program.run (proxyHost env)
        (acceptAnswer cfg writeCache query question isPolicyDomain response) s).1 := by
  by_cases hplain : isPolicyDomain ∧ qtypeIsA question
  · cases hrecords : parseARecords response with
    | error e =>
        rw [run_acceptAnswer_unread hplain hrecords]
        exact Or.inr (Or.inr ⟨e, rfl⟩)
    | ok records =>
        obtain ⟨ips⟩ := records
        by_cases hips : ips = []
        · subst hips
          rw [run_acceptAnswer_empty hplain hrecords]
          split_ifs
          · exact Or.inr (Or.inl rfl)
          · exact Or.inl rfl
        · rw [run_acceptAnswer_ips hplain hrecords hips]
          split_ifs
          · cases (Program.run (cacheHost env.cache)
              (upsertLiveIpsFromProxy cfg question.domain ips writeCache) s.2).1 with
            | error e => exact Or.inr (Or.inr ⟨e, rfl⟩)
            | ok saved => exact Or.inl rfl
          · exact Or.inl rfl
  · rw [run_acceptAnswer_plain hplain]
    exact Or.inl rfl

end Accepting

section Handling

variable (env : ProxyEnv) (cfg : Config) (upstreams : List SocketAddr) (writeCache : Bool)
  (query : Packet) (s : ProxyState)

/-- A query is refused, or the first answer is returned and the query was read, matched and
not denied. -/
theorem handleQuery_cases :
    Refused query
        (Program.run (proxyHost env) (handleQuery cfg upstreams writeCache query) s).1 ∨
      ∃ question policy answer, parseQuestion query = .ok question ∧
        findEnabledDomainPolicy cfg question.domain = .ok policy ∧
        deniesAaaa cfg question policy.isSome = false ∧
        firstAnswer env.udp query cfg.dnsInterception.timeoutMs s.1 upstreams = some answer ∧
        (Program.run (proxyHost env) (handleQuery cfg upstreams writeCache query) s).1 =
          .ok (answer.take bufferSize) := by
  cases hquestion : parseQuestion query with
  | error e =>
      rw [run_handleQuery_unread hquestion]
      exact Or.inl (Or.inr ⟨e, rfl⟩)
  | ok question =>
      cases hpolicy : findEnabledDomainPolicy cfg question.domain with
      | error e =>
          rw [run_handleQuery_unmatched hquestion hpolicy]
          exact Or.inl (Or.inr ⟨e, rfl⟩)
      | ok policy =>
          cases hdenied : deniesAaaa cfg question policy.isSome with
          | true =>
              rw [run_handleQuery_denied hquestion hpolicy hdenied]
              exact Or.inl (Or.inl rfl)
          | false =>
              cases hanswer : firstAnswer env.udp query cfg.dnsInterception.timeoutMs s.1
                  upstreams with
              | none =>
                  obtain ⟨r, k, hrun, hr⟩ :=
                    run_handleQuery_unanswered writeCache hquestion hpolicy hdenied hanswer
                  rw [hrun]
                  exact Or.inl hr
              | some answer =>
                  obtain ⟨k, hrun⟩ :=
                    run_handleQuery_answered writeCache hquestion hpolicy hdenied hanswer
                  rw [hrun]
                  refine Or.symm (acceptAnswer_cases.imp_left (fun hreply => ?_))
                  exact ⟨question, policy, answer, rfl, hpolicy, hdenied, rfl, hreply⟩

end Handling

/-! ### Queries that pass through -/

/-- A header that announces one answer. -/
def badHeader : Packet := [0, 0, 0, 0, 0, 0, 0, 1, 0, 0, 0, 0]

/-- A datagram of `n` bytes that is no error response and has no readable answer section. -/
def badAnswer (n : ℕ) : Packet :=
  if n < 12 then List.replicate n 0 else badHeader ++ List.replicate (n - 12) 64

theorem length_badAnswer (n : ℕ) : (badAnswer n).length = n := by
  unfold badAnswer
  split_ifs with h
  · exact List.length_replicate
  · simp only [badHeader, List.length_append, List.length_cons, List.length_nil,
      List.length_replicate]
    omega

theorem take_badAnswer {m : ℕ} (hm : 12 ≤ m) (n : ℕ) :
    (badAnswer n).take m = badAnswer (min m n) := by
  by_cases hle : n ≤ m
  · rw [Nat.min_eq_right hle, List.take_of_length_le (by rw [length_badAnswer]; exact hle)]
  · obtain ⟨k, rfl⟩ := Nat.exists_eq_add_of_le hm
    have hlen : badHeader.length = 12 := rfl
    rw [Nat.min_eq_left (by omega), badAnswer, if_neg (by omega), badAnswer, if_neg (by omega),
      ← hlen, List.take_length_add_append, List.take_replicate, hlen]
    congr 2
    omega

theorem counts_badHeader (bytes : List UInt8) :
    readU16 (badHeader ++ bytes) 4 = .ok 0 ∧ readU16 (badHeader ++ bytes) 6 = .ok 1 := by
  constructor
  · rw [readU16_of_le (by simp [badHeader])]
    rfl
  · rw [readU16_of_le (by simp [badHeader])]
    rfl

theorem parseARecords_badAnswer (n : ℕ) : ∃ e, parseARecords (badAnswer n) = .error e := by
  by_cases hn : n < 12
  · refine ⟨["DNS response too short"], ?_⟩
    rw [parseARecords, refuseIf, if_pos (by rwa [length_badAnswer])]
    rfl
  · rw [badAnswer, if_neg hn]
    have hskip : ∃ e, skipName (badHeader ++ List.replicate (n - 12) 64) 12 = .error e := by
      rw [skipName, List.length_append, List.length_replicate]
      cases n - 12 with
      | zero => exact ⟨_, rfl⟩
      | succ k =>
          have hfirst : (badHeader ++ List.replicate (k + 1) (64 : UInt8))[12]? = some 64 := by
            simp [badHeader]
          have hfuel : badHeader.length + (k + 1) - 12 = k + 1 := Nat.add_sub_cancel_left 12 _
          rw [hfuel, skipLabels, hfirst]
          exact ⟨_, rfl⟩
    obtain ⟨e, hskip⟩ := hskip
    obtain ⟨hqd, han⟩ := counts_badHeader (List.replicate (n - 12) 64)
    refine ⟨e, ?_⟩
    rw [parseARecords, refuseIf, if_neg (by simp [badHeader]), hqd, han]
    simp only [bind, Except.bind, skipQuestions, UInt16.toNat_one, UInt16.toNat_zero, readAnswers,
      readRecord, hskip]

/-- Being announced one answer, it is not the error response to anything. -/
theorem badAnswer_ne_of_errorReply {query reply : Packet} (h : ErrorReply query reply) (n : ℕ) :
    reply ≠ badAnswer n := by
  rintro rfl
  obtain ⟨hlen, hcount, -⟩ := h.header
  rw [length_badAnswer] at hlen
  rw [badAnswer, if_neg (by omega), (counts_badHeader _).2] at hcount
  cases hcount

/-- What a query must satisfy so that every answer of `n` bytes comes back unchanged: the
name is one that can be read, no policy before the one it is taken for has an unusable
domain, and where it is taken for a policy domain it asks neither for an address nor for
a denied AAAA record. -/
structure PassesThrough (cfg : Config) (q : OneQuestion) (n : ℕ) (name : String) : Prop where
  named : queryName q.labels = .ok name
  usable : ∀ policy ∈ cfg.enabledPolicies.takeWhile (fun policy => !policy.hasName name),
    policy.domainUsable
  plain : ∀ policy ∈ cfg.enabledPolicies, policy.hasName name →
    ¬ (q.qtype = qtypeAaaa ∧ cfg.dnsInterception.denyAaaaForPolicyDomains) ∧
      ¬ (q.qtype = qtypeA ∧ q.qclass = qclassIn)
  fits : n ≤ bufferSize

theorem queryName_normalized {labels : List (List UInt8)} {name : String}
    (h : queryName labels = .ok name) : normalizeDomain name = .ok name := by
  obtain ⟨texts, -, hname⟩ := except_bind_eq_ok.mp h
  exact normalizeDomain_normalized hname

theorem firstAnswer_of_all {env : UdpEnv} {query answer : Packet} {timeoutMs : UInt64} {k : ℕ}
    {upstreams : List SocketAddr} (hup : upstreams ≠ [])
    (hall : ∀ upstream, env k ⟨upstream, query, timeoutMs⟩ = .received answer) :
    firstAnswer env query timeoutMs k upstreams = some answer := by
  cases upstreams with
  | nil => exact absurd rfl hup
  | cons upstream upstreams => rw [firstAnswer, hall]

/-- The query passes exactly when every answer of the length comes back as it is. -/
theorem passesThrough_iff {cfg : Config} {q : OneQuestion} {n : ℕ} {writeCache : Bool}
    (hup : cfg.dnsInterception.effectiveUpstreams ≠ []) :
    (∀ (env : ProxyEnv) (s : ProxyState) (answer : Packet), answer.length = n →
      firstAnswer env.udp (q.datagram.take bufferSize) cfg.dnsInterception.timeoutMs s.1
        cfg.dnsInterception.effectiveUpstreams = some answer →
      (Program.run (proxyHost env) (serve cfg cfg.dnsInterception.effectiveUpstreams writeCache
        q.datagram) s).1 = .ok answer) ↔
      ∃ name, PassesThrough cfg q n name := by
  obtain ⟨q', hq', hlabels, hqtype, hqclass⟩ :=
    q.take_datagram bufferSize (by decide)
  have hparse := q'.parseQuestion_datagram
  rw [hlabels, hqtype, hqclass] at hparse
  have hlen := q'.length_datagram
  simp only [run_serve, ← hq', Except.ok.injEq]
  constructor
  · intro h
    have hanswer : firstAnswer (fun _ _ => .received (badAnswer n)) q'.datagram
        cfg.dnsInterception.timeoutMs 0 cfg.dnsInterception.effectiveUpstreams =
          some (badAnswer n) := firstAnswer_of_all hup (fun _ => rfl)
    have hreply := h ⟨fun _ _ => .received (badAnswer n), quietHost.cache⟩ (0, bareState.2)
      (badAnswer n) (length_badAnswer n) hanswer
    rcases handleQuery_cases ⟨fun _ _ => .received (badAnswer n), quietHost.cache⟩ cfg
      cfg.dnsInterception.effectiveUpstreams writeCache q'.datagram (0, bareState.2)
      with hrefused | hpassed
    · exact absurd hreply (badAnswer_ne_of_errorReply (errorReply_of_refused hlen hrefused) n)
    · obtain ⟨question, policy, answer, hquestion, hpolicy, hasked, hfirst, hout⟩ := hpassed
      obtain rfl : badAnswer n = answer := Option.some.inj (hanswer.symm.trans hfirst)
      cases hname : queryName q.labels with
      | error e =>
          rw [hparse, hname] at hquestion
          cases hquestion
      | ok name =>
          have hsame : ⟨name, q.qtype, q.qclass⟩ = question := by
            rw [hparse, hname] at hquestion
            exact Except.ok.inj hquestion
          subst hsame
          obtain ⟨hfind, husable⟩ :=
            (findEnabledDomainPolicy_eq_ok_iff (queryName_normalized hname)).mp hpolicy
          refine ⟨name, hname, husable, ?_, ?_⟩
          · intro p hp hhas
            have hsome : policy.isSome = true := by
              rw [← hfind]
              exact List.find?_isSome.mpr ⟨p, hp, hhas⟩
            constructor
            · intro hdenied
              rw [deniesAaaa, decide_eq_false_iff_not] at hasked
              exact hasked ⟨hsome, hdenied⟩
            · intro hA
              obtain ⟨e, he⟩ := parseARecords_badAnswer (min bufferSize n)
              obtain ⟨k, hrun⟩ :=
                run_handleQuery_answered writeCache hquestion hpolicy hasked hfirst
              rw [hrun, take_badAnswer (by decide),
                run_acceptAnswer_unread ⟨hsome, decide_eq_true hA⟩ he] at hout
              cases hout
          · rw [hout, replyTo] at hreply
            have hlength := congrArg List.length hreply
            rw [List.length_take, length_badAnswer] at hlength
            omega
  · rintro ⟨name, hpass⟩ env s answer hn hanswer
    have hpolicy := (findEnabledDomainPolicy_eq_ok_iff (queryName_normalized hpass.named)).mpr
      ⟨rfl, hpass.usable⟩
    have hquestion : parseQuestion q'.datagram = .ok ⟨name, q.qtype, q.qclass⟩ := by
      rw [hparse, hpass.named]
      rfl
    have hplain : (cfg.enabledPolicies.find? (·.hasName name)).isSome = true →
        ¬ (q.qtype = qtypeAaaa ∧ cfg.dnsInterception.denyAaaaForPolicyDomains) ∧
          ¬ (q.qtype = qtypeA ∧ q.qclass = qclassIn) := by
      intro hsome
      obtain ⟨policy, hmem, hhas⟩ := List.find?_isSome.mp hsome
      exact hpass.plain policy hmem hhas
    have hasked : deniesAaaa cfg ⟨name, q.qtype, q.qclass⟩
        (cfg.enabledPolicies.find? (·.hasName name)).isSome = false := by
      rw [deniesAaaa, decide_eq_false_iff_not]
      exact fun ⟨hsome, hdenied⟩ => (hplain hsome).1 hdenied
    obtain ⟨k, hrun⟩ := run_handleQuery_answered writeCache hquestion hpolicy hasked hanswer
    rw [hrun, run_acceptAnswer_plain, replyTo]
    · apply List.take_of_length_le
      rw [hn]
      exact hpass.fits
    · rintro ⟨hsome, hA⟩
      exact (hplain hsome).2 (of_decide_eq_true hA)

def rootQuery : OneQuestion where
  idFlags := [0x12, 0x34, 0x01, 0x00]
  counts := [0, 0, 0, 0, 0, 0]
  labels := []
  qtype := 2
  qclass := 1
  rest := []
  idFlags_length := rfl
  counts_length := rfl
  label_length := by decide
  name_length := by decide

def hostQuery : OneQuestion where
  idFlags := [0x12, 0x34, 0x01, 0x00]
  counts := [0, 0, 0, 0, 0, 0]
  labels := [[97], [101, 120, 97, 109, 112, 108, 101]]
  qtype := qtypeA
  qclass := qclassIn
  rest := []
  idFlags_length := rfl
  counts_length := rfl
  label_length := by decide
  name_length := by decide

/-- One tunnel, and an address that goes through it. -/
def addressOnly : Config :=
  configOf [tunnel "tun0" 100 16] [addressPolicy "office" "203.0.113.7" "tun0"]

theorem passesThrough_iff_host : addressOnly.validate = .ok () ∧
    ∀ (env : ProxyEnv) (s : ProxyState) (answer : Packet), answer.length = 100 →
      firstAnswer env.udp (hostQuery.datagram.take bufferSize)
        addressOnly.dnsInterception.timeoutMs s.1
        addressOnly.dnsInterception.effectiveUpstreams = some answer →
      (Program.run (proxyHost env) (serve addressOnly
        addressOnly.dnsInterception.effectiveUpstreams true hostQuery.datagram) s).1 =
          .ok answer := by
  refine ⟨by decide, (passesThrough_iff (by decide)).mpr ⟨"a.example", ?_⟩⟩
  exact ⟨by decide +kernel, by decide, by decide, by decide⟩

/-- Even without any policy domain, the query for the root servers is answered by the proxy's
own error. -/
theorem not_passesThrough : ¬ ∀ (cfg : Config) (q : OneQuestion) (env : ProxyEnv)
    (s : ProxyState) (writeCache : Bool) (answer : Packet), cfg.validate = .ok () →
    (∀ policy ∈ cfg.policies, policy.matchSpec.domain = none) →
    firstAnswer env.udp (q.datagram.take bufferSize) cfg.dnsInterception.timeoutMs s.1
      cfg.dnsInterception.effectiveUpstreams = some answer →
    (Program.run (proxyHost env) (serve cfg cfg.dnsInterception.effectiveUpstreams writeCache
      q.datagram) s).1 = .ok answer := by
  intro hclaim
  have hreply := hclaim addressOnly rootQuery
    ⟨fun _ c => .received (c.query.set 2 0x81), quietHost.cache⟩ (0, bareState.2) true
    (rootQuery.datagram.set 2 0x81) (by decide) (by decide) (by decide)
  exact absurd hreply (by decide +kernel)

/-! ### AAAA records -/

/-- The type that asks for records of all types. -/
def qtypeAny : UInt16 := 255

def asksFor (query : Packet) (rrType : UInt16) : Prop :=
  rrType ∈ questionTypes query ∨ qtypeAny ∈ questionTypes query

instance (query : Packet) (rrType : UInt16) : Decidable (asksFor query rrType) := by
  unfold asksFor
  infer_instance

/-- Upstreams that answer with records of the types asked for only. -/
def AnswersAsAsked (env : UdpEnv) : Prop :=
  ∀ k c datagram, env k c = .received datagram →
    ∀ rrType ∈ answerTypes datagram, asksFor c.query rrType

/-- An AAAA record as the only answer. -/
def aaaaAnswer : Packet :=
  [0, 0, 0x80, 0, 0, 0, 0, 1, 0, 0, 0, 0] ++
    [0, 0, 28, 0, 1, 0, 0, 0, 60, 0, 16] ++ List.replicate 16 1

/-- An A record before the AAAA record. -/
def bothAnswer : Packet :=
  [0, 0, 0x80, 0, 0, 0, 0, 2, 0, 0, 0, 0] ++
    [0, 0, 1, 0, 1, 0, 0, 0, 60, 0, 4, 192, 0, 2, 1] ++
    [0, 0, 28, 0, 1, 0, 0, 0, 60, 0, 16] ++ List.replicate 16 1

/-- Upstreams that give an AAAA record whenever it is asked for, and an A record too. -/
def generousUpstreams : UdpEnv := fun _ c =>
  if asksFor c.query qtypeAaaa then
    .received (if asksFor c.query qtypeA then bothAnswer else aaaaAnswer)
  else .timedOut

theorem answersAsAsked_generous : AnswersAsAsked generousUpstreams := by
  intro k c datagram h rrType hmem
  have hboth : answerTypes bothAnswer = [qtypeA, qtypeAaaa] := by decide
  have haaaa : answerTypes aaaaAnswer = [qtypeAaaa] := by decide
  unfold generousUpstreams at h
  split_ifs at h with hasked hasksA
  · rw [← ExchangeFate.received.inj h, hboth] at hmem
    rcases List.mem_pair.mp hmem with rfl | rfl
    · exact hasksA
    · exact hasked
  · rw [← ExchangeFate.received.inj h, haaaa, List.mem_singleton] at hmem
    exact hmem ▸ hasked

theorem bothAnswer_spec : bothAnswer.take bufferSize = bothAnswer ∧
    qtypeAaaa ∈ answerTypes bothAnswer ∧ parseARecords bothAnswer = .ok ⟨["192.0.2.1"]⟩ := by
  decide +kernel

theorem aaaaAnswer_spec : aaaaAnswer.take bufferSize = aaaaAnswer ∧
    qtypeAaaa ∈ answerTypes aaaaAnswer := by
  decide

/-- With no cache file yet and a file system that works, every save works. -/
theorem run_upsert_quiet (cfg : Config) {domain : String} (ips : List String) (writeCache : Bool)
    (hdomain : normalizeDomain domain = .ok domain) :
    ∃ saved t, Program.run (cacheHost quietHost.cache)
      (upsertLiveIpsFromProxy cfg domain ips writeCache) bareState.2 = (.ok saved, t) := by
  unfold upsertLiveIpsFromProxy
  rw [hdomain]
  change ∃ saved t, Program.run _ (if uniqueSorted ips = [] then _ else _) _ = (.ok saved, t)
  split_ifs
  · exact ⟨_, _, rfl⟩
  · cases writeCache with
    | true => exact ⟨_, _, rfl⟩
    | false => exact ⟨_, _, rfl⟩
  · exact ⟨_, _, rfl⟩

/-- The upstreams' A record is accepted, and the AAAA record goes along with it. -/
theorem run_acceptAnswer_quiet {cfg : Config} {writeCache : Bool} {query response : Packet}
    {question : DnsQuestion} {isPolicyDomain : Bool} {k : ℕ} {udp : UdpEnv}
    (hdomain : normalizeDomain question.domain = .ok question.domain)
    (hrecords : qtypeIsA question = true → parseARecords response = .ok ⟨["192.0.2.1"]⟩) :
    (Program.run (proxyHost ⟨udp, quietHost.cache⟩)
      (acceptAnswer cfg writeCache query question isPolicyDomain response) (k, bareState.2)).1 =
        .ok response := by
  by_cases hplain : isPolicyDomain ∧ qtypeIsA question
  · obtain ⟨saved, t, hrun⟩ := run_upsert_quiet cfg ["192.0.2.1"] writeCache hdomain
    rw [run_acceptAnswer_ips hplain (hrecords hplain.2) (by simp), hrun]
    split_ifs <;> rfl
  · rw [run_acceptAnswer_plain hplain]

/-- No AAAA record comes back exactly when the query is stopped at its first question, or no
question asks for one. -/
theorem no_aaaa_iff {cfg : Config} {upstreams : List SocketAddr} {query : Packet}
    {writeCache : Bool} (hup : upstreams ≠ []) :
    (∀ (env : ProxyEnv) (s : ProxyState) (reply : Packet), AnswersAsAsked env.udp →
      (Program.run (proxyHost env) (handleQuery cfg upstreams writeCache query) s).1 = .ok reply →
      qtypeAaaa ∉ answerTypes reply) ↔
      (∀ question policy, parseQuestion query = .ok question →
        findEnabledDomainPolicy cfg question.domain = .ok policy →
        deniesAaaa cfg question policy.isSome = true) ∨ ¬ asksFor query qtypeAaaa := by
  constructor
  · intro h
    by_contra hcond
    rw [not_or, not_not] at hcond
    obtain ⟨hopen, hasks⟩ := hcond
    simp only [not_forall, Bool.not_eq_true] at hopen
    obtain ⟨question, policy, hquestion, hpolicy, hasked⟩ := hopen
    set response := if asksFor query qtypeA then bothAnswer else aaaaAnswer with hresponse
    have hanswer : firstAnswer generousUpstreams query cfg.dnsInterception.timeoutMs 0 upstreams =
        some response := by
      apply firstAnswer_of_all hup
      intro upstream
      exact if_pos hasks
    have hspec : response.take bufferSize = response ∧ qtypeAaaa ∈ answerTypes response := by
      rw [hresponse]
      split_ifs
      · exact ⟨bothAnswer_spec.1, bothAnswer_spec.2.1⟩
      · exact aaaaAnswer_spec
    have hrecords : qtypeIsA question = true → parseARecords response = .ok ⟨["192.0.2.1"]⟩ := by
      intro hA
      have hqtype : question.qtype = qtypeA := (of_decide_eq_true hA).1
      have hasksA : asksFor query qtypeA := Or.inl (hqtype ▸ qtype_mem_questionTypes hquestion)
      rw [hresponse, if_pos hasksA]
      exact bothAnswer_spec.2.2
    set env : ProxyEnv := ⟨generousUpstreams, quietHost.cache⟩ with henv
    refine h env (0, bareState.2) response answersAsAsked_generous ?_ hspec.2
    obtain ⟨k, hrun⟩ : ∃ k, Program.run (proxyHost env)
        (handleQuery cfg upstreams writeCache query) (0, bareState.2) =
          Program.run (proxyHost env) (acceptAnswer cfg writeCache query question policy.isSome
            (response.take bufferSize)) (k, bareState.2) :=
      run_handleQuery_answered writeCache hquestion hpolicy hasked hanswer
    rw [hrun, hspec.1]
    exact run_acceptAnswer_quiet (normalized_of_parseQuestion hquestion) hrecords
  · intro hcond env s reply hasked hreply
    rcases handleQuery_cases env cfg upstreams writeCache query s with hrefused | hpassed
    · have hno : readU16 reply 6 = .ok 0 := by
        rw [hreply] at hrefused
        rcases hrefused with hrefused | ⟨e, he⟩
        · exact ErrorReply.header ⟨rcodeRefused, by simp, hrefused.symm⟩ |>.2.1
        · cases he
      rw [answerTypes_of_no_answers hno]
      simp
    · obtain ⟨question, policy, answer, hquestion, hpolicy, hopen, hanswer, hout⟩ := hpassed
      rcases hcond with hstopped | hnot
      · rw [hstopped question policy hquestion hpolicy] at hopen
        cases hopen
      · obtain ⟨i, upstream, -, hreceived⟩ := received_of_firstAnswer hanswer
        obtain rfl : answer.take bufferSize = reply := Except.ok.inj (hout.symm.trans hreply)
        intro hmem
        have hwhole := (answerTypes_isPrefix (List.take_prefix bufferSize answer)).subset hmem
        exact hnot (hasked i _ answer hreceived qtypeAaaa hwhole)

/-- A tunnel for one domain. -/
def domainConfig : Config :=
  configOf [tunnel "tun0" 100 16] [domainPolicy "web" "a.example" "tun0"]

theorem no_aaaa_iff_host : domainConfig.validate = .ok () ∧
    ∀ (env : ProxyEnv) (s : ProxyState) (reply : Packet), AnswersAsAsked env.udp →
      (Program.run (proxyHost env) (handleQuery domainConfig
        domainConfig.dnsInterception.effectiveUpstreams true hostQuery.datagram) s).1 =
          .ok reply →
      qtypeAaaa ∉ answerTypes reply :=
  ⟨by decide, (no_aaaa_iff (by decide)).mpr (Or.inr (by decide))⟩

/-- A query of type ANY for the policy domain brings its AAAA record. -/
theorem not_no_aaaa : ¬ ∀ (cfg : Config) (env : ProxyEnv) (s : ProxyState) (writeCache : Bool)
    (query reply : Packet), cfg.validate = .ok () →
    cfg.dnsInterception.denyAaaaForPolicyDomains = true →
    (∃ question policy, parseQuestion query = .ok question ∧
      findEnabledDomainPolicy cfg question.domain = .ok (some policy)) →
    AnswersAsAsked env.udp →
    (Program.run (proxyHost env) (handleQuery cfg cfg.dnsInterception.effectiveUpstreams
      writeCache query) s).1 = .ok reply →
    qtypeAaaa ∉ answerTypes reply := by
  intro hclaim
  have hnone := hclaim domainConfig ⟨generousUpstreams, quietHost.cache⟩ (0, bareState.2) true
    { hostQuery with qtype := qtypeAny }.datagram bothAnswer (by decide) rfl
    ⟨⟨"a.example", qtypeAny, qclassIn⟩, domainPolicy "web" "a.example" "tun0",
      by decide +kernel, by decide⟩ answersAsAsked_generous (by decide +kernel)
  exact hnone bothAnswer_spec.2.1

end EveNet
