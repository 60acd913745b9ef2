import EveNet.EditedSettings
import EveNet.JustifiedRules
import EveNet.ProxyCache
import EveNet.UpstreamOrder

/-!
# What the settings scripts bring about

Once the proxy is set up for the host, it listens where the host's resolver is expected, asks
the upstreams it asked before unless it was given others, and refuses whatever it cannot answer
for a policy domain. Once an interface is taken out of use, no round leaves a rule with its mark,
whatever settings are changed later.
-/

namespace EveNet

open Python

/-! ### The upstreams of the host's proxy -/

section Upstreams

variable {dns dns' : DnsInterceptionConfig} {upstream : String} {upstreams kept : List String}

/-- Listing the single upstream changes nothing. -/
theorem effectiveUpstreams_kept (h : KeptUpstreams dns kept) :
    DnsInterceptionConfig.effectiveUpstreams { dns with upstreams := kept } =
      dns.effectiveUpstreams := by
  rcases h with rfl | ⟨hnone, rfl⟩
  · rfl
  · rw [DnsInterceptionConfig.effectiveUpstreams_eq, DnsInterceptionConfig.effectiveUpstreams_eq]
    unfold DnsInterceptionConfig.configuredUpstreamEntries
    rw [if_pos (List.cons_ne_nil _ _), if_neg (not_not.mpr hnone)]
    by_cases hblank : trimmedEmpty dns.upstreamAddr = true
    · simp [entryAddr, hblank]
    · simp [hblank]

theorem eraseDups_concat {α : Type} [DecidableEq α] (l : List α) (a : α) :
    (l ++ [a]).eraseDups = if a ∈ l then l.eraseDups else l.eraseDups ++ [a] := by
  rw [List.eraseDups_append]
  by_cases ha : a ∈ l
  · simp [List.removeAll, ha]
  · simp [List.removeAll, ha, List.eraseDups_cons]

/-- What occurs again brings nothing new. -/
theorem eraseDups_filterMap_eraseDups {α β : Type} [DecidableEq α] [DecidableEq β]
    (f : α → Option β) (l : List α) :
    (l.eraseDups.filterMap f).eraseDups = (l.filterMap f).eraseDups := by
  have hmem : ∀ (l : List α) (b : β), b ∈ l.eraseDups.filterMap f ↔ b ∈ l.filterMap f := by
    intro l b
    simp only [List.mem_filterMap, List.mem_eraseDups]
  induction l using List.reverseRecOn with
  | nil => rfl
  | append_singleton l a ih =>
      rw [eraseDups_concat, List.filterMap_append]
      cases ha : f a with
      | none =>
          have hnone : [a].filterMap f = [] := by simp [ha]
          rw [hnone, List.append_nil]
          split_ifs
          · exact ih
          · rw [List.filterMap_append, hnone, List.append_nil, ih]
      | some b =>
          have hsome : [a].filterMap f = [b] := by simp [ha]
          rw [hsome, eraseDups_concat]
          split_ifs with hold hb hb
          · exact ih
          · exact absurd (List.mem_filterMap.mpr ⟨a, hold, ha⟩) hb
          · rw [List.filterMap_append, hsome, eraseDups_concat, if_pos ((hmem l b).mpr hb), ih]
          · rw [List.filterMap_append, hsome, eraseDups_concat,
              if_neg (fun h => hb ((hmem l b).mp h)), ih]

/-- The resolvers that the script's argument stands for: those of the configuration, where the
list goes before the single one, the detected ones or else two known ones, or the one given. What
is detected takes the argument's place, so it should not be `keep` itself. -/
def resolverEntries (upstreamArg : String) (detected : List String)
    (dns : DnsInterceptionConfig) : List String :=
  if upstreamArg = "" ∨ upstreamArg = "keep" ∨
      upstreamArg = "auto" ∧ detected.head? = some "keep" then
    if dns.upstreams = [] then [dns.upstreamAddr] else dns.upstreams
  else if upstreamArg = "auto" then
    if detected = [] then ["111.88.96.50:53", "111.88.96.51:53"] else detected
  else [upstreamArg]

/-- The addresses among entries, each where it occurs first. -/
def entryAddrs (entries : List String) : List SocketAddr :=
  ((entries.filter (fun entry => ¬ trimmedEmpty entry)).filterMap
    (fun entry => SocketAddr.parse (String.ofList (trim entry.toList)))).eraseDups

theorem entryAddrs_eraseDups (entries : List String) :
    entryAddrs entries.eraseDups = entryAddrs entries := by
  unfold entryAddrs
  rw [List.filterMap_filter, List.filterMap_filter]
  exact eraseDups_filterMap_eraseDups _ entries

theorem entryAddrs_distinct {upstream : String} {upstreams : List String}
    (h : upstreams ≠ []) : entryAddrs (distinctUpstreams upstream upstreams) =
      entryAddrs upstreams := by
  rw [distinctUpstreams, if_neg h, entryAddrs_eraseDups]

theorem distinctUpstreams_ne_nil (upstream : String) (upstreams : List String) :
    distinctUpstreams upstream upstreams ≠ [] := by
  obtain ⟨entry, hentry⟩ : ∃ entry, entry ∈ (if upstreams = [] then [upstream] else upstreams) := by
    split_ifs with hnone
    · exact ⟨upstream, List.mem_singleton_self _⟩
    · exact List.exists_mem_of_ne_nil _ hnone
  exact List.ne_nil_of_mem (List.mem_eraseDups.mpr hentry)

/-- The list that the script writes goes before the single resolver. -/
theorem effectiveUpstreams_taken (upstream : String) {upstreams : List String}
    (h : upstreams ≠ []) : DnsInterceptionConfig.effectiveUpstreams
      { dns with upstreamAddr := upstream, upstreams := distinctUpstreams upstream upstreams } =
        entryAddrs upstreams := by
  rw [DnsInterceptionConfig.effectiveUpstreams_declared,
    if_neg (distinctUpstreams_ne_nil upstream upstreams)]
  exact entryAddrs_distinct h

theorem effectiveUpstreams_of_upstreams {upstreamArg : String} {detected : List String}
    (h : Upstreams (hostDnsUpstreams upstreamArg detected).1
      (hostDnsUpstreams upstreamArg detected).2 dns dns') :
    dns'.forHost.effectiveUpstreams = entryAddrs (resolverEntries upstreamArg detected dns) := by
  have hsame : dns'.forHost.effectiveUpstreams = dns'.effectiveUpstreams := rfl
  rw [hsame]
  unfold Upstreams at h
  unfold resolverEntries
  by_cases hkeep : upstreamArg = "" ∨ upstreamArg = "keep" ∨
      upstreamArg = "auto" ∧ detected.head? = some "keep"
  · have hkept : (hostDnsUpstreams upstreamArg detected).1 = "keep" := by
      rcases hkeep with rfl | rfl | ⟨rfl, hfirst⟩
      · rfl
      · rfl
      · cases detected with
        | nil => cases hfirst
        | cons first rest => exact Option.some.inj hfirst
    rw [if_neg (not_not.mpr hkept)] at h
    obtain ⟨kept, hkept, rfl⟩ := h
    rw [if_pos hkeep, effectiveUpstreams_kept hkept,
      DnsInterceptionConfig.effectiveUpstreams_declared]
    rfl
  · rw [if_neg hkeep]
    rw [not_or] at hkeep
    by_cases hauto : upstreamArg = "auto"
    · subst hauto
      rw [if_pos rfl]
      cases detected with
      | nil =>
          rw [if_pos (show (hostDnsUpstreams "auto" []).1 ≠ "keep" by decide)] at h
          rw [h, if_pos rfl]
          exact effectiveUpstreams_taken _ (List.cons_ne_nil _ _)
      | cons first rest =>
          have hfirst : first ≠ "keep" := fun heq => hkeep.2 (Or.inr ⟨rfl, congrArg some heq⟩)
          rw [if_pos (show (hostDnsUpstreams "auto" (first :: rest)).1 ≠ "keep" from hfirst)] at h
          rw [h, if_neg (List.cons_ne_nil _ _)]
          exact effectiveUpstreams_taken _ (List.cons_ne_nil _ _)
    · rw [if_neg hauto]
      have hother : upstreamArg ≠ "keep" := fun heq => hkeep.2 (Or.inl heq)
      have htaken : hostDnsUpstreams upstreamArg detected = (upstreamArg, [upstreamArg]) := by
        simp [hostDnsUpstreams, hkeep.1, hauto, hother]
      rw [htaken, if_pos hother] at h
      rw [h]
      exact effectiveUpstreams_taken _ (List.cons_ne_nil _ _)

end Upstreams

/-! ### A proxy that fails closed -/

section Closed

variable {env : ProxyEnv} {cfg : Config} {upstreams : List SocketAddr} {writeCache : Bool}
  {query : Packet} {question : DnsQuestion} {policy : Policy} {s : ProxyState}

/-- The settings under which nothing for a policy domain is passed on unresolved. -/
structure ClosedProxy (cfg : Config) : Prop where
  failClosed : hardFailClosed cfg = true
  denyAaaa : cfg.dnsInterception.denyAaaaForPolicyDomains = true
  cacheAnswers : cfg.dnsInterception.cacheAnswers = true
  cacheEnabled : cfg.dnsCache.enabled = true

/-- Without an answer the query is refused. -/
theorem run_handleQuery_closed (hclosed : hardFailClosed cfg = true)
    (hquestion : parseQuestion query = .ok question)
    (hpolicy : findEnabledDomainPolicy cfg question.domain = .ok (some policy))
    (hasked : deniesAaaa cfg question true = false)
    (hanswer : firstAnswer env.udp query cfg.dnsInterception.timeoutMs s.1 upstreams = none) :
    ∃ k, Program.run (proxyHost env) (handleQuery cfg upstreams writeCache query) s =
      (buildErrorResponse query rcodeRefused, (k, s.2)) := by
  have hforward := run_forwardQueryWithFailover env.udp query cfg.dnsInterception.timeoutMs []
    upstreams s.1
  rw [hanswer] at hforward
  rw [run_handleQuery_matched hquestion hpolicy, if_neg (by simp [hasked]), Program.run_bind,
    Program.run_left, Program.run_attempt]
  cases hout : (Program.run (udpHost env.udp) (forwardQueryWithFailover query
      cfg.dnsInterception.timeoutMs [] upstreams) s.1).1 with
  | ok response =>
      rw [hout] at hforward
      cases hforward
  | error err =>
      dsimp only
      rw [if_pos ⟨rfl, hclosed⟩, Program.run_ofExcept]
      exact ⟨_, rfl⟩

/-- What the proxy does with a query for a policy domain: those for IPv6 addresses are refused
at once, and others when no upstream answers; the addresses it lets through are in the cache
by then. -/
structure ServesClosed (env : ProxyEnv) (cfg : Config) (upstreams : List SocketAddr)
    (writeCache : Bool) (datagram : Packet) (question : DnsQuestion) (s : ProxyState) : Prop where
  ipv6 : question.qtype = qtypeAaaa → ∃ reply,
    buildErrorResponse (datagram.take bufferSize) rcodeRefused = .ok reply ∧
      Program.run (proxyHost env) (serve cfg upstreams writeCache datagram) s = (.ok reply, s)
  unanswered : question.qtype ≠ qtypeAaaa →
    firstAnswer env.udp (datagram.take bufferSize) cfg.dnsInterception.timeoutMs s.1 upstreams =
      none → ∃ reply k, buildErrorResponse (datagram.take bufferSize) rcodeRefused = .ok reply ∧
        Program.run (proxyHost env) (serve cfg upstreams writeCache datagram) s =
          (.ok reply, (k, s.2))
  answered : qtypeIsA question = true → writeCache = true → ∀ answer,
    firstAnswer env.udp (datagram.take bufferSize) cfg.dnsInterception.timeoutMs s.1 upstreams =
      some answer → ∃ reply t,
        Program.run (proxyHost env) (serve cfg upstreams writeCache datagram) s = (.ok reply, t) ∧
          (ErrorReply (datagram.take bufferSize) reply ∨
            ∃ ips, reply = answer.take bufferSize ∧ parseARecords reply = .ok ⟨ips⟩ ∧ ips ≠ [] ∧
              CachedUntil cfg (t.2.files cfg.dnsCache.path) question.domain ips
                (env.cache.clock (s.2.calls + 1)))

theorem servesClosed (env : ProxyEnv) (hcfg : ClosedProxy cfg) (upstreams : List SocketAddr)
    (writeCache : Bool) (datagram : Packet) (s : ProxyState)
    (hquestion : parseQuestion (datagram.take bufferSize) = .ok question)
    (hpolicy : findEnabledDomainPolicy cfg question.domain = .ok (some policy)) :
    ServesClosed env cfg upstreams writeCache datagram question s := by
  have hlen : 12 ≤ (datagram.take bufferSize).length := by
    obtain ⟨_, hlen, -⟩ := except_bind_eq_ok.mp hquestion
    rw [refuseIf_eq_ok] at hlen
    omega
  obtain ⟨refused, -, hrefused, -⟩ := buildErrorResponse_spec hlen rcodeRefused
  have hpasses : question.qtype ≠ qtypeAaaa → deniesAaaa cfg question true = false :=
    fun hother => decide_eq_false fun hdenied => hother hdenied.2.1
  constructor
  · intro haaaa
    have hdenied : deniesAaaa cfg question true = true :=
      decide_eq_true ⟨rfl, haaaa, hcfg.denyAaaa⟩
    refine ⟨refused, hrefused, ?_⟩
    rw [run_serve, run_handleQuery_denied hquestion hpolicy hdenied, hrefused]
    rfl
  · intro hother hanswer
    obtain ⟨k, hrun⟩ := run_handleQuery_closed hcfg.failClosed hquestion hpolicy
      (hpasses hother) hanswer
    refine ⟨refused, k, hrefused, ?_⟩
    rw [run_serve, hrun, hrefused]
    rfl
  · intro hA hwrite answer hanswer
    have hother : question.qtype ≠ qtypeAaaa := by
      have hqtype : question.qtype = qtypeA := (of_decide_eq_true hA).1
      rw [hqtype]
      decide
    obtain ⟨k, hrun⟩ := run_handleQuery_answered writeCache hquestion hpolicy (hpasses hother)
      hanswer
    rw [Option.isSome_some] at hrun
    rw [run_serve, hrun]
    refine ⟨_, _, rfl, ?_⟩
    rcases acceptAnswer_ips env writeCache (datagram.take bufferSize) (answer.take bufferSize)
      (k, s.2) hcfg.failClosed ⟨rfl, hA⟩ (normalized_of_parseQuestion hquestion) with
      hrefuse | ⟨hreply, ips, hrecords, hips, hcached⟩
    · exact Or.inl (errorReply_of_refused hlen hrefuse)
    · rw [hreply]
      exact Or.inr ⟨ips, rfl, hrecords, hips,
        hcached hcfg.cacheAnswers hcfg.cacheEnabled hwrite⟩

end Closed

/-! ### The host's proxy -/

section HostDns

variable {upstreamArg : String} {detected : List String} {value value' : Json} {cfg cfg' : Config}

theorem closedProxy_of_changes (h : (SettingsEdit.enableHostDns upstreamArg detected).Changes cfg
    cfg') : ClosedProxy cfg' := by
  obtain ⟨dns, -, rfl⟩ := h
  exact ⟨rfl, rfl, rfl, rfl⟩

/-- The address the host's resolver is expected at. -/
def hostListen : SocketAddr := .v4 127 0 0 1 53

/-- The proxy starts on the host's port, unless none of its resolvers can be read. -/
theorem startProxy_of_changes (h : (SettingsEdit.enableHostDns upstreamArg detected).Changes cfg
    cfg') (addr : SocketAddr) (upstreams : List SocketAddr) :
    startProxy cfg' = .ok (addr, upstreams) ↔ addr = hostListen ∧
      upstreams = entryAddrs (resolverEntries upstreamArg detected cfg.dnsInterception) ∧
        upstreams ≠ [] := by
  obtain ⟨dns, hups, rfl⟩ := h
  have hresolvers : dns.forHost.effectiveUpstreams =
      entryAddrs (resolverEntries upstreamArg detected cfg.dnsInterception) :=
    effectiveUpstreams_of_upstreams hups
  have hlisten : SocketAddr.parse dns.forHost.listenAddr = some hostListen :=
    (by decide : SocketAddr.parse "127.0.0.1:53" = some hostListen)
  unfold startProxy
  simp only [except_bind_unit_eq_ok, refuseIf_eq_ok, hlisten, hresolvers, Except.ok.injEq,
    Prod.mk.injEq]
  constructor
  · rintro ⟨-, hsome, rfl, rfl⟩
    exact ⟨rfl, rfl, hsome⟩
  · rintro ⟨rfl, rfl, hsome⟩
    exact ⟨not_not.mpr rfl, hsome, rfl, rfl⟩

/-- Once the script has written the file of an accepted configuration, the proxy starts on the
host's port with the resolvers it was given or had, and fails closed for every policy domain,
whatever its flags were. -/
theorem host_dns_serves {numbers : Numbers} {write : ConfigWrite}
    (hdecode : Config.decode value = some cfg) (hvalid : cfg.validate = .ok ())
    (h : (SettingsEdit.enableHostDns upstreamArg detected).run numbers write value =
      (.ok (), .json value')) :
    ∃ cfg', Config.decode value' = some cfg' ∧ cfg'.validate = .ok () ∧
      (∀ addr upstreams, startProxy cfg' = .ok (addr, upstreams) ↔ addr = hostListen ∧
        upstreams = entryAddrs (resolverEntries upstreamArg detected cfg.dnsInterception) ∧
          upstreams ≠ []) ∧
      ∀ (env : ProxyEnv) (upstreams : List SocketAddr) (writeCache : Bool) (datagram : Packet)
        (s : ProxyState) (question : DnsQuestion) (policy : Policy),
        parseQuestion (datagram.take bufferSize) = .ok question →
        findEnabledDomainPolicy cfg question.domain = .ok (some policy) →
        ServesClosed env cfg' upstreams writeCache datagram question s := by
  obtain ⟨cfg', hchanges, hwritten⟩ := decode_run hdecode h
  have hclosed := closedProxy_of_changes hchanges
  refine ⟨cfg', hwritten, validate_changed hvalid hchanges, startProxy_of_changes hchanges, ?_⟩
  intro env upstreams writeCache datagram s question policy hquestion hpolicy
  have hpolicy' : findEnabledDomainPolicy cfg' question.domain = .ok (some policy) := by
    obtain ⟨dns, -, rfl⟩ := hchanges
    exact hpolicy
  exact servesClosed env hclosed upstreams writeCache datagram s hquestion hpolicy'

end HostDns

/-- The query for the address of office.example. -/
def officeQuery : OneQuestion :=
  { hostQuery with
    labels := [[111, 102, 102, 105, 99, 101], [101, 120, 97, 109, 112, 108, 101]]
    label_length := by decide
    name_length := by decide }

/-- The resolver that is given takes the place of the default one. -/
theorem host_dns_serves_tunnel : ∃ value' cfg',
    (SettingsEdit.enableHostDns "9.9.9.9:53" []).run plainNumbers .done tunnelJson =
      (.ok (), .json value') ∧
    Config.decode value' = some cfg' ∧ cfg'.validate = .ok () ∧
    startProxy cfg' = .ok (hostListen, [.v4 9 9 9 9 53]) ∧
    ∀ (env : ProxyEnv) (s : ProxyState), ServesClosed env cfg' [.v4 9 9 9 9 53] true
      officeQuery.datagram ⟨"office.example", qtypeA, qclassIn⟩ s := by
  have hdecode : Config.decode tunnelJson = some (configOf [tunnel "tun0" 100 100]
      [domainPolicy "office" "office.example" "tun0"]) := by decide
  obtain ⟨value', hrun⟩ : ∃ value', (SettingsEdit.enableHostDns "9.9.9.9:53" []).run plainNumbers
      .done tunnelJson = (.ok (), .json value') := ⟨_, rfl⟩
  obtain ⟨cfg', hwritten, hvalid, hstart, hserves⟩ := host_dns_serves hdecode (by decide) hrun
  refine ⟨value', cfg', hrun, hwritten, hvalid, (hstart _ _).mpr ⟨rfl, by decide, by decide⟩, ?_⟩
  intro env s
  exact hserves env _ true _ s ⟨"office.example", qtypeA, qclassIn⟩
    (domainPolicy "office" "office.example" "tun0") (by decide +kernel) (by decide)

/-! ### An interface out of use -/

section DisabledTunnel

variable {iface : String} {value value' last : Json} {cfg cfg' : Config} {numbers : Numbers}
  {write : ConfigWrite} {edits : List (SettingsEdit × ConfigWrite)} {env : HostEnv}
  {order : MapOrder} {s t : HostState}

theorem egress_ne_of_enabled {policy : Policy}
    (h : policy ∈ Config.enabledPolicies { cfg with
      egressInterfaces := cfg.egressInterfaces.map (EgressInterface.flagged (disabledFlag iface))
      policies := cfg.policies.map (Policy.disabledFor iface) }) :
    policy.action.egress ≠ iface := by
  obtain ⟨hmem, hon⟩ := List.mem_filter.mp h
  obtain ⟨old, -, rfl⟩ := List.mem_map.mp hmem
  change (if old.action.egress = iface then false else old.enabled) = true at hon
  split_ifs at hon with hsame
  exact hsame

theorem Lowers.name {egress egress' : EgressInterface} (h : egress.Lowers egress') :
    egress'.name = egress.name ∧ egress'.fwmark = egress.fwmark := by
  rcases h with rfl | rfl
  · exact ⟨rfl, rfl⟩
  · exact ⟨rfl, rfl⟩

/-- Rules that a configuration justifies after an interface was taken out of use, and whatever
settings were changed since, do not have the interface's mark. -/
theorem unmarked_of_justified (hdecode : Config.decode value = some cfg)
    (hvalid : cfg.validate = .ok ())
    (h : (SettingsEdit.disableWgPolicy iface).run numbers write value = (.ok (), .json value'))
    (hwrites : ∀ run ∈ edits, run.2.Whole) (hwritten : written numbers edits value' = some last)
    (hload : Config.decode last = some cfg') {rules : List NftRule}
    (hrules : Justified cfg' rules) {egress : EgressInterface}
    (hegress : egress ∈ cfg.egressInterfaces) (hname : egress.name = iface) :
    ∀ rule ∈ rules, rule.mark ≠ egress.fwmark := by
  intro rule hrule heq
  obtain ⟨mid, hchanges, hmid⟩ := decode_run hdecode h
  obtain ⟨found, hlast, hall⟩ := changes_of_written hmid hwrites hwritten
  obtain rfl := Option.some.inj (hlast.symm.trans hload)
  obtain ⟨policy, hpolicy, egress', hegress', hroute, hmark⟩ := hrules rule hrule
  have hlater := onlyDisables_of_changesAll hall
  have hother : policy.action.egress ≠ iface := by
    have henabled := hlater.enabled policy hpolicy
    obtain rfl := hchanges
    exact egress_ne_of_enabled henabled
  have hdisables := (onlyDisables_of_changes hchanges).trans hlater
  obtain ⟨old, hold, hlower⟩ := hdisables.egresses egress' hegress'
  obtain ⟨hsameName, hsameMark⟩ := Lowers.name hlower
  have hsame : old = egress := List.inj_on_of_nodup_map (accepted_of_validate hvalid).marks hold
    hegress (hsameMark.symm.trans (hmark.symm.trans heq))
  rw [← hroute, hsameName, hsame] at hother
  exact hother hname

/-- What the settings are changed to passes, so a round under them replaces the chain. -/
theorem accepted_of_written (hdecode : Config.decode value = some cfg)
    (hvalid : cfg.validate = .ok ())
    (h : (SettingsEdit.disableWgPolicy iface).run numbers write value = (.ok (), .json value'))
    (hwrites : ∀ run ∈ edits, run.2.Whole) (hwritten : written numbers edits value' = some last)
    (hload : Config.decode last = some cfg') : Accepted cfg' := by
  obtain ⟨mid, hchanges, hmid⟩ := decode_run hdecode h
  obtain ⟨found, hlast, hall⟩ := changes_of_written hmid hwrites hwritten
  obtain rfl := Option.some.inj (hlast.symm.trans hload)
  exact accepted_of_validate (validate_changedAll (validate_changed hvalid hchanges) hall)

/-- After an interface was taken out of use and whatever settings were changed since, no round
that returns leaves a rule with the interface's mark. -/
theorem disabled_tunnel_unmarked (hdecode : Config.decode value = some cfg)
    (hvalid : cfg.validate = .ok ())
    (h : (SettingsEdit.disableWgPolicy iface).run numbers write value = (.ok (), .json value'))
    (hwrites : ∀ run ∈ edits, run.2.Whole) (hwritten : written numbers edits value' = some last)
    (hload : Config.decode last = some cfg')
    (hrun : Program.run (host env) (reconcileOnce applying order cfg') s = (.ok (), t)) :
    ∀ egress ∈ cfg.egressInterfaces, egress.name = iface →
      ∀ rule ∈ policyChain cfg' t.1.kernel, rule.mark ≠ egress.fwmark := by
  intro egress hegress hname
  have haccepted := accepted_of_written hdecode hvalid h hwrites hwritten hload
  have hrules := justified_of_round haccepted hrun
  exact unmarked_of_justified hdecode hvalid h hwrites hwritten hload hrules hegress hname

end DisabledTunnel

/-- The configuration when the interface is out of use and the proxy set up. -/
def tunnelOnly : Config :=
  { configOf
      [{ tunnel "wg0" 101 17 with kind := .wireguard, enabled := false }, tunnel "tun0" 100 16]
      [addressPolicy "office" "203.0.113.7" "tun0",
        { addressPolicy "branch" "198.51.100.9" "wg0" with enabled := false }] with
    dnsCache := ({} : DnsCacheConfig).closed
    dnsInterception := ({} : DnsInterceptionConfig).forHost }

theorem disabled_tunnel_unmarked_wg : ∃ value' last,
    (SettingsEdit.disableWgPolicy "wg0").run plainNumbers .done wgJson = (.ok (), .json value') ∧
    written plainNumbers [(.enableHostDns "" [], .done)] value' = some last ∧
    Config.decode last = some tunnelOnly ∧
    (Program.run (host quietHost) (reconcileOnce applying listOrder tunnelOnly) bareState).1 =
      .ok () ∧
    ∀ rule ∈ policyChain tunnelOnly (Program.run (host quietHost)
      (reconcileOnce applying listOrder tunnelOnly) bareState).2.1.kernel, rule.mark ≠ 17 := by
  obtain ⟨value', hrun, last, hwritten, hload⟩ : ∃ value',
      (SettingsEdit.disableWgPolicy "wg0").run plainNumbers .done wgJson =
        (.ok (), .json value') ∧
      ∃ last, written plainNumbers [(.enableHostDns "" [], .done)] value' = some last ∧
        Config.decode last = some tunnelOnly := ⟨_, rfl, _, rfl, by decide⟩
  refine ⟨value', last, hrun, hwritten, hload, rfl, ?_⟩
  exact disabled_tunnel_unmarked decode_wgJson (by decide) hrun (by simp [ConfigWrite.Whole])
    hwritten hload (Prod.ext rfl rfl) { tunnel "wg0" 101 17 with kind := .wireguard }
    (by decide) rfl

end EveNet
