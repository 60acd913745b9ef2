import EveNet.SettingsEditors

/-!
# Edited settings and the validator

What each script that edits the settings makes of the configuration its file is decoded to. The
result is accepted if the old configuration was, so a file stays accepted through any number of
these scripts, and none of them enables an egress or a policy.
-/

namespace EveNet

open Python

/-! ### Numbers -/

section Numbers

variable {p : String → Bool} {key : String} {new : Json}

/-- The edit brings no number with it of which the test does not hold. -/
def KeepsNumbers (p : String → Bool) (edit : Json → Except EditError Json) : Prop :=
  ∀ ⦃value out⦄, value.allNumbers p = true → edit value = .ok out → out.allNumbers p = true

theorem KeepsNumbers.andThen {edit next : Json → Except EditError Json} (h : KeepsNumbers p edit)
    (h' : KeepsNumbers p next) : KeepsNumbers p (fun value => edit value >>= next) := by
  intro value out hvalue hout
  obtain ⟨mid, hmid, hout⟩ := except_bind_eq_ok.mp hout
  exact h' (h hvalue hmid) hout

theorem keeps_setItem (hnew : new.allNumbers p = true) :
    KeepsNumbers p (fun value => setItem value key new) := by
  intro value out hvalue hout
  obtain ⟨-, rfl⟩ := setItem_eq_ok.mp hout
  exact Json.allNumbers_set hvalue hnew

theorem keeps_setDefault (hnew : new.allNumbers p = true) : KeepsNumbers p (setDefault key new) := by
  intro value out hvalue hout
  obtain ⟨member, -, hout⟩ := except_bind_eq_ok.mp hout
  cases member with
  | none => exact keeps_setItem hnew hvalue hout
  | some old => exact (Except.ok.inj hout) ▸ hvalue

theorem keeps_editMember {edit : Json → Except EditError Json} (h : KeepsNumbers p edit) :
    KeepsNumbers p (editMember key edit) := by
  intro value out hvalue hout
  obtain ⟨member, hmember, hout⟩ := except_bind_eq_ok.mp hout
  obtain ⟨-, rfl⟩ := get_eq_ok.mp hmember
  obtain ⟨edited, hedited, hout⟩ := except_bind_eq_ok.mp hout
  refine keeps_setItem (h ?_ hedited) hvalue hout
  cases hget : value.get key with
  | none => rfl
  | some old => exact Json.allNumbers_get hvalue hget

theorem keeps_editElements {edit : Json → Except EditError Json} (h : KeepsNumbers p edit) :
    KeepsNumbers p (editElements key edit) := by
  intro value out hvalue hout
  obtain ⟨member, hmember, hout⟩ := except_bind_eq_ok.mp hout
  obtain ⟨-, rfl⟩ := get_eq_ok.mp hmember
  cases hget : value.get key with
  | none =>
      rw [hget] at hout
      exact (Except.ok.inj hout) ▸ hvalue
  | some old =>
      rw [hget] at hout
      obtain ⟨items, hitems, hout⟩ := except_bind_eq_ok.mp hout
      obtain ⟨edited, hedited, hout⟩ := except_bind_eq_ok.mp hout
      refine keeps_setItem (Json.allNumbers_arr.mpr fun item hitem => ?_) hvalue hout
      obtain ⟨before, hbefore, hedit⟩ := exists_left_of_forall₂ (mapM_eq_ok_iff.mp hedited) hitem
      rcases elements_eq_ok hitems with ⟨hnone, -⟩ | hsome
      · cases hnone
      · have hold := Json.allNumbers_get hvalue (hget.trans hsome)
        exact h (Json.allNumbers_arr.mp hold before hbefore) hedit

theorem keeps_closeCache : KeepsNumbers p closeCache :=
  (keeps_setItem rfl).andThen ((keeps_setItem rfl).andThen (keeps_setItem rfl))

theorem keeps_setUpstreams (upstream : String) (upstreams : List String) :
    KeepsNumbers p (setUpstreams upstream upstreams) := by
  refine (keeps_setItem rfl).andThen (keeps_setItem ?_)
  rw [Json.allNumbers_arr, List.forall_mem_map]
  exact fun _ _ => rfl

theorem keeps_interceptLocally (upstream : String) (upstreams : List String)
    (hp : p "1500" = true) : KeepsNumbers p (interceptLocally upstream upstreams) := by
  have htimeout : (Json.num "1500").allNumbers p = true := hp
  exact (keeps_setItem rfl).andThen <| (keeps_setUpstreams upstream upstreams).andThen <|
    (keeps_setDefault htimeout).andThen <| (keeps_setItem rfl).andThen <|
    (keeps_setDefault rfl).andThen <| (keeps_setDefault rfl).andThen <|
    (keeps_setDefault rfl).andThen <| (keeps_setDefault rfl).andThen (keeps_setItem rfl)

theorem keeps_keepUpstreams : KeepsNumbers p keepUpstreams := by
  intro value out hvalue hout
  obtain ⟨addr, haddr, hout⟩ := except_bind_eq_ok.mp hout
  obtain ⟨-, rfl⟩ := get_eq_ok.mp haddr
  cases hget : value.get "upstream_addr" with
  | none =>
      rw [hget] at hout
      exact (Except.ok.inj hout) ▸ hvalue
  | some old =>
      rw [hget] at hout
      dsimp only at hout
      split_ifs at hout
      · obtain ⟨listed, -, hout⟩ := except_bind_eq_ok.mp hout
        split_ifs at hout
        · exact (Except.ok.inj hout) ▸ hvalue
        · refine keeps_setItem ?_ hvalue hout
          exact Json.allNumbers_arr.mpr
            (List.forall_mem_singleton.mpr (Json.allNumbers_get hvalue hget))
      · exact (Except.ok.inj hout) ▸ hvalue

theorem keeps_interceptForHost (upstream : String) (upstreams : List String) :
    KeepsNumbers p (interceptForHost upstream upstreams) := by
  have htake : KeepsNumbers p (takeUpstreams upstream upstreams) := by
    intro value out hvalue hout
    unfold takeUpstreams at hout
    split_ifs at hout
    · exact keeps_setUpstreams upstream upstreams hvalue hout
    · exact keeps_keepUpstreams hvalue hout
  exact (keeps_setItem rfl).andThen <| (keeps_setItem rfl).andThen <| htake.andThen <|
    (keeps_setItem rfl).andThen <| (keeps_setItem rfl).andThen <|
    (keeps_setItem rfl).andThen (keeps_setItem rfl)

theorem keeps_disableNamed (iface : String) : KeepsNumbers p (disableNamed iface) := by
  intro value out hvalue hout
  obtain ⟨name, -, hout⟩ := except_bind_eq_ok.mp hout
  split_ifs at hout
  · exact keeps_setItem rfl hvalue hout
  · exact (Except.ok.inj hout) ▸ hvalue

theorem keeps_disableRouted (iface : String) : KeepsNumbers p (disableRouted iface) := by
  intro value out hvalue hout
  obtain ⟨action, -, hout⟩ := except_bind_eq_ok.mp hout
  obtain ⟨egress, -, hout⟩ := except_bind_eq_ok.mp hout
  split_ifs at hout
  · exact keeps_setItem rfl hvalue hout
  · exact (Except.ok.inj hout) ▸ hvalue

/-- None of the scripts brings an infinity with it. -/
theorem keeps_apply {edit : SettingsEdit} :
    KeepsNumbers isFinite (fun value => edit.apply (.ok value)) := by
  cases edit with
  | enableApply => exact keeps_editMember (keeps_setItem rfl)
  | enableDnsInterception upstream detected =>
      exact (keeps_editMember keeps_closeCache).andThen
        (keeps_editMember (keeps_interceptLocally _ _ rfl))
  | enableHostDns upstream detected =>
      exact (keeps_editMember (keeps_interceptForHost _ _)).andThen
        (keeps_editMember ((keeps_setItem rfl).andThen keeps_closeCache))
  | disableWgPolicy iface =>
      intro value out hvalue hout
      simp only [SettingsEdit.apply, disableWgPolicy] at hout
      split_ifs at hout
      exact ((keeps_editElements (keeps_disableNamed iface)).andThen
        (keeps_editElements (keeps_disableRouted iface))) hvalue hout

end Numbers

/-! ### Members read as fields -/

section Fields

variable {α : Type} {names : List String} {json out value : Json} {key : String}
  {field : String → Option Json}

/-- The fields that a struct is read from, where it is an object. -/
def Reads (names : List String) (json : Json) (field : String → Option Json) : Prop :=
  json.IsObj ∧ json.fields names 0 = some field

/-- The fields with one of them replaced. -/
def withField (key : String) (value : Json) (field : String → Option Json) (name : String) :
    Option Json :=
  if key = name then some value else field name

theorem Reads.setItem (h : Reads names json field) (hset : setItem json key value = .ok out) :
    Reads names out (withField key value field) := by
  obtain ⟨hobj, rfl⟩ := setItem_eq_ok.mp hset
  refine ⟨hobj.set, ?_⟩
  obtain ⟨members, rfl⟩ := hobj
  exact Json.fields_set h.2

theorem Reads.get (h : Reads names json field) (key : String) : json.get key = field key := by
  obtain ⟨⟨members, rfl⟩, hfields⟩ := h
  rw [Json.fields_obj hfields]

theorem Reads.setDefault (h : Reads names json field) (hset : setDefault key value json = .ok out) :
    Reads names out (withField key ((field key).getD value) field) := by
  obtain ⟨member, hmember, hset⟩ := except_bind_eq_ok.mp hset
  obtain ⟨-, rfl⟩ := get_eq_ok.mp hmember
  rw [h.get] at hset
  cases hfield : field key with
  | none =>
      rw [hfield] at hset
      exact h.setItem hset
  | some old =>
      rw [hfield] at hset
      obtain rfl := Except.ok.inj hset
      have hsame : withField key old field = field := by
        funext name
        rw [withField]
        split_ifs with hname
        · rw [← hname, hfield]
        · rfl
      rw [Option.getD_some, hsame]
      exact h

/-- A missing member reads like one that is set to its default. -/
theorem withDefault_getD {read : Json → Option α} {default : α} (hread : read value = some default)
    (member : Option Json) :
    withDefault default read (some (member.getD value)) = withDefault default read member := by
  cases member with
  | none => exact hread
  | some json => rfl

theorem flag_getD (member : Option Json) :
    withDefault true Json.asBool (some (member.getD (.bool true))) =
      withDefault true Json.asBool member := by
  have hread : Json.asBool (.bool true) = some true := rfl
  exact withDefault_getD hread member

end Fields

/-! ### The settings of the cache and the proxy -/

section Settings

variable {json out : Json} {field : String → Option Json}

def cacheFields : List String :=
  ["enabled", "path", "ttl_sec", "stale_grace_sec", "fail_closed_unresolved",
    "unresolved_domain_mode", "dns_interception_enabled"]

/-- What the members of the cache settings are read as. -/
structure CacheReads (field : String → Option Json) (cache : DnsCacheConfig) : Prop where
  enabled : withDefault true Json.asBool (field "enabled") = some cache.enabled
  path : withDefault "/var/lib/eve-net/dns-cache.json" Json.asStr (field "path") = some cache.path
  ttlSec : withDefault 300 Json.asU64 (field "ttl_sec") = some cache.ttlSec
  staleGraceSec : withDefault 3600 Json.asU64 (field "stale_grace_sec") = some cache.staleGraceSec
  failClosedUnresolved : withDefault true Json.asBool (field "fail_closed_unresolved") =
    some cache.failClosedUnresolved
  unresolvedDomainMode : withDefault "soft_fail_closed_l3" Json.asStr
    (field "unresolved_domain_mode") = some cache.unresolvedDomainMode
  dnsInterceptionEnabled : withDefault false Json.asBool (field "dns_interception_enabled") =
    some cache.dnsInterceptionEnabled

theorem decodeCache_iff (h : Reads cacheFields json field) {cache : DnsCacheConfig} :
    DnsCacheConfig.decode json = some cache ↔ CacheReads field cache := by
  have hfields : json.fields ["enabled", "path", "ttl_sec", "stale_grace_sec",
      "fail_closed_unresolved", "unresolved_domain_mode", "dns_interception_enabled"] 0 =
        some field := h.2
  unfold DnsCacheConfig.decode
  rw [hfields]
  simp only [Option.bind_eq_bind, Option.bind_some, Option.bind_eq_some_iff]
  constructor
  · rintro ⟨_, h1, _, h2, _, h3, _, h4, _, h5, _, h6, _, h7, hcache⟩
    cases hcache
    exact ⟨h1, h2, h3, h4, h5, h6, h7⟩
  · rintro ⟨h1, h2, h3, h4, h5, h6, h7⟩
    exact ⟨_, h1, _, h2, _, h3, _, h4, _, h5, _, h6, _, h7, rfl⟩

def interceptionFields : List String :=
  ["enabled", "listen_addr", "upstream_addr", "upstreams", "timeout_ms", "cache_answers",
    "deny_unresolved_policy_domains", "deny_aaaa_for_policy_domains", "audit_log_queries",
    "auto_redirect_enabled"]

/-- What the members of the proxy's settings are read as; the last two only can be read. -/
structure InterceptionReads (field : String → Option Json) (dns : DnsInterceptionConfig) :
    Prop where
  enabled : withDefault false Json.asBool (field "enabled") = some dns.enabled
  listenAddr : withDefault "127.0.0.1:5533" Json.asStr (field "listen_addr") = some dns.listenAddr
  upstreamAddr : withDefault "1.1.1.1:53" Json.asStr (field "upstream_addr") =
    some dns.upstreamAddr
  upstreams : withDefault [] (Json.listOf Json.asStr) (field "upstreams") = some dns.upstreams
  timeoutMs : withDefault 1500 Json.asU64 (field "timeout_ms") = some dns.timeoutMs
  cacheAnswers : withDefault true Json.asBool (field "cache_answers") = some dns.cacheAnswers
  denyUnresolved : withDefault true Json.asBool (field "deny_unresolved_policy_domains") =
    some dns.denyUnresolvedPolicyDomains
  denyAaaa : withDefault true Json.asBool (field "deny_aaaa_for_policy_domains") =
    some dns.denyAaaaForPolicyDomains
  audited : ∃ b, withDefault true Json.asBool (field "audit_log_queries") = some b
  redirected : ∃ b, withDefault false Json.asBool (field "auto_redirect_enabled") = some b

theorem decodeInterception_iff (h : Reads interceptionFields json field)
    {dns : DnsInterceptionConfig} :
    DnsInterceptionConfig.decode json = some dns ↔ InterceptionReads field dns := by
  have hfields : json.fields ["enabled", "listen_addr", "upstream_addr", "upstreams",
      "timeout_ms", "cache_answers", "deny_unresolved_policy_domains",
      "deny_aaaa_for_policy_domains", "audit_log_queries", "auto_redirect_enabled"] 0 =
        some field := h.2
  unfold DnsInterceptionConfig.decode
  rw [hfields]
  simp only [Option.bind_eq_bind, Option.bind_some, Option.bind_eq_some_iff]
  constructor
  · rintro ⟨_, h1, _, h2, _, h3, _, h4, _, h5, _, h6, _, h7, _, h8, b, h9, b', h10, hdns⟩
    cases hdns
    exact ⟨h1, h2, h3, h4, h5, h6, h7, h8, ⟨b, h9⟩, ⟨b', h10⟩⟩
  · rintro ⟨h1, h2, h3, h4, h5, h6, h7, h8, ⟨b, h9⟩, ⟨b', h10⟩⟩
    exact ⟨_, h1, _, h2, _, h3, _, h4, _, h5, _, h6, _, h7, _, h8, b, h9, b', h10, rfl⟩

end Settings

/-! ### The edits of the settings -/

section Edits

variable {json out : Json} {cache : DnsCacheConfig} {dns : DnsInterceptionConfig}
  {upstream : String} {upstreams : List String}

/-- Unresolved domains fail closed. -/
def DnsCacheConfig.closed (cache : DnsCacheConfig) : DnsCacheConfig :=
  { cache with
    failClosedUnresolved := true
    unresolvedDomainMode := "hard_fail_closed_dns_required"
    dnsInterceptionEnabled := true }

theorem exists_cacheReads (hobj : json.IsObj) (h : DnsCacheConfig.decode json = some cache) :
    ∃ field, Reads cacheFields json field ∧ CacheReads field cache := by
  obtain ⟨field, hfield, -⟩ := Option.bind_eq_some_iff.mp h
  have hreads : Reads cacheFields json field := ⟨hobj, hfield⟩
  exact ⟨field, hreads, (decodeCache_iff hreads).mp h⟩

theorem decode_closeCache (h : DnsCacheConfig.decode json = some cache)
    (hedit : closeCache json = .ok out) : DnsCacheConfig.decode out = some cache.closed := by
  obtain ⟨first, hfirst, hedit⟩ := except_bind_eq_ok.mp hedit
  obtain ⟨field, hreads, hcache⟩ := exists_cacheReads (setItem_eq_ok.mp hfirst).1 h
  obtain ⟨second, hsecond, hedit⟩ := except_bind_eq_ok.mp hedit
  refine (decodeCache_iff (((hreads.setItem hfirst).setItem hsecond).setItem hedit)).mpr ?_
  exact ⟨hcache.enabled, hcache.path, hcache.ttlSec, hcache.staleGraceSec, rfl, rfl, rfl⟩

theorem decode_cacheEnabled (h : DnsCacheConfig.decode json = some cache)
    (hedit : setItem json "enabled" (.bool true) = .ok out) :
    DnsCacheConfig.decode out = some { cache with enabled := true } := by
  obtain ⟨field, hreads, hcache⟩ := exists_cacheReads (setItem_eq_ok.mp hedit).1 h
  refine (decodeCache_iff (hreads.setItem hedit)).mpr ?_
  exact ⟨rfl, hcache.path, hcache.ttlSec, hcache.staleGraceSec, hcache.failClosedUnresolved,
    hcache.unresolvedDomainMode, hcache.dnsInterceptionEnabled⟩

theorem exists_interceptionReads (hobj : json.IsObj)
    (h : DnsInterceptionConfig.decode json = some dns) :
    ∃ field, Reads interceptionFields json field ∧ InterceptionReads field dns := by
  obtain ⟨field, hfield, -⟩ := Option.bind_eq_some_iff.mp h
  have hreads : Reads interceptionFields json field := ⟨hobj, hfield⟩
  exact ⟨field, hreads, (decodeInterception_iff hreads).mp h⟩

theorem listOf_strings (l : List String) : Json.listOf Json.asStr (.arr (l.map .str)) = some l := by
  refine listOf_arr.mpr ?_
  rw [List.forall₂_map_left_iff]
  exact List.forall₂_same.mpr fun _ _ => rfl

/-- The single upstream and the list of all are replaced together. -/
theorem reads_setUpstreams {field : String → Option Json}
    (hreads : Reads interceptionFields json field)
    (hdns : InterceptionReads field dns) (hedit : setUpstreams upstream upstreams json = .ok out) :
    ∃ field', Reads interceptionFields out field' ∧
      InterceptionReads field' { dns with
        upstreamAddr := upstream
        upstreams := distinctUpstreams upstream upstreams } := by
  obtain ⟨first, hfirst, hedit⟩ := except_bind_eq_ok.mp hedit
  refine ⟨_, (hreads.setItem hfirst).setItem hedit, ?_⟩
  exact ⟨hdns.enabled, hdns.listenAddr, rfl, listOf_strings _, hdns.timeoutMs, hdns.cacheAnswers,
    hdns.denyUnresolved, hdns.denyAaaa, hdns.audited, hdns.redirected⟩

/-- The proxy on its own port; its flags stay what they were. -/
def DnsInterceptionConfig.onOwnPort (dns : DnsInterceptionConfig) (upstream : String)
    (upstreams : List String) : DnsInterceptionConfig :=
  { dns with
    enabled := true
    listenAddr := "127.0.0.1:5533"
    upstreamAddr := upstream
    upstreams := distinctUpstreams upstream upstreams }

theorem decode_interceptLocally (h : DnsInterceptionConfig.decode json = some dns)
    (hedit : interceptLocally upstream upstreams json = .ok out) :
    DnsInterceptionConfig.decode out = some (dns.onOwnPort upstream upstreams) := by
  obtain ⟨json1, h1, hedit⟩ := except_bind_eq_ok.mp hedit
  obtain ⟨field, hreads, hdns⟩ := exists_interceptionReads (setItem_eq_ok.mp h1).1 h
  have hdns1 : InterceptionReads (withField "listen_addr" (.str "127.0.0.1:5533") field)
      { dns with listenAddr := "127.0.0.1:5533" } :=
    ⟨hdns.enabled, rfl, hdns.upstreamAddr, hdns.upstreams, hdns.timeoutMs, hdns.cacheAnswers,
      hdns.denyUnresolved, hdns.denyAaaa, hdns.audited, hdns.redirected⟩
  obtain ⟨json2, h2, hedit⟩ := except_bind_eq_ok.mp hedit
  obtain ⟨field2, hreads2, hdns2⟩ := reads_setUpstreams (hreads.setItem h1) hdns1 h2
  obtain ⟨json3, h3, hedit⟩ := except_bind_eq_ok.mp hedit
  obtain ⟨json4, h4, hedit⟩ := except_bind_eq_ok.mp hedit
  obtain ⟨json5, h5, hedit⟩ := except_bind_eq_ok.mp hedit
  obtain ⟨json6, h6, hedit⟩ := except_bind_eq_ok.mp hedit
  obtain ⟨json7, h7, hedit⟩ := except_bind_eq_ok.mp hedit
  obtain ⟨json8, h8, hedit⟩ := except_bind_eq_ok.mp hedit
  obtain ⟨audited, haudited⟩ := hdns2.audited
  refine (decodeInterception_iff (((((((hreads2.setDefault h3).setItem h4).setDefault h5).setDefault
    h6).setDefault h7).setDefault h8).setItem hedit)).mpr ?_
  exact ⟨rfl, hdns2.listenAddr, hdns2.upstreamAddr, hdns2.upstreams,
    (withDefault_getD (by decide) _).trans hdns2.timeoutMs,
    (flag_getD _).trans hdns2.cacheAnswers,
    (flag_getD _).trans hdns2.denyUnresolved,
    (flag_getD _).trans hdns2.denyAaaa,
    ⟨audited, (flag_getD _).trans haudited⟩, ⟨_, rfl⟩⟩

/-- The upstreams after they were kept: the single one may come to be listed. -/
def KeptUpstreams (dns : DnsInterceptionConfig) (upstreams : List String) : Prop :=
  upstreams = dns.upstreams ∨ dns.upstreams = [] ∧ upstreams = [dns.upstreamAddr]

theorem eq_nil_of_not_truthy {member : Option Json} {l : List String}
    (hread : withDefault [] (Json.listOf Json.asStr) member = some l)
    (h : truthy member = false) : l = [] := by
  cases member with
  | none => exact (Option.some.inj hread).symm
  | some json =>
      obtain ⟨items, rfl, hitems⟩ := listOf_eq_some hread
      cases items with
      | nil => exact List.forall₂_nil_left_iff.mp hitems
      | cons item items => cases h

theorem reads_keepUpstreams {field : String → Option Json}
    (hreads : Reads interceptionFields json field)
    (hdns : InterceptionReads field dns) (hedit : keepUpstreams json = .ok out) :
    ∃ field' upstreams, Reads interceptionFields out field' ∧ KeptUpstreams dns upstreams ∧
      InterceptionReads field' { dns with upstreams := upstreams } := by
  have hsame : out = json → ∃ field' upstreams, Reads interceptionFields out field' ∧
      KeptUpstreams dns upstreams ∧ InterceptionReads field' { dns with upstreams := upstreams } := by
    rintro rfl
    exact ⟨field, dns.upstreams, hreads, Or.inl rfl, hdns⟩
  obtain ⟨member, hmember, hedit⟩ := except_bind_eq_ok.mp hedit
  obtain ⟨-, rfl⟩ := get_eq_ok.mp hmember
  rw [hreads.get] at hedit
  cases haddr : field "upstream_addr" with
  | none =>
      rw [haddr] at hedit
      exact hsame (Except.ok.inj hedit).symm
  | some addr =>
      rw [haddr] at hedit
      dsimp only at hedit
      by_cases htruthy : truthy (some addr) = true
      swap
      · rw [if_pos htruthy] at hedit
        exact hsame (Except.ok.inj hedit).symm
      rw [if_neg (not_not.mpr htruthy)] at hedit
      obtain ⟨listed, hlisted, hedit⟩ := except_bind_eq_ok.mp hedit
      obtain ⟨-, rfl⟩ := get_eq_ok.mp hlisted
      rw [hreads.get] at hedit
      split_ifs at hedit with hfilled
      · exact hsame (Except.ok.inj hedit).symm
      have hnone : dns.upstreams = [] :=
        eq_nil_of_not_truthy hdns.upstreams (by simpa using hfilled)
      have hsingle : Json.asStr addr = some dns.upstreamAddr := by
        have hread := hdns.upstreamAddr
        rwa [haddr] at hread
      refine ⟨_, [dns.upstreamAddr], hreads.setItem hedit, Or.inr ⟨hnone, rfl⟩, ?_⟩
      refine ⟨hdns.enabled, hdns.listenAddr, hdns.upstreamAddr, ?_, hdns.timeoutMs,
        hdns.cacheAnswers, hdns.denyUnresolved, hdns.denyAaaa, hdns.audited, hdns.redirected⟩
      exact listOf_arr.mpr (.cons hsingle .nil)

/-- The proxy on the port of the host's resolver, refusing what it cannot resolve. -/
def DnsInterceptionConfig.forHost (dns : DnsInterceptionConfig) : DnsInterceptionConfig :=
  { dns with
    enabled := true
    listenAddr := "127.0.0.1:53"
    cacheAnswers := true
    denyUnresolvedPolicyDomains := true
    denyAaaaForPolicyDomains := true }

/-- What the script takes for the upstreams: those it was given, or the old ones. -/
def Upstreams (upstream : String) (upstreams : List String) (dns dns' : DnsInterceptionConfig) :
    Prop :=
  if upstream ≠ "keep" then
    dns' = { dns with
      upstreamAddr := upstream
      upstreams := distinctUpstreams upstream upstreams }
  else ∃ kept, KeptUpstreams dns kept ∧ dns' = { dns with upstreams := kept }

theorem decode_interceptForHost (h : DnsInterceptionConfig.decode json = some dns)
    (hedit : interceptForHost upstream upstreams json = .ok out) :
    ∃ dns', Upstreams upstream upstreams dns dns' ∧
      DnsInterceptionConfig.decode out = some dns'.forHost := by
  obtain ⟨json1, h1, hedit⟩ := except_bind_eq_ok.mp hedit
  obtain ⟨field, hreads, hdns⟩ := exists_interceptionReads (setItem_eq_ok.mp h1).1 h
  obtain ⟨json2, h2, hedit⟩ := except_bind_eq_ok.mp hedit
  have hreads2 := (hreads.setItem h1).setItem h2
  obtain ⟨json3, h3, hedit⟩ := except_bind_eq_ok.mp hedit
  obtain ⟨field3, dns', hreads3, hups, hdns3⟩ : ∃ field3 dns',
      Reads interceptionFields json3 field3 ∧ Upstreams upstream upstreams dns dns' ∧
        InterceptionReads field3 { dns' with enabled := true, listenAddr := "127.0.0.1:53" } := by
    have hdns2 : InterceptionReads (withField "listen_addr" (.str "127.0.0.1:53")
        (withField "enabled" (.bool true) field))
        { dns with enabled := true, listenAddr := "127.0.0.1:53" } :=
      ⟨rfl, rfl, hdns.upstreamAddr, hdns.upstreams, hdns.timeoutMs, hdns.cacheAnswers,
        hdns.denyUnresolved, hdns.denyAaaa, hdns.audited, hdns.redirected⟩
    unfold takeUpstreams at h3
    split_ifs at h3 with hkeep
    · obtain ⟨field3, hreads3, hdns3⟩ := reads_setUpstreams hreads2 hdns2 h3
      exact ⟨field3, _, hreads3, Eq.mpr (if_pos hkeep) rfl, hdns3⟩
    · obtain ⟨field3, kept, hreads3, hkept, hdns3⟩ := reads_keepUpstreams hreads2 hdns2 h3
      exact ⟨field3, _, hreads3, Eq.mpr (if_neg hkeep) ⟨kept, hkept, rfl⟩, hdns3⟩
  obtain ⟨json4, h4, hedit⟩ := except_bind_eq_ok.mp hedit
  obtain ⟨json5, h5, hedit⟩ := except_bind_eq_ok.mp hedit
  obtain ⟨json6, h6, hedit⟩ := except_bind_eq_ok.mp hedit
  refine ⟨dns', hups, (decodeInterception_iff
    ((((hreads3.setItem h4).setItem h5).setItem h6).setItem hedit)).mpr ?_⟩
  exact ⟨hdns3.enabled, hdns3.listenAddr, hdns3.upstreamAddr, hdns3.upstreams, hdns3.timeoutMs,
    rfl, rfl, rfl, hdns3.audited, ⟨_, rfl⟩⟩

end Edits

/-! ### The configuration around them -/

section Configs

variable {value out : Json} {cfg : Config}

/-- The members of the two DNS settings, a missing one being as good as an empty one. -/
theorem settings_of_decode (hobj : value.IsObj) (h : Config.decode value = some cfg) :
    DnsCacheConfig.decode ((value.get "dns_cache").getD (.obj [])) = some cfg.dnsCache ∧
      DnsInterceptionConfig.decode ((value.get "dns_interception").getD (.obj [])) =
        some cfg.dnsInterception := by
  obtain ⟨members, rfl⟩ := hobj
  unfold Config.decode at h
  simp only [Option.bind_eq_bind, Option.bind_eq_some_iff] at h
  obtain ⟨field, hfield, _, -, _, -, _, -, cache, hcache, proxy, hproxy, _, -, _, -, _, -, h⟩ := h
  rw [Json.fields_obj hfield] at hcache hproxy
  cases h
  constructor
  · have hempty : DnsCacheConfig.decode (.obj []) = some {} := rfl
    exact (withDefault_getD hempty _).trans hcache
  · have hempty : DnsInterceptionConfig.decode (.obj []) = some {} := rfl
    exact (withDefault_getD hempty _).trans hproxy

theorem decode_setDnsCache (hobj : value.IsObj) (h : Config.decode value = some cfg)
    {json : Json} {cache : DnsCacheConfig} (hcache : DnsCacheConfig.decode json = some cache) :
    Config.decode (value.set "dns_cache" json) = some { cfg with dnsCache := cache } := by
  obtain ⟨members, rfl⟩ := hobj
  unfold Config.decode at h ⊢
  simp only [Option.bind_eq_bind, Option.bind_eq_some_iff] at h
  obtain ⟨field, hfield, version, hversion, runtime, hruntime, nft, hnft, _, -, proxy, hproxy,
    underlay, hunderlay, egresses, hegresses, policies, hpolicies, h⟩ := h
  cases h
  have hread : withDefault {} DnsCacheConfig.decode (some json) = some cache := hcache
  rw [Json.fields_set hfield]
  simp only [Option.bind_eq_bind, Option.bind_some, String.reduceEq, if_true, if_false, hversion,
    hruntime, hnft, hread, hproxy, hunderlay, hegresses, hpolicies]

theorem decode_setInterception (hobj : value.IsObj) (h : Config.decode value = some cfg)
    {json : Json} {dns : DnsInterceptionConfig}
    (hdns : DnsInterceptionConfig.decode json = some dns) :
    Config.decode (value.set "dns_interception" json) =
      some { cfg with dnsInterception := dns } := by
  obtain ⟨members, rfl⟩ := hobj
  unfold Config.decode at h ⊢
  simp only [Option.bind_eq_bind, Option.bind_eq_some_iff] at h
  obtain ⟨field, hfield, version, hversion, runtime, hruntime, nft, hnft, cache, hcache, _, -,
    underlay, hunderlay, egresses, hegresses, policies, hpolicies, h⟩ := h
  cases h
  have hread : withDefault {} DnsInterceptionConfig.decode (some json) = some dns := hdns
  rw [Json.fields_set hfield]
  simp only [Option.bind_eq_bind, Option.bind_some, String.reduceEq, if_true, if_false, hversion,
    hruntime, hnft, hcache, hread, hunderlay, hegresses, hpolicies]

theorem editMember_eq_ok {key : String} {edit : Json → Except EditError Json}
    (h : editMember key edit value = .ok out) : value.IsObj ∧
      ∃ member, edit ((value.get key).getD (.obj [])) = .ok member ∧ out = value.set key member := by
  obtain ⟨old, hold, h⟩ := except_bind_eq_ok.mp h
  obtain ⟨hobj, rfl⟩ := get_eq_ok.mp hold
  obtain ⟨member, hmember, h⟩ := except_bind_eq_ok.mp h
  exact ⟨hobj, member, hmember, (setItem_eq_ok.mp h).2⟩

theorem decode_enableApply (h : Config.decode value = some cfg) (hedit : enableApply value = .ok out) :
    Config.decode out = some { cfg with runtime := { cfg.runtime with dryRun := false } } := by
  obtain ⟨hobj, member, hmember, rfl⟩ := editMember_eq_ok hedit
  obtain ⟨hruntime, rfl⟩ := setItem_eq_ok.mp hmember
  exact decode_setDryRun hobj h hruntime false

theorem decode_enableDnsInterception {upstreamArg : String} {detected : List String}
    (h : Config.decode value = some cfg)
    (hedit : enableDnsInterception upstreamArg detected value = .ok out) :
    Config.decode out = some { cfg with
      dnsCache := cfg.dnsCache.closed
      dnsInterception := cfg.dnsInterception.onOwnPort
        (interceptionUpstreams upstreamArg detected).1
        (interceptionUpstreams upstreamArg detected).2 } := by
  obtain ⟨mid, hmid, hedit⟩ := except_bind_eq_ok.mp hedit
  obtain ⟨hobj, cache, hcache, rfl⟩ := editMember_eq_ok hmid
  have hclosed := decode_setDnsCache hobj h
    (decode_closeCache (settings_of_decode hobj h).1 hcache)
  obtain ⟨hobj', dns, hdns, rfl⟩ := editMember_eq_ok hedit
  exact decode_setInterception hobj' hclosed
    (decode_interceptLocally (settings_of_decode hobj' hclosed).2 hdns)

theorem decode_enableHostDns {upstreamArg : String} {detected : List String}
    (h : Config.decode value = some cfg)
    (hedit : enableHostDns upstreamArg detected value = .ok out) :
    ∃ dns, Upstreams (hostDnsUpstreams upstreamArg detected).1
        (hostDnsUpstreams upstreamArg detected).2 cfg.dnsInterception dns ∧
      Config.decode out = some { cfg with
        dnsCache := { cfg.dnsCache with enabled := true }.closed
        dnsInterception := dns.forHost } := by
  obtain ⟨mid, hmid, hedit⟩ := except_bind_eq_ok.mp hedit
  obtain ⟨hobj, proxy, hproxy, rfl⟩ := editMember_eq_ok hmid
  obtain ⟨dns, hups, hdns⟩ := decode_interceptForHost (settings_of_decode hobj h).2 hproxy
  have hserved := decode_setInterception hobj h hdns
  obtain ⟨hobj', cache, hcache, rfl⟩ := editMember_eq_ok hedit
  obtain ⟨enabled, henabled, hclosed⟩ := except_bind_eq_ok.mp hcache
  refine ⟨dns, hups, decode_setDnsCache hobj' hserved (decode_closeCache ?_ hclosed)⟩
  exact decode_cacheEnabled (settings_of_decode hobj' hserved).1 henabled

end Configs

/-! ### disable-wg-policy.sh -/

section DisableWg

variable {iface : String} {value out item item' : Json} {cfg : Config}

def disabledFlag (iface : String) (egress : EgressInterface) : Bool :=
  if egress.name = iface then false else egress.enabled

def Policy.disabledFor (iface : String) (policy : Policy) : Policy :=
  { policy with enabled := if policy.action.egress = iface then false else policy.enabled }

theorem decode_disableNamed {egress : EgressInterface}
    (h : EgressInterface.decode item = some egress) (hedit : disableNamed iface item = .ok item') :
    EgressInterface.decode item' = some (egress.flagged (disabledFlag iface)) := by
  obtain ⟨name, hname, hedit⟩ := except_bind_eq_ok.mp hedit
  obtain ⟨hobj, rfl⟩ := get_eq_ok.mp hname
  rw [isText_name hobj h] at hedit
  by_cases hsame : egress.name = iface
  · rw [if_pos (decide_eq_true hsame)] at hedit
    obtain ⟨-, rfl⟩ := setItem_eq_ok.mp hedit
    rw [decode_setEgressEnabled hobj h, EgressInterface.flagged, disabledFlag, if_pos hsame]
  · rw [if_neg (by simpa using hsame)] at hedit
    rw [← Except.ok.inj hedit, h, EgressInterface.flagged, disabledFlag, if_neg hsame]

theorem decode_disableRouted {policy : Policy} (h : Policy.decode item = some policy)
    (hedit : disableRouted iface item = .ok item') :
    Policy.decode item' = some (policy.disabledFor iface) := by
  obtain ⟨action, haction, hedit⟩ := except_bind_eq_ok.mp hedit
  obtain ⟨hobj, rfl⟩ := get_eq_ok.mp haction
  obtain ⟨egress, hegress, hedit⟩ := except_bind_eq_ok.mp hedit
  obtain ⟨hinner, rfl⟩ := get_eq_ok.mp hegress
  rw [isText_routed hobj h hinner] at hedit
  by_cases hsame : policy.action.egress = iface
  · rw [if_pos (decide_eq_true hsame)] at hedit
    obtain ⟨-, rfl⟩ := setItem_eq_ok.mp hedit
    rw [decode_setPolicyEnabled hobj h, Policy.disabledFor, if_pos hsame]
  · rw [if_neg (by simpa using hsame)] at hedit
    rw [← Except.ok.inj hedit, h, Policy.disabledFor, if_neg hsame]

theorem decode_disableWgPolicy (h : Config.decode value = some cfg)
    (hedit : disableWgPolicy iface (.ok value) = .ok out) :
    Config.decode out = some { cfg with
      egressInterfaces := cfg.egressInterfaces.map (EgressInterface.flagged (disabledFlag iface))
      policies := cfg.policies.map (Policy.disabledFor iface) } := by
  unfold disableWgPolicy at hedit
  split_ifs at hedit
  obtain ⟨_, hloaded, hedit⟩ := except_bind_eq_ok.mp hedit
  obtain rfl := Except.ok.inj hloaded
  obtain ⟨mid, hmid, hedit⟩ := except_bind_eq_ok.mp hedit
  obtain ⟨_, hmember, -⟩ := except_bind_eq_ok.mp hmid
  obtain ⟨members, rfl⟩ := (get_eq_ok.mp hmember).1
  obtain ⟨items, hitems, hegresses⟩ := Config.egressItems_of_decode h
  obtain ⟨items', hmap, rfl⟩ := editElements_eq_ok hitems hmid
  have hparsed := decode_setEgressItems ⟨members, rfl⟩ h
    (decodes_editedIn hegresses hmap fun _ _ _ => decode_disableNamed)
  obtain ⟨hpolicyItems, hpolicies⟩ := policyItems_of_decode ⟨members, rfl⟩ h
  obtain ⟨policies', hpolicyMap, rfl⟩ := editElements_eq_ok
    ((Json.get_set_of_ne _ (by decide)).trans hpolicyItems) hedit
  exact decode_setPolicies (Json.IsObj.set ⟨members, rfl⟩) hparsed
    (decodes_editedIn hpolicies hpolicyMap fun _ _ _ => decode_disableRouted)

theorem policyKeys_disabledFor (policy : Policy) : policyKeys (policy.disabledFor iface) =
    if decide (policy.action.egress ≠ iface) then policyKeys policy else [] := by
  unfold policyKeys Policy.disabledFor
  by_cases hsame : policy.action.egress = iface
  · simp [hsame]
  · simp [hsame]

/-- Fewer policies are enabled, each through an egress that still is. -/
theorem validPolicies_disabledFor {egresses : List EgressInterface} {policies : List Policy}
    (h : ValidPolicies (egressNames egresses) (enabledEgressNames egresses) policies) :
    ValidPolicies (egressNames egresses)
      (enabledEgressNames (egresses.map (EgressInterface.flagged (disabledFlag iface))))
      (policies.map (Policy.disabledFor iface)) where
  each p hp := by
    obtain ⟨policy, hmem, rfl⟩ := List.mem_map.mp hp
    obtain ⟨hnamed, hdomain, hknown, henabled, hmatch⟩ := h.each policy hmem
    refine ⟨hnamed, hdomain, hknown, fun hon => mem_enabledEgressNames_flagged.mpr ?_, hmatch⟩
    change (if policy.action.egress = iface then false else policy.enabled) = true at hon
    split_ifs at hon with hsame
    obtain ⟨egress, he, hegress, hname⟩ := mem_enabledEgressNames.mp (henabled hon)
    exact ⟨egress, he, by rw [disabledFlag, if_neg (hname ▸ hsame), hegress], hname⟩
  ids := by
    rw [List.map_map]
    exact h.ids
  keys := by
    rw [List.flatMap_map, List.flatMap_congr fun policy _ => policyKeys_disabledFor policy,
      flatMap_ite]
    exact h.keys.sublist (List.filter_sublist.flatMap _)

end DisableWg

/-! ### Any number of edits -/

section Edits

variable {edit : SettingsEdit} {value value' : Json} {cfg cfg' : Config}

/-- What a script makes of a configuration. -/
def SettingsEdit.Changes (cfg cfg' : Config) : SettingsEdit → Prop
  | .enableApply => cfg' = { cfg with runtime := { cfg.runtime with dryRun := false } }
  | .enableDnsInterception upstreamArg detected =>
    cfg' = { cfg with
      dnsCache := cfg.dnsCache.closed
      dnsInterception := cfg.dnsInterception.onOwnPort
        (interceptionUpstreams upstreamArg detected).1
        (interceptionUpstreams upstreamArg detected).2 }
  | .enableHostDns upstreamArg detected =>
    ∃ dns, Upstreams (hostDnsUpstreams upstreamArg detected).1
        (hostDnsUpstreams upstreamArg detected).2 cfg.dnsInterception dns ∧
      cfg' = { cfg with
        dnsCache := { cfg.dnsCache with enabled := true }.closed
        dnsInterception := dns.forHost }
  | .disableWgPolicy iface =>
    cfg' = { cfg with
      egressInterfaces := cfg.egressInterfaces.map (EgressInterface.flagged (disabledFlag iface))
      policies := cfg.policies.map (Policy.disabledFor iface) }

theorem decode_edited (hdecode : Config.decode value = some cfg)
    (h : edit.apply (.ok value) = .ok value') :
    ∃ cfg', edit.Changes cfg cfg' ∧ Config.decode value' = some cfg' := by
  cases edit with
  | enableApply => exact ⟨_, rfl, decode_enableApply hdecode h⟩
  | enableDnsInterception upstreamArg detected =>
      exact ⟨_, rfl, decode_enableDnsInterception hdecode h⟩
  | enableHostDns upstreamArg detected =>
      obtain ⟨dns, hups, hwritten⟩ := decode_enableHostDns hdecode h
      exact ⟨_, ⟨dns, hups, rfl⟩, hwritten⟩
  | disableWgPolicy iface => exact ⟨_, rfl, decode_disableWgPolicy hdecode h⟩

/-- The cache and the proxy with settings that a script writes. -/
theorem ValidSettings.closed (h : ValidSettings cfg) {cache : DnsCacheConfig}
    {dns : DnsInterceptionConfig} (hpath : cache.path = cfg.dnsCache.path)
    (httl : cache.ttlSec = cfg.dnsCache.ttlSec)
    (htimeout : dns.timeoutMs = cfg.dnsInterception.timeoutMs)
    (hlisten : (SocketAddr.parse dns.listenAddr).isSome = true) (henabled : dns.enabled = true) :
    ValidSettings { cfg with dnsCache := cache.closed, dnsInterception := dns } where
  version := h.version
  intervalSec := h.intervalSec
  ttlSec := fun hzero => h.ttlSec (httl.symm.trans hzero)
  path := by
    change trimmedEmpty cache.path = false
    rw [hpath]
    exact h.path
  timeoutMs := fun hzero => h.timeoutMs (htimeout.symm.trans hzero)
  listenAddr := hlisten
  mode := by
    change String.ofList (trim "hard_fail_closed_dns_required".toList) ∈ allowedUnresolvedModes
    decide
  hardMode _ := ⟨rfl, henabled⟩
  underlay := h.underlay

theorem timeoutMs_upstreams {upstream : String} {upstreams : List String}
    {dns dns' : DnsInterceptionConfig} (h : Upstreams upstream upstreams dns dns') :
    dns'.timeoutMs = dns.timeoutMs := by
  unfold Upstreams at h
  split_ifs at h
  · rw [h]
  · obtain ⟨kept, -, rfl⟩ := h
    rfl

theorem validate_changed (hvalid : cfg.validate = .ok ()) (h : edit.Changes cfg cfg') :
    cfg'.validate = .ok () := by
  obtain ⟨hsettings, hnonempty, hegresses, hpolicies⟩ := validate_eq_ok_iff.mp hvalid
  rw [validate_eq_ok_iff]
  cases edit with
  | enableApply =>
      obtain rfl := h
      exact ⟨hsettings.edited false _ _, hnonempty, hegresses, hpolicies⟩
  | enableDnsInterception upstreamArg detected =>
      obtain rfl := h
      have hlisten : (SocketAddr.parse "127.0.0.1:5533").isSome = true := by decide
      exact ⟨hsettings.closed rfl rfl rfl hlisten rfl, hnonempty, hegresses, hpolicies⟩
  | enableHostDns upstreamArg detected =>
      obtain ⟨dns, hups, rfl⟩ := h
      have hlisten : (SocketAddr.parse "127.0.0.1:53").isSome = true := by decide
      have htimeout : dns.timeoutMs = cfg.dnsInterception.timeoutMs := timeoutMs_upstreams hups
      exact ⟨hsettings.closed rfl rfl htimeout hlisten rfl, hnonempty, hegresses, hpolicies⟩
  | disableWgPolicy iface =>
      obtain rfl := h
      refine ⟨hsettings.edited cfg.runtime.dryRun _ _,
        fun hnil => hnonempty (List.map_eq_nil_iff.mp hnil), hegresses.flagged _, ?_⟩
      rw [egressNames_flagged]
      exact validPolicies_disabledFor hpolicies

/-- The egress is the same, or it is no longer enabled. -/
def EgressInterface.Lowers (egress egress' : EgressInterface) : Prop :=
  egress' = egress ∨ egress' = { egress with enabled := false }

def Policy.Lowers (policy policy' : Policy) : Prop :=
  policy' = policy ∨ policy' = { policy with enabled := false }

theorem EgressInterface.Lowers.trans {a b c : EgressInterface} (h : a.Lowers b) (h' : b.Lowers c) :
    a.Lowers c := by
  rcases h with rfl | rfl
  · exact h'
  · rcases h' with rfl | rfl
    · exact Or.inr rfl
    · exact Or.inr rfl

theorem Policy.Lowers.trans {a b c : Policy} (h : a.Lowers b) (h' : b.Lowers c) : a.Lowers c := by
  rcases h with rfl | rfl
  · exact h'
  · rcases h' with rfl | rfl
    · exact Or.inr rfl
    · exact Or.inr rfl

/-- The lists are the same but for what is no longer enabled. -/
structure OnlyDisables (cfg cfg' : Config) : Prop where
  names : cfg'.egressInterfaces.map (·.name) = cfg.egressInterfaces.map (·.name)
  ids : cfg'.policies.map (·.id) = cfg.policies.map (·.id)
  egresses : ∀ egress' ∈ cfg'.egressInterfaces, ∃ egress ∈ cfg.egressInterfaces,
    egress.Lowers egress'
  policies : ∀ policy' ∈ cfg'.policies, ∃ policy ∈ cfg.policies, policy.Lowers policy'

theorem OnlyDisables.sameLists (hegresses : cfg'.egressInterfaces = cfg.egressInterfaces)
    (hpolicies : cfg'.policies = cfg.policies) : OnlyDisables cfg cfg' where
  names := by rw [hegresses]
  ids := by rw [hpolicies]
  egresses egress' hmem := ⟨egress', hegresses ▸ hmem, Or.inl rfl⟩
  policies policy' hmem := ⟨policy', hpolicies ▸ hmem, Or.inl rfl⟩

theorem OnlyDisables.trans {mid : Config} (h : OnlyDisables cfg mid) (h' : OnlyDisables mid cfg') :
    OnlyDisables cfg cfg' where
  names := h'.names.trans h.names
  ids := h'.ids.trans h.ids
  egresses egress' hmem := by
    obtain ⟨egress, hegress, hlower⟩ := h'.egresses egress' hmem
    obtain ⟨old, hold, hlower'⟩ := h.egresses egress hegress
    exact ⟨old, hold, hlower'.trans hlower⟩
  policies policy' hmem := by
    obtain ⟨policy, hpolicy, hlower⟩ := h'.policies policy' hmem
    obtain ⟨old, hold, hlower'⟩ := h.policies policy hpolicy
    exact ⟨old, hold, hlower'.trans hlower⟩

theorem OnlyDisables.enabled (h : OnlyDisables cfg cfg') :
    ∀ policy ∈ cfg'.enabledPolicies, policy ∈ cfg.enabledPolicies := by
  intro policy hmem
  obtain ⟨hmem, hon⟩ := List.mem_filter.mp hmem
  obtain ⟨old, hold, rfl | rfl⟩ := h.policies policy hmem
  · exact List.mem_filter.mpr ⟨hold, hon⟩
  · cases hon

theorem onlyDisables_disableWg (iface : String) (cfg : Config) : OnlyDisables cfg { cfg with
    egressInterfaces := cfg.egressInterfaces.map (EgressInterface.flagged (disabledFlag iface))
    policies := cfg.policies.map (Policy.disabledFor iface) } where
  names := List.map_map
  ids := List.map_map
  egresses e he := by
    obtain ⟨egress, hmem, rfl⟩ := List.mem_map.mp he
    refine ⟨egress, hmem, ?_⟩
    by_cases hsame : egress.name = iface
    · rw [EgressInterface.flagged, disabledFlag, if_pos hsame]
      exact Or.inr rfl
    · rw [EgressInterface.flagged, disabledFlag, if_neg hsame]
      exact Or.inl rfl
  policies p hp := by
    obtain ⟨policy, hmem, rfl⟩ := List.mem_map.mp hp
    refine ⟨policy, hmem, ?_⟩
    by_cases hsame : policy.action.egress = iface
    · rw [Policy.disabledFor, if_pos hsame]
      exact Or.inr rfl
    · rw [Policy.disabledFor, if_neg hsame]
      exact Or.inl rfl

theorem onlyDisables_of_changes (h : edit.Changes cfg cfg') : OnlyDisables cfg cfg' := by
  cases edit with
  | enableApply =>
      obtain rfl := h
      exact .sameLists rfl rfl
  | enableDnsInterception upstreamArg detected =>
      obtain rfl := h
      exact .sameLists rfl rfl
  | enableHostDns upstreamArg detected =>
      obtain ⟨dns, -, rfl⟩ := h
      exact .sameLists rfl rfl
  | disableWgPolicy iface =>
      obtain rfl := h
      exact onlyDisables_disableWg iface cfg

/-- What scripts that all write make of a configuration, one after the other. -/
def ChangesAll : List SettingsEdit → Config → Config → Prop
  | [], cfg, cfg' => cfg' = cfg
  | edit :: edits, cfg, cfg' => ∃ mid, edit.Changes cfg mid ∧ ChangesAll edits mid cfg'

theorem validate_changedAll {edits : List SettingsEdit} (hvalid : cfg.validate = .ok ())
    (h : ChangesAll edits cfg cfg') : cfg'.validate = .ok () := by
  induction edits generalizing cfg with
  | nil => exact h ▸ hvalid
  | cons edit edits ih =>
      obtain ⟨mid, hfirst, hrest⟩ := h
      exact ih (validate_changed hvalid hfirst) hrest

theorem onlyDisables_of_changesAll {edits : List SettingsEdit} (h : ChangesAll edits cfg cfg') :
    OnlyDisables cfg cfg' := by
  induction edits generalizing cfg with
  | nil => exact h ▸ .sameLists rfl rfl
  | cons edit edits ih =>
      obtain ⟨mid, hfirst, hrest⟩ := h
      exact (onlyDisables_of_changes hfirst).trans (ih hrest)

/-! #### The files that are written -/

section Written

variable {numbers : Numbers} {write : ConfigWrite}

/-- The write does not break off. -/
def ConfigWrite.Whole : ConfigWrite → Prop
  | .done => True
  | .refused _ => True
  | .interrupted _ _ => False

theorem settings_loaded_of_apply (h : edit.apply (loads numbers value) = .ok value') :
    edit.apply (.ok (loaded numbers value)) = .ok value' := by
  cases hloads : loads numbers value with
  | ok out => rwa [← loads_eq_ok hloads, ← hloads]
  | error e =>
      rw [hloads] at h
      cases edit with
      | disableWgPolicy iface =>
          simp only [SettingsEdit.apply, disableWgPolicy] at h
          split_ifs at h
          cases h
      | enableApply => cases h
      | enableDnsInterception upstream detected => cases h
      | enableHostDns upstream detected => cases h

/-- What a script that goes through has made of the configuration in the file. -/
theorem decode_run (hdecode : Config.decode value = some cfg)
    (h : edit.run numbers write value = (.ok (), .json value')) :
    ∃ cfg', edit.Changes cfg cfg' ∧ Config.decode value' = some cfg' := by
  obtain ⟨out, hedit, hcontent⟩ := runEditor_eq_ok h
  obtain rfl := json_of_dumps hcontent
  exact decode_edited (decode_loaded hdecode) (settings_loaded_of_apply hedit)

/-- A script that fails without a write that breaks off leaves the file alone. -/
theorem run_of_whole (hwrite : write.Whole) :
    (∃ e, edit.run numbers write value = (.error e, .json value)) ∨
      ∃ content, edit.run numbers write value = (.ok (), content) := by
  unfold SettingsEdit.run runEditor
  cases edit.apply (loads numbers value) with
  | error e => exact Or.inl ⟨e, rfl⟩
  | ok value' =>
      cases write with
      | done => exact Or.inr ⟨dumps value', rfl⟩
      | refused cause => exact Or.inl ⟨.raised cause, rfl⟩
      | interrupted cause left => exact hwrite.elim

/-- Without an infinity in the file, there is none in what a script writes. -/
theorem finite_run {content : ConfigContent}
    (hfinite : (loaded numbers value).allNumbers isFinite = true)
    (h : edit.run numbers write value = (.ok (), content)) :
    ∃ value', content = .json value' ∧ (loaded numbers value').allNumbers isFinite = true := by
  obtain ⟨value', hedit, rfl⟩ := runEditor_eq_ok h
  have hkept : value'.allNumbers isFinite = true :=
    keeps_apply hfinite (settings_loaded_of_apply hedit)
  exact ⟨value', if_pos hkept, finite_loaded hkept⟩

/-- Without an infinity in the file, it holds a value after any scripts. -/
theorem written_of_finite {edits : List (SettingsEdit × ConfigWrite)}
    (hfinite : (loaded numbers value).allNumbers isFinite = true)
    (hwrites : ∀ run ∈ edits, run.2.Whole) : ∃ last, written numbers edits value = some last := by
  induction edits generalizing value with
  | nil => exact ⟨value, rfl⟩
  | cons run edits ih =>
      obtain ⟨edit, write⟩ := run
      obtain ⟨hwrite, hrest⟩ := List.forall_mem_cons.mp hwrites
      rcases @run_of_whole edit value numbers write hwrite with ⟨e, hrun⟩ | ⟨content, hrun⟩
      · rw [written, hrun]
        exact ih hfinite hrest
      · obtain ⟨value', rfl, hfinite'⟩ := finite_run hfinite hrun
        rw [written, hrun]
        exact ih hfinite' hrest

/-- A value that is left after some scripts has the changes of those that went through. -/
theorem changes_of_written {edits : List (SettingsEdit × ConfigWrite)} {last : Json}
    (hdecode : Config.decode value = some cfg) (hwrites : ∀ run ∈ edits, run.2.Whole)
    (h : written numbers edits value = some last) :
    ∃ cfg', Config.decode last = some cfg' ∧
      ChangesAll (succeeded numbers edits value) cfg cfg' := by
  induction edits generalizing value cfg with
  | nil => exact ⟨cfg, Option.some.inj h ▸ hdecode, rfl⟩
  | cons run edits ih =>
      obtain ⟨edit, write⟩ := run
      obtain ⟨hwrite, hrest⟩ := List.forall_mem_cons.mp hwrites
      rcases @run_of_whole edit value numbers write hwrite with ⟨e, hrun⟩ | ⟨content, hrun⟩
      · rw [written, hrun] at h
        rw [succeeded, hrun]
        exact ih hdecode hrest h
      · cases content with
        | json value' =>
            obtain ⟨mid, hfirst, hmid⟩ := decode_run hdecode hrun
            rw [written, hrun] at h
            rw [succeeded, hrun]
            obtain ⟨cfg', hlast, hchanges⟩ := ih hmid hrest h
            exact ⟨cfg', hlast, mid, hfirst, hchanges⟩
        | malformed =>
            rw [written, hrun] at h
            cases h
        | absent =>
            rw [written, hrun] at h
            cases h

end Written

/-- Whatever scripts are run on an accepted configuration without an infinity, in whatever order
and whichever of them fail, the file holds the configuration with the changes of those that went
through. It is accepted, and nothing has been enabled that was not. -/
theorem settings_keep_accepted {numbers : Numbers} (edits : List (SettingsEdit × ConfigWrite))
    (hdecode : Config.decode value = some cfg) (hvalid : cfg.validate = .ok ())
    (hfinite : (loaded numbers value).allNumbers isFinite = true)
    (hwrites : ∀ run ∈ edits, run.2.Whole) :
    ∃ last cfg', written numbers edits value = some last ∧ Config.decode last = some cfg' ∧
      ChangesAll (succeeded numbers edits value) cfg cfg' ∧ cfg'.validate = .ok () ∧
      OnlyDisables cfg cfg' := by
  obtain ⟨last, hwritten⟩ := written_of_finite hfinite hwrites
  obtain ⟨cfg', hlast, hchanges⟩ := changes_of_written hdecode hwrites hwritten
  exact ⟨last, cfg', hwritten, hlast, hchanges, validate_changedAll hvalid hchanges,
    onlyDisables_of_changesAll hchanges⟩

end Edits

/-- A WireGuard interface next to a tunnel, each with a policy. -/
def wgJson : Json :=
  .obj [("version", .num "1"), ("wifi_underlay", .obj [("interface", .str "wlan0")]),
    ("egress_interfaces", .arr [
      .obj [("name", .str "wg0"), ("kind", .str "wireguard"), ("table", .num "101"),
        ("fwmark", .num "17")],
      .obj [("name", .str "tun0"), ("kind", .str "tunnel"), ("table", .num "100"),
        ("fwmark", .num "16")]]),
    ("policies", .arr [
      .obj [("id", .str "office"), ("match", .obj [("dest_ip", .str "203.0.113.7")]),
        ("action", .obj [("egress", .str "tun0")])],
      .obj [("id", .str "branch"), ("match", .obj [("dest_ip", .str "198.51.100.9")]),
        ("action", .obj [("egress", .str "wg0")])]])]

def wgConfig : Config :=
  configOf [{ tunnel "wg0" 101 17 with kind := .wireguard }, tunnel "tun0" 100 16]
    [addressPolicy "office" "203.0.113.7" "tun0", addressPolicy "branch" "198.51.100.9" "wg0"]

theorem decode_wgJson : Config.decode wgJson = some wgConfig := by decide

theorem settings_keep_accepted_wg : ∃ last cfg',
    written plainNumbers [(.disableWgPolicy "wg 0", .done), (.disableWgPolicy "wg0", .done),
        (.enableHostDns "" [], .done)] wgJson = some last ∧
      Config.decode last = some cfg' ∧
      ChangesAll [.disableWgPolicy "wg0", .enableHostDns "" []] wgConfig cfg' ∧
      cfg'.validate = .ok () ∧ OnlyDisables wgConfig cfg' :=
  settings_keep_accepted [(.disableWgPolicy "wg 0", .done), (.disableWgPolicy "wg0", .done),
    (.enableHostDns "" [], .done)] decode_wgJson (by decide) (by decide)
    (by simp [ConfigWrite.Whole])

end EveNet
