import EveNet.UpstreamOrder
import EveNet.PolicyNames
import EveNet.CacheViews
import EveNet.RefreshedFile
import EveNet.ProxyToChain

/-!
# What the validation reports

`validate` goes beyond the checks without which the program does not start: it looks at the
policies' domains, at the cache, at the settings of the proxy and at the enabled egresses, and
prints warnings and notes. Without warnings it says `PASS`. `printValidate` is this report
printed; here is what the report says, and exactly when there is nothing to warn of.
-/

namespace EveNet

structure Report where
  warnings : List String := []
  notes : List String := []
  deriving DecidableEq

namespace Report

def warn (text : String) : Report := ⟨[text], []⟩

def note (text : String) : Report := ⟨[], [text]⟩

def append (first rest : Report) : Report :=
  ⟨first.warnings ++ rest.warnings, first.notes ++ rest.notes⟩

def result (report : Report) : String := if report.warnings = [] then "PASS" else "WARN"

theorem result_eq_pass {report : Report} : report.result = "PASS" ↔ report.warnings = [] := by
  unfold result
  split_ifs with h
  · exact ⟨fun _ => h, fun _ => rfl⟩
  · exact ⟨fun heq => absurd heq (by decide), fun hnil => absurd hnil h⟩

@[simp] theorem warnings_append (first rest : Report) :
    (first.append rest).warnings = first.warnings ++ rest.warnings := rfl

@[simp] theorem warnings_warn (text : String) : (warn text).warnings = [text] := rfl

@[simp] theorem warnings_note (text : String) : (note text).warnings = [] := rfl

theorem warnings_warnIf {b : Prop} [Decidable b] (text : String) :
    (if b then warn text else {} : Report).warnings = [] ↔ ¬ b := by
  split_ifs with h
  · simp [h]
  · simp [h]

@[simp] theorem warnings_noteIf {b : Prop} [Decidable b] (text : String) :
    (if b then note text else {} : Report).warnings = [] := by
  split_ifs
  · rfl
  · rfl

end Report

/-! ### The domains of the policies -/

/-- The policies with a domain, each under its name. -/
def namedPolicies : List Policy → Except Error (List (String × Policy))
  | [] => .ok []
  | policy :: policies =>
    match policy.matchSpec.domain with
    | none => namedPolicies policies
    | some domain => do
      let name ← normalizeDomain domain
      let named ← namedPolicies policies
      .ok ((name, policy) :: named)

/-- The ids of the policies under each name, in the order of the names. -/
def idsByName (named : List (String × Policy)) : List (String × List String) :=
  (uniqueSorted (named.map Prod.fst)).map (fun name =>
    (name, (named.filter (fun p => p.1 = name)).map (fun p => p.2.id)))

def duplicateWarning (group : String × List String) : Option String :=
  if 1 < group.2.length then
    some ("duplicate enabled domain policies for " ++ group.1 ++ ": " ++
      ", ".intercalate group.2 ++ ". Only one active policy per domain is safe.")
  else none

def multipleWarning (group : String × List String) : Option String :=
  if 1 < group.2.length then
    some ("multiple domain policy definitions for " ++ group.1 ++ ": " ++
      ", ".intercalate group.2 ++ ". Keep templates disabled or remove dead duplicates.")
  else none

def domainPolicyCollisions (cfg : Config) : Except Error (List String) := do
  let named ← namedPolicies cfg.policies
  .ok ((idsByName (named.filter (fun p => p.2.enabled))).filterMap duplicateWarning ++
    (idsByName named).filterMap multipleWarning)

/-! ### Unresolved domains -/

def hasEnabledDomainPolicy (cfg : Config) : Bool :=
  cfg.policies.any (fun policy => policy.enabled && policy.matchSpec.domain.isSome)

def unresolvedModeReport (cfg : Config) : Report :=
  if unresolvedMode cfg = "soft_fail_closed_l3" then
    .note ("domain unresolved mode is soft_fail_closed_l3: eve-net skips nft route rules for " ++
      "unresolved domains, but cannot hard-block future DNS answers without DNS interception")
  else if unresolvedMode cfg = "allow_stale" then
    .note ("domain unresolved mode is allow_stale: stale cached IPs may be used during " ++
      "stale_grace_sec after live DNS failure")
  else if unresolvedMode cfg = "hard_fail_closed_dns_required" then
    if cfg.dnsCache.dnsInterceptionEnabled then
      .note ("hard_fail_closed_dns_required requested and dns_interception_enabled=true; " ++
        "ensure a DNS deny/proxy layer is actually installed")
    else
      .warn "hard_fail_closed_dns_required requested but dns_interception_enabled=false"
  else .warn ("unsupported dns_cache.unresolved_domain_mode=" ++ unresolvedMode cfg)

def failClosedSemantics (cfg : Config) : Report :=
  if ¬ hasEnabledDomainPolicy cfg then {}
  else (unresolvedModeReport cfg).append
    (if cfg.dnsCache.failClosedUnresolved ∧ ¬ cfg.dnsCache.dnsInterceptionEnabled then
      .note ("dns_cache.fail_closed_unresolved=true currently means L3 soft fail-closed only; " ++
        "true hard fail-closed for domains requires DNS interception")
    else {})

/-! ### The cache -/

/-- The text of a warning about the cache file at the path. -/
def CacheWarning.text (path : String) : CacheWarning → String
  | .disabled => "enabled domain policies exist, but dns_cache.enabled=false"
  | .unreadable err =>
    "cannot read DNS cache at " ++ path ++ ": " ++ err.headD "" ++
      "; run validate with sudo or fix cache permissions"
  | .zeroAddresses domain => "domain " ++ domain ++ " has cache entry with zero IPv4 addresses"
  | .stale domain age =>
    "domain " ++ domain ++ " cache is STALE by " ++ toString age ++
      "s; run dns-refresh or wait for eve-net-dns-refresh.timer"
  | .lastError domain err => "domain " ++ domain ++ " cache has last_error: " ++ err
  | .missing domain =>
    "domain " ++ domain ++ " is enabled but missing from DNS cache; run dns-refresh --apply"

/-! ### The proxy -/

/-- What is said of the upstreams of an enabled proxy. -/
def upstreamsReport (dns : DnsInterceptionConfig) : Report :=
  match dns.effectiveUpstreams with
  | [] => .warn "dns_interception.enabled=true but no valid DNS upstream is configured"
  | [_] => .note "dns_interception has only one valid upstream; failover is not active"
  | primary :: fallbacks =>
    .note ("dns_interception upstream failover active: primary=" ++ primary.display ++
      ", fallback_count=" ++ toString fallbacks.length)

/-- `autoRedirect` is the flag of the configuration that nothing else reads. -/
def interceptionReport (cfg : Config) (autoRedirect : Bool) : Report :=
  let dns := cfg.dnsInterception
  let malformed : Report := ⟨dns.malformedUpstreamEntries.map
    ("dns_interception upstream entry is malformed and will be ignored: " ++ ·), []⟩
  if ¬ dns.enabled then
    malformed.append (.note ("dns_interception.enabled=false: DNS proxy is installed but " ++
      "disabled by default; this is the safe v0.10 posture"))
  else
    malformed.append <|
    (Report.note ("dns_interception.enabled=true: local DNS proxy will listen on " ++
      dns.listenAddr ++ " and forward to " ++ toString dns.effectiveUpstreams.length ++
      " upstream(s)")).append <|
    (if dns.upstreams = [] ∧ trimmedEmpty dns.upstreamAddr then
      Report.warn ("dns_interception.enabled=true but dns_interception.upstreams is empty and " ++
        "upstream_addr is missing")
    else {}).append <|
    (upstreamsReport dns).append <|
    (if ¬ cfg.dnsCache.dnsInterceptionEnabled then
      Report.warn ("dns_interception.enabled=true but dns_cache.dns_interception_enabled=false; " ++
        "hard fail-closed semantics are not fully declared")
    else {}).append <|
    (if cfg.dnsCache.unresolvedDomainMode ≠ "hard_fail_closed_dns_required" then
      Report.note ("dns_interception is enabled but unresolved_domain_mode=" ++
        cfg.dnsCache.unresolvedDomainMode ++
        " ; strict hard fail-closed uses hard_fail_closed_dns_required")
    else {}).append <|
    if autoRedirect then
      Report.warn ("dns_interception.auto_redirect_enabled=true is only a declaration in v0.10; " ++
        "host-wide DNS redirect is not installed automatically")
    else {}

/-! ### The egresses -/

def displayOpt (value : Option String) : String := (nonBlank value).getD "none"

/-- What is said of a direct egress whose link is up. -/
def driftReport (egress : EgressInterface) : Except Error DirectEgressRuntimeState → Report
  | .error err =>
    .note ("direct egress " ++ egress.name ++ " runtime drift check unavailable: " ++ err.headD "")
  | .ok state =>
    let drift := state.drift egress.gateway egress.sourceIp
    if drift.isDrift then
      .warn ("direct egress " ++ egress.name ++ " has " ++ drift.asStr ++
        ": configured gateway/source_ip=" ++ displayOpt egress.gateway ++ "/" ++
        displayOpt egress.sourceIp ++ " runtime gateway/source_ip=" ++
        displayOpt state.runtimeGateway ++ "/" ++ displayOpt state.runtimeSourceIp ++
        "; run refresh-direct-egress --apply or keep runtime.auto_refresh_direct_egress=true")
    else if drift ≠ .ok then
      .warn ("direct egress " ++ egress.name ++ " runtime state incomplete: " ++ drift.asStr)
    else {}

/-- What is said of the link of any other egress, or of one that is not up. -/
def linkReport (egress : EgressInterface) (state : String) : Report :=
  match egress.kind with
  | .direct =>
    .warn ("direct egress " ++ egress.name ++ " state is " ++ state ++ "; expected up")
  | .tunnel =>
    if state = "unknown" then
      .note ("tunnel egress " ++ egress.name ++
        " reports operstate=unknown; this is normal for many tun devices")
    else {}
  | .wireguard =>
    if state = "unknown" then
      .note ("wireguard egress " ++ egress.name ++
        " reports operstate=unknown; verify with wg show")
    else {}

def egressReport (egress : EgressInterface) : NetProgram Report := do
  if ← interfaceExists egress.name then do
    let raw ← Program.ask (I := netInterface) (.operstate egress.name)
    let state := (raw.map trimmed).getD "unknown"
    if egress.kind = .direct ∧ state = "up" then do
      let inspected ← Program.attempt (δ := Error) (inspectDirectEgress egress.name)
      pure (driftReport egress inspected)
    else pure (linkReport egress state)
  else pure (.warn ("enabled egress " ++ egress.name ++ " is missing from /sys/class/net"))

def egressReports : List EgressInterface → NetProgram Report
  | [] => .pure {}
  | egress :: egresses => do
    let first ← egressReport egress
    let rest ← egressReports egresses
    pure (first.append rest)

/-! ### The whole report -/

def validateReport (cfg : Config) (autoRedirect : Bool) : MachineProgram Report := do
  let collisions ← Program.ofExcept (domainPolicyCollisions cfg)
  let cache ← onCache (validateDnsCache cfg)
  let egresses ← onNet (egressReports (cfg.egressInterfaces.filter (·.enabled)))
  pure ((Report.append ⟨collisions, []⟩ (failClosedSemantics cfg)).append
    ((Report.append ⟨cache.map (CacheWarning.text cfg.dnsCache.path), []⟩
      (interceptionReport cfg autoRedirect)).append egresses))

/-! ### The report and the command -/

section Printed

theorem Program.translate_bind {I J : Interface} {ε α β : Type}
    (f : (c : I.Call) → Program J ε (I.Answer c)) (p : Program I ε α) (g : α → Program I ε β) :
    (p.bind g).translate f = (p.translate f).bind (fun a => (g a).translate f) := by
  induction p with
  | pure a => rfl
  | fail e => rfl
  | call c next ih =>
      change (f c).bind (fun r => ((next r).bind g).translate f) = _
      simp only [ih]
      exact (Program.bind_assoc _ _ _).symm

/-- The names that the collisions are looked for among. -/
theorem names_of_namedPolicies (policies : List Policy) :
    (policies.filterMap (fun policy => policy.matchSpec.domain)).mapM normalizeDomain =
      (namedPolicies policies).map (List.map Prod.fst) := by
  induction policies with
  | nil => rfl
  | cons policy policies ih =>
      rw [List.filterMap_cons, namedPolicies]
      cases policy.matchSpec.domain with
      | none => exact ih
      | some domain =>
          dsimp only
          rw [List.mapM_cons, ih]
          cases normalizeDomain domain with
          | error e => rfl
          | ok name => cases namedPolicies policies <;> rfl

theorem validateEgressInterface_eq (egress : EgressInterface) :
    validateEgressInterface egress = (egressReport egress).bind (fun _ => .pure ()) := by
  unfold validateEgressInterface egressReport interfaceExists Program.ask
  simp only [Program.bind_eq, Program.bind_call, Program.bind_pure_left]
  congr 1
  funext present
  cases present with
  | false => rfl
  | true =>
      simp only [if_true, Program.bind_call]
      congr 1
      funext raw
      have hup : (raw.map trimmed = some "up") ↔ (raw.map trimmed).getD "unknown" = "up" := by
        cases raw with
        | none => simp
        | some text => simp
      simp only [hup]
      split_ifs
      · rw [Program.bind_assoc]
        rfl
      · rfl

theorem validateEgressInterfaces_eq (egresses : List EgressInterface) :
    Program.forEach validateEgressInterface egresses =
      (egressReports egresses).bind (fun _ => .pure ()) := by
  induction egresses with
  | nil => rfl
  | cons egress egresses ih =>
      rw [Program.forEach_cons, ih, validateEgressInterface_eq, egressReports]
      simp only [Program.bind_eq, Program.pure_eq, Program.bind_assoc, Program.bind_pure_left]

/-- The command makes the report, and prints it. -/
theorem printValidate_eq (cfg : Config) (autoRedirect : Bool) :
    printValidate cfg = (validateReport cfg autoRedirect).bind (fun _ => .pure ()) := by
  unfold printValidate validateReport validateDomainPolicyCollisions domainPolicyCollisions
  rw [names_of_namedPolicies, validateEgressInterfaces, validateEgressInterfaces_eq, onNet,
    Program.translate_bind]
  cases namedPolicies cfg.policies with
  | error e => rfl
  | ok named =>
      simp only [Except.map, Program.bind_eq, Program.bind_assoc, Program.pure_eq,
        Program.bind_pure_left]
      rfl

end Printed

/-! ### Nothing to warn of -/

section Collisions

variable {cfg : Config}

/-- Every domain has a name, and no two policies have the same, enabled or not. -/
def OneDefinitionEach (cfg : Config) : Prop :=
  Named cfg ∧ cfg.policies.Pairwise
    (fun p q => ∀ name, ¬ (p.hasName name = true ∧ q.hasName name = true))

theorem hasName_of_mem {policies : List Policy} {named : List (String × Policy)}
    (h : namedPolicies policies = .ok named) {name : String} :
    (∃ policy ∈ policies, policy.hasName name = true) ↔ name ∈ named.map Prod.fst := by
  induction policies generalizing named with
  | nil =>
      obtain rfl := Except.ok.inj h
      simp
  | cons policy policies ih =>
      rw [namedPolicies] at h
      rw [List.exists_mem_cons_iff]
      cases hdomain : policy.matchSpec.domain with
      | none =>
          rw [hdomain] at h
          have hnone : policy.hasName name = false := by rw [Policy.hasName, hdomain]; rfl
          rw [ih h, hnone]
          simp
      | some domain =>
          rw [hdomain] at h
          obtain ⟨found, hfound, h⟩ := except_bind_eq_ok.mp h
          obtain ⟨rest, hrest, h⟩ := except_bind_eq_ok.mp h
          obtain rfl := Except.ok.inj h
          have hself : policy.hasName name = true ↔ name = found := by
            rw [hasName_iff, hdomain]
            simp [hfound, eq_comm]
          rw [ih hrest, hself, List.map_cons, List.mem_cons]

theorem nodup_names_iff {policies : List Policy} {named : List (String × Policy)}
    (h : namedPolicies policies = .ok named) :
    (named.map Prod.fst).Nodup ↔ policies.Pairwise
      (fun p q => ∀ name, ¬ (p.hasName name = true ∧ q.hasName name = true)) := by
  induction policies generalizing named with
  | nil =>
      obtain rfl := Except.ok.inj h
      simp
  | cons policy policies ih =>
      rw [namedPolicies] at h
      rw [List.pairwise_cons]
      cases hdomain : policy.matchSpec.domain with
      | none =>
          rw [hdomain] at h
          have hnone : ∀ name, policy.hasName name = false := fun name => by
            rw [Policy.hasName, hdomain]; rfl
          simp [ih h, hnone]
      | some domain =>
          rw [hdomain] at h
          obtain ⟨found, hfound, h⟩ := except_bind_eq_ok.mp h
          obtain ⟨rest, hrest, h⟩ := except_bind_eq_ok.mp h
          obtain rfl := Except.ok.inj h
          have hself : ∀ name, policy.hasName name = true ↔ name = found := fun name => by
            rw [hasName_iff, hdomain]
            simp [hfound, eq_comm]
          rw [List.map_cons, List.nodup_cons, ih hrest, ← hasName_of_mem hrest]
          refine and_congr ?_ Iff.rfl
          constructor
          · rintro hfree q hq name ⟨hp, hname⟩
            exact hfree ⟨q, hq, (hself name).mp hp ▸ hname⟩
          · rintro hfree ⟨q, hq, hname⟩
            exact hfree q hq found ⟨(hself found).mpr rfl, hname⟩

theorem groups_nil_iff {warning : String × List String → Option String}
    (hwarning : ∀ group, warning group = none ↔ group.2.length ≤ 1)
    (named : List (String × Policy)) :
    (idsByName named).filterMap warning = [] ↔ (named.map Prod.fst).Nodup := by
  rw [List.filterMap_eq_nil_iff, List.nodup_iff_count_le_one]
  have hcount : ∀ name, (named.map Prod.fst).count name =
      ((named.filter (fun p => p.1 = name)).map (fun p => p.2.id)).length := by
    intro name
    rw [List.length_map, ← List.countP_eq_length_filter, List.count, List.countP_map]
    refine List.countP_congr fun p _ => ?_
    simp
  constructor
  · intro h name
    by_cases hmem : name ∈ named.map Prod.fst
    · rw [hcount]
      exact (hwarning _).mp (h _ (List.mem_map.mpr ⟨name, mem_uniqueSorted.mpr hmem, rfl⟩))
    · rw [List.count_eq_zero_of_not_mem hmem]
      exact Nat.zero_le 1
  · intro h group hgroup
    obtain ⟨name, -, rfl⟩ := List.mem_map.mp hgroup
    exact (hwarning _).mpr (hcount name ▸ h name)

theorem namedPolicies_ok_iff {policies : List Policy} :
    (∃ named, namedPolicies policies = .ok named) ↔ ∀ policy ∈ policies, ∀ domain,
      policy.matchSpec.domain = some domain → ∃ name, normalizeDomain domain = .ok name := by
  induction policies with
  | nil => exact ⟨fun _ policy hpolicy => absurd hpolicy List.not_mem_nil, fun _ => ⟨[], rfl⟩⟩
  | cons policy policies ih =>
      rw [List.forall_mem_cons, ← ih, namedPolicies]
      cases hdomain : policy.matchSpec.domain with
      | none => simp
      | some domain =>
          constructor
          · rintro ⟨named, h⟩
            obtain ⟨name, hname, h⟩ := except_bind_eq_ok.mp h
            obtain ⟨rest, hrest, -⟩ := except_bind_eq_ok.mp h
            refine ⟨fun d hd => ?_, rest, hrest⟩
            obtain rfl := Option.some.inj hd
            exact ⟨name, hname⟩
          · rintro ⟨hnames, rest, hrest⟩
            obtain ⟨name, hname⟩ := hnames domain rfl
            refine ⟨(name, policy) :: rest, ?_⟩
            dsimp only
            rw [hname, hrest]
            rfl

theorem domainPolicyCollisions_nil_iff :
    domainPolicyCollisions cfg = .ok [] ↔ OneDefinitionEach cfg := by
  have hduplicate : ∀ group, duplicateWarning group = none ↔ group.2.length ≤ 1 := by
    simp [duplicateWarning]
  have hmultiple : ∀ group, multipleWarning group = none ↔ group.2.length ≤ 1 := by
    simp [multipleWarning]
  constructor
  · intro h
    obtain ⟨named, hnamed, h⟩ := except_bind_eq_ok.mp h
    obtain ⟨-, hall⟩ := List.append_eq_nil_iff.mp (Except.ok.inj h)
    exact ⟨namedPolicies_ok_iff.mp ⟨named, hnamed⟩,
      (nodup_names_iff hnamed).mp ((groups_nil_iff hmultiple named).mp hall)⟩
  · rintro ⟨hnames, hone⟩
    obtain ⟨named, hnamed⟩ := namedPolicies_ok_iff.mpr hnames
    have hnodup := (nodup_names_iff hnamed).mpr hone
    have hsub : ((named.filter (fun p => p.2.enabled)).map Prod.fst).Nodup :=
      hnodup.sublist (List.filter_sublist.map _)
    rw [domainPolicyCollisions, hnamed]
    change Except.ok (_ ++ _) = _
    rw [(groups_nil_iff hduplicate _).mpr hsub, (groups_nil_iff hmultiple named).mpr hnodup]
    rfl

end Collisions

section Parts

variable {cfg : Config}

/-- The validator has refused what this would warn of. -/
theorem warnings_failClosedSemantics (hcfg : cfg.validate = .ok ()) :
    (failClosedSemantics cfg).warnings = [] := by
  obtain ⟨hsettings, -⟩ := validate_eq_ok_iff.mp hcfg
  have hmode : (unresolvedModeReport cfg).warnings = [] := by
    unfold unresolvedModeReport
    split_ifs with hsoft hstale hhard hon
    · rfl
    · rfl
    · rfl
    · exact absurd (hsettings.hardMode hhard).1 hon
    · exact absurd hsettings.mode (by simp [allowedUnresolvedModes, hsoft, hstale, hhard])
  unfold failClosedSemantics
  split_ifs
  · rw [Report.warnings_append, hmode]
    rfl
  · rw [Report.warnings_append, hmode]
    rfl
  · rfl

theorem upstreamsReport_nil_iff {dns : DnsInterceptionConfig} :
    (upstreamsReport dns).warnings = [] ↔ dns.effectiveUpstreams ≠ [] := by
  unfold upstreamsReport
  split
  · next h => simp [h]
  · next h => simp [h]
  · next h => simp [h]

/-- The proxy has upstreams, and is declared in the cache section as well. -/
def ProxyDeclared (cfg : Config) (autoRedirect : Bool) : Prop :=
  cfg.dnsInterception.effectiveUpstreams ≠ [] ∧ cfg.dnsCache.dnsInterceptionEnabled = true ∧
    autoRedirect = false

theorem effectiveUpstreams_of_blank {dns : DnsInterceptionConfig}
    (h : dns.upstreams = [] ∧ trimmedEmpty dns.upstreamAddr = true) :
    dns.effectiveUpstreams = [] := by
  unfold DnsInterceptionConfig.effectiveUpstreams DnsInterceptionConfig.configuredUpstreamEntries
  rw [if_neg (fun hne => hne h.1), if_neg (not_not.mpr h.2)]
  rfl

theorem interceptionReport_nil_iff (autoRedirect : Bool) :
    (interceptionReport cfg autoRedirect).warnings = [] ↔
      cfg.dnsInterception.malformedUpstreamEntries = [] ∧
        (cfg.dnsInterception.enabled = true → ProxyDeclared cfg autoRedirect) := by
  unfold interceptionReport ProxyDeclared
  dsimp only
  cases cfg.dnsInterception.enabled with
  | false => simp
  | true =>
      simp only [not_true_eq_false, if_false, Report.warnings_append, Report.warnings_note,
        List.append_eq_nil_iff, List.map_eq_nil_iff, upstreamsReport_nil_iff,
        Report.warnings_warnIf, Report.warnings_noteIf, true_and, not_not, forall_const]
      rw [Bool.not_eq_true]
      refine and_congr Iff.rfl ⟨fun h => h.2, fun h => ⟨fun hblank => ?_, h⟩⟩
      exact h.1 (effectiveUpstreams_of_blank hblank)

end Parts

/-! ### The host -/

section Host

variable {cfg : Config}

/-- What the report says of an egress, read off its link. -/
def egressReportAt (links : String → LinkState) (egress : EgressInterface) : Report :=
  let state := ((links egress.name).operstate.map trimmed).getD "unknown"
  if (links egress.name).present then
    if egress.kind = .direct ∧ state = "up" then
      driftReport egress (runtimeStateOf egress.name (links egress.name).defaultRouteJson
        (links egress.name).addrJson)
    else linkReport egress state
  else .warn ("enabled egress " ++ egress.name ++ " is missing from /sys/class/net")

theorem run_egressReport (env : NetEnv) (egress : EgressInterface) (s : NetState) :
    Program.run (netHost env) (egressReport egress) s = (.ok (egressReportAt s.links egress), s) := by
  have hexists : Program.run (netHost env) (interfaceExists egress.name) s =
      (.ok (s.links egress.name).present, s) := rfl
  have hstate : Program.run (netHost env)
      (Program.ask (I := netInterface) (.operstate egress.name) : NetProgram (Option String)) s =
        (.ok (s.links egress.name).operstate, s) := rfl
  unfold egressReport egressReportAt
  rw [Program.bind_eq, Program.run_bind_ok _ hexists]
  by_cases hpresent : (s.links egress.name).present = true
  · rw [if_pos hpresent, if_pos hpresent, Program.bind_eq, Program.run_bind_ok _ hstate]
    dsimp only
    split_ifs
    · rw [Program.bind_eq, Program.run_bind, Program.run_attempt, run_inspectDirectEgress]
      rfl
    · rfl
  · rw [if_neg hpresent, if_neg hpresent]
    rfl

theorem run_egressReports (env : NetEnv) (egresses : List EgressInterface) (s : NetState) :
    Program.run (netHost env) (egressReports egresses) s =
      (.ok (egresses.foldr (fun egress rest => (egressReportAt s.links egress).append rest) {}),
        s) := by
  induction egresses with
  | nil => rfl
  | cons egress egresses ih =>
      rw [egressReports, Program.bind_eq, Program.run_bind_ok _ (run_egressReport env egress s),
        Program.bind_eq, Program.run_bind_ok _ ih]
      rfl

/-- The link is there; that of a direct egress is up, and where its runtime state can be
inspected, it is complete and agrees with the configuration. -/
def LinkReady (links : String → LinkState) (egress : EgressInterface) : Prop :=
  (links egress.name).present = true ∧ (egress.kind = .direct →
    (links egress.name).operstate.map trimmed = some "up" ∧
      ∀ state, runtimeStateOf egress.name (links egress.name).defaultRouteJson
        (links egress.name).addrJson = .ok state →
          state.drift egress.gateway egress.sourceIp = .ok)

variable {links : String → LinkState} {egress : EgressInterface}

theorem driftReport_nil_iff {inspected : Except Error DirectEgressRuntimeState} :
    (driftReport egress inspected).warnings = [] ↔
      ∀ state, inspected = .ok state → state.drift egress.gateway egress.sourceIp = .ok := by
  unfold driftReport
  cases inspected with
  | error e => simp
  | ok state =>
      dsimp only
      split_ifs with hdrift hok
      · refine iff_of_false (List.cons_ne_nil _ _) fun h => ?_
        rw [h state rfl] at hdrift
        exact absurd hdrift (by decide)
      · exact iff_of_false (List.cons_ne_nil _ _) fun h => hok (h state rfl)
      · refine iff_of_true rfl fun state' hsame => ?_
        rw [← Except.ok.inj hsame]
        exact not_not.mp hok

theorem linkReport_nil_iff {state : String} :
    (linkReport egress state).warnings = [] ↔ egress.kind ≠ .direct := by
  unfold linkReport
  cases egress.kind with
  | direct => simp
  | tunnel => simp
  | wireguard => simp

theorem egressReportAt_nil_iff :
    (egressReportAt links egress).warnings = [] ↔ LinkReady links egress := by
  have hup : ((links egress.name).operstate.map trimmed).getD "unknown" = "up" ↔
      (links egress.name).operstate.map trimmed = some "up" := by
    cases (links egress.name).operstate with
    | none => simp
    | some text => simp
  unfold egressReportAt LinkReady
  dsimp only
  simp only [hup]
  by_cases hpresent : (links egress.name).present = true
  · rw [if_pos hpresent]
    by_cases hdirect : egress.kind = .direct
    · by_cases hstate : (links egress.name).operstate.map trimmed = some "up"
      · rw [if_pos ⟨hdirect, hstate⟩, driftReport_nil_iff]
        exact ⟨fun h => ⟨hpresent, fun _ => ⟨hstate, h⟩⟩, fun h => (h.2 hdirect).2⟩
      · rw [if_neg (fun h => hstate h.2), linkReport_nil_iff]
        exact iff_of_false (fun h => h hdirect) (fun h => hstate (h.2 hdirect).1)
    · rw [if_neg (fun h => hdirect h.1), linkReport_nil_iff]
      exact iff_of_true hdirect ⟨hpresent, fun h => absurd h hdirect⟩
  · rw [if_neg hpresent]
    exact iff_of_false (List.cons_ne_nil _ _) (fun h => hpresent h.1)

theorem egressReports_nil_iff {egresses : List EgressInterface} :
    (egresses.foldr (fun egress rest => (egressReportAt links egress).append rest) {}).warnings =
      [] ↔ ∀ egress ∈ egresses, LinkReady links egress := by
  induction egresses with
  | nil => simp
  | cons egress egresses ih =>
      rw [List.foldr_cons, Report.warnings_append, List.append_eq_nil_iff, ih,
        egressReportAt_nil_iff, List.forall_mem_cons]

end Host

/-! ### The cached domains -/

section Cached

variable {cfg : Config} {env : CacheEnv} {s : CacheStore}

/-- There is a fresh entry with addresses for the name, without a note of a failed lookup. -/
def FreshlyCached (content : FileContent) (now : UInt64) (name : String) : Prop :=
  ∃ entry, content.find name = some entry ∧ entry.resolvedIpv4 ≠ [] ∧ now < entry.expiresAtEpoch ∧
    entry.lastError = none

theorem entryWarnings_nil_iff {now : UInt64} {domain : String} {entry : DnsCacheEntry} :
    entryWarnings now domain entry = [] ↔ entry.resolvedIpv4 ≠ [] ∧ now < entry.expiresAtEpoch ∧
      entry.lastError = none := by
  unfold entryWarnings
  rw [List.append_eq_nil_iff, List.append_eq_nil_iff, and_assoc, List.map_eq_nil_iff,
    Option.toList_eq_nil_iff]
  refine and_congr ?_ (and_congr ?_ Iff.rfl)
  · split_ifs with h
    · simp [h]
    · simp [h]
  · split_ifs with h
    · exact iff_of_false id (UInt64.not_lt.mpr h)
    · exact iff_of_true rfl (UInt64.not_le.mp h)

/-- What the report says of the cached domains. -/
def cacheWarningsAt (now : UInt64) (file : DnsCacheFile) (domains : List String) :
    List CacheWarning :=
  domains.flatMap (fun domain =>
    match file.find domain with
    | some entry => entryWarnings now domain entry
    | none => [.missing domain])

theorem cacheWarningsAt_nil_iff {now : UInt64} {content : FileContent} {domains : List String} :
    cacheWarningsAt now (loadedFile content) domains = [] ↔
      ∀ name ∈ domains, FreshlyCached content now name := by
  rw [cacheWarningsAt, List.flatMap_eq_nil_iff]
  refine forall₂_congr fun name _ => ?_
  rw [find_loadedFile, FreshlyCached]
  cases content.find name with
  | none => simp
  | some entry => simp [entryWarnings_nil_iff]

/-- The file can be read now, and it has fresh entries for the names. -/
def CacheReady (env : CacheEnv) (cfg : Config) (s : CacheStore) (names : List String) : Prop :=
  cacheLoads env cfg s s.calls = true ∧
    ∀ name ∈ names, FreshlyCached (s.files cfg.dnsCache.path) (env.clock (s.calls + 1)) name

variable (env s) in
/-- The cache is reported on without an error, and without a warning when all is cached. -/
theorem run_validateDnsCache_nil {names : List String} (hnames : enabledDomains cfg = .ok names) :
    ∃ warnings t, Program.run (cacheHost env) (validateDnsCache cfg) s = (.ok warnings, t) ∧
      (warnings = [] ↔ (names ≠ [] → CacheReady env cfg s names)) := by
  unfold validateDnsCache
  rw [hnames]
  change ∃ warnings t, Program.run _ (if names = [] then _ else _) s = _ ∧ _
  by_cases hnil : names = []
  · rw [if_pos hnil]
    exact ⟨[], s, rfl, iff_of_true rfl (fun h => absurd hnil h)⟩
  · rw [if_neg hnil]
    by_cases henabled : cfg.dnsCache.enabled = true
    · rw [if_neg (not_not.mpr henabled), Program.bind_eq, Program.run_bind, Program.run_attempt]
      rcases run_loadCacheOrEmpty env cfg.dnsCache.path s with ⟨e, hload, hwhy⟩ | hload
      · rw [hload]
        refine ⟨_, _, rfl, iff_of_false (List.cons_ne_nil _ _) fun h => ?_⟩
        obtain ⟨-, hreads, hcontent⟩ := of_decide_eq_true (h hnil).1
        exact hwhy.elim (fun h => h hreads) hcontent
      · rw [hload]
        refine ⟨cacheWarningsAt (env.clock (s.calls + 1))
          (loadedFile (s.files cfg.dnsCache.path)) names, s.tick.tick, rfl, ?_⟩
        rw [cacheWarningsAt_nil_iff]
        have hloads : cacheLoads env cfg s s.calls = true :=
          decide_eq_true ⟨henabled, readable_of_load hload⟩
        exact ⟨fun h _ => ⟨hloads, h⟩, fun h => (h hnil).2⟩
    · rw [if_pos henabled]
      refine ⟨_, _, rfl, iff_of_false (List.cons_ne_nil _ _) fun h => ?_⟩
      exact henabled (of_decide_eq_true (h hnil).1).1

end Cached

/-! ### The verdict -/

section Verdict

variable {cfg : Config} {env : MachineEnv} {m : Machine}

theorem run_onCache {α : Type} (env : MachineEnv) (p : CacheProgram α) (m : Machine) :
    Program.run (machineHost env) (onCache p) m =
      ((Program.run (cacheHost env.cache) p m.cache).1,
        { m with cache := (Program.run (cacheHost env.cache) p m.cache).2 }) := by
  induction p generalizing m with
  | pure a => rfl
  | fail e => rfl
  | call c next ih => exact ih _ _

/-- The enabled policies' domains are all cached, if there are any. -/
def DomainsReady (env : CacheEnv) (cfg : Config) (s : CacheStore) : Prop :=
  (∃ policy ∈ cfg.enabledPolicies, ∃ name, policy.hasName name = true) →
    cacheLoads env cfg s s.calls = true ∧
      ∀ policy ∈ cfg.enabledPolicies, ∀ name, policy.hasName name = true →
        FreshlyCached (s.files cfg.dnsCache.path) (env.clock (s.calls + 1)) name

/-- What there is to be for the validation to have nothing to warn of. -/
structure Passes (env : MachineEnv) (cfg : Config) (autoRedirect : Bool) (m : Machine) : Prop where
  domains : OneDefinitionEach cfg
  upstreams : cfg.dnsInterception.malformedUpstreamEntries = []
  proxy : cfg.dnsInterception.enabled = true → ProxyDeclared cfg autoRedirect
  cached : DomainsReady env.cache cfg m.cache
  links : ∀ egress ∈ cfg.egressInterfaces, egress.enabled = true → LinkReady m.net.links egress

theorem mem_enabledDomains {names : List String} (h : enabledDomains cfg = .ok names)
    {name : String} : name ∈ names ↔ ∃ policy ∈ cfg.enabledPolicies, policy.hasName name = true := by
  obtain ⟨found, hfound, h⟩ := except_bind_eq_ok.mp h
  obtain rfl : uniqueSorted found = names := Except.ok.inj h
  rw [mem_uniqueSorted]
  constructor
  · intro hmem
    obtain ⟨domain, hdomain, hname⟩ := of_mem_mapM hfound name hmem
    obtain ⟨policy, hpolicy, hmatch⟩ := List.mem_filterMap.mp hdomain
    exact ⟨policy, hpolicy, hasName_iff.mpr ⟨domain, hmatch, hname⟩⟩
  · rintro ⟨policy, hpolicy, hhas⟩
    obtain ⟨domain, hmatch, hname⟩ := hasName_iff.mp hhas
    exact mem_of_mapM hfound (List.mem_filterMap.mpr ⟨policy, hpolicy, hmatch⟩) hname

theorem domainsReady_iff {names : List String} (h : enabledDomains cfg = .ok names)
    {cache : CacheEnv} {s : CacheStore} :
    (names ≠ [] → CacheReady cache cfg s names) ↔ DomainsReady cache cfg s := by
  have hmem : ∀ name, name ∈ names ↔
      ∃ policy ∈ cfg.enabledPolicies, policy.hasName name = true := fun _ => mem_enabledDomains h
  have hsome : names ≠ [] ↔ ∃ policy ∈ cfg.enabledPolicies, ∃ name, policy.hasName name = true := by
    constructor
    · intro hne
      obtain ⟨name, hname⟩ := List.exists_mem_of_ne_nil names hne
      obtain ⟨policy, hpolicy, hhas⟩ := (hmem name).mp hname
      exact ⟨policy, hpolicy, name, hhas⟩
    · rintro ⟨policy, hpolicy, name, hhas⟩
      exact List.ne_nil_of_mem ((hmem name).mpr ⟨policy, hpolicy, hhas⟩)
  rw [DomainsReady, hsome]
  refine imp_congr_right fun _ => and_congr_right fun _ => ?_
  exact ⟨fun hall policy hpolicy name hhas => hall name ((hmem name).mpr ⟨policy, hpolicy, hhas⟩),
    fun hall name hname => by
      obtain ⟨policy, hpolicy, hhas⟩ := (hmem name).mp hname
      exact hall policy hpolicy name hhas⟩

variable (env m) in
/-- The report on a configuration whose domains have names. -/
theorem run_validateReport {collisions : List String} (autoRedirect : Bool)
    (hcollisions : domainPolicyCollisions cfg = .ok collisions) :
    ∃ names cacheWarnings report t, enabledDomains cfg = .ok names ∧
      Program.run (machineHost env) (validateReport cfg autoRedirect) m = (.ok report, t) ∧
      (cacheWarnings = [] ↔ (names ≠ [] → CacheReady env.cache cfg m.cache names)) ∧
      report.warnings = collisions ++ (failClosedSemantics cfg).warnings ++
        (cacheWarnings.map (CacheWarning.text cfg.dnsCache.path) ++
            (interceptionReport cfg autoRedirect).warnings ++
          ((cfg.egressInterfaces.filter (·.enabled)).foldr
            (fun egress rest => (egressReportAt m.net.links egress).append rest) {}).warnings) := by
  obtain ⟨named, hnamed, -⟩ := except_bind_eq_ok.mp hcollisions
  have hsub : cfg.enabledPolicies ⊆ cfg.policies := List.filter_subset_self _
  obtain ⟨found, hfound⟩ := Named.mapM (namedPolicies_ok_iff.mp ⟨named, hnamed⟩) hsub
  have hnames : enabledDomains cfg = .ok (uniqueSorted found) := by
    rw [enabledDomains, hfound]
    rfl
  obtain ⟨warnings, t, hcache, hnil⟩ := run_validateDnsCache_nil env.cache m.cache hnames
  have hfirst : Program.run (machineHost env) (onCache (validateDnsCache cfg)) m =
      (.ok warnings, { m with cache := t }) := by rw [run_onCache, hcache]
  have hsecond : Program.run (machineHost env)
      (onNet (egressReports (cfg.egressInterfaces.filter (·.enabled)))) { m with cache := t } =
        (.ok ((cfg.egressInterfaces.filter (·.enabled)).foldr
          (fun egress rest => (egressReportAt m.net.links egress).append rest) {}),
            { m with cache := t }) := by rw [run_onNet, run_egressReports]
  have hrun : ∃ report, Program.run (machineHost env) (validateReport cfg autoRedirect) m =
        (.ok report, { m with cache := t }) ∧
      report.warnings = collisions ++ (failClosedSemantics cfg).warnings ++
        (warnings.map (CacheWarning.text cfg.dnsCache.path) ++
            (interceptionReport cfg autoRedirect).warnings ++
          ((cfg.egressInterfaces.filter (·.enabled)).foldr
            (fun egress rest => (egressReportAt m.net.links egress).append rest) {}).warnings) := by
    rw [validateReport, hcollisions]
    change ∃ report, Program.run _ ((onCache (validateDnsCache cfg)).bind _) m = _ ∧ _
    rw [Program.run_bind_ok _ hfirst, Program.bind_eq, Program.run_bind_ok _ hsecond]
    exact ⟨_, rfl, rfl⟩
  obtain ⟨report, hreport, hwarnings⟩ := hrun
  exact ⟨_, warnings, report, _, hnames, hreport, hnil, hwarnings⟩

theorem result_pass_iff {autoRedirect : Bool} {report : Report} {t : Machine}
    (hcfg : cfg.validate = .ok ())
    (hrun : Program.run (machineHost env) (validateReport cfg autoRedirect) m = (.ok report, t)) :
    report.result = "PASS" ↔ Passes env cfg autoRedirect m := by
  cases hcollisions : domainPolicyCollisions cfg with
  | error e =>
      rw [validateReport, hcollisions] at hrun
      cases hrun
  | ok collisions =>
      obtain ⟨names, cacheWarnings, report', t', hnames, hrun', hcache, hwarnings⟩ :=
        run_validateReport env m autoRedirect hcollisions
      rw [hrun', Prod.mk.injEq, Except.ok.injEq] at hrun
      rw [← hrun.1, Report.result_eq_pass, hwarnings, warnings_failClosedSemantics hcfg]
      simp only [List.append_nil, List.append_eq_nil_iff, List.map_eq_nil_iff, hcache,
        interceptionReport_nil_iff, egressReports_nil_iff, domainsReady_iff hnames,
        List.mem_filter]
      constructor
      · rintro ⟨rfl, ⟨hcached, hupstreams, hproxy⟩, hlinks⟩
        exact ⟨domainPolicyCollisions_nil_iff.mp hcollisions, hupstreams, hproxy, hcached,
          fun egress hegress henabled => hlinks egress ⟨hegress, henabled⟩⟩
      · intro h
        rw [domainPolicyCollisions_nil_iff.mpr h.domains] at hcollisions
        exact ⟨(Except.ok.inj hcollisions).symm, ⟨h.cached, h.upstreams, h.proxy⟩,
          fun egress hegress => h.links egress hegress.1 hegress.2⟩

end Verdict

/-- A machine on which the proxy has cached the answer to its first query. -/
def cachedMachine : Machine := ⟨bareState.1, servedHost.2.2, 0, 0, .absent, 0⟩

section NextRound

variable {cfg : Config} {env : CacheEnv} {content : FileContent} {policy : Policy}
  {egresses : List EgressInterface} {first last : ℕ}

/-- The addresses that the file has for the policy's domain. -/
def cachedIps (content : FileContent) (policy : Policy) : List String :=
  match policy.matchSpec.domain.map normalizeDomain with
  | some (.ok name) => ((content.find name).map DnsCacheEntry.resolvedIpv4).getD []
  | _ => []

/-- A policy without a domain needs no addresses; those of any other policy stay fresh. -/
def StaysCached (clock : ℕ → UInt64) (first last : ℕ) (content : FileContent) (policy : Policy) :
    Prop :=
  ∀ domain, policy.matchSpec.domain = some domain → ∃ name, normalizeDomain domain = .ok name ∧
    cachedIps content policy ≠ [] ∧
    StaysFresh clock first last content name (cachedIps content policy)

/-- The domain of a policy is resolved from the file, which is left as it is. -/
theorem resolvePolicy_cached {store : CacheStore}
    (henabled : policy.matchSpec.domain.isSome = true → cfg.dnsCache.enabled = true)
    (hcached : StaysCached env.clock first last (store.files cfg.dnsCache.path) policy)
    (hreads : ∀ k, first ≤ k → k < last → env.readFails k = none) (hfirst : first ≤ store.calls)
    (hlast : (resolvePolicy env cfg egresses policy store).2.calls ≤ last) :
    (resolvePolicy env cfg egresses policy store).2.files = store.files ∧
      rulesFor egresses policy (resolvePolicy env cfg egresses policy store).1 =
        rulesFor egresses policy (cachedIps (store.files cfg.dnsCache.path) policy) := by
  cases hegress : KeyedList.lookup (·.name) policy.action.egress egresses with
  | none =>
      rw [resolvePolicy, rulesFor, rulesFor, hegress]
      exact ⟨rfl, rfl⟩
  | some egress =>
      cases hdomain : policy.matchSpec.domain with
      | none =>
          rw [resolvePolicy, cachedIps, hegress, hdomain]
          exact ⟨rfl, rfl⟩
      | some domain =>
          obtain ⟨name, hname, hips, hfresh⟩ := hcached domain hdomain
          have hon := henabled (by rw [hdomain]; rfl)
          rw [resolvePolicy_found env cfg hegress hdomain] at hlast ⊢
          dsimp only at hlast ⊢
          have hcalls := calls_resolve env true .preferFreshCache store hon hname
          rw [← resolveForRuntime] at hcalls
          obtain ⟨entry, hrun⟩ := run_resolve_fresh env hon hname
            (hreads _ (hfirst.trans (Nat.le_succ _)) (hcalls.trans_le hlast)) hips hfresh hfirst
            (Nat.lt_of_succ_lt (hcalls.trans_le hlast))
          rw [hrun]
          exact ⟨rfl, rfl⟩

/-- So are the domains of all policies, one after the other. -/
theorem chainOf_cached {policies : List Policy} {store : CacheStore}
    (henabled : ∀ policy ∈ policies, policy.matchSpec.domain.isSome = true →
      cfg.dnsCache.enabled = true)
    (hcached : ∀ policy ∈ policies,
      StaysCached env.clock first last (store.files cfg.dnsCache.path) policy)
    (hreads : ∀ k, first ≤ k → k < last → env.readFails k = none) (hfirst : first ≤ store.calls)
    (hlast : (cacheAfter env cfg egresses policies store).calls ≤ last) :
    (cacheAfter env cfg egresses policies store).files = store.files ∧
      chainOf egresses (resolutions env cfg egresses policies store) =
        chainOf egresses (policies.map (fun policy =>
          (policy, cachedIps (store.files cfg.dnsCache.path) policy))) := by
  induction policies generalizing store with
  | nil => exact ⟨rfl, rfl⟩
  | cons policy policies ih =>
      obtain ⟨hon, henabled⟩ := List.forall_mem_cons.mp henabled
      obtain ⟨hself, hcached⟩ := List.forall_mem_cons.mp hcached
      rw [cacheAfter] at hlast ⊢
      have hlater := calls_cacheAfter_le env cfg egresses policies
        (resolvePolicy env cfg egresses policy store).2
      obtain ⟨hfiles, hrules⟩ := resolvePolicy_cached hon hself hreads hfirst (hlater.trans hlast)
      have hstep := calls_resolvePolicy_le env cfg egresses policy store
      rw [← hfiles] at hcached
      obtain ⟨hrest, hchain⟩ := ih henabled hcached (hfirst.trans hstep) hlast
      refine ⟨hrest.trans hfiles, ?_⟩
      rw [hfiles] at hchain
      rw [resolutions, chainOf, List.flatMap_cons, hrules, ← chainOf, hchain, List.map_cons,
        chainOf, chainOf, List.flatMap_cons]

/-- No name is looked up in an execution. -/
def AsksNoResolver {α : Type} (env : HostEnv) (p : HostProgram α) (s : HostState) : Prop :=
  ∀ name, Sum.inr (CacheCall.lookup name) ∉ Program.made (host env) p s

section AsksNoResolver

variable {α β : Type} {henv : HostEnv} {s : HostState}

theorem asksNoResolver_left (p : NetProgram α) : AsksNoResolver henv p.left s := by
  intro name hmem
  rw [Program.made_left] at hmem
  obtain ⟨c, -, hc⟩ := List.mem_map.mp hmem
  cases hc

theorem AsksNoResolver.bind {p : HostProgram α} {f : α → HostProgram β}
    (hp : AsksNoResolver henv p s)
    (hf : ∀ a t, Program.run (host henv) p s = (.ok a, t) → AsksNoResolver henv (f a) t) :
    AsksNoResolver henv (p.bind f) s := by
  rcases hrun : Program.run (host henv) p s with ⟨e | a, t⟩
  · rw [AsksNoResolver, Program.made_bind_error _ hrun]
    exact hp
  · rw [AsksNoResolver, Program.made_bind_ok _ hrun]
    intro name hmem
    rcases List.mem_append.mp hmem with hfirst | hrest
    · exact hp name hfirst
    · exact hf a t hrun name hrest

/-- Nor is the domain of a policy, if it stays cached. -/
theorem asksNoResolver_applyPolicy
    (henabled : policy.matchSpec.domain.isSome = true → cfg.dnsCache.enabled = true)
    (hcached : StaysCached henv.cache.clock first last (s.2.files cfg.dnsCache.path) policy)
    (hreads : ∀ k, first ≤ k → k < last → henv.cache.readFails k = none)
    (hfirst : first ≤ s.2.calls)
    (hlast : (resolvePolicy henv.cache cfg egresses policy s.2).2.calls ≤ last) :
    AsksNoResolver henv (applyPolicy applying cfg egresses policy) s := by
  unfold applyPolicy
  cases hegress : KeyedList.lookup (·.name) policy.action.egress egresses with
  | none => exact fun name hmem => absurd hmem List.not_mem_nil
  | some egress =>
      cases hdomain : policy.matchSpec.domain with
      | none => exact asksNoResolver_left _
      | some domain =>
          dsimp only
          refine AsksNoResolver.bind ?_ (fun outcome t _ => asksNoResolver_left _)
          obtain ⟨name, hname, hips, hfresh⟩ := hcached domain hdomain
          have hon := henabled (by rw [hdomain]; rfl)
          rw [resolvePolicy_found henv.cache cfg hegress hdomain] at hlast
          dsimp only at hlast
          have hcalls := calls_resolve henv.cache true .preferFreshCache s.2 hon hname
          rw [← resolveForRuntime] at hcalls
          have hmade := made_resolve_fresh henv.cache hon hname
            (hreads _ (hfirst.trans (Nat.le_succ _)) (hcalls.trans_le hlast)) hips hfresh hfirst
            (Nat.lt_of_succ_lt (hcalls.trans_le hlast))
          intro other hmem
          rw [Program.made_right, Program.made_attempt, hmade] at hmem
          obtain ⟨c, hc, heq⟩ := List.mem_map.mp hmem
          obtain rfl : c = CacheCall.lookup other := Sum.inr.inj heq
          rcases List.mem_cons.mp hc with hclock | hread
          · cases hclock
          · cases List.mem_singleton.mp hread

theorem asksNoResolver_policies {policies : List Policy}
    (henabled : ∀ policy ∈ policies, policy.matchSpec.domain.isSome = true →
      cfg.dnsCache.enabled = true)
    (hcached : ∀ policy ∈ policies,
      StaysCached henv.cache.clock first last (s.2.files cfg.dnsCache.path) policy)
    (hreads : ∀ k, first ≤ k → k < last → henv.cache.readFails k = none)
    (hfirst : first ≤ s.2.calls)
    (hlast : (cacheAfter henv.cache cfg egresses policies s.2).calls ≤ last) :
    AsksNoResolver henv (Program.forEach (applyPolicy applying cfg egresses) policies) s := by
  induction policies generalizing s with
  | nil => exact fun name hmem => absurd hmem List.not_mem_nil
  | cons policy policies ih =>
      obtain ⟨hon, henabled⟩ := List.forall_mem_cons.mp henabled
      obtain ⟨hself, hcached⟩ := List.forall_mem_cons.mp hcached
      rw [cacheAfter] at hlast
      have hlater := calls_cacheAfter_le henv.cache cfg egresses policies
        (resolvePolicy henv.cache cfg egresses policy s.2).2
      have hstep := calls_resolvePolicy_le henv.cache cfg egresses policy s.2
      obtain ⟨hfiles, -⟩ := resolvePolicy_cached hon hself hreads hfirst (hlater.trans hlast)
      rw [Program.forEach_cons]
      refine AsksNoResolver.bind
        (asksNoResolver_applyPolicy hon hself hreads hfirst (hlater.trans hlast)) (fun _ t ht => ?_)
      have hstore := cache_applyPolicy henv cfg egresses policy s
      rw [ht] at hstore
      rw [← hfiles, ← hstore] at hcached
      rw [← hstore] at hlast hstep
      exact ih henabled hcached (hfirst.trans hstep) hlast

/-- A round that returns looks nothing up, if the domains of its policies stay cached. -/
theorem asksNoResolver_reconcileOnce {order : MapOrder} {v : HostState} (hcfg : Accepted cfg)
    (henabled : ∀ policy ∈ cfg.enabledPolicies, policy.matchSpec.domain.isSome = true →
      cfg.dnsCache.enabled = true)
    (hcached : ∀ policy ∈ cfg.enabledPolicies,
      StaysCached henv.cache.clock s.2.calls v.2.calls (s.2.files cfg.dnsCache.path) policy)
    (hreads : ∀ k, s.2.calls ≤ k → k < v.2.calls → henv.cache.readFails k = none)
    (hround : Program.run (host henv) (reconcileOnce applying order cfg) s = (.ok (), v)) :
    AsksNoResolver henv (reconcileOnce applying order cfg) s := by
  have hend := resolvesUpTo_reconcileOnce henv order hcfg s
  rw [hround] at hend
  obtain ⟨done, -, hcache, hwhole⟩ := hend
  rw [hwhole rfl] at hcache
  refine AsksNoResolver.bind (asksNoResolver_left _) (fun _ t ht => ?_)
  rw [Program.run_left, Prod.mk.injEq] at ht
  obtain ⟨-, rfl⟩ := ht
  have hlinks := links_ensureTableAndChain henv cfg s.1
  refine AsksNoResolver.bind (asksNoResolver_left _) (fun healthy t ht => ?_)
  rw [Program.run_left, run_healthyEgressMap, Prod.mk.injEq] at ht
  obtain ⟨hhealthy, rfl⟩ := ht
  dsimp only at hhealthy
  rw [hlinks] at hhealthy
  have hsame := cacheAfter_congr (fixed_of_healthyEgresses hcfg hhealthy) henv.cache cfg
  rw [← hsame] at hcache
  split_ifs with hclosed
  · exact asksNoResolver_left _
  · refine AsksNoResolver.bind (asksNoResolver_left _) (fun _ t ht => ?_)
    rw [Program.run_left, Prod.mk.injEq] at ht
    obtain ⟨-, rfl⟩ := ht
    refine AsksNoResolver.bind (asksNoResolver_left _) (fun _ t ht => ?_)
    rw [Program.run_left, Prod.mk.injEq] at ht
    obtain ⟨-, rfl⟩ := ht
    exact asksNoResolver_policies henabled hcached hreads le_rfl
      (congrArg CacheStore.calls hcache).ge

end AsksNoResolver

variable {m t : Machine} {menv : MachineEnv} {henv : HostEnv} {order : MapOrder} {u v : HostState}
  {autoRedirect : Bool} {report : Report}

theorem staysCached_of_passes (h : Passes menv cfg autoRedirect m) (hpolicy : policy ∈ cfg.enabledPolicies)
    {clock : ℕ → UInt64}
    (hfresh : ∀ k, first ≤ k → k < last → ∀ name, policy.hasName name = true → ∀ entry,
      (m.cache.files cfg.dnsCache.path).find name = some entry → clock k < entry.expiresAtEpoch) :
    StaysCached clock first last (m.cache.files cfg.dnsCache.path) policy := by
  intro domain hdomain
  obtain ⟨name, hname⟩ := h.domains.1 policy (List.mem_of_mem_filter hpolicy) domain hdomain
  have hhas : policy.hasName name = true := hasName_iff.mpr ⟨domain, hdomain, hname⟩
  obtain ⟨entry, hentry, hips, -⟩ := (h.cached ⟨policy, hpolicy, name, hhas⟩).2 policy hpolicy name hhas
  have hcached : cachedIps (m.cache.files cfg.dnsCache.path) policy = entry.resolvedIpv4 := by
    rw [cachedIps, hdomain, Option.map_some, hname]
    dsimp only
    rw [hentry]
    rfl
  refine ⟨name, hname, hcached ▸ hips, entry, hentry, hcached.symm, fun k hk hlast => ?_⟩
  exact hfresh k hk hlast name hhas entry hentry

theorem usable_of_linkReady {links : String → LinkState} {egress : EgressInterface}
    (h : LinkReady links egress) (henabled : egress.enabled = true) (hdirect : egress.kind = .direct)
    (hcheck : egress.healthcheck.enabled = false) : egressHealthy links egress = true := by
  obtain ⟨hpresent, hready⟩ := h
  obtain ⟨hup, -⟩ := hready hdirect
  obtain ⟨raw, hraw, htrimmed⟩ := Option.map_eq_some_iff.mp hup
  have husable : interfaceIsUsable (some raw) = true := by
    have htrim : trim raw.toList = "up".toList := by
      rw [← htrimmed, trimmed, String.toList_ofList]
    simp [interfaceIsUsable, htrim]
  simp [egressHealthy, henabled, hpresent, hraw, husable, hcheck]

/-- After a validation that says `PASS`, a round over the same links and the same cache file that
returns while the entries are still fresh asks no resolver and leaves the file alone: its chain
has the cached addresses of every policy whose egress is usable, at least one rule for each, and
every enabled direct egress without a health check is. -/
theorem round_after_pass (hcfg : cfg.validate = .ok ())
    (hrun : Program.run (machineHost menv) (validateReport cfg autoRedirect) m = (.ok report, t))
    (hpass : report.result = "PASS") (hlinks : u.1.links = m.net.links)
    (hfile : u.2.files cfg.dnsCache.path = m.cache.files cfg.dnsCache.path)
    (hwindow : ∀ k, u.2.calls ≤ k → k < v.2.calls → henv.cache.readFails k = none ∧
      ∀ policy ∈ cfg.enabledPolicies, ∀ name, policy.hasName name = true → ∀ entry,
        (m.cache.files cfg.dnsCache.path).find name = some entry →
          henv.cache.clock k < entry.expiresAtEpoch)
    (hround : Program.run (host henv) (reconcileOnce applying order cfg) u = (.ok (), v)) :
    AsksNoResolver henv (reconcileOnce applying order cfg) u ∧ v.2.files = u.2.files ∧
      policyChain cfg v.1.kernel = chainOf (configuredHealthy m.net.links cfg)
        (cfg.enabledPolicies.map (fun policy =>
          (policy, cachedIps (m.cache.files cfg.dnsCache.path) policy))) ∧
      (∀ policy ∈ cfg.enabledPolicies, ∀ egress,
        KeyedList.lookup (·.name) policy.action.egress (configuredHealthy m.net.links cfg) =
            some egress →
          rulesFor (configuredHealthy m.net.links cfg) policy
            (cachedIps (m.cache.files cfg.dnsCache.path) policy) ≠ []) ∧
      ∀ egress ∈ cfg.egressInterfaces, egress.enabled = true → egress.kind = .direct →
        egress.healthcheck.enabled = false → egress ∈ configuredHealthy m.net.links cfg := by
  have hpasses := (result_pass_iff hcfg hrun).mp hpass
  have hacc := accepted_of_validate hcfg
  have hstays : ∀ policy ∈ cfg.enabledPolicies, StaysCached henv.cache.clock u.2.calls v.2.calls
      (m.cache.files cfg.dnsCache.path) policy := fun policy hpolicy =>
    staysCached_of_passes hpasses hpolicy fun k hk hlast => (hwindow k hk hlast).2 policy hpolicy
  have hon : ∀ policy ∈ cfg.enabledPolicies, policy.matchSpec.domain.isSome = true →
      cfg.dnsCache.enabled = true := by
    intro policy hpolicy hsome
    obtain ⟨domain, hdomain⟩ := Option.isSome_iff_exists.mp hsome
    obtain ⟨name, hname, -⟩ := hstays policy hpolicy domain hdomain
    obtain ⟨hloads, -⟩ :=
      hpasses.cached ⟨policy, hpolicy, name, hasName_iff.mpr ⟨domain, hdomain, hname⟩⟩
    exact (of_decide_eq_true hloads).1
  have hend := resolvesUpTo_reconcileOnce henv order hacc u
  rw [hround] at hend
  obtain ⟨done, -, hcache, hwhole⟩ := hend
  rw [hwhole rfl] at hcache
  have hchain := chain_reconcileOnce henv hacc hround
  rw [hlinks] at hcache hchain
  rw [← hfile] at hstays ⊢
  obtain ⟨hfiles, hcached⟩ : (cacheAfter henv.cache cfg (configuredHealthy m.net.links cfg)
      cfg.enabledPolicies u.2).files = u.2.files ∧ _ :=
    chainOf_cached hon hstays (fun k hk hlast => (hwindow k hk hlast).1) le_rfl
      (congrArg CacheStore.calls hcache).ge
  refine ⟨asksNoResolver_reconcileOnce hacc hon hstays
    (fun k hk hlast => (hwindow k hk hlast).1) hround,
    (congrArg CacheStore.files hcache).trans hfiles, hchain.trans hcached, ?_, ?_⟩
  · intro policy hpolicy egress hegress
    rw [rulesFor_some hegress, policySpecs]
    cases hdomain : policy.matchSpec.domain with
    | none => simp
    | some domain =>
        obtain ⟨name, -, hips, -⟩ := hstays policy hpolicy domain hdomain
        simp [hips]
  · intro egress hegress henabled hdirect hcheck
    exact List.mem_filter.mpr ⟨hegress,
      usable_of_linkReady (hpasses.links egress hegress henabled) henabled hdirect hcheck⟩

end NextRound

/-- The machine is validated. -/
def validated : Except Error Report × Machine :=
  Program.run (machineHost quietMachine) (validateReport domainConfig false) cachedMachine

theorem validated_spec : validated.1.toOption.map Report.result = some "PASS" := by decide +kernel

theorem round_after_pass_cached :
    AsksNoResolver quietHost (reconcileOnce applying listOrder domainConfig)
        (bareState.1, servedHost.2.2) ∧
      policyChain domainConfig (roundAfter quietHost).2.1.kernel = [⟨some "192.0.2.1", none, 16⟩] := by
  obtain ⟨report, hreport, hpass⟩ := Option.map_eq_some_iff.mp validated_spec
  have hrun : Program.run (machineHost quietMachine) (validateReport domainConfig false)
      cachedMachine = (.ok report, validated.2) := by
    refine Prod.ext ?_ rfl
    cases hfirst : validated.1 with
    | error e =>
        rw [hfirst] at hreport
        cases hreport
    | ok found =>
        rw [hfirst] at hreport
        exact hfirst.trans (congrArg Except.ok (Option.some.inj hreport))
  have hround : Program.run (host quietHost) (reconcileOnce applying listOrder domainConfig)
      (bareState.1, servedHost.2.2) = (.ok (), (roundAfter quietHost).2) :=
    Prod.ext (by decide +kernel) rfl
  have hfresh : ∀ name, ∀ entry,
      (servedHost.2.2.files domainConfig.dnsCache.path).find name = some entry →
        (1000 : UInt64) < entry.expiresAtEpoch := by
    have hfile : servedHost.2.2.files domainConfig.dnsCache.path = .cache { emptyCache with
        entries := [⟨"a.example", ["192.0.2.1"], 1000, 1300, "dns-proxy", none⟩] } := by
      decide +kernel
    intro name entry hentry
    rw [hfile] at hentry
    have hmem := KeyedList.mem_of_lookup DnsCacheEntry.domain hentry
    rw [List.mem_singleton.mp hmem]
    decide
  obtain ⟨hasks, -, hchain, -⟩ := round_after_pass (u := (bareState.1, servedHost.2.2)) (by decide)
    hrun hpass rfl rfl
    (fun k _ _ => ⟨rfl, fun policy _ name _ entry hentry => hfresh name entry hentry⟩) hround
  exact ⟨hasks, hchain.trans (by decide +kernel)⟩

end EveNet
