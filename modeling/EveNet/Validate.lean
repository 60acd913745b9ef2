import EveNet.Config

/-!
# Validation of a configuration

`Config.validate` makes the checks of the source in their order. `Accepted` collects
what a configuration that passes them is known to satisfy, so that later results use
these facts and not the checks.
-/

namespace EveNet

/-- Refuse with `message` when the condition holds. -/
def refuseIf (bad : Prop) [Decidable bad] (message : String) : Except Error Unit :=
  if bad then .error [message] else .ok ()

@[simp] theorem refuseIf_eq_ok {bad : Prop} [Decidable bad] {message : String} {u : Unit} :
    refuseIf bad message = .ok u ↔ ¬ bad := by
  unfold refuseIf
  split_ifs with h <;> simp [h]

theorem except_bind_eq_ok {ε α β : Type} {x : Except ε α} {f : α → Except ε β} {b : β} :
    x >>= f = .ok b ↔ ∃ a, x = .ok a ∧ f a = .ok b := by
  cases x with
  | error e => simp [bind, Except.bind]
  | ok a => simp [bind, Except.bind]

def validateEgress (names : List String) (tables marks : List UInt32)
    (egress : EgressInterface) : Except Error Unit := do
  refuseIf (trimmedEmpty egress.name) "egress interface name cannot be empty"
  refuseIf (egress.name ∈ names) ("duplicate egress interface name: " ++ egress.name)
  refuseIf (egress.table ∈ tables) ("duplicate route table: " ++ toString egress.table)
  refuseIf (egress.fwmark ∈ marks) ("duplicate fwmark: " ++ toString egress.fwmark)
  refuseIf (egress.table = 0 ∨ egress.fwmark = 0)
    ("egress " ++ egress.name ++ " must use non-zero table and fwmark")
  refuseIf (egress.kind = .direct ∧ trimmedEmpty (egress.gateway.getD ""))
    ("direct egress " ++ egress.name ++
      " should define gateway; example: gateway=192.168.0.1")

/-- The egress loop, with the sets of names, tables and marks seen so far. -/
def validateEgresses : (names : List String) → (tables marks : List UInt32) →
    List EgressInterface → Except Error Unit
  | _, _, _, [] => .ok ()
  | names, tables, marks, egress :: egresses => do
    validateEgress names tables marks egress
    validateEgresses (egress.name :: names) (egress.table :: tables) (egress.fwmark :: marks)
      egresses

/-- The validator's own form of a policy domain, which is not `normalizeDomain`. -/
def domainKey (domain : String) : String :=
  String.ofList ((trimEndDots (trim domain.toList)).map Char.toLower)

def MatchSpec.hasAnyMatch (spec : MatchSpec) : Bool :=
  spec.destIp.isSome || spec.destCidr.isSome || spec.uid.isSome || spec.domain.isSome

def validatePolicyDomain (keys : List String) (policy : Policy) : Except Error Unit :=
  match policy.matchSpec.domain with
  | none => .ok ()
  | some domain => do
    refuseIf (domainKey domain = "") ("policy " ++ policy.id ++ " has empty domain match")
    refuseIf (policy.enabled ∧ domainKey domain ∈ keys)
      ("duplicate enabled domain policy for domain: " ++ domainKey domain ++
        ". Use one active domain policy per domain to avoid fwmark conflicts")

def validatePolicy (names enabledNames ids keys : List String) (policy : Policy) :
    Except Error Unit := do
  refuseIf (trimmedEmpty policy.id) "policy id cannot be empty"
  refuseIf (policy.id ∈ ids) ("duplicate policy id: " ++ policy.id)
  validatePolicyDomain keys policy
  refuseIf (policy.action.egress ∉ names)
    ("policy " ++ policy.id ++ " references unknown egress " ++ policy.action.egress)
  refuseIf (policy.enabled ∧ policy.action.egress ∉ enabledNames)
    ("policy " ++ policy.id ++ " references disabled egress " ++ policy.action.egress ++
      "; disable the policy or enable the egress")
  refuseIf (¬ policy.matchSpec.hasAnyMatch) ("policy " ++ policy.id ++ " has empty match block")

/-- The key that an enabled domain policy adds to the set of keys. -/
def policyKeys (policy : Policy) : List String :=
  if policy.enabled then (policy.matchSpec.domain.map domainKey).toList else []

def validatePolicies (names enabledNames : List String) : (ids keys : List String) →
    List Policy → Except Error Unit
  | _, _, [] => .ok ()
  | ids, keys, policy :: policies => do
    validatePolicy names enabledNames ids keys policy
    validatePolicies names enabledNames (policy.id :: ids) (policyKeys policy ++ keys) policies

def allowedUnresolvedModes : List String :=
  ["soft_fail_closed_l3", "allow_stale", "hard_fail_closed_dns_required"]

def unresolvedMode (cfg : Config) : String :=
  String.ofList (trim cfg.dnsCache.unresolvedDomainMode.toList)

def Config.validate (cfg : Config) : Except Error Unit := do
  refuseIf (cfg.version = 0) "config.version must be >= 1"
  refuseIf (cfg.runtime.intervalSec = 0) "runtime.interval_sec must be >= 1"
  refuseIf (cfg.dnsCache.ttlSec = 0) "dns_cache.ttl_sec must be >= 1"
  refuseIf (trimmedEmpty cfg.dnsCache.path) "dns_cache.path cannot be empty"
  refuseIf (cfg.dnsInterception.timeoutMs = 0) "dns_interception.timeout_ms must be >= 1"
  refuseIf ((SocketAddr.parse cfg.dnsInterception.listenAddr).isNone)
    "dns_interception.listen_addr must be a valid socket address, example: 127.0.0.1:5533"
  refuseIf (unresolvedMode cfg ∉ allowedUnresolvedModes)
    ("dns_cache.unresolved_domain_mode must be one of: " ++
      "soft_fail_closed_l3, allow_stale, hard_fail_closed_dns_required")
  refuseIf (unresolvedMode cfg = "hard_fail_closed_dns_required" ∧
      ¬ cfg.dnsCache.dnsInterceptionEnabled)
    ("dns_cache.unresolved_domain_mode=hard_fail_closed_dns_required requires " ++
      "dns_cache.dns_interception_enabled=true")
  refuseIf (unresolvedMode cfg = "hard_fail_closed_dns_required" ∧ ¬ cfg.dnsInterception.enabled)
    ("dns_cache.unresolved_domain_mode=hard_fail_closed_dns_required requires " ++
      "dns_interception.enabled=true")
  refuseIf (trimmedEmpty cfg.wifiUnderlay.interface) "wifi_underlay.interface cannot be empty"
  refuseIf (cfg.egressInterfaces = []) "egress_interfaces cannot be empty"
  validateEgresses [] [] [] cfg.egressInterfaces
  validatePolicies (cfg.egressInterfaces.map (·.name))
    ((cfg.egressInterfaces.filter (·.enabled)).map (·.name)) [] [] cfg.policies

/-! ### What an accepted configuration satisfies -/

structure Accepted (cfg : Config) : Prop where
  listenAddr : (SocketAddr.parse cfg.dnsInterception.listenAddr).isSome
  ttlSec : cfg.dnsCache.ttlSec ≠ 0
  names : (cfg.egressInterfaces.map (·.name)).Nodup
  tables : (cfg.egressInterfaces.map (·.table)).Nodup
  marks : (cfg.egressInterfaces.map (·.fwmark)).Nodup
  nonzero : ∀ egress ∈ cfg.egressInterfaces, egress.table ≠ 0 ∧ egress.fwmark ≠ 0
  ids : (cfg.policies.map (·.id)).Nodup
  keys : (cfg.policies.flatMap policyKeys).Nodup
  egressEnabled : ∀ policy ∈ cfg.enabledPolicies,
    ∃ egress ∈ cfg.egressInterfaces, egress.enabled ∧ egress.name = policy.action.egress
  hasMatch : ∀ policy ∈ cfg.policies, policy.matchSpec.hasAnyMatch

/-- What an egress has to satisfy on its own. -/
structure ValidEgress (egress : EgressInterface) : Prop where
  named : trimmedEmpty egress.name = false
  nonzero : egress.table ≠ 0 ∧ egress.fwmark ≠ 0
  gateway : egress.kind = .direct → trimmedEmpty (egress.gateway.getD "") = false

structure ValidEgresses (egresses : List EgressInterface) : Prop where
  each : ∀ egress ∈ egresses, ValidEgress egress
  names : (egresses.map (·.name)).Nodup
  tables : (egresses.map (·.table)).Nodup
  marks : (egresses.map (·.fwmark)).Nodup

/-- What a policy has to satisfy on its own, next to the names of the egresses. -/
structure ValidPolicy (names enabledNames : List String) (policy : Policy) : Prop where
  named : trimmedEmpty policy.id = false
  domain : ∀ domain, policy.matchSpec.domain = some domain → domainKey domain ≠ ""
  known : policy.action.egress ∈ names
  enabled : policy.enabled = true → policy.action.egress ∈ enabledNames
  hasMatch : policy.matchSpec.hasAnyMatch = true

structure ValidPolicies (names enabledNames : List String) (policies : List Policy) : Prop where
  each : ∀ policy ∈ policies, ValidPolicy names enabledNames policy
  ids : (policies.map (·.id)).Nodup
  keys : (policies.flatMap policyKeys).Nodup

/-- The settings outside the lists of egresses and policies. -/
structure ValidSettings (cfg : Config) : Prop where
  version : cfg.version ≠ 0
  intervalSec : cfg.runtime.intervalSec ≠ 0
  ttlSec : cfg.dnsCache.ttlSec ≠ 0
  path : trimmedEmpty cfg.dnsCache.path = false
  timeoutMs : cfg.dnsInterception.timeoutMs ≠ 0
  listenAddr : (SocketAddr.parse cfg.dnsInterception.listenAddr).isSome = true
  mode : unresolvedMode cfg ∈ allowedUnresolvedModes
  hardMode : unresolvedMode cfg = "hard_fail_closed_dns_required" →
    cfg.dnsCache.dnsInterceptionEnabled = true ∧ cfg.dnsInterception.enabled = true
  underlay : trimmedEmpty cfg.wifiUnderlay.interface = false

def egressNames (egresses : List EgressInterface) : List String := egresses.map (·.name)

def enabledEgressNames (egresses : List EgressInterface) : List String :=
  (egresses.filter (·.enabled)).map (·.name)

theorem except_bind_unit_eq_ok {α : Type} {x : Except Error Unit} {f : Unit → Except Error α}
    {a : α} : x >>= f = .ok a ↔ x = .ok () ∧ f () = .ok a :=
  except_bind_eq_ok.trans ⟨fun ⟨(), h⟩ => h, fun h => ⟨(), h⟩⟩

theorem validateEgress_eq_ok {names : List String} {tables marks : List UInt32}
    {egress : EgressInterface} :
    validateEgress names tables marks egress = .ok () ↔ ValidEgress egress ∧
      egress.name ∉ names ∧ egress.table ∉ tables ∧ egress.fwmark ∉ marks := by
  simp only [validateEgress, except_bind_unit_eq_ok, refuseIf_eq_ok, not_or, not_and,
    Bool.not_eq_true]
  constructor
  · rintro ⟨hnamed, hname, htable, hmark, hnonzero, hgateway⟩
    exact ⟨⟨hnamed, hnonzero, hgateway⟩, hname, htable, hmark⟩
  · rintro ⟨⟨hnamed, hnonzero, hgateway⟩, hname, htable, hmark⟩
    exact ⟨hnamed, hname, htable, hmark, hnonzero, hgateway⟩

theorem validateEgresses_eq_ok {names : List String} {tables marks : List UInt32}
    {egresses : List EgressInterface} :
    validateEgresses names tables marks egresses = .ok () ↔ ValidEgresses egresses ∧
      ∀ egress ∈ egresses, egress.name ∉ names ∧ egress.table ∉ tables ∧
        egress.fwmark ∉ marks := by
  induction egresses generalizing names tables marks with
  | nil => exact ⟨fun _ => ⟨⟨by simp, .nil, .nil, .nil⟩, by simp⟩, fun _ => rfl⟩
  | cons egress egresses ih =>
      rw [validateEgresses, except_bind_unit_eq_ok, validateEgress_eq_ok, ih]
      constructor
      · rintro ⟨⟨hself, hfresh⟩, hrest, hapart⟩
        simp only [List.mem_cons, not_or] at hapart
        refine ⟨⟨List.forall_mem_cons.mpr ⟨hself, hrest.each⟩, ?_, ?_, ?_⟩,
          List.forall_mem_cons.mpr ⟨hfresh, fun e he => ?_⟩⟩
        · refine List.nodup_cons.mpr ⟨fun hmem => ?_, hrest.names⟩
          obtain ⟨e, he, heq⟩ := List.mem_map.mp hmem
          exact (hapart e he).1.1 heq
        · refine List.nodup_cons.mpr ⟨fun hmem => ?_, hrest.tables⟩
          obtain ⟨e, he, heq⟩ := List.mem_map.mp hmem
          exact (hapart e he).2.1.1 heq
        · refine List.nodup_cons.mpr ⟨fun hmem => ?_, hrest.marks⟩
          obtain ⟨e, he, heq⟩ := List.mem_map.mp hmem
          exact (hapart e he).2.2.1 heq
        · obtain ⟨hname, htable, hmark⟩ := hapart e he
          exact ⟨hname.2, htable.2, hmark.2⟩
      · rintro ⟨⟨heach, hnames, htables, hmarks⟩, hapart⟩
        obtain ⟨hself, heach⟩ := List.forall_mem_cons.mp heach
        obtain ⟨hfresh, hapart⟩ := List.forall_mem_cons.mp hapart
        obtain ⟨hname, hnames⟩ := List.nodup_cons.mp hnames
        obtain ⟨htable, htables⟩ := List.nodup_cons.mp htables
        obtain ⟨hmark, hmarks⟩ := List.nodup_cons.mp hmarks
        refine ⟨⟨hself, hfresh⟩, ⟨heach, hnames, htables, hmarks⟩, fun e he => ?_⟩
        obtain ⟨hname', htable', hmark'⟩ := hapart e he
        refine ⟨fun hmem => ?_, fun hmem => ?_, fun hmem => ?_⟩
        · rcases List.mem_cons.mp hmem with heq | hmem
          · exact hname (List.mem_map.mpr ⟨e, he, heq⟩)
          · exact hname' hmem
        · rcases List.mem_cons.mp hmem with heq | hmem
          · exact htable (List.mem_map.mpr ⟨e, he, heq⟩)
          · exact htable' hmem
        · rcases List.mem_cons.mp hmem with heq | hmem
          · exact hmark (List.mem_map.mpr ⟨e, he, heq⟩)
          · exact hmark' hmem

theorem validatePolicyDomain_eq_ok {keys : List String} {policy : Policy} :
    validatePolicyDomain keys policy = .ok () ↔
      (∀ domain, policy.matchSpec.domain = some domain → domainKey domain ≠ "") ∧
        ∀ key ∈ policyKeys policy, key ∉ keys := by
  unfold validatePolicyDomain policyKeys
  cases policy.matchSpec.domain with
  | none => simp
  | some domain =>
      simp only [except_bind_unit_eq_ok, refuseIf_eq_ok, Option.some.injEq, forall_eq']
      cases policy.enabled with
      | false => simp
      | true => simp

theorem validatePolicy_eq_ok {names enabledNames ids keys : List String} {policy : Policy} :
    validatePolicy names enabledNames ids keys policy = .ok () ↔
      ValidPolicy names enabledNames policy ∧ policy.id ∉ ids ∧
        ∀ key ∈ policyKeys policy, key ∉ keys := by
  simp only [validatePolicy, except_bind_unit_eq_ok, refuseIf_eq_ok, validatePolicyDomain_eq_ok,
    not_and, not_not, Bool.not_eq_true, Bool.not_eq_false]
  constructor
  · rintro ⟨hnamed, hid, ⟨hdomain, hkeys⟩, hknown, henabled, hmatch⟩
    exact ⟨⟨hnamed, hdomain, hknown, henabled, hmatch⟩, hid, hkeys⟩
  · rintro ⟨⟨hnamed, hdomain, hknown, henabled, hmatch⟩, hid, hkeys⟩
    exact ⟨hnamed, hid, ⟨hdomain, hkeys⟩, hknown, henabled, hmatch⟩

theorem nodup_policyKeys (policy : Policy) : (policyKeys policy).Nodup := by
  unfold policyKeys
  split_ifs
  · cases policy.matchSpec.domain with
    | none => exact .nil
    | some domain => exact List.nodup_singleton _
  · exact .nil

theorem validatePolicies_eq_ok {names enabledNames ids keys : List String}
    {policies : List Policy} :
    validatePolicies names enabledNames ids keys policies = .ok () ↔
      ValidPolicies names enabledNames policies ∧
        ∀ policy ∈ policies, policy.id ∉ ids ∧ ∀ key ∈ policyKeys policy, key ∉ keys := by
  induction policies generalizing ids keys with
  | nil => exact ⟨fun _ => ⟨⟨by simp, .nil, .nil⟩, by simp⟩, fun _ => rfl⟩
  | cons policy policies ih =>
      rw [validatePolicies, except_bind_unit_eq_ok, validatePolicy_eq_ok, ih]
      constructor
      · rintro ⟨⟨hself, hfresh⟩, hrest, hapart⟩
        refine ⟨⟨List.forall_mem_cons.mpr ⟨hself, hrest.each⟩, ?_, ?_⟩,
          List.forall_mem_cons.mpr ⟨hfresh, fun p hp => ⟨?_, fun key hkey hmem => ?_⟩⟩⟩
        · refine List.nodup_cons.mpr ⟨fun hmem => ?_, hrest.ids⟩
          obtain ⟨p, hp, heq⟩ := List.mem_map.mp hmem
          exact (hapart p hp).1 (heq ▸ List.mem_cons_self)
        · rw [List.flatMap_cons]
          refine List.Nodup.append (nodup_policyKeys policy) hrest.keys fun key hkey hmem => ?_
          obtain ⟨p, hp, hpkey⟩ := List.mem_flatMap.mp hmem
          exact (hapart p hp).2 key hpkey (List.mem_append_left _ hkey)
        · exact fun hmem => (hapart p hp).1 (List.mem_cons_of_mem _ hmem)
        · exact (hapart p hp).2 key hkey (List.mem_append_right _ hmem)
      · rintro ⟨⟨heach, hids, hkeys⟩, hapart⟩
        obtain ⟨hself, heach⟩ := List.forall_mem_cons.mp heach
        obtain ⟨hfresh, hapart⟩ := List.forall_mem_cons.mp hapart
        obtain ⟨hid, hids⟩ := List.nodup_cons.mp hids
        rw [List.flatMap_cons, List.nodup_append] at hkeys
        refine ⟨⟨hself, hfresh⟩, ⟨heach, hids, hkeys.2.1⟩, fun p hp =>
          ⟨fun hmem => ?_, fun key hkey hmem => ?_⟩⟩
        · rcases List.mem_cons.mp hmem with heq | hmem
          · exact hid (List.mem_map.mpr ⟨p, hp, heq⟩)
          · exact (hapart p hp).1 hmem
        · rcases List.mem_append.mp hmem with hown | hmem
          · exact hkeys.2.2 key hown key (List.mem_flatMap.mpr ⟨p, hp, hkey⟩) rfl
          · exact (hapart p hp).2 key hkey hmem

/-- A configuration is accepted exactly when its settings and both of its lists are valid. -/
theorem validate_eq_ok_iff {cfg : Config} :
    cfg.validate = .ok () ↔ ValidSettings cfg ∧ cfg.egressInterfaces ≠ [] ∧
      ValidEgresses cfg.egressInterfaces ∧
      ValidPolicies (egressNames cfg.egressInterfaces) (enabledEgressNames cfg.egressInterfaces)
        cfg.policies := by
  simp only [Config.validate, except_bind_unit_eq_ok, refuseIf_eq_ok, validateEgresses_eq_ok,
    validatePolicies_eq_ok, not_and, not_not, Bool.not_eq_true, Bool.not_eq_false,
    List.not_mem_nil, not_false_eq_true, implies_true, and_true, and_self]
  constructor
  · rintro ⟨hversion, hinterval, httl, hpath, htimeout, hlisten, hmode, hhard, hproxy, hunderlay,
      hnonempty, hegresses, hpolicies⟩
    exact ⟨⟨hversion, hinterval, httl, hpath, htimeout, Option.isNone_eq_false_iff.mp hlisten,
      hmode, fun heq => ⟨hhard heq, hproxy heq⟩, hunderlay⟩, hnonempty, hegresses, hpolicies⟩
  · rintro ⟨hsettings, hnonempty, hegresses, hpolicies⟩
    exact ⟨hsettings.version, hsettings.intervalSec, hsettings.ttlSec, hsettings.path,
      hsettings.timeoutMs, Option.isNone_eq_false_iff.mpr hsettings.listenAddr, hsettings.mode,
      fun heq => (hsettings.hardMode heq).1, fun heq => (hsettings.hardMode heq).2,
      hsettings.underlay, hnonempty, hegresses, hpolicies⟩

theorem accepted_of_validate {cfg : Config} {u : Unit} (h : cfg.validate = .ok u) :
    Accepted cfg := by
  obtain ⟨hsettings, -, hegresses, hpolicies⟩ := validate_eq_ok_iff.mp h
  refine
    { listenAddr := hsettings.listenAddr
      ttlSec := hsettings.ttlSec
      names := hegresses.names
      tables := hegresses.tables
      marks := hegresses.marks
      nonzero := fun e he => (hegresses.each e he).nonzero
      ids := hpolicies.ids
      keys := hpolicies.keys
      egressEnabled := ?_
      hasMatch := fun p hp => (hpolicies.each p hp).hasMatch }
  intro policy hp
  obtain ⟨hmem, hen⟩ := List.mem_filter.mp hp
  obtain ⟨egress, he, hname⟩ := List.mem_map.mp ((hpolicies.each policy hmem).enabled hen)
  obtain ⟨hin, hon⟩ := List.mem_filter.mp he
  exact ⟨egress, hin, hon, hname⟩

end EveNet
