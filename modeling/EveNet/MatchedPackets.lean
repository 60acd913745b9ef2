import EveNet.PolicyChain

/-!
# The packets that the rules of a policy match

Of the address fields of a match block only one is left in a rule: the resolved addresses if
the block has a domain, else the prefix, else the single address. The uid is in every rule.
-/

namespace EveNet

/-- What rules look at in an outgoing packet. -/
structure OutPacket (α : Type) where
  dest : α
  uid : UInt32

section Fields

variable {α : Type} (covers : String → Set α) (ips : List String) (p : OutPacket α)

/-- The rule matches the packet, where `covers` is what an address expression stands for. -/
def NftRule.Matches (rule : NftRule) : Prop :=
  (∀ dest ∈ rule.daddr, p.dest ∈ covers dest) ∧ ∀ uid ∈ rule.skuid, p.uid = uid

namespace MatchSpec

variable (spec : MatchSpec)

/-- The packet satisfies every field of the block. -/
def Satisfied : Prop :=
  (∀ destIp ∈ spec.destIp, p.dest ∈ covers destIp) ∧
    (∀ destCidr ∈ spec.destCidr, p.dest ∈ covers destCidr) ∧
    (∀ uid ∈ spec.uid, p.uid = uid) ∧
    (spec.domain.isSome → ∃ ip ∈ ips, p.dest ∈ covers ip)

/-- The address expressions of the rules, if they have any. -/
def usedAddresses : Option (List String) :=
  if spec.domain.isSome then some ips else (matchDest spec).map (fun dest => [dest])

/-- The address expressions of the block that no rule has. -/
def unusedAddresses : List String :=
  if spec.domain.isSome then spec.destIp.toList ++ spec.destCidr.toList
  else if spec.destCidr.isSome then spec.destIp.toList else []

/-- The packet satisfies the fields that are in the rules. -/
def SatisfiedByUsed : Prop :=
  (∀ dests ∈ spec.usedAddresses ips, ∃ dest ∈ dests, p.dest ∈ covers dest) ∧
    ∀ uid ∈ spec.uid, p.uid = uid

theorem satisfied_iff : spec.Satisfied covers ips p ↔
    spec.SatisfiedByUsed covers ips p ∧ ∀ dest ∈ spec.unusedAddresses, p.dest ∈ covers dest := by
  obtain ⟨destIp, destCidr, uid, domain⟩ := spec
  unfold Satisfied SatisfiedByUsed usedAddresses unusedAddresses matchDest
  cases domain <;> cases destCidr <;> cases destIp <;> simp <;> tauto

end MatchSpec

/-- Some rule of the policy matches what satisfies the fields in the rules. -/
theorem matches_rulesFor {egresses : List EgressInterface} {egress : EgressInterface}
    {policy : Policy}
    (hegress : KeyedList.lookup (·.name) policy.action.egress egresses = some egress) :
    (∃ rule ∈ rulesFor egresses policy ips, rule.Matches covers p) ↔
      policy.matchSpec.SatisfiedByUsed covers ips p := by
  rw [rulesFor_some hegress]
  unfold policySpecs MatchSpec.SatisfiedByUsed MatchSpec.usedAddresses
  split_ifs with hdomain
  · simp only [List.mem_map, exists_exists_and_eq_and, NftRule.Matches, ruleOf, matchDest,
      resolvedSpec, Option.none_or, Option.mem_def, Option.some.injEq, forall_eq']
    constructor
    · rintro ⟨ip, hip, hdest, huid⟩
      exact ⟨⟨ip, hip, hdest⟩, huid⟩
    · rintro ⟨⟨ip, hip, hdest⟩, huid⟩
      exact ⟨ip, hip, hdest, huid⟩
  · cases hdest : matchDest policy.matchSpec <;> simp [NftRule.Matches, ruleOf, hdest]

/-- The expressions in the rules cover nothing outside the fields that are left out. -/
def MatchSpec.UnusedCover (spec : MatchSpec) : Prop :=
  ∀ dests ∈ spec.usedAddresses ips, ∀ dest ∈ dests, ∀ other ∈ spec.unusedAddresses,
    covers dest ⊆ covers other

theorem satisfied_by_used_iff (spec : MatchSpec) :
    (∀ p, spec.SatisfiedByUsed covers ips p ↔ spec.Satisfied covers ips p) ↔
      spec.UnusedCover covers ips := by
  constructor
  · intro hsame dests hdests dest hdest other hother addr haddr
    have hused : spec.SatisfiedByUsed covers ips ⟨addr, spec.uid.getD 0⟩ := by
      refine ⟨fun dests' hdests' => ?_, fun uid huid => ?_⟩
      · obtain rfl := Option.mem_unique hdests hdests'
        exact ⟨dest, hdest, haddr⟩
      · rw [Option.mem_def.mp huid]
        rfl
    exact ((spec.satisfied_iff covers ips _).mp ((hsame _).mp hused)).2 other hother
  · intro hcover p
    rw [spec.satisfied_iff]
    refine ⟨fun hused => ⟨hused, fun other hother => ?_⟩, And.left⟩
    cases hdests : spec.usedAddresses ips with
    | some dests =>
        obtain ⟨dest, hdest, haddr⟩ := hused.1 dests hdests
        exact hcover dests hdests dest hdest other hother haddr
    | none =>
        have hnone : spec.domain.isSome = false ∧ spec.destCidr = none := by
          unfold MatchSpec.usedAddresses matchDest at hdests
          split_ifs at hdests with hdomain
          exact ⟨by simpa using hdomain, by cases h : spec.destCidr <;> simp_all⟩
        rw [MatchSpec.unusedAddresses, hnone.1, hnone.2] at hother
        cases hother

end Fields

/-- A round that returns adds, for every enabled policy whose egress is healthy, rules that match
the packets of the fields in the rules; these are the packets of all its fields exactly when no
field that is left out would have excluded one. -/
theorem matched_packets {cfg : Config} {env : HostEnv} {order : MapOrder} {s t : HostState}
    (hcfg : cfg.validate = .ok ())
    (hrun : Program.run (host env) (reconcileOnce applying order cfg) s = (.ok (), t))
    {α : Type} (covers : String → Set α) :
    policyChain cfg t.1.kernel =
        (resolutions env.cache cfg (configuredHealthy s.1.links cfg) cfg.enabledPolicies s.2).flatMap
          (fun r => rulesFor (configuredHealthy s.1.links cfg) r.1 r.2) ∧
      ∀ policy ∈ cfg.enabledPolicies, ∀ egress ∈ KeyedList.lookup (·.name) policy.action.egress
          (configuredHealthy s.1.links cfg), ∀ ips : List String,
        (∀ p, (∃ rule ∈ rulesFor (configuredHealthy s.1.links cfg) policy ips,
            rule.Matches covers p) ↔ policy.matchSpec.SatisfiedByUsed covers ips p) ∧
          ((∀ p, (∃ rule ∈ rulesFor (configuredHealthy s.1.links cfg) policy ips,
              rule.Matches covers p) ↔ policy.matchSpec.Satisfied covers ips p) ↔
            policy.matchSpec.UnusedCover covers ips) := by
  refine ⟨chain_reconcileOnce env (accepted_of_validate hcfg) hrun,
    fun policy _ egress hegress ips => ⟨fun p => matches_rulesFor covers ips p hegress, ?_⟩⟩
  rw [← satisfied_by_used_iff]
  exact forall_congr' fun p => iff_congr (matches_rulesFor covers ips p hegress) Iff.rfl

/-- An address or a prefix, as its number and its length. -/
def readPrefix (text : String) : Option (ℕ × ℕ) :=
  match SocketAddr.readIpv4 text.toList with
  | some ((a, b, c, d), []) => some (((a * 256 + b) * 256 + c) * 256 + d, 32)
  | some ((a, b, c, d), '/' :: rest) =>
    match SocketAddr.readNumber 10 (some 2) false 32 rest with
    | some (len, []) => some (((a * 256 + b) * 256 + c) * 256 + d, len)
    | _ => none
  | _ => none

/-- The addresses that a text stands for. -/
def addressesOf (text : String) : Set (BitVec 32) :=
  { addr | (readPrefix text).any (fun r => addr.toNat / 2 ^ (32 - r.2) = r.1 / 2 ^ (32 - r.2)) }

instance (text : String) (addr : BitVec 32) : Decidable (addr ∈ addressesOf text) :=
  inferInstanceAs (Decidable ((readPrefix text).any _ = true))

/-- The office with one address out of its network. -/
def networkPolicy : Policy :=
  { id := "office", matchSpec := { destIp := some "10.0.0.1", destCidr := some "10.0.0.0/8" },
    action := ⟨"tun0"⟩ }

def networkConfig : Config := configOf [tunnel "tun0" 100 16] [networkPolicy]

theorem run_networkConfig : ∃ t, Program.run (host quietHost)
    (reconcileOnce applying listOrder networkConfig) bareState = (.ok (), t) := ⟨_, rfl⟩

theorem matched_packets_network : ∃ t : HostState,
    policyChain networkConfig t.1.kernel =
        (resolutions quietHost.cache networkConfig
          (configuredHealthy bareState.1.links networkConfig) networkConfig.enabledPolicies
          bareState.2).flatMap
          (fun r => rulesFor (configuredHealthy bareState.1.links networkConfig) r.1 r.2) ∧
      ∀ p : OutPacket (BitVec 32),
        (∃ rule ∈ rulesFor (configuredHealthy bareState.1.links networkConfig) networkPolicy [],
          rule.Matches addressesOf p) ↔
          networkPolicy.matchSpec.SatisfiedByUsed addressesOf [] p := by
  obtain ⟨t, hrun⟩ := run_networkConfig
  obtain ⟨hchain, hpackets⟩ := matched_packets (by decide) hrun addressesOf
  exact ⟨t, hchain, (hpackets networkPolicy (by decide) (tunnel "tun0" 100 16) (by decide) []).1⟩

/-- A packet to `10.0.0.2` goes through the tunnel of a policy for `10.0.0.1`. -/
theorem not_matched_packets : ¬ ∀ (cfg : Config) (env : HostEnv) (order : MapOrder)
    (s t : HostState), cfg.validate = .ok () →
    Program.run (host env) (reconcileOnce applying order cfg) s = (.ok (), t) →
    ∀ policy ∈ cfg.enabledPolicies, ∀ egress ∈ KeyedList.lookup (·.name) policy.action.egress
      (configuredHealthy s.1.links cfg), ∀ (ips : List String) (p : OutPacket (BitVec 32)),
      (∃ rule ∈ rulesFor (configuredHealthy s.1.links cfg) policy ips,
        rule.Matches addressesOf p) ↔ policy.matchSpec.Satisfied addressesOf ips p := by
  intro h
  obtain ⟨t, hrun⟩ := run_networkConfig
  have hsame := h networkConfig quietHost listOrder bareState t (by decide) hrun networkPolicy
    (by decide) (tunnel "tun0" 100 16) (by decide) [] ⟨0x0a000002, 0⟩
  have hcovered : (0x0a000002 : BitVec 32) ∈ addressesOf "10.0.0.0/8" := by decide
  have hother : (0x0a000002 : BitVec 32) ∉ addressesOf "10.0.0.1" := by decide
  refine hother ((hsame.mp ⟨⟨some "10.0.0.0/8", none, 16⟩, by decide, ?_, ?_⟩).1 _ rfl)
  · rintro dest ⟨⟩
    exact hcovered
  · rintro uid ⟨⟩

end EveNet
