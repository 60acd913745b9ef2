import EveNet.PolicyChain

/-!
# Rules that the configuration justifies

A rule belongs to the configuration when its mark is that of the egress of an enabled policy. A
round that returns leaves such rules only, whatever was there before, and a round that finds
such rules only passes through no others, wherever it fails.
-/

namespace EveNet

section Justified

variable {cfg : Config} {env : HostEnv} {order : MapOrder} {rules : List NftRule}

/-- Each rule has the mark of the egress that some enabled policy goes through. -/
def Justified (cfg : Config) (rules : List NftRule) : Prop :=
  ∀ rule ∈ rules, ∃ policy ∈ cfg.enabledPolicies, ∃ egress ∈ cfg.egressInterfaces,
    egress.name = policy.action.egress ∧ rule.mark = egress.fwmark

theorem Justified.initial {part : List NftRule} (h : Justified cfg rules) (hpart : part <+: rules) :
    Justified cfg part :=
  fun rule hrule => h rule (hpart.subset hrule)

theorem justified_chainOf (links : String → LinkState) (store : CacheStore) :
    Justified cfg (chainOf (configuredHealthy links cfg)
      (resolutions env.cache cfg (configuredHealthy links cfg) cfg.enabledPolicies store)) := by
  intro rule hrule
  obtain ⟨r, hr, egress, hegress, hmem⟩ := mem_chainOf_iff.mp hrule
  exact ⟨r.1, fst_mem_of_mem_resolutions hr, egress,
    List.mem_of_mem_filter (KeyedList.mem_of_lookup _ hegress),
    KeyedList.key_of_lookup _ hegress, mark_of_mem_policyRules hmem⟩

/-- The policy chain of the host holds rules of the configuration only. -/
abbrev ChainJustified (cfg : Config) (s : HostState) : Prop :=
  Justified cfg (policyChain cfg s.1.kernel)

theorem justified_of_round (hcfg : Accepted cfg) {s t : HostState}
    (h : Program.run (host env) (reconcileOnce applying order cfg) s = (.ok (), t)) :
    ChainJustified cfg t := by
  rw [ChainJustified, chain_reconcileOnce env hcfg h]
  exact justified_chainOf s.1.links s.2

/-- Where the egresses cannot be read, the round leaves the chain as it is. -/
theorem chain_sick {e : Error} {s : HostState} (hsick : healthyEgresses s.1.links cfg = .error e) :
    ∀ x ∈ Program.visited (host env) (reconcileOnce applying order cfg) s,
      policyChain cfg x.1.kernel = policyChain cfg s.1.kernel := by
  have htable : Program.Appends (host env) (hostChain cfg) (ensureTableAndChain applying cfg).left s
      [] := Program.Appends.left _ _ (appends_ensureTableAndChain env.net s.1)
  intro x hx
  rcases (Program.mem_visited_bind _).mp hx with hx | ⟨a, t, ht, hx⟩
  · obtain ⟨done, hdone, hchain⟩ := htable.part x hx
    rw [List.prefix_nil.mp hdone, List.append_nil] at hchain
    exact hchain
  have hchain : hostChain cfg t = hostChain cfg s := by
    have hwhole := htable.whole a t ht
    rwa [List.append_nil] at hwhole
  have hlinks : t.1.links = s.1.links := by
    rw [Program.run_left, Prod.mk.injEq] at ht
    obtain ⟨-, rfl⟩ := ht
    exact links_ensureTableAndChain env cfg s.1
  rcases (Program.mem_visited_bind _).mp hx with hx | ⟨healthy, u, hu, -⟩
  · rw [Program.visited_left, List.mem_map] at hx
    obtain ⟨y, hy, rfl⟩ := hx
    rw [visited_healthyEgressMap env.net cfg t.1 y hy]
    exact hchain
  · rw [Program.run_left, run_healthyEgressMap, hlinks, hsick, Prod.mk.injEq] at hu
    exact absurd hu.1 (by simp)

/-- A round brings no other rules into the chain, at any point of it. -/
theorem keeps_justified (hcfg : Accepted cfg) :
    Program.Keeps (host env) (ChainJustified cfg) (reconcileOnce applying order cfg) := by
  intro s hs x hx
  cases hhealthy : healthyEgresses s.1.links cfg with
  | error e =>
      rw [ChainJustified, chain_sick hhealthy x hx]
      exact hs
  | ok healthy =>
      rcases (replaces_reconcileOnce env hhealthy).part x hx with hold | hnew
      · have hsame : policyChain cfg x.1.kernel = policyChain cfg s.1.kernel := hold
        rw [ChainJustified, hsame]
        exact hs
      · rw [chainOf_congr (fixed_of_healthyEgresses hcfg hhealthy)] at hnew
        exact (justified_chainOf s.1.links s.2).initial hnew

end Justified

end EveNet
