import EveNet.PriorityRules
import EveNet.RepeatedRounds
import EveNet.MatchedPackets

/-!
# Where the packets of the host go

A packet that leaves the host passes the policy chain, where every rule that matches sets its
mark, and is then routed: the ip rules are asked in the order of their priorities, and the first
one whose table has a route decides. After a round that returned, whatever rounds came before
it and wherever they were cut off, a packet goes where the last policy that it satisfies sends
it, and every other packet goes where it would have gone without the program.
-/

namespace EveNet

/-! ### Marks -/

section Marks

variable {α : Type} (covers : String → Set α) [∀ text addr, Decidable (addr ∈ covers text)]
  (p : OutPacket α)

instance (rule : NftRule) : Decidable (rule.Matches covers p) :=
  @instDecidableAnd _ _ (Option.decidableForallMem rule.daddr) (Option.decidableForallMem rule.skuid)

instance (spec : MatchSpec) (ips : List String) : Decidable (spec.SatisfiedByUsed covers ips p) :=
  @instDecidableAnd _ _ (Option.decidableForallMem (spec.usedAddresses ips))
    (Option.decidableForallMem spec.uid)

/-- The mark of a packet behind the rules of a chain. -/
def markBehind (rules : List NftRule) (mark : UInt32) : UInt32 :=
  rules.foldl (fun mark rule => if rule.Matches covers p then rule.mark else mark) mark

theorem markBehind_append (rules rules' : List NftRule) (mark : UInt32) :
    markBehind covers p (rules ++ rules') mark =
      markBehind covers p rules' (markBehind covers p rules mark) := List.foldl_append

/-- Rules that all set one mark set it if one of them matches. -/
theorem markBehind_of_const {rules : List NftRule} {m : UInt32} (h : ∀ rule ∈ rules, rule.mark = m)
    (mark : UInt32) : markBehind covers p rules mark =
      if ∃ rule ∈ rules, rule.Matches covers p then m else mark := by
  induction rules generalizing mark with
  | nil => simp [markBehind]
  | cons rule rules ih =>
      have hrest := ih (fun r hr => h r (List.mem_cons_of_mem _ hr))
        (if rule.Matches covers p then rule.mark else mark)
      change markBehind covers p rules _ = _
      rw [hrest, h rule List.mem_cons_self]
      by_cases hmatch : rule.Matches covers p
      · simp [hmatch]
      · simp [hmatch]

/-- The egress of a policy, if the packet satisfies the fields in the policy's rules. -/
def steeredBy (egresses : List EgressInterface) (r : Policy × List String) :
    Option EgressInterface :=
  (KeyedList.lookup (·.name) r.1.action.egress egresses).filter
    (fun _ => r.1.matchSpec.SatisfiedByUsed covers r.2 p)

/-- The egress of the last such policy. -/
def egressFor (egresses : List EgressInterface) (resolved : List (Policy × List String)) :
    Option EgressInterface :=
  (resolved.filterMap (steeredBy covers p egresses)).getLast?

theorem mem_of_egressFor {egresses : List EgressInterface} {resolved : List (Policy × List String)}
    {egress : EgressInterface} (h : egressFor covers p egresses resolved = some egress) :
    egress ∈ egresses := by
  obtain ⟨r, -, hr⟩ := List.mem_filterMap.mp (List.mem_of_getLast? h)
  rw [steeredBy, Option.filter_eq_some_iff] at hr
  exact KeyedList.mem_of_lookup _ hr.1

theorem markBehind_rulesFor (egresses : List EgressInterface) (r : Policy × List String)
    (mark : UInt32) : markBehind covers p (rulesFor egresses r.1 r.2) mark =
      ((steeredBy covers p egresses r).map (·.fwmark)).getD mark := by
  cases hegress : KeyedList.lookup (·.name) r.1.action.egress egresses with
  | none =>
      rw [rulesFor, steeredBy, hegress]
      rfl
  | some egress =>
      have hmarks : ∀ rule ∈ rulesFor egresses r.1 r.2, rule.mark = egress.fwmark := by
        rw [rulesFor_some hegress]
        intro rule hrule
        obtain ⟨spec, -, rfl⟩ := List.mem_map.mp hrule
        rfl
      rw [markBehind_of_const covers p hmarks]
      simp only [matches_rulesFor covers r.2 p hegress]
      rw [steeredBy, hegress, Option.filter_some]
      by_cases hsat : r.1.matchSpec.SatisfiedByUsed covers r.2 p
      · rw [if_pos hsat, if_pos (decide_eq_true hsat)]
        rfl
      · rw [if_neg hsat, if_neg (by simpa using hsat)]
        rfl

/-- Behind the chain of a configuration the packet bears the mark of the egress for it. -/
theorem markBehind_chainOf (egresses : List EgressInterface)
    (resolved : List (Policy × List String)) (mark : UInt32) :
    markBehind covers p (chainOf egresses resolved) mark =
      ((egressFor covers p egresses resolved).map (·.fwmark)).getD mark := by
  induction resolved generalizing mark with
  | nil => rfl
  | cons r resolved ih =>
      rw [chainOf, List.flatMap_cons, markBehind_append, markBehind_rulesFor, ← chainOf, ih,
        egressFor, egressFor, List.filterMap_cons]
      cases steeredBy covers p egresses r with
      | none => rfl
      | some egress =>
          dsimp only
          rw [List.getLast?_cons]
          cases (resolved.filterMap (steeredBy covers p egresses)).getLast? with
          | none => rfl
          | some later => rfl

end Marks

/-! ### Routes -/

/-- How a table of routes answers. -/
structure RouteLookup (α : Type) where
  find : List Route → α → Option Route
  find_nil : ∀ dest, find [] dest = none
  find_default : ∀ route dest, route.dest = "default" → find [route] dest = some route

section Routes

variable {α : Type} (lookup : RouteLookup α)

/-- The route of a packet by one rule. -/
def IpRule.route (routes : UInt32 → List Route) (dest : α) (mark : UInt32) (rule : IpRule) :
    Option Route :=
  if rule.fwmark = none ∨ rule.fwmark = some mark then lookup.find (routes rule.table) dest
  else none

def routeBy (rules : List IpRule) (routes : UInt32 → List Route) (dest : α) (mark : UInt32) :
    Option Route :=
  PriorityRules.ask (fun rule : IpRule => rule.priority.toNat)
    (IpRule.route lookup routes dest mark) rules

def Kernel.routeFor (k : Kernel) (dest : α) (mark : UInt32) : Option Route :=
  routeBy lookup k.ipRules k.routes dest mark

/-- The route of a packet that passes the policy chain. -/
def Kernel.send (k : Kernel) (cfg : Config) (covers : String → Set α)
    [∀ text addr, Decidable (addr ∈ covers text)] (p : OutPacket α) (mark : UInt32) :
    Option Route :=
  k.routeFor lookup p.dest (markBehind covers p (policyChain cfg k) mark)

/-- The rules up to this priority. -/
def rulesUpTo (priority : UInt32) (rules : List IpRule) : List IpRule :=
  PriorityRules.upTo (fun rule : IpRule => rule.priority.toNat) priority.toNat rules

theorem routeBy_congr {rules : List IpRule} {routes routes' : UInt32 → List Route}
    (h : ∀ rule ∈ rules, routes rule.table = routes' rule.table) (dest : α) (mark : UInt32) :
    routeBy lookup rules routes dest mark = routeBy lookup rules routes' dest mark := by
  apply PriorityRules.ask_congr
  intro rule hrule
  rw [IpRule.route, IpRule.route, h rule hrule]

end Routes

/-! ### What rounds leave of the host's own routing -/

/-- The host's own rules have no table of the configuration, and none of them is found for an
egress. -/
structure ForeignRules (cfg : Config) (rules : List IpRule) : Prop where
  tables : ∀ rule ∈ rules, ∀ egress ∈ cfg.egressInterfaces, rule.table ≠ egress.table
  unlisted : ∀ rule ∈ rules, ∀ egress ∈ cfg.egressInterfaces, ¬ Covers rule (fwmarkRule egress)

/-- No rule of an egress is found for another one. -/
def RulesApart (cfg : Config) : Prop :=
  ∀ egress ∈ cfg.egressInterfaces, ∀ other ∈ cfg.egressInterfaces,
    Covers (fwmarkRule egress) (fwmarkRule other) → egress = other

section Grown

variable {α : Type} (lookup : RouteLookup α) {cfg : Config} {start k : Kernel}

/-- A property that no command of a round breaks holds after rounds, too. -/
theorem keeps_afterRounds {Q : Kernel → Prop} (hQ : RoundKeeps cfg Q) (hcfg : Accepted cfg)
    (hstart : Q start) (h : AfterRounds cfg start k) : Q k := by
  induction h with
  | start => exact hstart
  | @round env order s t before hcut ih => exact keeps_reconcileOnce env hQ hcfg order s ih t hcut

/-- In the tables of the configuration there are default routes only. -/
def OnlyDefaults (cfg : Config) (k : Kernel) : Prop :=
  ∀ egress ∈ cfg.egressInterfaces, ∀ route ∈ k.routes egress.table, route.dest = "default"

theorem roundKeeps_onlyDefaults (cfg : Config) : RoundKeeps cfg (OnlyDefaults cfg) where
  addTable k h := h
  setChain k rules h _ := h
  replaceDefault k egress h _ := by
    intro e he route hroute
    unfold Kernel.replaceDefault at hroute
    dsimp only at hroute
    by_cases htable : e.table = egress.table
    · rw [htable, Function.update_self, ← htable, List.mem_append] at hroute
      rcases hroute with hroute | hroute
      · exact h e he route (List.mem_of_mem_filter hroute)
      · rw [List.mem_singleton.mp hroute]
        rfl
    · rw [Function.update_of_ne htable] at hroute
      exact h e he route hroute
  addIpRule k egress h _ _ := h

/-- Packets with a mark of their own are routed as before the rounds. -/
theorem routeFor_unmarked (hgrown : Grown cfg start k) (hforeign : ForeignRules cfg start.ipRules)
    {mark : UInt32} (hmark : mark ∉ cfg.egressInterfaces.map (·.fwmark)) (dest : α) :
    k.routeFor lookup dest mark = start.routeFor lookup dest mark := by
  obtain ⟨own, hown, -, hrules⟩ := hgrown.rules
  have hsilent : ∀ rule ∈ own, rule.route lookup k.routes dest mark = none := by
    intro rule hrule
    obtain ⟨egress, hegress, rfl⟩ := hrules rule hrule
    refine if_neg fun hselects => hmark ?_
    have heq : egress.fwmark = mark := Option.some.inj (hselects.resolve_left nofun)
    rw [← heq]
    exact List.mem_map_of_mem hegress
  have hsame : ∀ rule ∈ start.ipRules, k.routes rule.table = start.routes rule.table := by
    intro rule hrule
    apply hgrown.routes
    intro htable
    obtain ⟨egress, hegress, heq⟩ := List.mem_map.mp htable
    exact hforeign.tables rule hrule egress hegress heq.symm
  rw [Kernel.routeFor, hown, routeBy, PriorityRules.ask_append_of_none _ hsilent]
  exact routeBy_congr lookup hsame dest mark

/-- Packets with the mark of an egress that has its rule and its route: first the host's own
rules up to the priority of the egress, then the route of the egress. -/
theorem routeFor_marked (hcfg : Accepted cfg) (hgrown : Grown cfg start k)
    (hforeign : ForeignRules cfg start.ipRules) {egress : EgressInterface}
    (hconfig : OfConfig cfg egress) (hrule : fwmarkRule egress ∈ k.ipRules)
    (hroutes : k.routes egress.table = [defaultRoute egress]) (dest : α) :
    k.routeFor lookup dest egress.fwmark =
      (routeBy lookup (rulesUpTo egress.rulePriority start.ipRules) start.routes dest
        egress.fwmark).or (some (defaultRoute egress)) := by
  obtain ⟨own, hown, hnodup, hrules⟩ := hgrown.rules
  obtain ⟨e, he, hsame⟩ := hconfig
  have hsameRule : fwmarkRule e = fwmarkRule egress := by
    change fwmarkRule e.fixed = fwmarkRule egress.fixed
    rw [hsame]
  -- the rule is none of the host's own, and the only one of the egresses with this mark
  have hmem : fwmarkRule egress ∈ own := by
    rw [hown, List.mem_append] at hrule
    refine hrule.resolve_left fun hstart => hforeign.tables _ hstart e he ?_
    exact (table_eq_of_fixed hsame).symm
  obtain ⟨before, after, rfl⟩ := List.append_of_mem hmem
  have hsilent : ∀ rule ∈ before ++ after, rule.route lookup k.routes dest egress.fwmark = none := by
    intro rule hin
    have hne : rule ≠ fwmarkRule egress := by
      rintro rfl
      exact (List.nodup_cons.mp (List.nodup_middle.mp hnodup)).1 hin
    obtain ⟨other, hother, rfl⟩ := hrules rule (by
      rcases List.mem_append.mp hin with h | h
      · exact List.mem_append_left _ h
      · exact List.mem_append_right _ (List.mem_cons_of_mem _ h))
    refine if_neg fun hselects => hne ?_
    have heq : other.fwmark = egress.fwmark := Option.some.inj (hselects.resolve_left nofun)
    have hmarks : other.fwmark = e.fwmark := heq.trans (fwmark_eq_of_fixed hsame).symm
    rw [List.inj_on_of_nodup_map hcfg.marks hother he hmarks, hsameRule]
  have hanswer : (fwmarkRule egress).route lookup k.routes dest egress.fwmark =
      some (defaultRoute egress) := by
    have hselects : (fwmarkRule egress).fwmark = none ∨
        (fwmarkRule egress).fwmark = some egress.fwmark := Or.inr rfl
    rw [IpRule.route, if_pos hselects]
    change lookup.find (k.routes egress.table) dest = _
    rw [hroutes]
    exact lookup.find_default _ dest rfl
  have hforeignRoutes : ∀ rule ∈ rulesUpTo egress.rulePriority start.ipRules,
      k.routes rule.table = start.routes rule.table := by
    intro rule hin
    apply hgrown.routes
    intro htable
    obtain ⟨other, hother, heq⟩ := List.mem_map.mp htable
    exact hforeign.tables rule (List.mem_of_mem_filter hin) other hother heq.symm
  rw [Kernel.routeFor, hown, routeBy, PriorityRules.ask_append_of_some _ hanswer
    (fun r hr => hsilent r (List.mem_append_left _ hr))
    (fun r hr => hsilent r (List.mem_append_right _ hr))]
  exact congrArg (Option.or · _) (routeBy_congr lookup hforeignRoutes dest egress.fwmark)

end Grown

/-! ### After a round -/

section Round

variable {env : HostEnv} {cfg : Config} {order : MapOrder} {s t : HostState} {start : Kernel}
  {healthy : List EgressInterface}

/-- A round that returned has left the rule of each of its egresses, unless another one is found
for it. -/
theorem rule_of_round (hcfg : Accepted cfg) (hnames : env.net.tableName = printedName)
    (hapart : RulesApart cfg) (hgrown : Grown cfg start t.1.kernel)
    (hforeign : ForeignRules cfg start.ipRules)
    (hhealthy : healthyEgresses s.1.links cfg = .ok healthy)
    (hrun : Program.run (host env) (reconcileOnce applying order cfg) s = (.ok (), t))
    {egress : EgressInterface} (hmem : egress ∈ healthy) :
    fwmarkRule egress ∈ t.1.kernel.ipRules := by
  have hfinds : Finds env.net.tableName Covers := hnames ▸ finds_covers
  obtain ⟨healthy', hhealthy', hrules, -⟩ := routing_reconcileOnce hcfg hfinds hrun
  obtain rfl : healthy = healthy' := Except.ok.inj (hhealthy.symm.trans hhealthy')
  obtain ⟨e, he, hsame⟩ := ofConfig_of_healthyEgresses hcfg hhealthy egress hmem
  have hsameRule : fwmarkRule e = fwmarkRule egress := by
    change fwmarkRule e.fixed = fwmarkRule egress.fixed
    rw [hsame]
  have hwalk : fwmarkRule egress ∈ (order.walk healthy).map fwmarkRule :=
    List.mem_map_of_mem ((order.perm healthy).mem_iff.mpr hmem)
  have hgrew := CoveredList.mem_or_covered_foldl_grow Covers (l := s.1.kernel.ipRules) hwalk
  rw [← hrules] at hgrew
  rcases hgrew with hin | ⟨rule, hrule, hcovers⟩
  · exact hin
  · obtain ⟨own, hown, -, howner⟩ := hgrown.rules
    rw [hown, List.mem_append] at hrule
    rw [← hsameRule] at hcovers ⊢
    rcases hrule with hrule | hrule
    · exact absurd hcovers (hforeign.unlisted rule hrule e he)
    · obtain ⟨other, hother, rfl⟩ := howner rule hrule
      obtain rfl := hapart other hother e he hcovers
      rw [hown]
      exact List.mem_append_right _ hrule

theorem routes_of_round (hcfg : Accepted cfg) (hnames : env.net.tableName = printedName)
    (hdefaults : OnlyDefaults cfg s.1.kernel)
    (hhealthy : healthyEgresses s.1.links cfg = .ok healthy)
    (hrun : Program.run (host env) (reconcileOnce applying order cfg) s = (.ok (), t))
    {egress : EgressInterface} (hmem : egress ∈ healthy) :
    t.1.kernel.routes egress.table = [defaultRoute egress] := by
  have hfinds : Finds env.net.tableName Covers := hnames ▸ finds_covers
  obtain ⟨healthy', hhealthy', -, hroutes⟩ := routing_reconcileOnce hcfg hfinds hrun
  obtain rfl : healthy = healthy' := Except.ok.inj (hhealthy.symm.trans hhealthy')
  obtain ⟨e, he, hsame⟩ := ofConfig_of_healthyEgresses hcfg hhealthy egress hmem
  have hothers : (s.1.kernel.routes egress.table).filter (fun r => r.dest != "default") = [] := by
    rw [← table_eq_of_fixed hsame]
    exact List.filter_eq_nil_iff.mpr fun route hroute => by simp [hdefaults e he route hroute]
  rw [hroutes egress hmem, hothers, List.nil_append]

/-- Where a packet goes after a round that returned, on a host that started without anything of
the configuration's and has since seen any rounds, each cut off anywhere: if it satisfies the
fields in the rules of enabled policies with healthy egresses, by the host's own rules up to the
priority of the last one's egress and then through that egress; if it satisfies none, as on the
host at the start. -/
theorem packets_after_round (hcfg : cfg.validate = .ok ())
    (hnames : env.net.tableName = printedName) (hapart : RulesApart cfg)
    (hstart : Untouched cfg start) (hforeign : ForeignRules cfg start.ipRules)
    (hrounds : AfterRounds cfg start s.1.kernel)
    (hrun : Program.run (host env) (reconcileOnce applying order cfg) s = (.ok (), t)) :
    ∃ healthy, healthyEgresses s.1.links cfg = .ok healthy ∧
      ∀ {α : Type} (lookup : RouteLookup α) (covers : String → Set α)
        [∀ text addr, Decidable (addr ∈ covers text)] (p : OutPacket α) (mark : UInt32),
        mark ∉ cfg.egressInterfaces.map (·.fwmark) →
        t.1.kernel.send lookup cfg covers p mark =
          match egressFor covers p healthy
            (resolutions env.cache cfg healthy cfg.enabledPolicies s.2) with
          | none => start.routeFor lookup p.dest mark
          | some egress =>
            (routeBy lookup (rulesUpTo egress.rulePriority start.ipRules) start.routes p.dest
              egress.fwmark).or (some (defaultRoute egress)) := by
  have hacc := accepted_of_validate hcfg
  obtain ⟨healthy, -, hhealthy, -⟩ := run_reconcileOnce_ok env hrun
  have hafter : AfterRounds cfg start t.1.kernel := by
    have hend := Program.run_mem_visited (host env) (reconcileOnce applying order cfg) s
    rw [hrun] at hend
    exact .round hrounds hend
  have hgrown := grown_of_afterRounds hacc hstart hafter
  have hdefaults : OnlyDefaults cfg s.1.kernel := by
    refine keeps_afterRounds (roundKeeps_onlyDefaults cfg) hacc (fun egress he => ?_) hrounds
    rw [hstart.noRoutes egress he]
    exact fun route hroute => absurd hroute List.not_mem_nil
  refine ⟨healthy, hhealthy, fun {α} lookup covers _ p mark hmark => ?_⟩
  have hchain : policyChain cfg t.1.kernel =
      chainOf healthy (resolutions env.cache cfg healthy cfg.enabledPolicies s.2) :=
    (replaces_reconcileOnce env hhealthy).whole _ _ hrun
  rw [Kernel.send, hchain, markBehind_chainOf]
  cases hegress : egressFor covers p healthy
    (resolutions env.cache cfg healthy cfg.enabledPolicies s.2) with
  | none => exact routeFor_unmarked lookup hgrown hforeign hmark p.dest
  | some egress =>
      have hmem : egress ∈ healthy := mem_of_egressFor covers p hegress
      exact routeFor_marked lookup hacc hgrown hforeign
        (ofConfig_of_healthyEgresses hacc hhealthy egress hmem)
        (rule_of_round hacc hnames hapart hgrown hforeign hhealthy hrun hmem)
        (routes_of_round hacc hnames hdefaults hhealthy hrun hmem) p.dest

end Round

/-! ### A host with a network of its own -/

/-- The length of the prefix by which a route covers an address. -/
def Route.coveringLength (dest : BitVec 32) (route : Route) : Option ℕ :=
  if route.dest = "default" then some 0
  else (readPrefix route.dest).bind
    (fun r => if dest.toNat / 2 ^ (32 - r.2) = r.1 / 2 ^ (32 - r.2) then some r.2 else none)

/-- A table answers with its route of the longest prefix. -/
def longestPrefix : RouteLookup (BitVec 32) where
  find routes dest :=
    (routes.filter (fun route => (route.coveringLength dest).isSome)).argmax
      (fun route => (route.coveringLength dest).getD 0)
  find_nil _ := rfl
  find_default route dest h := by
    have hlength : route.coveringLength dest = some 0 := if_pos h
    rw [List.filter_cons_of_pos (by rw [hlength]; rfl)]
    exact List.argmax_singleton

def homeRoute : Route := ⟨"default", some "192.168.1.1", "wlan0", none⟩

def homeKernel : Kernel where
  nftTables _ := false
  nftChains _ := none
  ipRules := [⟨0, none, 255⟩, ⟨32766, none, 254⟩, ⟨32767, none, 253⟩]
  routes table := if table = 254 then [homeRoute, ⟨"192.168.1.0/24", none, "wlan0", none⟩] else []

def homeState : HostState := (⟨homeKernel, fun _ => linkUp, 0⟩, ⟨fun _ => .absent, 0⟩)

/-- The first round on this host. -/
def homeRound : Except Error Unit × HostState :=
  Program.run (host namingHost) (reconcileOnce applying listOrder officeConfig) homeState

/-- The office goes through the tunnel, everything else does not. -/
theorem packets_after_round_office : officeConfig.validate = .ok () ∧
    homeRound.2.1.kernel.send longestPrefix officeConfig addressesOf ⟨0xcb007107, 1000⟩ 0 =
      some ⟨"default", none, "tun0", none⟩ ∧
    homeRound.2.1.kernel.send longestPrefix officeConfig addressesOf ⟨0xc6336409, 1000⟩ 0 =
      some homeRoute := by
  have hcfg : officeConfig.validate = .ok () := by decide
  have hrun : Program.run (host namingHost) (reconcileOnce applying listOrder officeConfig)
      homeState = (.ok (), homeRound.2) := rfl
  have hapart : RulesApart officeConfig := by
    intro egress he other hother _
    rw [List.mem_singleton.mp he, List.mem_singleton.mp hother]
  have hstart : Untouched officeConfig homeKernel :=
    ⟨rfl, fun _ => rfl, by decide +kernel, by decide +kernel⟩
  have hforeign : ForeignRules officeConfig homeKernel.ipRules :=
    ⟨by decide +kernel, by decide +kernel⟩
  obtain ⟨healthy, hhealthy, hsend⟩ :=
    packets_after_round hcfg rfl hapart hstart hforeign .start hrun
  have hmark : (0 : UInt32) ∉ officeConfig.egressInterfaces.map (·.fwmark) := by decide
  cases hhealthy
  refine ⟨hcfg, ?_, ?_⟩
  · rw [hsend longestPrefix addressesOf _ 0 hmark]
    decide +kernel
  · rw [hsend longestPrefix addressesOf _ 0 hmark]
    decide +kernel

end EveNet
