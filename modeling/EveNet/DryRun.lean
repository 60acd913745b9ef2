import EveNet.Commands

/-!
# Dry runs

Without `--apply` no subcommand changes anything. The calls that only read are named one by
one; every subcommand makes none but these, whatever it is answered, and on the machine they
leave the kernel, the cache files and the configuration as they are.
-/

namespace EveNet

/-! ### Calls that only read -/

/-- The command lines that list or show, and `ping`. -/
inductive ReadOnlyLine : String → List String → Prop where
  | nftList (args : List String) : ReadOnlyLine "nft" ("list" :: args)
  | ipRuleShow : ReadOnlyLine "ip" ["rule", "show"]
  | ipRouteShow (args : List String) : ReadOnlyLine "ip" ("route" :: "show" :: args)
  | ipJsonRouteShow (args : List String) : ReadOnlyLine "ip" ("-j" :: "route" :: "show" :: args)
  | ipJsonAddrShow (args : List String) :
      ReadOnlyLine "ip" ("-j" :: "-4" :: "addr" :: "show" :: args)
  | wgShow (name : String) : ReadOnlyLine "wg" ["show", name]
  | wgVersion : ReadOnlyLine "wg" ["--version"]
  | commandV (program : String) : ReadOnlyLine "sh" ["-c", "command -v " ++ program]
  | ping (args : List String) : ReadOnlyLine "ping" args

def NetCall.ReadOnly : NetCall → Prop
  | .spawn program args => ReadOnlyLine program args
  | .output program args => ReadOnlyLine program args
  | .outputJson program args => ReadOnlyLine program args
  | .interfaceExists _ => True
  | .operstate _ => True

def CacheCall.ReadOnly : CacheCall → Prop
  | .createParentDir _ => False
  | .write _ _ => False
  | _ => True

def MachineCall.ReadOnly : MachineCall → Prop
  | .net c => c.ReadOnly
  | .cache c => c.ReadOnly
  | .udp _ => True
  | .tool (.probe program args) => ReadOnlyLine program args
  | .tool (.readDir _) => True
  | .config .read => True
  | .config .readValue => True
  | .config (.write _) => False

/-- Kernel, cache files and configuration are the same. -/
structure Unchanged (m x : Machine) : Prop where
  kernel : x.net.kernel = m.net.kernel
  files : x.cache.files = m.cache.files
  config : x.config = m.config

theorem command_of_readOnlyLine {program : String} {args : List String}
    (h : ReadOnlyLine program args) (k : Kernel) : k.command program args = none := by
  cases h <;> rfl

theorem unchanged_net (env : NetEnv) {c : NetCall} (hc : c.ReadOnly) (s : NetState) :
    (netHost env c s).2.kernel = s.kernel := by
  cases c with
  | spawn program args =>
      by_cases hp : program = "ping"
      · simp only [netHost, if_pos hp]
      · simp only [netHost, if_neg hp, spawnCommand, command_of_readOnlyLine hc]
        cases env.fate s.commands <;> rfl
  | output program args => rw [netHost_output]; rfl
  | outputJson program args => rfl
  | interfaceExists name => rfl
  | operstate name => rfl

theorem unchanged_cache (env : CacheEnv) {c : CacheCall} (hc : c.ReadOnly) (s : CacheStore) :
    (cacheHost env c s).2.files = s.files := by
  cases c with
  | nowEpoch => rfl
  | lookup domain => rfl
  | read path =>
      simp only [cacheHost]
      cases env.readFails s.calls <;> rfl
  | createParentDir path => cases hc
  | write path file => cases hc

/-- On the machine the calls that only read change nothing. -/
theorem unchanged_machine (env : MachineEnv) {c : MachineCall} (hc : c.ReadOnly) (m : Machine) :
    Unchanged m (machineHost env c m).2 := by
  cases c with
  | net c => exact ⟨unchanged_net env.net hc m.net, rfl, rfl⟩
  | cache c => exact ⟨rfl, unchanged_cache env.cache hc m.cache, rfl⟩
  | udp c => exact ⟨rfl, rfl, rfl⟩
  | tool c => exact ⟨rfl, rfl, rfl⟩
  | config c =>
      cases c with
      | read => exact ⟨rfl, rfl, rfl⟩
      | readValue => exact ⟨rfl, rfl, rfl⟩
      | write value => cases hc

/-! ### Programs that only read -/

section ReadOnly

variable {cfg : Config} {domain : String}

theorem readOnly_captureOrEmpty {program : String} {args : List String}
    (h : ReadOnlyLine program args) :
    (Executor.captureOrEmpty program args).Calls NetCall.ReadOnly := by
  refine .call h (fun out => ?_)
  cases out <;> exact .pure _

theorem readOnly_capture {program : String} {args : List String} (h : ReadOnlyLine program args) :
    (Executor.capture program args).Calls NetCall.ReadOnly := by
  refine .call h (fun out => ?_)
  cases out with
  | notSpawned cause => exact .fail _
  | failed => exact .fail _
  | stdout text => exact .pure _

theorem readOnly_interfaceExists (name : String) :
    (interfaceExists name).Calls NetCall.ReadOnly :=
  .call trivial (fun _ => .pure _)

theorem readOnly_operstate (name : String) :
    (Program.ask (I := netInterface) (.operstate name) : NetProgram _).Calls NetCall.ReadOnly :=
  .call trivial (fun _ => .pure _)

theorem readOnly_interfaceState (name : String) :
    (interfaceState name).Calls NetCall.ReadOnly := by
  refine Program.Calls.bind (readOnly_interfaceExists name) (fun present => ?_)
  cases present with
  | false => exact .pure _
  | true => exact Program.Calls.bind (readOnly_operstate name) (fun _ => .pure _)

theorem readOnly_inspectDirectEgress (name : String) :
    (inspectDirectEgress name).Calls NetCall.ReadOnly := by
  refine .call (.ipJsonRouteShow _) (fun out => ?_)
  cases out with
  | notSpawned cause => exact Program.Calls.ofExcept _
  | failed => exact Program.Calls.ofExcept _
  | stdout routes => exact .call (.ipJsonAddrShow _) (fun _ => Program.Calls.ofExcept _)

theorem readOnly_nowEpoch : nowEpoch.Calls CacheCall.ReadOnly := .call trivial (fun _ => .pure _)

theorem readOnly_loadCacheOrEmpty (path : String) :
    (loadCacheOrEmpty path).Calls CacheCall.ReadOnly := by
  refine .call trivial (fun r => ?_)
  rcases r with cause | content
  · exact .fail _
  · cases content with
    | absent => exact .pure _
    | malformed => exact .fail _
    | cache file => exact .pure _

theorem readOnly_resolveDomainV4 (domain : String) :
    (resolveDomainV4 domain).Calls CacheCall.ReadOnly := by
  refine Program.Calls.bind (Program.Calls.ofExcept _) (fun name => .call trivial (fun r => ?_))
  cases r with
  | error cause => exact .fail _
  | ok addrs => exact .pure _

theorem readOnly_fallback (existing : Option DnsCacheEntry) (now : UInt64) (cache : DnsCacheFile)
    (error : String) :
    (fallbackAfterLiveFailure cfg domain existing now false cache error).Calls
      CacheCall.ReadOnly := by
  unfold fallbackAfterLiveFailure
  cases existing with
  | none => exact .pure _
  | some entry =>
      refine Program.Calls.bind (.pure ()) (fun _ => ?_)
      split_ifs <;> exact .pure _

theorem readOnly_resolveLive (now : UInt64) (cache : DnsCacheFile) :
    (resolveLive cfg domain false now cache).Calls CacheCall.ReadOnly := by
  refine Program.Calls.bind (Program.Calls.attempt (readOnly_resolveDomainV4 domain))
    (fun found => ?_)
  cases found with
  | error e => exact readOnly_fallback _ _ _ _
  | ok ips =>
      dsimp only
      split_ifs
      · exact Program.Calls.bind (.pure ()) (fun _ => .pure _)
      · exact readOnly_fallback _ _ _ _

/-- A resolution that is not to write the cache only reads. -/
theorem readOnly_resolveWithMode (mode : RefreshMode) :
    (resolveWithMode cfg domain false mode).Calls CacheCall.ReadOnly := by
  refine Program.Calls.bind (Program.Calls.ofExcept _) (fun name => ?_)
  by_cases henabled : cfg.dnsCache.enabled = true
  · rw [if_neg (not_not.mpr henabled)]
    refine Program.Calls.bind readOnly_nowEpoch (fun now => ?_)
    refine Program.Calls.bind (readOnly_loadCacheOrEmpty _) (fun cache => ?_)
    cases freshEntry mode (cache.find name) now with
    | some entry => exact .pure _
    | none => exact readOnly_resolveLive now cache
  · rw [if_pos henabled]
    exact Program.Calls.bind (readOnly_resolveDomainV4 name) (fun _ => .pure _)

theorem readOnly_refreshEach (domains : List String) :
    (refreshEach cfg false domains).Calls CacheCall.ReadOnly := by
  induction domains with
  | nil => exact .pure _
  | cons domain domains ih =>
      exact Program.Calls.bind (readOnly_resolveWithMode .forceLive)
        (fun _ => Program.Calls.bind ih (fun _ => .pure _))

theorem readOnly_prune : (pruneCacheToConfiguredDomains cfg false).Calls CacheCall.ReadOnly :=
  Program.Calls.bind (readOnly_loadCacheOrEmpty _)
    (fun _ => Program.Calls.bind (.pure ()) (fun _ => .pure _))

theorem readOnly_upsert (ips : List String) :
    (upsertLiveIpsFromProxy cfg domain ips false).Calls CacheCall.ReadOnly := by
  refine Program.Calls.bind (Program.Calls.ofExcept _) (fun name => ?_)
  dsimp only
  split_ifs with hips henabled
  · exact .pure _
  · refine Program.Calls.bind (readOnly_loadCacheOrEmpty _) (fun cache => ?_)
    exact Program.Calls.bind readOnly_nowEpoch
      (fun now => Program.Calls.bind (.pure ()) (fun _ => .pure _))
  · exact .pure _

end ReadOnly

/-! ### Rounds and cleanup without `--apply` -/

section DryRound

/-- The executor of a dry run. -/
abbrev dry : Executor := ⟨false⟩

theorem dry_run (program : String) (args : List String) : dry.run program args = .pure () := rfl

/-- What a call of the host is to the network and to the cache. -/
def HostReadOnly : hostInterface.Call → Prop := Sum.elim NetCall.ReadOnly CacheCall.ReadOnly

variable {cfg : Config} {healthy : List EgressInterface}

theorem readOnly_isEgressHealthy (egress : EgressInterface) :
    (isEgressHealthy egress dry).Calls NetCall.ReadOnly := by
  by_cases henabled : egress.enabled = true
  · rw [isEgressHealthy, if_neg (not_not.mpr henabled)]
    refine .call trivial (fun present => Program.Calls.bind ?_ (fun usable => ?_))
    · cases present with
      | false => exact .pure _
      | true => exact .call trivial (fun raw => .pure _)
    · rw [if_pos Bool.false_ne_true]
      exact .pure _
  · rw [isEgressHealthy, if_pos henabled]
    exact .pure _

theorem readOnly_collectHealthy (egresses : List EgressInterface) :
    (collectHealthy dry cfg healthy egresses).Calls NetCall.ReadOnly := by
  induction egresses generalizing healthy with
  | nil => exact .pure _
  | cons egress egresses ih =>
      refine Program.Calls.bind (readOnly_isEgressHealthy egress) (fun usable => ?_)
      split_ifs
      · refine Program.Calls.bind ?_ (fun e => ih)
        unfold runtimeEgress
        split_ifs <;> exact .pure _
      · exact ih

theorem readOnly_addPolicyRuleWithMatch (egress : EgressInterface) (spec : MatchSpec) :
    (addPolicyRuleWithMatch dry cfg egress spec).Calls NetCall.ReadOnly :=
  Program.Calls.bind (Program.Calls.ofExcept _) (fun _ => .pure ())

theorem readOnly_applyPolicy (policy : Policy) :
    (applyPolicy dry cfg healthy policy).Calls HostReadOnly := by
  unfold applyPolicy
  cases KeyedList.lookup (·.name) policy.action.egress healthy with
  | none => exact .pure _
  | some egress =>
      cases hdomain : policy.matchSpec.domain with
      | none =>
          dsimp only
          rw [addPolicyRule_eq hdomain]
          exact Program.Calls.left (fun _ hc => hc) (readOnly_addPolicyRuleWithMatch egress _)
      | some domain =>
          refine Program.Calls.bind (Program.Calls.right (P := CacheCall.ReadOnly) (fun _ hc => hc)
            (Program.Calls.attempt (readOnly_resolveWithMode .preferFreshCache))) (fun outcome => ?_)
          refine Program.Calls.left (P := NetCall.ReadOnly) (fun _ hc => hc) ?_
          cases outcome with
          | error e => exact .pure _
          | ok resolution =>
              exact Program.Calls.forEach (fun ip _ => readOnly_addPolicyRuleWithMatch egress _)

theorem readOnly_reconcileOnce (order : MapOrder) :
    (reconcileOnce dry order cfg).Calls HostReadOnly := by
  have hflush : ((flushPolicyChain dry cfg).left : HostProgram Unit).Calls HostReadOnly := .pure ()
  refine Program.Calls.bind (.pure ()) (fun _ => ?_)
  refine Program.Calls.bind (Program.Calls.left (P := NetCall.ReadOnly) (fun _ hc => hc)
    (readOnly_collectHealthy _)) (fun healthy => ?_)
  split_ifs
  · exact hflush
  · refine Program.Calls.bind (Program.Calls.left (P := NetCall.ReadOnly) (fun _ hc => hc)
      (Program.Calls.forEach (fun egress _ => Program.Calls.bind (.pure ()) (fun _ => .pure ()))))
      (fun _ => Program.Calls.bind hflush (fun _ => ?_))
    exact Program.Calls.forEach (fun policy _ => readOnly_applyPolicy policy)

theorem readOnly_cleanup : (cleanup cfg false).Calls NetCall.ReadOnly := by
  refine Program.Calls.bind ?_ (fun _ => Program.Calls.bind ?_ (fun _ => ?_))
  · refine Program.Calls.bind (Program.Calls.attempt (readOnly_capture (.nftList _)))
      (fun listed => ?_)
    split_ifs <;> exact .pure _
  · refine Program.Calls.bind (readOnly_captureOrEmpty .ipRuleShow)
      (fun rules => Program.Calls.forEach (fun egress _ => ?_))
    unfold deleteFwmarkRule
    split_ifs <;> exact .pure _
  · refine Program.Calls.forEach (fun egress _ =>
      Program.Calls.bind (readOnly_captureOrEmpty (.ipRouteShow _)) (fun routes => ?_))
    split_ifs <;> exact .pure _

end DryRound

/-! ### Programs of the machine -/

section OnMachine

variable {α : Type}

theorem readOnly_onNet {p : NetProgram α} (hp : p.Calls NetCall.ReadOnly) :
    (onNet p).Calls MachineCall.ReadOnly :=
  hp.translate (fun _ hc => .ask hc)

theorem readOnly_onCache {p : CacheProgram α} (hp : p.Calls CacheCall.ReadOnly) :
    (onCache p).Calls MachineCall.ReadOnly :=
  hp.translate (fun _ hc => .ask hc)

theorem readOnly_onHost {p : HostProgram α} (hp : p.Calls HostReadOnly) :
    (onHost p).Calls MachineCall.ReadOnly := by
  refine hp.translate (fun c hc => ?_)
  cases c with
  | inl c => exact .ask hc
  | inr c => exact .ask hc

/-- What a call of the proxy is to the cache; the exchanges with upstreams only read. -/
def ProxyReadOnly : proxyInterface.Call → Prop := Sum.elim (fun _ => True) CacheCall.ReadOnly

theorem readOnly_onProxy {p : ProxyProgram α} (hp : p.Calls ProxyReadOnly) :
    (onProxy p).Calls MachineCall.ReadOnly := by
  refine hp.translate (fun c hc => ?_)
  cases c with
  | inl c => exact .ask trivial
  | inr c => exact .ask hc

theorem readOnly_probe {program : String} {args : List String} (h : ReadOnlyLine program args) :
    (probe program args).Calls MachineCall.ReadOnly :=
  .ask h

end OnMachine

/-! ### Subcommands without `--apply` -/

section Subcommands

variable {cfg : Config}

theorem readOnly_acceptAnswer (query : Packet) (question : DnsQuestion) (isPolicyDomain : Bool)
    (response : Packet) :
    (acceptAnswer cfg false query question isPolicyDomain response).Calls ProxyReadOnly := by
  refine .ite (Program.Calls.bind (Program.Calls.ofExcept _) (fun records => ?_)) (.pure _)
  refine .ite (.ite (Program.Calls.ofExcept _) (.pure _)) (.ite ?_ (.pure _))
  exact Program.Calls.bind (Program.Calls.right (P := CacheCall.ReadOnly) (fun _ hc => hc)
    (readOnly_upsert _)) (fun _ => .pure _)

theorem readOnly_serve (upstreams : List SocketAddr) (datagram : Packet) :
    (serve cfg upstreams false datagram).Calls ProxyReadOnly := by
  refine Program.Calls.bind (Program.Calls.attempt ?_) (fun outcome => .pure _)
  refine Program.Calls.bind (Program.Calls.ofExcept _) (fun question => ?_)
  refine Program.Calls.bind (Program.Calls.ofExcept _) (fun policy => ?_)
  refine .ite (Program.Calls.ofExcept _) (Program.Calls.bind (Program.Calls.left
    (P := fun _ => True) (fun _ hc => hc) (Program.Calls.any _)) (fun answer => ?_))
  cases answer with
  | ok response => exact readOnly_acceptAnswer _ _ _ response
  | error err => exact .ite (Program.Calls.ofExcept _) (.fail _)

theorem readOnly_inspectWgInterface (name : String) (enabled : Bool) :
    (inspectWgInterface name enabled).Calls MachineCall.ReadOnly := by
  refine Program.Calls.bind (readOnly_onNet (readOnly_interfaceExists name)) (fun _ => ?_)
  refine Program.Calls.bind (readOnly_onNet (readOnly_interfaceState name)) (fun _ => ?_)
  refine Program.Calls.bind (readOnly_probe (.wgShow name)) (fun out => ?_)
  cases out with
  | notSpawned cause => exact .pure _
  | exited success stdout stderr => cases success <;> exact .pure _

theorem readOnly_commandLabel (program : String) :
    (commandLabel program).Calls MachineCall.ReadOnly := by
  refine Program.Calls.bind (readOnly_probe (.commandV program)) (fun out => ?_)
  cases out with
  | notSpawned cause => exact .pure _
  | exited success stdout stderr => cases success <;> exact .pure _

theorem readOnly_printWireguardStatus : (printWireguardStatus cfg).Calls MachineCall.ReadOnly := by
  refine Program.Calls.bind (readOnly_commandLabel _) (fun _ => ?_)
  refine Program.Calls.bind (readOnly_commandLabel _) (fun _ => ?_)
  refine Program.Calls.bind (readOnly_probe .wgVersion) (fun _ => ?_)
  exact Program.Calls.forEach (fun egress _ =>
    Program.Calls.bind (readOnly_inspectWgInterface _ _) (fun _ => .pure ()))

theorem readOnly_collectInterfaces (out : List InterfaceInfo)
    (entries : List (Except String String)) :
    (collectInterfaces out entries).Calls MachineCall.ReadOnly := by
  induction entries generalizing out with
  | nil => exact .pure _
  | cons entry entries ih =>
      cases entry with
      | error cause => exact .fail _
      | ok name =>
          rw [collectInterfaces]
          cases kindHint name with
          | none => exact ih out
          | some hint =>
              exact Program.Calls.bind (readOnly_onNet (readOnly_operstate name)) (fun raw => ih _)

theorem readOnly_printTunnelDetect : printTunnelDetect.Calls MachineCall.ReadOnly := by
  refine Program.Calls.bind (Program.Calls.bind (.ask trivial) (fun entries => ?_)) (fun _ => .pure _)
  cases entries with
  | error cause => exact .fail _
  | ok entries => exact Program.Calls.bind (readOnly_collectInterfaces [] entries) (fun _ => .pure _)

theorem readOnly_nftProbe (args : List String) :
    (nftProbe ("list" :: args)).Calls MachineCall.ReadOnly := by
  refine Program.Calls.bind (readOnly_probe (.nftList args)) (fun out => ?_)
  cases out with
  | notSpawned cause => exact .pure _
  | exited success stdout stderr =>
      cases success with
      | true => exact .pure _
      | false =>
          dsimp only
          split_ifs <;> exact .pure _

theorem readOnly_printNftStatus : (printNftStatus cfg).Calls MachineCall.ReadOnly := by
  refine Program.Calls.bind (readOnly_nftProbe _) (fun _ => ?_)
  refine Program.Calls.bind (readOnly_nftProbe _) (fun probed => ?_)
  split_ifs
  · refine Program.Calls.bind (Program.Calls.bind (readOnly_probe (.nftList _)) (fun out => ?_))
      (fun _ => .pure _)
    cases out <;> exact .pure _
  · exact .pure _

theorem readOnly_printOneEgress (egress : EgressInterface) :
    (printOneEgress egress).Calls MachineCall.ReadOnly := by
  refine Program.Calls.bind (readOnly_onNet (readOnly_interfaceState _)) (fun _ => ?_)
  refine Program.Calls.bind (readOnly_onNet (readOnly_captureOrEmpty (.ipRouteShow _)))
    (fun _ => ?_)
  refine Program.Calls.bind (readOnly_onNet (.ite (Program.Calls.bind (Program.Calls.attempt
    (readOnly_inspectDirectEgress _)) (fun _ => .pure _)) (.pure _))) (fun _ => ?_)
  refine .ite (Program.Calls.bind (Program.Calls.bind (readOnly_inspectWgInterface _ _)
    (fun status => ?_)) (fun _ => .pure _)) (.pure _)
  exact .ite (.pure _) (.ite (.pure _) (.pure _))

theorem readOnly_printDomainPolicyStatus (egressName domain : String) :
    (printDomainPolicyStatus cfg egressName domain).Calls CacheCall.ReadOnly := by
  unfold printDomainPolicyStatus
  split_ifs
  · exact .pure _
  · refine Program.Calls.bind (Program.Calls.attempt (readOnly_resolveWithMode .preferFreshCache))
      (fun outcome => ?_)
    cases outcome with
    | error e => exact .pure _
    | ok resolution =>
        dsimp only
        split_ifs
        · exact Program.Calls.bind readOnly_nowEpoch (fun _ => .pure _)
        · exact .pure _

theorem readOnly_printStatus : (printStatus cfg).Calls MachineCall.ReadOnly := by
  refine Program.Calls.bind (readOnly_onNet ?_) (fun _ => ?_)
  · exact Program.Calls.bind (readOnly_interfaceExists _)
      (fun _ => Program.Calls.bind (readOnly_interfaceState _) (fun _ => .pure _))
  refine Program.Calls.bind readOnly_printNftStatus (fun _ => Program.Calls.bind ?_ (fun _ => ?_))
  · exact Program.Calls.bind (readOnly_onNet (readOnly_captureOrEmpty .ipRuleShow))
      (fun _ => Program.Calls.forEach (fun egress _ => readOnly_printOneEgress egress))
  · refine readOnly_onCache (Program.Calls.forEach (fun policy _ => ?_))
    cases policy.matchSpec.domain with
    | none => exact .pure _
    | some domain => exact readOnly_printDomainPolicyStatus _ _

theorem readOnly_printDnsCacheStatus : (printDnsCacheStatus cfg).Calls CacheCall.ReadOnly := by
  refine Program.Calls.bind (Program.Calls.attempt (Program.Calls.bind
    (readOnly_loadCacheOrEmpty _) (fun _ => Program.Calls.bind (Program.Calls.ofExcept _)
    (fun _ => .pure _)))) (fun snapshot => ?_)
  rcases snapshot with e | (_ | ⟨first, rest⟩)
  · exact .pure _
  · exact .pure _
  · exact Program.Calls.bind readOnly_nowEpoch (fun _ => .pure _)

theorem readOnly_printDomainResolve (domain : Option String) :
    (printDomainResolve cfg domain).Calls CacheCall.ReadOnly := by
  have hlive : ∀ name, (printOneLive name).Calls CacheCall.ReadOnly := fun name =>
    Program.Calls.bind (Program.Calls.ofExcept _) (fun _ => readOnly_resolveDomainV4 _)
  cases domain with
  | some name => exact Program.Calls.bind (hlive name) (fun _ => .pure _)
  | none =>
      exact Program.Calls.forEach
        (fun name _ => Program.Calls.bind (hlive name) (fun _ => .pure _))

theorem readOnly_validateDnsCache : (validateDnsCache cfg).Calls CacheCall.ReadOnly := by
  refine Program.Calls.bind (Program.Calls.ofExcept _) (fun domains => ?_)
  split_ifs
  · exact .pure _
  · refine Program.Calls.bind (Program.Calls.attempt (readOnly_loadCacheOrEmpty _)) (fun loaded => ?_)
    cases loaded with
    | error e => exact .pure _
    | ok cache => exact Program.Calls.bind readOnly_nowEpoch (fun _ => .pure _)
  · exact .pure _

theorem readOnly_validateEgressInterface (egress : EgressInterface) :
    (validateEgressInterface egress).Calls NetCall.ReadOnly := by
  refine Program.Calls.bind (readOnly_interfaceExists _) (fun present => ?_)
  split_ifs
  · refine Program.Calls.bind (readOnly_operstate _) (fun raw => ?_)
    split_ifs
    · exact Program.Calls.bind (Program.Calls.attempt (readOnly_inspectDirectEgress _))
        (fun _ => .pure _)
    · exact .pure _
  · exact .pure _

theorem readOnly_printValidate : (printValidate cfg).Calls MachineCall.ReadOnly :=
  Program.Calls.bind (Program.Calls.ofExcept _) (fun _ =>
    Program.Calls.bind (readOnly_onCache readOnly_validateDnsCache) (fun _ =>
      readOnly_onNet (Program.Calls.forEach
        (fun egress _ => readOnly_validateEgressInterface egress))))

theorem readOnly_load (path : String) : (Config.load path).Calls MachineCall.ReadOnly :=
  Program.Calls.bind (.ask trivial) (fun _ => Program.Calls.ofExcept _)

theorem readOnly_planRefreshes (egresses : List EgressInterface) :
    (planRefreshes egresses).Calls NetCall.ReadOnly := by
  induction egresses with
  | nil => exact .pure _
  | cons egress egresses ih =>
      refine Program.Calls.bind ?_ (fun plan => Program.Calls.bind ih (fun _ => .pure _))
      exact Program.Calls.bind (Program.Calls.attempt (readOnly_inspectDirectEgress _))
        (fun _ => .pure _)

theorem readOnly_printRefreshDirectEgress (configPath : String) :
    (printRefreshDirectEgress configPath false).Calls MachineCall.ReadOnly := by
  refine Program.Calls.bind (readOnly_load configPath) (fun cfg => ?_)
  refine Program.Calls.bind (readOnly_onNet (readOnly_planRefreshes _)) (fun plans => ?_)
  refine .ite (.pure _) ?_
  rw [if_neg Bool.false_ne_true]
  exact .pure _

theorem readOnly_runtime (once : Bool) (occasions : Occasions) :
    (Runtime.run cfg dry once occasions).Calls MachineCall.ReadOnly := by
  refine Program.Calls.bind (readOnly_onNet
    (Program.Calls.bind (readOnly_interfaceExists _) (fun _ => .pure _))) (fun _ => ?_)
  refine Program.Calls.bind (readOnly_onHost (readOnly_reconcileOnce _)) (fun _ => ?_)
  split_ifs
  · exact .pure _
  · exact Program.Calls.forEach (fun order _ => Program.Calls.bind
      (Program.Calls.attempt (readOnly_onHost (readOnly_reconcileOnce order))) (fun _ => .pure _))

theorem readOnly_runDnsProxy (occasions : Occasions) :
    (runDnsProxy cfg false occasions).Calls MachineCall.ReadOnly := by
  refine Program.Calls.bind (Program.Calls.ofExcept _) (fun started => ?_)
  dsimp only
  cases occasions.bindFails with
  | some cause => exact .fail _
  | none =>
      exact Program.Calls.bind (Program.Calls.forEach (fun datagram _ => Program.Calls.bind
        (readOnly_onProxy (readOnly_serve _ datagram)) (fun _ => .pure _))) (fun _ => .fail _)

theorem guardedApply_false (configDryRun : Bool) : guardedApply false configDryRun = .ok false := rfl

/-- Without `--apply`, every subcommand only reads. -/
theorem readOnly_program {args : Args} (hargs : args.apply = false) (occasions : Occasions)
    (command : Subcommand) : (command.program args cfg occasions).Calls MachineCall.ReadOnly := by
  cases command with
  | run =>
      rw [Subcommand.program, hargs, guardedApply_false]
      exact readOnly_runtime args.once occasions
  | reconcile =>
      rw [Subcommand.program, hargs, guardedApply_false]
      exact readOnly_runtime true occasions
  | status => exact readOnly_printStatus
  | wgStatus => exact readOnly_printWireguardStatus
  | domainResolve domain => exact readOnly_onCache (readOnly_printDomainResolve domain)
  | dnsCache =>
      exact Program.Calls.bind (readOnly_onCache readOnly_printDnsCacheStatus) (fun _ => .pure _)
  | dnsRefresh =>
      rw [Subcommand.program, hargs]
      exact readOnly_onCache (Program.Calls.bind (Program.Calls.bind (Program.Calls.ofExcept _)
        readOnly_refreshEach) (fun _ => .pure _))
  | dnsPrune =>
      rw [Subcommand.program, hargs]
      exact readOnly_onCache (Program.Calls.bind readOnly_prune (fun _ => .pure _))
  | tunnelDetect => exact readOnly_printTunnelDetect
  | dnsProxy =>
      rw [Subcommand.program, hargs]
      exact readOnly_runDnsProxy occasions
  | dnsInterceptStatus => exact Program.Calls.ofExcept _
  | validate => exact readOnly_printValidate
  | refreshDirectEgress =>
      rw [Subcommand.program, hargs]
      exact readOnly_printRefreshDirectEgress args.config
  | cleanup =>
      rw [Subcommand.program, hargs]
      exact readOnly_onNet readOnly_cleanup

end Subcommands

/-! ### Invocations -/

/-- The configuration that the file holds. -/
def Machine.Configured (m : Machine) (cfg : Config) : Prop :=
  ∃ json, m.config = .json json ∧ Config.decode json = some cfg

theorem override_dryRun (args : Args) (cfg : Config) :
    (args.override cfg).runtime.dryRun = cfg.runtime.dryRun := by
  unfold Args.override
  cases args.intervalSec <;> rfl

/-- With `--apply` on a configuration that says dry run, nothing is done but to fail. -/
theorem program_refused {args : Args} {cfg : Config} (occasions : Occasions)
    (hargs : args.apply = true) (hdry : cfg.runtime.dryRun = true) {command : Subcommand}
    (hcommand : command = .run ∨ command = .reconcile) :
    ∃ e, command.program args cfg occasions = .fail e := by
  rcases hcommand with rfl | rfl
  · exact ⟨_, by rw [Subcommand.program, hargs, hdry]; rfl⟩
  · exact ⟨_, by rw [Subcommand.program, hargs, hdry]; rfl⟩

theorem configured_of_ofRead {env : MachineEnv} {m : Machine} {path : String} {cfg : Config}
    (h : Config.ofRead path (machineHost env (.config .read) m).1 = .ok cfg) :
    m.Configured cfg := by
  obtain ⟨json, hread, hdecode⟩ := Config.decode_of_ofRead h
  simp only [machineHost, configHost, configRead] at hread
  cases hfails : env.configReadFails m.configCalls with
  | some cause => simp [hfails] at hread
  | none =>
      cases hcontent : m.config with
      | absent => simp [hfails, hcontent] at hread
      | malformed => simp [hfails, hcontent] at hread
      | json value =>
          simp only [hfails, hcontent, Except.ok.injEq, Option.some.injEq] at hread
          exact ⟨value, hcontent, hread ▸ hdecode⟩

theorem runCommand_eq (args : Args) (occasions : Occasions) : runCommand args occasions =
    .call (I := machineInterface) (.config .read) (fun raw =>
      (Program.ofExcept (Config.ofRead args.config raw)).bind (fun cfg =>
        (Program.ofExcept cfg.validate).bind (fun _ =>
          args.subcommand.program args (args.override cfg) occasions))) :=
  rfl

/-- What follows the reading of such a configuration. -/
theorem refused_after_read {args : Args} (occasions : Occasions) (hargs : args.apply = true)
    (hcommand : args.subcommand = .run ∨ args.subcommand = .reconcile)
    (loaded : Except Error Config) (hdry : ∀ cfg, loaded = .ok cfg → cfg.runtime.dryRun = true) :
    ∃ e, (Program.ofExcept loaded : MachineProgram Config).bind (fun cfg =>
      (Program.ofExcept cfg.validate).bind (fun _ =>
        args.subcommand.program args (args.override cfg) occasions)) = .fail e := by
  cases loaded with
  | error e => exact ⟨e, rfl⟩
  | ok cfg =>
      rw [Program.ofExcept, Program.bind_pure_left]
      cases cfg.validate with
      | error e => exact ⟨e, rfl⟩
      | ok u =>
          exact program_refused occasions hargs
            ((override_dryRun args cfg).trans (hdry cfg rfl)) hcommand

/-- Without `--apply` an invocation only reads, and at no point has it changed the kernel, the
cache files or the configuration. With `--apply`, a configuration that says dry run makes the
runtime fail with nothing done but the reading of the configuration. -/
theorem dry_run_changes_nothing (env : MachineEnv) (args : Args) (occasions : Occasions)
    (m : Machine) :
    (args.apply = false →
      (runCommand args occasions).Calls MachineCall.ReadOnly ∧
      ∀ x ∈ Program.visited (machineHost env) (runCommand args occasions) m, Unchanged m x) ∧
    (args.apply = true → args.subcommand = .run ∨ args.subcommand = .reconcile →
      (∀ cfg, m.Configured cfg → cfg.runtime.dryRun = true) →
      (∃ e, (Program.run (machineHost env) (runCommand args occasions) m).1 = .error e) ∧
      Program.made (machineHost env) (runCommand args occasions) m = [.config .read]) := by
  constructor
  · intro hargs
    have hreads : (runCommand args occasions).Calls MachineCall.ReadOnly :=
      Program.Calls.bind (readOnly_load args.config) (fun cfg =>
        Program.Calls.bind (Program.Calls.ofExcept _)
          (fun _ => readOnly_program hargs occasions args.subcommand))
    refine ⟨hreads, Program.visited_invariant (machineHost env) (P := MachineCall.ReadOnly) ?_
      hreads ⟨rfl, rfl, rfl⟩⟩
    intro c hc x hx
    have hstep := unchanged_machine env hc x
    exact ⟨hstep.kernel.trans hx.kernel, hstep.files.trans hx.files, hstep.config.trans hx.config⟩
  · intro hargs hcommand hdry
    obtain ⟨e, he⟩ := refused_after_read occasions hargs hcommand
      (Config.ofRead args.config (machineHost env (.config .read) m).1)
      (fun cfg hcfg => hdry cfg (configured_of_ofRead hcfg))
    have hnext := runCommand_eq args occasions
    constructor
    · exact ⟨e, by rw [hnext, Program.run_call, he, Program.run_fail]⟩
    · rw [hnext, Program.made, he, Program.made]

/-- A configuration file of one tunnel and one policy; it does not say anything on dry runs. -/
def tunnelJson : Json :=
  .obj [("version", .num "1"), ("wifi_underlay", .obj [("interface", .str "wlan0")]),
    ("egress_interfaces", .arr [.obj [("name", .str "tun0"), ("kind", .str "tunnel"),
      ("table", .num "100"), ("fwmark", .num "100")]]),
    ("policies", .arr [.obj [("id", .str "office"),
      ("match", .obj [("domain", .str "office.example")]),
      ("action", .obj [("egress", .str "tun0")])]])]

def quietMachine : MachineEnv where
  net := quietHost.net
  cache := quietHost.cache
  udp := fun _ _ => .timedOut
  probes := fun _ _ _ => .notSpawned "not installed"
  dirs := fun _ _ => .ok []
  floats := some
  configReadFails := fun _ => none
  configWrites := fun _ => .done

def tunnelMachine : Machine := ⟨bareState.1, bareState.2, 0, 0, .json tunnelJson, 0⟩

def twoRounds : Occasions := ⟨listOrder, [listOrder], none, [], "interrupted"⟩

theorem dry_run_changes_nothing_tunnel :
    (∀ x ∈ Program.visited (machineHost quietMachine) (runCommand {} twoRounds) tunnelMachine,
      Unchanged tunnelMachine x) ∧
    Program.made (machineHost quietMachine) (runCommand { apply := true } twoRounds)
      tunnelMachine = [.config .read] := by
  have hdecode : Config.decode tunnelJson = some (configOf [tunnel "tun0" 100 100]
      [domainPolicy "office" "office.example" "tun0"]) := by decide
  refine ⟨((dry_run_changes_nothing quietMachine {} twoRounds tunnelMachine).1 rfl).2,
    ((dry_run_changes_nothing quietMachine { apply := true } twoRounds tunnelMachine).2 rfl
      (Or.inl rfl) ?_).2⟩
  rintro cfg ⟨json, hjson, hcfg⟩
  rw [← ConfigContent.json.inj hjson, hdecode, Option.some.injEq] at hcfg
  rw [← hcfg]
  rfl

end EveNet
