import EveNet.HostNet
import EveNet.KeyedList

/-!
# The route, rule and nft commands of a round

Each function issues the command lines of the source, in its order. What a command line
does to the kernel is proved once for each of them; an executed command either has its
whole effect or leaves the kernel as it was.
-/

namespace EveNet

abbrev NetProgram := Program netInterface Error

/-! ### Running commands -/

structure Executor where
  apply : Bool
  deriving DecidableEq

namespace Executor

def commandFailed (program : String) (args : List String) : Error :=
  ["command failed: " ++ program ++ " " ++ " ".intercalate args]

/-- Without `--apply` the command is only logged. -/
def run (exec : Executor) (program : String) (args : List String) : NetProgram Unit :=
  if ¬ exec.apply then .pure ()
  else .call (.spawn program args) fun
    | .notSpawned cause => .fail ["failed to spawn " ++ program, cause]
    | .exited false => .fail (commandFailed program args)
    | .exited true => .pure ()

def capture (program : String) (args : List String) : NetProgram String :=
  .call (.output program args) fun
    | .notSpawned cause => .fail ["failed to spawn " ++ program, cause]
    | .failed => .fail (commandFailed program args)
    | .stdout text => .pure text

/-- A command that may fail; whether it succeeded is only logged. -/
def runAllowFail (exec : Executor) (program : String) (args : List String) : NetProgram Bool :=
  if ¬ exec.apply then .pure true
  else .call (.spawn program args) fun
    | .notSpawned _ => .pure false
    | .exited success => .pure success

def captureOrEmpty (program : String) (args : List String) : NetProgram String := do
  match ← Program.attempt (capture program args) with
  | .ok text => pure text
  | .error _ => pure ""

def status (program : String) (args : List String) : NetProgram Bool :=
  .call (.spawn program args) fun
    | .notSpawned _ => .pure false
    | .exited success => .pure success

end Executor

/-! ### Routing tables and rules -/

/-- A configured address that is not blank. -/
def nonBlank (value : Option String) : Option String :=
  value.filter (fun v => ¬ trimmedEmpty v)

def routeArgs (egress : EgressInterface) : List String :=
  ["route", "replace", "default"] ++
    (match nonBlank egress.gateway with
      | some gateway => ["via", gateway]
      | none => []) ++
    ["dev", egress.name] ++
    (match nonBlank egress.sourceIp with
      | some sourceIp => ["src", sourceIp]
      | none => []) ++
    ["table", toString egress.table]

def ensureRouteTableDefault (exec : Executor) (egress : EgressInterface) : NetProgram Unit :=
  exec.run "ip" (routeArgs egress)

def fwmarkRuleArgs (egress : EgressInterface) : List String :=
  ["rule", "add", "fwmark", toString egress.fwmark, "table", toString egress.table,
    "priority", toString egress.rulePriority]

def markPattern (egress : EgressInterface) : List Char :=
  "fwmark 0x".toList ++ Nat.toDigits 16 egress.fwmark.toNat

def lookupPattern (egress : EgressInterface) : List Char :=
  "lookup ".toList ++ (toString egress.table).toList

/-- Whether a line of the listing contains both texts of the egress. -/
def fwmarkRuleListed (listing : String) (egress : EgressInterface) : Bool :=
  (lines listing.toList).any
    (fun line => markPattern egress <:+: line ∧ lookupPattern egress <:+: line)

def ensureFwmarkRule (exec : Executor) (egress : EgressInterface) : NetProgram Unit :=
  if ¬ exec.apply then exec.run "ip" (fwmarkRuleArgs egress)
  else do
    let rules ← Executor.capture "ip" ["rule", "show"]
    if fwmarkRuleListed rules egress then pure ()
    else exec.run "ip" (fwmarkRuleArgs egress)

/-! ### The policy chain -/

def addTableArgs (cfg : Config) : List String := ["add", "table", "inet", cfg.nft.table]

def addChainArgs (cfg : Config) : List String :=
  ["add", "chain", "inet", cfg.nft.table, cfg.nft.outputChain, "\x7b", "type", "route", "hook",
    "output", "priority", "mangle", ";", "policy", "accept", ";", "\x7d"]

/-- Run `addArgs` when the listing of the object fails. -/
def ensureListed (exec : Executor) (listArgs addArgs : List String) : NetProgram Unit := do
  match ← Program.attempt (Executor.capture "nft" listArgs) with
  | .ok _ => pure ()
  | .error _ => exec.run "nft" addArgs

def ensureTableAndChain (exec : Executor) (cfg : Config) : NetProgram Unit :=
  if ¬ exec.apply then do
    exec.run "nft" (addTableArgs cfg)
    exec.run "nft" (addChainArgs cfg)
  else do
    ensureListed exec ["list", "table", "inet", cfg.nft.table] (addTableArgs cfg)
    ensureListed exec ["list", "chain", "inet", cfg.nft.table, cfg.nft.outputChain]
      (addChainArgs cfg)

def flushArgs (cfg : Config) : List String :=
  ["flush", "chain", "inet", cfg.nft.table, cfg.nft.outputChain]

def flushPolicyChain (exec : Executor) (cfg : Config) : NetProgram Unit :=
  exec.run "nft" (flushArgs cfg)

/-- The destination a rule matches: the prefix if there is one, else the address. -/
def matchDest (spec : MatchSpec) : Option String := spec.destCidr.or spec.destIp

def appendMatch (args : List String) (spec : MatchSpec) : Except Error (List String) :=
  let args := match matchDest spec with
    | some dest => args ++ ["ip", "daddr", dest]
    | none => args
  let args := match spec.uid with
    | some uid => args ++ ["meta", "skuid", toString uid]
    | none => args
  if (matchDest spec).isNone ∧ spec.uid.isNone then
    .error ["only dest_ip, dest_cidr, resolved domain and uid matches are supported in v0.9"]
  else .ok args

def addPolicyRuleWithMatch (exec : Executor) (cfg : Config) (egress : EgressInterface)
    (matchSpec : MatchSpec) : NetProgram Unit := do
  let args ← Program.ofExcept
    (appendMatch ["add", "rule", "inet", cfg.nft.table, cfg.nft.outputChain] matchSpec)
  exec.run "nft" (args ++ ["counter", "meta", "mark", "set", toString egress.fwmark])

def addPolicyRule (exec : Executor) (cfg : Config) (policy : Policy)
    (egress : EgressInterface) : NetProgram Unit :=
  if policy.matchSpec.domain.isSome then
    .fail ["policy " ++ policy.id ++
      " uses domain match; call add_policy_rule_for_resolved_ip after DNS resolution"]
  else addPolicyRuleWithMatch exec cfg egress policy.matchSpec

theorem addPolicyRule_eq {exec : Executor} {cfg : Config} {policy : Policy}
    {egress : EgressInterface} (h : policy.matchSpec.domain = none) :
    addPolicyRule exec cfg policy egress =
      addPolicyRuleWithMatch exec cfg egress policy.matchSpec := by
  simp [addPolicyRule, h]

/-- The match block with the resolved address in the place of the domain. -/
def resolvedSpec (spec : MatchSpec) (resolvedIp : String) : MatchSpec :=
  { spec with domain := none, destIp := some resolvedIp, destCidr := none }

def addPolicyRuleForResolvedIp (exec : Executor) (cfg : Config) (policy : Policy)
    (egress : EgressInterface) (resolvedIp : String) : NetProgram Unit :=
  addPolicyRuleWithMatch exec cfg egress (resolvedSpec policy.matchSpec resolvedIp)

/-! ### Effects -/

section Effects

variable (env : NetEnv)

/-- The executor that changes the host. -/
abbrev applying : Executor := ⟨true⟩

namespace Executor

variable {program : String} {args : List String} {s t : NetState}

/-- A command that fails leaves the kernel alone; one that succeeds has its effect. -/
theorem run_cases (hp : program ≠ "ping") (args : List String) (s : NetState) :
    (∃ e, Program.run (netHost env) (applying.run program args) s = (.error e, s.tick)) ∨
      ∃ k, s.kernel.command program args = some k ∧
        Program.run (netHost env) (applying.run program args) s =
          (.ok (), { s.tick with kernel := k }) := by
  unfold Executor.run
  simp only [not_true_eq_false, if_false, Program.run_call, netHost, if_neg hp, spawnCommand]
  cases env.fate s.commands with
  | notSpawned cause => exact Or.inl ⟨_, rfl⟩
  | fails => exact Or.inl ⟨_, rfl⟩
  | works =>
      cases hk : s.kernel.command program args with
      | none => exact Or.inl ⟨_, rfl⟩
      | some k => exact Or.inr ⟨k, rfl, rfl⟩

theorem run_eq_ok (hp : program ≠ "ping")
    (h : Program.run (netHost env) (applying.run program args) s = (.ok (), t)) :
    ∃ k, s.kernel.command program args = some k ∧ t = { s.tick with kernel := k } := by
  rcases run_cases env hp args s with ⟨e, he⟩ | ⟨k, hk, hok⟩
  · simp [he] at h
  · rw [hok, Prod.mk.injEq] at h
    exact ⟨k, hk, h.2.symm⟩

/-- Nothing else is seen while a command runs than the states around it. -/
theorem mem_visited_run {x : NetState}
    (hx : x ∈ Program.visited (netHost env) (applying.run program args) s) :
    x = s ∨ x = (Program.run (netHost env) (applying.run program args) s).2 := by
  unfold Executor.run at hx ⊢
  simp only [not_true_eq_false, if_false, Program.visited, List.mem_cons, Program.run_call] at hx ⊢
  rcases hx with rfl | hx
  · exact Or.inl rfl
  · right
    split at hx <;> simpa [Program.visited] using hx

/-- A captured listing only counts as a command. -/
theorem run_capture (program : String) (args : List String) (s : NetState) :
    (Program.run (netHost env) (capture program args) s).2 = s.tick := by
  unfold capture
  rw [Program.run_call]
  cases hr : (netHost env (.output program args) s).1 <;>
    simpa using netHost_output env program args s

theorem run_capture_eq_ok {text : String}
    (h : Program.run (netHost env) (capture program args) s = (.ok text, t)) :
    s.kernel.listing env.tableName program args = some text ∧ t = s.tick := by
  have ht := run_capture env program args s
  rw [h] at ht
  refine ⟨?_, ht⟩
  unfold capture at h
  simp only [Program.run_call, netHost, listCommand] at h
  cases hf : env.fate s.commands with
  | notSpawned cause => simp [hf] at h
  | fails => simp [hf] at h
  | works =>
      cases hl : s.kernel.listing env.tableName program args with
      | none => simp [hf, hl] at h
      | some out =>
          simp only [hf, hl, Program.run_pure, Prod.mk.injEq, Except.ok.injEq] at h
          rw [h.1]

end Executor

/-! #### What each command line does to the kernel -/

def defaultRoute (egress : EgressInterface) : Route :=
  ⟨"default", nonBlank egress.gateway, egress.name, nonBlank egress.sourceIp⟩

def fwmarkRule (egress : EgressInterface) : IpRule :=
  ⟨egress.rulePriority, some egress.fwmark, egress.table⟩

/-- The rule that a match block becomes. -/
def ruleOf (egress : EgressInterface) (spec : MatchSpec) : NftRule :=
  ⟨matchDest spec, spec.uid, egress.fwmark⟩

def chainKey (cfg : Config) : String × String := (cfg.nft.table, cfg.nft.outputChain)

theorem command_route (k : Kernel) (egress : EgressInterface) :
    k.command "ip" (routeArgs egress) =
      some (k.replaceDefault egress.table (defaultRoute egress)) := by
  unfold routeArgs defaultRoute
  cases nonBlank egress.gateway <;> cases nonBlank egress.sourceIp <;>
    simp [Kernel.command, ipCommand, parseRoute]

theorem command_fwmarkRule (k : Kernel) (egress : EgressInterface) :
    k.command "ip" (fwmarkRuleArgs egress) =
      if fwmarkRule egress ∈ k.ipRules then none else some (k.addIpRule (fwmarkRule egress)) := by
  have hparse : parseIpRule ["fwmark", toString egress.fwmark, "table", toString egress.table,
      "priority", toString egress.rulePriority] = some (fwmarkRule egress) := by
    simp [parseIpRule, fwmarkRule]
  change (parseIpRule _).bind _ = _
  rw [hparse, Option.bind_some]

theorem command_addTable (k : Kernel) (cfg : Config) :
    k.command "nft" (addTableArgs cfg) = some (k.addTable cfg.nft.table) := rfl

theorem command_addChain (k : Kernel) (cfg : Config) :
    k.command "nft" (addChainArgs cfg) =
      if k.nftTables cfg.nft.table then
        some (if (k.nftChains (chainKey cfg)).isSome then k
          else k.setChain cfg.nft.table cfg.nft.outputChain [])
      else none := rfl

theorem command_flush (k : Kernel) (cfg : Config) :
    k.command "nft" (flushArgs cfg) = (k.nftChains (chainKey cfg)).map
      (fun _ => k.setChain cfg.nft.table cfg.nft.outputChain []) := rfl

/-- The words of a rule's expression. -/
def ruleArgs (rule : NftRule) : List String :=
  (match rule.daddr with
    | some dest => ["ip", "daddr", dest]
    | none => []) ++
    (match rule.skuid with
      | some uid => ["meta", "skuid", toString uid]
      | none => []) ++
    ["counter", "meta", "mark", "set", toString rule.mark]

@[simp] theorem parseNftRule_ruleArgs (rule : NftRule) :
    parseNftRule (ruleArgs rule) = some rule := by
  obtain ⟨daddr, skuid, mark⟩ := rule
  cases daddr <;> cases skuid <;> simp [ruleArgs, parseNftRule, parseUidMark, parseMark]

theorem command_addRule (k : Kernel) (cfg : Config) (rule : NftRule) :
    k.command "nft" (["add", "rule", "inet", cfg.nft.table, cfg.nft.outputChain] ++ ruleArgs rule) =
      (k.nftChains (chainKey cfg)).map
        (fun rules => k.setChain cfg.nft.table cfg.nft.outputChain (rules ++ [rule])) := by
  change (k.nftChains (chainKey cfg)).bind (fun rules => (parseNftRule (ruleArgs rule)).bind
    (fun rule => some (k.setChain cfg.nft.table cfg.nft.outputChain (rules ++ [rule])))) = _
  rw [parseNftRule_ruleArgs]
  cases k.nftChains (chainKey cfg) <;> rfl

theorem appendMatch_eq (egress : EgressInterface) (spec : MatchSpec) (args : List String) :
    (∃ e, appendMatch args spec = .error e) ∨
      ∃ out, appendMatch args spec = .ok out ∧
        out ++ ["counter", "meta", "mark", "set", toString egress.fwmark] =
          args ++ ruleArgs (ruleOf egress spec) := by
  unfold appendMatch ruleArgs ruleOf
  dsimp only
  split_ifs with hnone
  · exact Or.inl ⟨_, rfl⟩
  · refine Or.inr ⟨_, rfl, ?_⟩
    cases matchDest spec <;> cases spec.uid <;> simp

end Effects

end EveNet
