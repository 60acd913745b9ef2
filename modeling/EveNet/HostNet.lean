import EveNet.CallProgram
import EveNet.TextSearch
import EveNet.Config

/-!
# The host's network state and the commands that change it

The program changes the network only through `nft` and `ip` command lines. A command
line is read here the way those tools read it: each one that is accepted has its
documented effect on the kernel's chains, rules and routes, and a command that fails
leaves them alone. `NetEnv` says which commands fail.
-/

namespace EveNet

/-! ### Kernel objects -/

/-- A rule of an nft chain: what it matches and the mark it sets. -/
structure NftRule where
  daddr : Option String
  skuid : Option UInt32
  mark : UInt32
  deriving DecidableEq

structure IpRule where
  priority : UInt32
  fwmark : Option UInt32
  table : UInt32
  deriving DecidableEq

structure Route where
  dest : String
  via : Option String
  dev : String
  src : Option String
  deriving DecidableEq

@[ext] structure Kernel where
  nftTables : String → Bool
  nftChains : String × String → Option (List NftRule)
  ipRules : List IpRule
  routes : UInt32 → List Route

namespace Kernel

def setChain (k : Kernel) (table chain : String) (rules : List NftRule) : Kernel :=
  { k with nftChains := Function.update k.nftChains (table, chain) (some rules) }

def addTable (k : Kernel) (table : String) : Kernel :=
  { k with nftTables := Function.update k.nftTables table true }

def deleteTable (k : Kernel) (table : String) : Kernel :=
  { k with
    nftTables := Function.update k.nftTables table false
    nftChains := fun p => if p.1 = table then none else k.nftChains p }

/-- `ip route replace default`: the one default route of the table. -/
def replaceDefault (k : Kernel) (table : UInt32) (route : Route) : Kernel :=
  let others := (k.routes table).filter (fun r => r.dest != "default")
  { k with routes := Function.update k.routes table (others ++ [route]) }

def addIpRule (k : Kernel) (rule : IpRule) : Kernel :=
  { k with ipRules := k.ipRules ++ [rule] }

def deleteIpRule (k : Kernel) (rule : IpRule) : Kernel :=
  { k with ipRules := k.ipRules.erase rule }

def flushRoutes (k : Kernel) (table : UInt32) : Kernel :=
  { k with routes := Function.update k.routes table [] }

end Kernel

/-! ### Reading command lines -/

/-- A decimal 32-bit number. -/
def parseU32 (s : String) : Option UInt32 :=
  if s.toList.all Char.isDigit ∧ s ≠ "" ∧ Nat.ofDigitChars 10 s.toList 0 < 2 ^ 32 then
    some (UInt32.ofNat (Nat.ofDigitChars 10 s.toList 0))
  else none

/-- Printed and read again, a number is the same. -/
@[simp] theorem parseU32_toString (n : UInt32) : parseU32 (toString n) = some n := by
  have hlist : (toString n).toList = Nat.toDigits 10 n.toNat := Nat.toList_repr
  have hne : toString n ≠ "" := by
    intro he
    rw [he] at hlist
    exact Nat.toDigits_ne_nil hlist.symm
  have hdigits : (Nat.toDigits 10 n.toNat).all Char.isDigit = true :=
    List.all_eq_true.mpr (fun c hc => Nat.isDigit_of_mem_toDigits (by decide) (by decide) hc)
  rw [parseU32, hlist, Nat.ofDigitChars_ten_toDigits,
    if_pos ⟨hdigits, hne, UInt32.toNat_lt n⟩, UInt32.ofNat_toNat]

def parseMark : List String → Option UInt32
  | ["counter", "meta", "mark", "set", mark] => parseU32 mark
  | _ => none

def parseUidMark : List String → Option (Option UInt32 × UInt32)
  | "meta" :: "skuid" :: uid :: rest => do
    let uid ← parseU32 uid
    let mark ← parseMark rest
    some (some uid, mark)
  | rest => (parseMark rest).map (fun mark => (none, mark))

/-- The expression of `nft add rule`. -/
def parseNftRule : List String → Option NftRule
  | "ip" :: "daddr" :: dest :: rest =>
    (parseUidMark rest).map (fun r => ⟨some dest, r.1, r.2⟩)
  | rest => (parseUidMark rest).map (fun r => ⟨none, r.1, r.2⟩)

def nftCommand (k : Kernel) : List String → Option Kernel
  | ["add", "table", "inet", table] => some (k.addTable table)
  | "add" :: "chain" :: "inet" :: table :: chain :: _ =>
    if k.nftTables table then
      some (if (k.nftChains (table, chain)).isSome then k else k.setChain table chain [])
    else none
  | ["flush", "chain", "inet", table, chain] =>
    (k.nftChains (table, chain)).map (fun _ => k.setChain table chain [])
  | "add" :: "rule" :: "inet" :: table :: chain :: expr => do
    let rules ← k.nftChains (table, chain)
    let rule ← parseNftRule expr
    some (k.setChain table chain (rules ++ [rule]))
  | ["delete", "table", "inet", table] =>
    if k.nftTables table then some (k.deleteTable table) else none
  | _ => none

/-- The words `via`, `dev`, `src` and `table` of a default route. -/
def parseRoute (args : List String) : Option (UInt32 × Route) :=
  let (via, args) := match args with
    | "via" :: gateway :: rest => (some gateway, rest)
    | _ => (none, args)
  match args with
  | ["dev", dev, "src", src, "table", table] =>
    (parseU32 table).map (fun t => (t, ⟨"default", via, dev, some src⟩))
  | ["dev", dev, "table", table] =>
    (parseU32 table).map (fun t => (t, ⟨"default", via, dev, none⟩))
  | _ => none

def parseIpRule : List String → Option IpRule
  | ["fwmark", mark, "table", table, "priority", priority] => do
    let mark ← parseU32 mark
    let table ← parseU32 table
    let priority ← parseU32 priority
    some ⟨priority, some mark, table⟩
  | _ => none

def ipCommand (k : Kernel) : List String → Option Kernel
  | "route" :: "replace" :: "default" :: args =>
    (parseRoute args).map (fun r => k.replaceDefault r.1 r.2)
  | "rule" :: "add" :: args =>
    (parseIpRule args).bind
      (fun rule => if rule ∈ k.ipRules then none else some (k.addIpRule rule))
  | "rule" :: "del" :: args =>
    (parseIpRule args).bind
      (fun rule => if rule ∈ k.ipRules then some (k.deleteIpRule rule) else none)
  | ["route", "flush", "table", table] => (parseU32 table).map k.flushRoutes
  | _ => none

/-- The effect of a command line, `none` when the tool refuses it. -/
def Kernel.command (k : Kernel) (program : String) (args : List String) : Option Kernel :=
  if program = "nft" then nftCommand k args
  else if program = "ip" then ipCommand k args
  else none

/-! ### Printed state -/

/-- One line of `ip rule show`. -/
def ipRuleLine (tableName : UInt32 → String) (rule : IpRule) : List Char :=
  let selector := match rule.fwmark with
    | none => []
    | some mark => "fwmark 0x".toList ++ Nat.toDigits 16 mark.toNat ++ [' ']
  (toString rule.priority).toList ++ ":\tfrom all ".toList ++ selector ++ "lookup ".toList ++
    (tableName rule.table).toList

def ipRuleShow (tableName : UInt32 → String) (rules : List IpRule) : List Char :=
  rules.flatMap (fun rule => ipRuleLine tableName rule ++ ['\n'])

/-- One line of `ip route show`. -/
def routeLine (route : Route) : List Char :=
  route.dest.toList ++ route.via.elim [] (fun via => " via ".toList ++ via.toList) ++
    " dev ".toList ++ route.dev.toList ++
    route.src.elim [] (fun src => " src ".toList ++ src.toList)

def routeShow (routes : List Route) : List Char :=
  routes.flatMap (fun route => routeLine route ++ ['\n'])

/-- What a command that prints a listing gives, `none` when it exits with an error. -/
def Kernel.listing (tableName : UInt32 → String) (k : Kernel) (program : String)
    (args : List String) : Option String :=
  match program, args with
  | "ip", ["rule", "show"] => some (String.ofList (ipRuleShow tableName k.ipRules))
  | "ip", ["route", "show", "table", table] =>
    (parseU32 table).map (fun table => String.ofList (routeShow (k.routes table)))
  | "nft", ["list", "table", "inet", table] => if k.nftTables table then some "" else none
  | "nft", ["list", "chain", "inet", table, chain] =>
    (k.nftChains (table, chain)).map (fun _ => "")
  | _, _ => none

/-! ### Surroundings -/

/-- A JSON value, as the `-j` listings of `ip` parse to. -/
inductive Json where
  | null
  | bool (b : Bool)
  | num (text : String)
  | str (s : String)
  | arr (items : List Json)
  | obj (members : List (String × Json))

inductive CommandExit where
  | notSpawned (cause : String)
  | exited (success : Bool)
  deriving DecidableEq

inductive CommandOutput (α : Type) where
  | notSpawned (cause : String)
  | failed
  | stdout (text : α)

/-- An interface as the host shows it. The two JSON listings are `none` where the
printed text does not parse. -/
structure LinkState where
  present : Bool
  operstate : Option String
  pings : Bool
  defaultRouteJson : CommandOutput (Option Json)
  addrJson : CommandOutput (Option Json)

inductive NetCall where
  | spawn (program : String) (args : List String)
  | output (program : String) (args : List String)
  | outputJson (program : String) (args : List String)
  | interfaceExists (name : String)
  | operstate (name : String)
  deriving DecidableEq

abbrev netInterface : Interface where
  Call := NetCall
  Answer
    | .spawn _ _ => CommandExit
    | .output _ _ => CommandOutput String
    | .outputJson _ _ => CommandOutput (Option Json)
    | .interfaceExists _ => Bool
    | .operstate _ => Option String

inductive CommandFate where
  | works
  | fails
  | notSpawned (cause : String)
  deriving DecidableEq

/-- What becomes of the `k`-th command, and how `ip rule show` names a table. -/
structure NetEnv where
  fate : ℕ → CommandFate
  tableName : UInt32 → String

structure NetState where
  kernel : Kernel
  links : String → LinkState
  commands : ℕ

def NetState.tick (s : NetState) : NetState := { s with commands := s.commands + 1 }

/-- A ping tells about the link it is sent through. -/
def pingExit (s : NetState) : List String → CommandExit
  | "-I" :: name :: _ => .exited (s.links name).pings
  | _ => .exited false

def jsonListing (s : NetState) : List String → CommandOutput (Option Json)
  | ["-j", "route", "show", "default", "dev", name] => (s.links name).defaultRouteJson
  | ["-j", "-4", "addr", "show", "dev", name] => (s.links name).addrJson
  | _ => .failed

/-- A command line run against the kernel, with the fate the surroundings give it. -/
def spawnCommand (env : NetEnv) (program : String) (args : List String) (s : NetState) :
    CommandExit × NetState :=
  match env.fate s.commands with
  | .notSpawned cause => (.notSpawned cause, s.tick)
  | .fails => (.exited false, s.tick)
  | .works =>
    match s.kernel.command program args with
    | none => (.exited false, s.tick)
    | some k => (.exited true, { s.tick with kernel := k })

def listCommand (env : NetEnv) (program : String) (args : List String) (s : NetState) :
    CommandOutput String × NetState :=
  match env.fate s.commands with
  | .notSpawned cause => (.notSpawned cause, s.tick)
  | .fails => (.failed, s.tick)
  | .works =>
    match s.kernel.listing env.tableName program args with
    | none => (.failed, s.tick)
    | some text => (.stdout text, s.tick)

def netHost (env : NetEnv) : Handler netInterface NetState
  | .spawn program args, s =>
    if program = "ping" then (pingExit s args, s) else spawnCommand env program args s
  | .output program args, s => listCommand env program args s
  | .outputJson _ args, s => (jsonListing s args, s)
  | .interfaceExists name, s => ((s.links name).present, s)
  | .operstate name, s => ((s.links name).operstate, s)

/-- A listing only counts as a command. -/
theorem netHost_output (env : NetEnv) (program : String) (args : List String) (s : NetState) :
    (netHost env (.output program args) s).2 = s.tick := by
  simp only [netHost, listCommand]
  cases env.fate s.commands with
  | notSpawned cause => rfl
  | fails => rfl
  | works => cases s.kernel.listing env.tableName program args <;> rfl

/-- No command changes the links. -/
theorem netHost_links (env : NetEnv) (c : NetCall) (s : NetState) :
    (netHost env c s).2.links = s.links := by
  cases c with
  | spawn program args =>
      by_cases hp : program = "ping"
      · simp only [netHost, if_pos hp]
      · simp only [netHost, if_neg hp, spawnCommand]
        cases env.fate s.commands with
        | notSpawned cause => rfl
        | fails => rfl
        | works => cases s.kernel.command program args <;> rfl
  | output program args => rw [netHost_output]; rfl
  | outputJson program args => rfl
  | interfaceExists name => rfl
  | operstate name => rfl

end EveNet
