import EveNet.JsonNumbers
import EveNet.Reconcile
import EveNet.DnsProxy

/-!
# The whole machine

A command of the program may call on the network, the cache file, the upstream resolvers, the
inspection tools and the configuration file. `machineHost` answers all of these calls from one
state; the programs of the single surroundings become programs of the machine.
-/

namespace EveNet

/-! ### Inspection tools and the configuration file -/

inductive ProbeOutput where
  | notSpawned (cause : String)
  | exited (success : Bool) (stdout stderr : String)

inductive ToolCall where
  | probe (program : String) (args : List String)
  | readDir (path : String)
  deriving DecidableEq

/-- A directory that can be read has entries that each may fail. -/
abbrev toolInterface : Interface where
  Call := ToolCall
  Answer
    | .probe _ _ => ProbeOutput
    | .readDir _ => Except String (List (Except String String))

/-- What the configuration's path holds: nothing, a text that is not JSON, or a value. -/
inductive ConfigContent where
  | absent
  | malformed
  | json (value : Json)

/-- The file is read as what it says, or read into a value that is to be written again. -/
inductive ConfigCall where
  | read
  | readValue
  | write (value : Json)

abbrev configInterface : Interface where
  Call := ConfigCall
  Answer
    | .read => Except String (Option Json)
    | .readValue => Except String (Option Json)
    | .write _ => Except String Unit

/-- How a write of the configuration ends. -/
inductive ConfigWrite where
  | done
  | refused (cause : String)
  | interrupted (cause : String) (left : ConfigContent)

/-! ### One state for all -/

inductive MachineCall where
  | net (c : NetCall)
  | cache (c : CacheCall)
  | udp (c : UdpCall)
  | tool (c : ToolCall)
  | config (c : ConfigCall)

abbrev machineInterface : Interface where
  Call := MachineCall
  Answer
    | .net c => netInterface.Answer c
    | .cache c => cacheInterface.Answer c
    | .udp c => udpInterface.Answer c
    | .tool c => toolInterface.Answer c
    | .config c => configInterface.Answer c

/-- The number is a whole one that fits into 64 bits, with a sign if it is negative. -/
def fitsInteger (literal : String) : Bool :=
  match literal.toList with
  | '-' :: digits => digits.all Char.isDigit ∧ 0 < Nat.ofDigitChars 10 digits 0 ∧
    Nat.ofDigitChars 10 digits 0 ≤ 2 ^ 63
  | digits => digits.all Char.isDigit ∧ Nat.ofDigitChars 10 digits 0 < 2 ^ 64

/-- What surrounds the program. `floats` is how the program prints a number that it has read as a
double, unless that is out of range. -/
structure MachineEnv where
  net : NetEnv
  cache : CacheEnv
  udp : UdpEnv
  probes : ℕ → String → List String → ProbeOutput
  dirs : ℕ → String → Except String (List (Except String String))
  floats : String → Option String
  configReadFails : ℕ → Option String
  configWrites : ℕ → ConfigWrite

structure Machine where
  net : NetState
  cache : CacheStore
  exchanges : ℕ
  inspections : ℕ
  config : ConfigContent
  configCalls : ℕ

def toolHost (env : MachineEnv) : Handler toolInterface ℕ
  | .probe program args, k => (env.probes k program args, k + 1)
  | .readDir path, k => (env.dirs k path, k + 1)

/-- What becomes of a number that is read into a value and written again. -/
def rewriteNumber (floats : String → Option String) (literal : String) : Option String :=
  if fitsInteger literal then some literal else floats literal

/-- What is read from the file, parsed by `parse`. -/
def configRead (env : MachineEnv) (parse : Json → Option Json) (s : ConfigContent × ℕ) :
    Except String (Option Json) :=
  match env.configReadFails s.2, s.1 with
  | some cause, _ => .error cause
  | none, .absent => .error "No such file or directory (os error 2)"
  | none, .malformed => .ok none
  | none, .json value => .ok (parse value)

def configHost (env : MachineEnv) : Handler configInterface (ConfigContent × ℕ)
  | .read, s => (configRead env some s, (s.1, s.2 + 1))
  | .readValue, s => (configRead env (Json.reread (rewriteNumber env.floats)) s, (s.1, s.2 + 1))
  | .write value, s =>
    match env.configWrites s.2 with
    | .done => (.ok (), (.json value, s.2 + 1))
    | .refused cause => (.error cause, (s.1, s.2 + 1))
    | .interrupted cause left => (.error cause, (left, s.2 + 1))

def machineHost (env : MachineEnv) : Handler machineInterface Machine
  | .net c, m => ((netHost env.net c m.net).1, { m with net := (netHost env.net c m.net).2 })
  | .cache c, m =>
    ((cacheHost env.cache c m.cache).1, { m with cache := (cacheHost env.cache c m.cache).2 })
  | .udp c, m =>
    ((udpHost env.udp c m.exchanges).1, { m with exchanges := (udpHost env.udp c m.exchanges).2 })
  | .tool c, m =>
    ((toolHost env c m.inspections).1, { m with inspections := (toolHost env c m.inspections).2 })
  | .config c, m =>
    let r := configHost env c (m.config, m.configCalls)
    (r.1, { m with config := r.2.1, configCalls := r.2.2 })

abbrev MachineProgram := Program machineInterface Error

section Embeddings

variable {α : Type}

def onNet (p : NetProgram α) : MachineProgram α :=
  p.translate (fun c => Program.ask (I := machineInterface) (.net c))

def onCache (p : CacheProgram α) : MachineProgram α :=
  p.translate (fun c => Program.ask (I := machineInterface) (.cache c))

def hostCall : (c : hostInterface.Call) → MachineProgram (hostInterface.Answer c)
  | .inl c => Program.ask (I := machineInterface) (.net c)
  | .inr c => Program.ask (I := machineInterface) (.cache c)

def onHost (p : HostProgram α) : MachineProgram α := p.translate hostCall

def proxyCall : (c : proxyInterface.Call) → MachineProgram (proxyInterface.Answer c)
  | .inl c => Program.ask (I := machineInterface) (.udp c)
  | .inr c => Program.ask (I := machineInterface) (.cache c)

def onProxy (p : ProxyProgram α) : MachineProgram α := p.translate proxyCall

def probe (program : String) (args : List String) : MachineProgram ProbeOutput :=
  Program.ask (I := machineInterface) (.tool (.probe program args))

def readDir (path : String) : MachineProgram (Except String (List (Except String String))) :=
  Program.ask (I := machineInterface) (.tool (.readDir path))

def readConfig : MachineProgram (Except String (Option Json)) :=
  Program.ask (I := machineInterface) (.config .read)

def readConfigValue : MachineProgram (Except String (Option Json)) :=
  Program.ask (I := machineInterface) (.config .readValue)

def writeConfig (value : Json) : MachineProgram (Except String Unit) :=
  Program.ask (I := machineInterface) (.config (.write value))

end Embeddings

/-! ### Loading the configuration -/

/-- The configuration in what was read from `path`. -/
def Config.ofRead (path : String) : Except String (Option Json) → Except Error Config
  | .error cause => .error ["failed to read config: " ++ path, cause]
  | .ok none => .error ["failed to parse JSON config: " ++ path]
  | .ok (some json) =>
    match Config.decode json with
    | none => .error ["failed to parse JSON config: " ++ path]
    | some cfg => .ok cfg

def Config.load (path : String) : MachineProgram Config := do
  let raw ← readConfig
  Program.ofExcept (Config.ofRead path raw)

theorem Config.decode_of_ofRead {path : String} {raw : Except String (Option Json)} {cfg : Config}
    (h : Config.ofRead path raw = .ok cfg) :
    ∃ json, raw = .ok (some json) ∧ Config.decode json = some cfg := by
  rcases raw with cause | (_ | json)
  · cases h
  · cases h
  · simp only [Config.ofRead] at h
    cases hdecode : Config.decode json with
    | none => simp [hdecode] at h
    | some c =>
        simp only [hdecode, Except.ok.injEq] at h
        exact ⟨json, rfl, h ▸ hdecode⟩

end EveNet
