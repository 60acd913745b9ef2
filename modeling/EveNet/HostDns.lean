import EveNet.Outcomes
import EveNet.PythonText

/-!
# The host DNS scripts

`host-dns-apply.sh`, with the snapshot it takes and the restore it falls back on, as a program
over the DNS settings of the host: the settings of each link in systemd-resolved, the DNS keys
of the NetworkManager profiles and the text of `/etc/resolv.conf`. Every command may fail.
-/

namespace EveNet.HostDnsScripts

open Python

/-! ### Settings -/

/-- A server or a domain, as it stands in a list of such. -/
def IsWord (w : String) : Prop := w.toList ≠ [] ∧ ∀ c ∈ w.toList, isSpace c = false

instance (w : String) : Decidable (IsWord w) := inferInstanceAs (Decidable (_ ∧ _))

abbrev Words := { l : List String // ∀ w ∈ l, IsWord w }

structure LinkDns where
  servers : Words
  domains : Words
  defaultRoute : Bool

/-- The DNS keys of a NetworkManager profile. -/
structure NmProfile where
  ipv4IgnoreAutoDns : Bool
  ipv4Dns : List String
  ipv6IgnoreAutoDns : Bool
  ipv6Dns : List String
  deriving DecidableEq

/-- The DNS settings of a host. The name of a link is not empty and never has a colon. -/
@[ext] structure HostDns where
  links : String → Option LinkDns
  profiles : String → NmProfile
  resolvConf : Option String
  named : ∀ name, (links name).isSome = true → name ≠ "" ∧ ':' ∉ name.toList

/-- Change the settings of links that exist. -/
def HostDns.mapLinks (d : HostDns) (f : String → LinkDns → LinkDns) : HostDns :=
  { d with
    links := fun name => (d.links name).map (f name)
    named := fun name hsome => d.named name (by simpa using hsome) }

def HostDns.putLink (d : HostDns) (link : String) (new : LinkDns) : HostDns :=
  d.mapLinks (fun name held => if name = link then new else held)

inductive LinkKey where
  | dns
  | domain
  | defaultRoute
  deriving DecidableEq

/-- What `resolvectl` is asked to set for a link. -/
inductive LinkSetting where
  | dns (values : List String)
  | domain (values : List String)
  | defaultRoute (value : String)
  deriving DecidableEq

/-- An empty text stands for no values. -/
def readValues (values : List String) : Option Words :=
  if values = [""] then some ⟨[], by simp⟩
  else if h : ∀ w ∈ values, IsWord w then some ⟨values, h⟩
  else none

def LinkSetting.on (d : LinkDns) : LinkSetting → Option LinkDns
  | .dns values => (readValues values).map fun words => { d with servers := words }
  | .domain values => (readValues values).map fun words => { d with domains := words }
  | .defaultRoute "yes" => some { d with defaultRoute := true }
  | .defaultRoute "no" => some { d with defaultRoute := false }
  | .defaultRoute _ => none

/-- `yes` or `no`. -/
def yesNo (value : Bool) : String := if value then "yes" else "no"

def LinkDns.values (d : LinkDns) : LinkKey → List String
  | .dns => d.servers
  | .domain => d.domains
  | .defaultRoute => [yesNo d.defaultRoute]

/-! ### Commands -/

/-- The commands that leave the settings alone. -/
inductive Aside where
  | readConfig
  | proxyActive
  | proxyListens
  | canary
  | snapshotDir
  | writeSnapshot
  | backup
  | stateDir
  | emergencyNote
  | protectNote
  | noteSnapshot
  | noteBackup
  | noteConnection
  | openSnapshot
  | flushCaches
  | pause
  | canaryAgain
  | hostTest
  | showAnswer
  | removeTest
  deriving DecidableEq

/-- Who sets something: the apply script, or the restore script. -/
inductive Caller where
  | apply
  | restore
  deriving DecidableEq

inductive DnsCall where
  | hasCommand (name : String)
  | linkExists (link : String)
  | confIsSymlink
  | activeConnection
  | query (key : LinkKey) (link : String)
  | set (caller : Caller) (link : String) (setting : LinkSetting)
  | modifyConnection (connection : String)
  | bringUp (connection : String)
  | writeResolvConf (text : String)
  | aside (step : Aside)
  | hostDnsOk
  | repair
  deriving DecidableEq

/-- A query answers with its output if it succeeds, the other commands with their success. -/
abbrev dnsInterface : Interface where
  Call := DnsCall
  Answer
    | .activeConnection => Option String
    | .query _ _ => Option (List Char)
    | .repair => Unit
    | _ => Bool

/-- What a host has, which commands fail on it, and what is left by a write that breaks off, by a
connection that comes up and by the repair script. The `k`-th call can find another active
connection than an earlier one. -/
structure DnsEnv where
  commands : String → Bool
  symlink : Bool
  linkNumber : String → ℕ
  connection : ℕ → Option String
  fails : DnsCall → Bool
  broken : Option String
  bounced : String → LinkDns → LinkDns
  works : Bool
  repaired : HostDns → HostDns

structure DnsHost where
  dns : HostDns
  calls : ℕ

def DnsHost.become (s : DnsHost) (d : HostDns) : DnsHost := ⟨d, s.calls + 1⟩

def linkLabel (number : ℕ) (link : String) : List Char :=
  "Link ".toList ++ Nat.toDigits 10 number ++ " (".toList ++ link.toList ++ ")".toList

/-- What `resolvectl` prints for a link. -/
def queryText (number : ℕ) (link : String) (values : List String) : List Char :=
  linkLabel number link ++ ':' :: (values.flatMap (fun w => ' ' :: w.toList) ++ ['\n'])

/-- The keys that the script gives a profile. -/
def pinnedProfile : NmProfile := ⟨true, ["127.0.0.1"], true, []⟩

def setOn (d : HostDns) (link : String) (setting : LinkSetting) : Option HostDns :=
  match d.links link with
  | none => none
  | some old => (setting.on old).map (d.putLink link)

def dnsHost (env : DnsEnv) : Handler dnsInterface DnsHost
  | .hasCommand name, s => (env.commands name, s.become s.dns)
  | .linkExists link, s => ((s.dns.links link).isSome, s.become s.dns)
  | .confIsSymlink, s => (env.symlink, s.become s.dns)
  | .activeConnection, s => (env.connection s.calls, s.become s.dns)
  | .query key link, s =>
    (match env.fails (.query key link), s.dns.links link with
      | false, some d => some (queryText (env.linkNumber link) link (d.values key))
      | _, _ => none,
     s.become s.dns)
  | .set caller link setting, s =>
    match env.fails (.set caller link setting), setOn s.dns link setting with
    | false, some d => (true, s.become d)
    | _, _ => (false, s.become s.dns)
  | .modifyConnection connection, s =>
    if env.fails (.modifyConnection connection) then (false, s.become s.dns)
    else (true, s.become
      { s.dns with profiles := Function.update s.dns.profiles connection pinnedProfile })
  | .bringUp connection, s =>
    (!env.fails (.bringUp connection), s.become (s.dns.mapLinks env.bounced))
  | .writeResolvConf text, s =>
    if env.fails (.writeResolvConf text) then
      (false, s.become { s.dns with resolvConf := env.broken })
    else (true, s.become { s.dns with resolvConf := some text })
  | .aside step, s => (!env.fails (.aside step), s.become s.dns)
  | .hostDnsOk, s => (env.works, s.become s.dns)
  | .repair, s => ((), s.become (env.repaired s.dns))

/-- The status of a script that does not exit with 0. -/
inductive ExitStatus where
  | ofCommand
  | code (n : ℕ)
  deriving DecidableEq

abbrev DnsProgram := Program dnsInterface ExitStatus

def hasCommand (name : String) : DnsProgram Bool := .call (.hasCommand name) .pure

def linkExists (link : String) : DnsProgram Bool := .call (.linkExists link) .pure

def confIsSymlink : DnsProgram Bool := .call .confIsSymlink .pure

def activeConnection : DnsProgram (Option String) := .call .activeConnection .pure

def query (key : LinkKey) (link : String) : DnsProgram (Option (List Char)) :=
  .call (.query key link) .pure

def set (caller : Caller) (link : String) (setting : LinkSetting) : DnsProgram Bool :=
  .call (.set caller link setting) .pure

def modifyConnection (connection : String) : DnsProgram Bool :=
  .call (.modifyConnection connection) .pure

def bringUp (connection : String) : DnsProgram Bool := .call (.bringUp connection) .pure

def writeResolvConf (text : String) : DnsProgram Bool := .call (.writeResolvConf text) .pure

def aside (step : Aside) : DnsProgram Bool := .call (.aside step) .pure

def hostDnsOk : DnsProgram Bool := .call .hostDnsOk .pure

def repair : DnsProgram Unit := .call .repair .pure

/-- A command under `set -e`. -/
def must (command : DnsProgram Bool) : DnsProgram Unit := do
  if ← command then pure () else .fail .ofCommand

/-- `command || true`. -/
def may (command : DnsProgram Bool) : DnsProgram Unit := do
  let _ ← command

/-- A test whose refusal exits with 1. -/
def check (test : DnsProgram Bool) : DnsProgram Unit := do
  if ← test then pure () else .fail (.code 1)

/-! ### `host-dns-runtime-snapshot.sh` -/

def afterColon (text : List Char) : List Char :=
  if ':' ∈ text then strip ((text.dropWhile (· ≠ ':')).drop 1) else text

def parseValueList (text : List Char) : List String :=
  let text := afterColon (strip text)
  if text = [] ∨ text = ['-'] then [] else (split text).map String.ofList

def parseDefaultRoute (text : List Char) : Option String :=
  (parseValueList text).head?.map fun first => String.ofList (lower (strip first.toList))

structure LinkSnapshot where
  dnsServers : List String
  dnsDomains : List String
  defaultRoute : Option String
  deriving DecidableEq

abbrev Snapshot := List (String × LinkSnapshot)

def considerLink (links : List String) (candidate : String) : DnsProgram (List String) :=
  if candidate = "" ∨ candidate ∈ links then pure links
  else do
    if ← linkExists candidate then pure (links ++ [candidate]) else pure links

def snapshotLink (link : String) : DnsProgram LinkSnapshot := do
  let servers ← query .dns link
  let domains ← query .domain link
  let route ← query .defaultRoute link
  pure ⟨(servers.map parseValueList).getD [], (domains.map parseValueList).getD [],
    route.bind parseDefaultRoute⟩

def snapshotLinks : List String → DnsProgram Snapshot
  | [] => pure []
  | link :: links => do
    let taken ← snapshotLink link
    let rest ← snapshotLinks links
    pure ((link, taken) :: rest)

/-- The links of the snapshot are the underlay, `wlo1` and `amn0`, as far as they exist. -/
def takeSnapshot (underlay : String) : DnsProgram Snapshot := do
  check (hasCommand "resolvectl")
  must (aside .snapshotDir)
  let links ← considerLink [] underlay
  let links ← considerLink links "wlo1"
  let links ← considerLink links "amn0"
  let snapshot ← snapshotLinks links
  must (aside .writeSnapshot)
  pure snapshot

/-! ### `host-dns-runtime-restore.sh` -/

def valuesOrBlank (values : List String) : List String := if values = [] then [""] else values

/-- Only `yes` and `no` are restored. -/
def restoreRoute (link : String) : Option String → DnsProgram Unit
  | some value =>
    if value = "yes" ∨ value = "no" then must (set .restore link (.defaultRoute value)) else pure ()
  | none => pure ()

def restoreLink (entry : String × LinkSnapshot) : DnsProgram Unit := do
  if ← linkExists entry.1 then do
    must (set .restore entry.1 (.dns (valuesOrBlank entry.2.dnsServers)))
    must (set .restore entry.1 (.domain (valuesOrBlank entry.2.dnsDomains)))
    restoreRoute entry.1 entry.2.defaultRoute
  else pure ()

def restoreSnapshot (snapshot : Snapshot) : DnsProgram Unit := do
  must (aside .openSnapshot)
  Program.forEach restoreLink snapshot
  may (aside .flushCaches)

/-! ### `host-dns-apply.sh` -/

/-- The legacy branch at the end of the script's function tests a text that is never empty, and
is not taken. -/
def rollbackNow (snapshot : Snapshot) : DnsProgram Unit := do
  let _ ← Program.attempt (restoreSnapshot snapshot)
  if ← hostDnsOk then .fail (.code 2)
  else do
    repair
    .fail (.code 2)

/-- `command || rollback_now 2`. -/
def orRollback (snapshot : Snapshot) (command : DnsProgram Bool) : DnsProgram Unit := do
  if ← command then pure () else rollbackNow snapshot

inductive Method where
  | auto
  | resolved
  | nm
  | resolvconf
  | unknown
  deriving DecidableEq

/-- `resolvectl` is there, and so is `wlo1`. -/
def prefersResolved : DnsProgram Bool := do
  if ← hasCommand "resolvectl" then linkExists "wlo1" else pure false

/-- The first active connection, if `nmcli` is there. -/
def usableConnection : DnsProgram (Option String) := do
  if ← hasCommand "nmcli" then activeConnection else pure none

def chooseMethod : Method → DnsProgram Method
  | .auto => do
    if ← prefersResolved then pure .resolved
    else if (← usableConnection).isSome then pure .nm
    else if ← confIsSymlink then .fail (.code 1)
    else pure .resolvconf
  | method => pure method

def applySettings : List LinkSetting := [.dns ["127.0.0.1"], .domain ["~."], .defaultRoute "yes"]

def applyLink (snapshot : Snapshot) (link : String) : DnsProgram Unit :=
  Program.forEach (fun setting => orRollback snapshot (set .apply link setting)) applySettings

def applyResolved (snapshot : Snapshot) : DnsProgram Unit := do
  must (aside .noteBackup)
  let links ← considerLink ["wlo1"] "amn0"
  Program.forEach (applyLink snapshot) links
  may (aside .flushCaches)

def applyNm (snapshot : Snapshot) : DnsProgram Unit := do
  match ← usableConnection with
  | none => .fail (.code 1)
  | some connection => do
    must (aside .noteConnection)
    must (aside .noteBackup)
    must (modifyConnection connection)
    orRollback snapshot (bringUp connection)

def managedText : String :=
  "# Managed by eve-net host DNS integration\nnameserver 127.0.0.1\noptions edns0 trust-ad\n"

def applyResolvConf : DnsProgram Unit := do
  if ← confIsSymlink then .fail (.code 1)
  else do
    must (aside .noteBackup)
    must (writeResolvConf managedText)

/-- The tests after the settings have been changed. -/
def validateApplied (snapshot : Snapshot) : DnsProgram Unit := do
  must (aside .pause)
  orRollback snapshot (aside .canaryAgain)
  if ← aside .hostTest then do
    must (aside .showAnswer)
    must (aside .removeTest)
  else do
    must (aside .removeTest)
    rollbackNow snapshot

def applyMethod (snapshot : Snapshot) : Method → DnsProgram Unit
  | .resolved => applyResolved snapshot
  | .nm => applyNm snapshot
  | .resolvconf => applyResolvConf
  | _ => .fail (.code 1)

def checkProxy (listenAddr : String) : DnsProgram Unit := do
  must (aside .readConfig)
  check (pure (listenAddr = "127.0.0.1:53"))
  check (aside .proxyActive)
  check (aside .proxyListens)
  must (aside .canary)

def noteState : DnsProgram Unit := do
  must (aside .backup)
  must (aside .stateDir)
  must (aside .emergencyNote)
  may (aside .protectNote)
  must (aside .noteSnapshot)

/-- The script with `--apply` and the acknowledgement. -/
def hostDnsApply (listenAddr underlay : String) (method : Method) : DnsProgram Unit := do
  checkProxy listenAddr
  let snapshot ← takeSnapshot underlay
  noteState
  let method ← chooseMethod method
  applyMethod snapshot method
  validateApplied snapshot

end EveNet.HostDnsScripts
