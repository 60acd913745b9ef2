import EveNet.Commands
import EveNet.PythonText
import EveNet.RenumberedConfig

/-!
# The scripts that edit the configuration

Three scripts change the configuration file with a few lines of Python, on the JSON value and
without the program's validator. `get` on a value that is no object, and an assignment into one,
raise; a script that raises or exits early has not written the file. The numbers of the file are
read and printed by Python, in members that the script does not look at too.
-/

namespace EveNet

/-- How an editor ends without writing the file. -/
inductive EditError where
  | exit (message : String)
  | raised (exception : String)

/-! ### The operations of Python on JSON values -/

namespace Python

/-- `value.get(key)` -/
def get (value : Json) (key : String) : Except EditError (Option Json) :=
  match value with
  | .obj _ => .ok (value.get key)
  | _ => .error (.raised "AttributeError")

/-- `value[key] = new` for a string key. -/
def setItem (value : Json) (key : String) (new : Json) : Except EditError Json :=
  match value with
  | .obj _ => .ok (value.set key new)
  | _ => .error (.raised "TypeError")

/-- The elements of a member that is to be a list; one that is missing has none. -/
def elements : Option Json → Except EditError (List Json)
  | none => .ok []
  | some (.arr items) => .ok items
  | some _ => .error (.raised "TypeError")

/-- `value or {}`. Numbers are not looked into: none stands where this is used. -/
def orEmpty : Option Json → Json
  | none => .obj []
  | some .null => .obj []
  | some (.bool false) => .obj []
  | some (.str "") => .obj []
  | some (.arr []) => .obj []
  | some value => value

/-! ### Numbers -/

def isWhole (literal : String) : Bool := literal.toList.all (fun c => c.isDigit || c == '-')

/-- A number that is not written as a whole one is read as an infinity if it is too large for a
double. -/
def isFinite (literal : String) : Bool := isWhole literal || !outOfRange literal

/-- How Python prints doubles, a finite one so that it is read as a finite one again, and how many
digits a whole number may have, if that is limited. -/
structure Numbers where
  repr : String → String
  maxDigits : Option ℕ
  finite : ∀ literal, outOfRange literal = false → isFinite (repr literal) = true

/-- A number as the loaded value holds it: an infinity with the text it was read from, and any
other number as it is printed. -/
def Numbers.text (numbers : Numbers) (literal : String) : String :=
  if isWhole literal then (if literal = "-0" then "0" else literal)
  else if outOfRange literal then literal
  else numbers.repr literal

def Numbers.reads (numbers : Numbers) (literal : String) : Bool :=
  ¬ isWhole literal ∨ ∀ limit ∈ numbers.maxDigits,
    (literal.toList.filter Char.isDigit).length ≤ limit

/-! ### Files -/

/-- `json.loads(path.read_text())` -/
def loads (numbers : Numbers) (value : Json) : Except EditError Json :=
  if value.allNumbers numbers.reads then .ok (value.renumber numbers.text)
  else .error (.raised "ValueError")

/-- What `json.dumps` makes of a value. An infinity is printed as `Infinity`, which is no JSON. -/
def dumps (value : Json) : ConfigContent :=
  if value.allNumbers isFinite then .json value else .malformed

/-- A script that reads the file, edits the value and writes it back. A write truncates the file
before it writes, so one that breaks off, be it for a text that cannot be encoded, leaves anything
behind. -/
def runEditor (numbers : Numbers) (edit : Except EditError Json → Except EditError Json)
    (write : ConfigWrite) (value : Json) : Except EditError Unit × ConfigContent :=
  match edit (loads numbers value) with
  | .error e => (.error e, .json value)
  | .ok value' =>
    match write with
    | .done => (.ok (), dumps value')
    | .refused cause => (.error (.raised cause), .json value)
    | .interrupted cause left => (.error (.raised cause), left)

/-! ### Text -/

/-- `str(value)` of a member, with the empty text for a missing one. The text of a list or an
object, which begins with a bracket, is not needed. -/
def text : Option Json → Option String
  | none => some ""
  | some .null => some "None"
  | some (.bool true) => some "True"
  | some (.bool false) => some "False"
  | some (.num literal) =>
    some (if isFinite literal then literal
      else if literal.toList.head? = some '-' then "-inf" else "inf")
  | some (.str s) => some s
  | some (.arr _) => none
  | some (.obj _) => none

/-- `.strip().lower().rstrip('.')` -/
def bareDomain (s : String) : String := String.ofList (trimEndDots (lower (strip s.toList)))

/-- A comparison of a member with a string. -/
def isText (value : Option Json) (s : String) : Bool := value.bind Json.asStr = some s

end Python

open Python

/-! ### add-domain-policy.sh -/

def isBareDomainChar (c : Char) : Bool := c.isLower || c.isDigit || c == '.' || c == '-'

/-- `re.sub(r"[^a-z0-9]+", "-", …)`; `run` says that the last character was replaced. -/
def hyphenated : (run : Bool) → List Char → List Char
  | _, [] => []
  | run, c :: cs =>
    if c.isLower || c.isDigit then c :: hyphenated false cs
    else if run then hyphenated true cs
    else '-' :: hyphenated true cs

def stripHyphens (s : List Char) : List Char := (s.dropWhile (· == '-')).rdropWhile (· == '-')

/-- The id of the new policy: the given one, or one made of the domain and the egress. -/
def policyIdFor (domain egress policyId : String) : String :=
  if policyId = "" then
    "domain-" ++ String.ofList (stripHyphens (hyphenated false domain.toList)) ++ "-through-" ++
      egress
  else policyId

/-- Whether an egress has the name; those behind it are not looked at. -/
def anyNamed (egress : String) : List Json → Except EditError Bool
  | [] => .ok false
  | e :: es => do
    if isText (← get e "name") egress then .ok true else anyNamed egress es

/-- Exit if another policy that says `"enabled": true` has the domain. -/
def refuseDuplicate (domain policyId : String) : List Json → Except EditError Unit
  | [] => .ok ()
  | existing :: rest => do
    let id ← get existing "id"
    if isText id policyId then refuseDuplicate domain policyId rest
    else
      let found ← get (orEmpty (← get existing "match")) "domain"
      let enabled ← get existing "enabled"
      if enabled.bind Json.asBool = some true ∧ (text found).map bareDomain = some domain then
        .error (.exit ("duplicate enabled domain policy for " ++ domain ++ ": " ++
          (text id).getD "" ++
          ". Disable/remove it first or pass the same policy-id to update."))
      else refuseDuplicate domain policyId rest

def domainPolicyItem (policyId domain egress : String) : Json :=
  .obj [("id", .str policyId), ("enabled", .bool true), ("match", .obj [("domain", .str domain)]),
    ("action", .obj [("egress", .str egress)])]

/-- The items whose id is not the text. -/
def withoutId (policyId : String) (policies : List Json) : List Json :=
  policies.filter (fun policy => ¬ isText (policy.get "id") policyId)

def addDomainPolicy (domainArg egressArg policyIdArg : String) (loaded : Except EditError Json) :
    Except EditError Json :=
  if domainArg = "" ∨ egressArg = "" then
    .error (.exit ("Usage: sudo bash scripts/add-domain-policy.sh " ++
      "/etc/eve-net/policy.json example.com amn0 [policy-id]"))
  else do
    let domain := bareDomain domainArg
    let egress := String.ofList (strip egressArg.toList)
    if domain = "" ∨ ¬ domain.toList.all isBareDomainChar ∨ '/' ∈ domain.toList ∨
        ':' ∈ domain.toList then
      .error (.exit ("invalid bare domain: " ++ domain))
    else
      let policyId := policyIdFor domain egress (String.ofList (strip policyIdArg.toList))
      let cfg ← loaded
      let found ← anyNamed egress (← elements (← get cfg "egress_interfaces"))
      if ¬ found then .error (.exit ("unknown egress: " ++ egress))
      else
        let policies ← elements (← get cfg "policies")
        refuseDuplicate domain policyId policies
        setItem cfg "policies"
          (.arr (withoutId policyId policies ++ [domainPolicyItem policyId domain egress]))

/-! ### enable-wg-policy.sh -/

/-- `^wg[0-9]+$` -/
def isWgName : List Char → Bool
  | 'w' :: 'g' :: digits => digits ≠ [] ∧ digits.all Char.isDigit
  | _ => false

def enableNamed (iface : String) (egress : Json) : Except EditError Json := do
  if isText (← get egress "name") iface then setItem egress "enabled" (.bool true) else .ok egress

def enableRouted (iface : String) (policy : Json) : Except EditError Json := do
  let action ← get policy "action"
  if isText (← get (action.getD (.obj [])) "egress") iface then
    setItem policy "enabled" (.bool true)
  else .ok policy

/-- The elements of a member changed in place; a missing member stays missing. -/
def editElements (key : String) (edit : Json → Except EditError Json) (cfg : Json) :
    Except EditError Json := do
  match ← get cfg key with
  | none => .ok cfg
  | some member => do
    let items ← (← elements (some member)).mapM edit
    setItem cfg key (.arr items)

def enableWgPolicy (iface : String) (loaded : Except EditError Json) : Except EditError Json :=
  if iface = "" then
    .error (.exit "usage: bash scripts/enable-wg-policy.sh /etc/eve-net/policy.json wg0|wg1")
  else if ¬ isWgName iface.toList then
    .error (.exit ("Refusing suspicious interface name: " ++ iface))
  else do
    let cfg ← loaded
    let egresses ← elements (← get cfg "egress_interfaces")
    let enabled ← editElements "egress_interfaces" (enableNamed iface) cfg
    if ¬ egresses.any (fun egress => isText (egress.get "name") iface) then
      .error (.exit ("egress not found in config: " ++ iface))
    else editElements "policies" (enableRouted iface) enabled

/-! ### enable-amnezia-policy.sh -/

def disableWg (egress : Json) : Except EditError Json := do
  let name ← get egress "name"
  if isText name "wg0" ∨ isText name "wg1" then setItem egress "enabled" (.bool false)
  else .ok egress

def amneziaItem (iface : String) : Json :=
  .obj [("enabled", .bool true), ("name", .str iface), ("kind", .str "tunnel"),
    ("table", .num "250"), ("fwmark", .num "250"), ("rule_priority", .num "1010"),
    ("healthcheck", .obj [("enabled", .bool false), ("target_ip", .str "1.1.1.1"),
      ("timeout_ms", .num "1500")]),
    ("gateway", .null), ("source_ip", .null)]

/-- The item in the place of the first one with its name, or at the end. -/
def placeEgress (iface : String) (item : Json) : List Json → List Json
  | [] => [item]
  | e :: es => if isText (e.get "name") iface then item :: es else e :: placeEgress iface item es

def wgTemplateIds : List String :=
  ["cloudflare-dns-through-wg0-template", "google-dns-through-wg1-template"]

def amneziaIds : List String := ["cloudflare-dns-through-amnezia", "domain-through-amnezia"]

def disableTemplate (policy : Json) : Except EditError Json := do
  let id ← get policy "id"
  if wgTemplateIds.any (isText id) then setItem policy "enabled" (.bool false) else .ok policy

def cloudflareDirectId : String := "cloudflare-dns-through-direct-wifi"

def googleDirectId : String := "google-dns-through-direct-wifi"

/-- Google's resolver goes through the direct Wi-Fi, Cloudflare's no longer does. -/
def splitDirect (policy : Json) : Except EditError Json := do
  let id ← get policy "id"
  if isText id cloudflareDirectId then
    setItem policy "enabled" (.bool false)
  else if isText id googleDirectId then do
    let enabled ← setItem policy "enabled" (.bool true)
    setItem enabled "action" (.obj [("egress", .str "wlo1")])
  else .ok policy

def cloudflareItem (iface : String) : Json :=
  .obj [("id", .str "cloudflare-dns-through-amnezia"), ("enabled", .bool true),
    ("match", .obj [("dest_ip", .str "1.1.1.1")]), ("action", .obj [("egress", .str iface)])]

/-- The policies that are appended: one for Cloudflare, and one for the domain if there is one. -/
def amneziaPolicyItems (iface domain : String) : List Json :=
  cloudflareItem iface ::
    (if domain = "" then [] else [domainPolicyItem "domain-through-amnezia" domain iface])

def enableAmneziaPolicy (ifaceArg domainArg : String) (loaded : Except EditError Json) :
    Except EditError Json := do
  let iface := if ifaceArg = "" then "amn0" else ifaceArg
  let domain := String.ofList (strip domainArg.toList)
  let cfg ← loaded
  let runtime ← setItem ((← get cfg "runtime").getD (.obj [])) "dry_run" (.bool false)
  let cfg ← setItem cfg "runtime" runtime
  let egresses ← (← elements (← get cfg "egress_interfaces")).mapM disableWg
  let cfg ← setItem cfg "egress_interfaces" (.arr (placeEgress iface (amneziaItem iface) egresses))
  let policies ← (← elements (← get cfg "policies")).mapM disableTemplate
  let kept ← (policies.filter (fun policy =>
    ¬ amneziaIds.any (isText (policy.get "id")))).mapM splitDirect
  setItem cfg "policies" (.arr (kept ++ amneziaPolicyItems iface domain))

/-! ### The editors -/

inductive ConfigEdit where
  | addDomainPolicy (domain egress policyId : String)
  | enableWgPolicy (iface : String)
  | enableAmneziaPolicy (iface domain : String)

/-- The configuration that an editor writes, made from the one that it has loaded. -/
def ConfigEdit.apply : ConfigEdit → Except EditError Json → Except EditError Json
  | .addDomainPolicy domain egress policyId => EveNet.addDomainPolicy domain egress policyId
  | .enableWgPolicy iface => EveNet.enableWgPolicy iface
  | .enableAmneziaPolicy iface domain => EveNet.enableAmneziaPolicy iface domain

def ConfigEdit.run (edit : ConfigEdit) (numbers : Numbers) (write : ConfigWrite) (value : Json) :
    Except EditError Unit × ConfigContent :=
  runEditor numbers edit.apply write value

end EveNet
