import EveNet.EditedNumbers

/-!
# The scripts that edit the settings

Four scripts set members of the configuration and change no list but by flags: one turns dry
runs off, two set up the DNS proxy, and one takes a WireGuard interface out of use. They check
nothing either, but what they write is accepted whenever the old configuration was.
-/

namespace EveNet

open Python

/-! ### Members -/

namespace Python

/-- `value.setdefault(key, default)` -/
def setDefault (key : String) (default value : Json) : Except EditError Json := do
  match ← get value key with
  | some _ => .ok value
  | none => setItem value key default

/-- What is done in place with `value.setdefault(key, {})`. -/
def editMember (key : String) (edit : Json → Except EditError Json) (value : Json) :
    Except EditError Json := do
  let member ← edit ((← get value key).getD (.obj []))
  setItem value key member

/-- Whether a number is not zero: some digit before the exponent is not. An infinity and a number
as Python prints it have one. -/
def numTrue (digits : String) : Bool :=
  (digits.toList.takeWhile (fun c => c ≠ 'e' ∧ c ≠ 'E')).any (fun c => c.isDigit ∧ c ≠ '0')

/-- Whether a member counts as true. -/
def truthy : Option Json → Bool
  | none => false
  | some .null => false
  | some (.bool b) => b
  | some (.num digits) => numTrue digits
  | some (.str s) => s ≠ ""
  | some (.arr items) => ¬ items.isEmpty
  | some (.obj members) => ¬ members.isEmpty

end Python

/-! ### enable-apply.sh -/

def enableApply (cfg : Json) : Except EditError Json :=
  editMember "runtime" (fun runtime => setItem runtime "dry_run" (.bool false)) cfg

/-! ### enable-dns-interception-config.sh -/

/-- What is taken when no resolver is detected. -/
def defaultUpstreams : List String := ["111.88.96.50:53", "111.88.96.51:53"]

/-- The upstream and the list of all; the detected ones are those that amnezia-dns-detect.sh
prints, or none where it cannot be run. -/
def interceptionUpstreams (upstreamArg : String) (detected : List String) : String × List String :=
  let upstream := if upstreamArg = "" then "auto" else upstreamArg
  if upstream = "auto" then
    match detected with
    | first :: _ => (first, detected)
    | [] => ("111.88.96.50:53", defaultUpstreams)
  else (upstream, [upstream])

/-- `list(dict.fromkeys(upstreams or [upstream]))` -/
def distinctUpstreams (upstream : String) (upstreams : List String) : List String :=
  (if upstreams = [] then [upstream] else upstreams).eraseDups

/-- Unresolved domains fail closed, and the proxy is part of it. -/
def closeCache (cache : Json) : Except EditError Json := do
  let cache ← setItem cache "dns_interception_enabled" (.bool true)
  let cache ← setItem cache "unresolved_domain_mode" (.str "hard_fail_closed_dns_required")
  setItem cache "fail_closed_unresolved" (.bool true)

def setUpstreams (upstream : String) (upstreams : List String) (dns : Json) :
    Except EditError Json := do
  let dns ← setItem dns "upstream_addr" (.str upstream)
  setItem dns "upstreams" (.arr ((distinctUpstreams upstream upstreams).map .str))

/-- The flags of the proxy are left alone where they are set. -/
def interceptLocally (upstream : String) (upstreams : List String) (dns : Json) :
    Except EditError Json := do
  let dns ← setItem dns "listen_addr" (.str "127.0.0.1:5533")
  let dns ← setUpstreams upstream upstreams dns
  let dns ← setDefault "timeout_ms" (.num "1500") dns
  let dns ← setItem dns "enabled" (.bool true)
  let dns ← setDefault "cache_answers" (.bool true) dns
  let dns ← setDefault "deny_unresolved_policy_domains" (.bool true) dns
  let dns ← setDefault "deny_aaaa_for_policy_domains" (.bool true) dns
  let dns ← setDefault "audit_log_queries" (.bool true) dns
  setItem dns "auto_redirect_enabled" (.bool false)

def enableDnsInterception (upstreamArg : String) (detected : List String) (cfg : Json) :
    Except EditError Json := do
  let (upstream, upstreams) := interceptionUpstreams upstreamArg detected
  let cfg ← editMember "dns_cache" closeCache cfg
  editMember "dns_interception" (interceptLocally upstream upstreams) cfg

/-! ### enable-host-dns-config.sh -/

def hostDnsUpstreams (upstreamArg : String) (detected : List String) : String × List String :=
  let upstream := if upstreamArg = "" then "keep" else upstreamArg
  if upstream = "auto" then
    match detected with
    | first :: _ => (first, detected)
    | [] => ("111.88.96.50:53", defaultUpstreams)
  else if upstream ≠ "keep" then (upstream, [upstream])
  else (upstream, [])

/-- Kept upstreams are listed if only the single one was given. -/
def keepUpstreams (dns : Json) : Except EditError Json := do
  match ← get dns "upstream_addr" with
  | none => .ok dns
  | some addr =>
    if ¬ truthy (some addr) then .ok dns
    else if truthy (← get dns "upstreams") then .ok dns
    else setItem dns "upstreams" (.arr [addr])

def takeUpstreams (upstream : String) (upstreams : List String) (dns : Json) :
    Except EditError Json :=
  if upstream ≠ "keep" then setUpstreams upstream upstreams dns else keepUpstreams dns

def interceptForHost (upstream : String) (upstreams : List String) (dns : Json) :
    Except EditError Json := do
  let dns ← setItem dns "enabled" (.bool true)
  let dns ← setItem dns "listen_addr" (.str "127.0.0.1:53")
  let dns ← takeUpstreams upstream upstreams dns
  let dns ← setItem dns "cache_answers" (.bool true)
  let dns ← setItem dns "deny_unresolved_policy_domains" (.bool true)
  let dns ← setItem dns "deny_aaaa_for_policy_domains" (.bool true)
  setItem dns "auto_redirect_enabled" (.bool false)

def enableHostDns (upstreamArg : String) (detected : List String) (cfg : Json) :
    Except EditError Json := do
  let (upstream, upstreams) := hostDnsUpstreams upstreamArg detected
  let cfg ← editMember "dns_interception" (interceptForHost upstream upstreams) cfg
  editMember "dns_cache" (fun cache => do closeCache (← setItem cache "enabled" (.bool true))) cfg

/-! ### disable-wg-policy.sh -/

def disableNamed (iface : String) (egress : Json) : Except EditError Json := do
  if isText (← get egress "name") iface then setItem egress "enabled" (.bool false)
  else .ok egress

def disableRouted (iface : String) (policy : Json) : Except EditError Json := do
  let action ← get policy "action"
  if isText (← get (action.getD (.obj [])) "egress") iface then
    setItem policy "enabled" (.bool false)
  else .ok policy

def disableWgPolicy (iface : String) (loaded : Except EditError Json) : Except EditError Json :=
  if iface = "" then
    .error (.exit "usage: bash scripts/disable-wg-policy.sh /etc/eve-net/policy.json wg0|wg1")
  else if ¬ isWgName iface.toList then
    .error (.exit ("Refusing suspicious interface name: " ++ iface))
  else do
    let cfg ← loaded
    let disabled ← editElements "egress_interfaces" (disableNamed iface) cfg
    editElements "policies" (disableRouted iface) disabled

/-! ### All of them -/

inductive SettingsEdit where
  | enableApply
  | enableDnsInterception (upstream : String) (detected : List String)
  | enableHostDns (upstream : String) (detected : List String)
  | disableWgPolicy (iface : String)

/-- The configuration that a script writes, made from the one that it has loaded. -/
def SettingsEdit.apply : SettingsEdit → Except EditError Json → Except EditError Json
  | .enableApply, loaded => do EveNet.enableApply (← loaded)
  | .enableDnsInterception upstream detected, loaded => do
    EveNet.enableDnsInterception upstream detected (← loaded)
  | .enableHostDns upstream detected, loaded => do
    EveNet.enableHostDns upstream detected (← loaded)
  | .disableWgPolicy iface, loaded => EveNet.disableWgPolicy iface loaded

def SettingsEdit.run (edit : SettingsEdit) (numbers : Numbers) (write : ConfigWrite)
    (value : Json) : Except EditError Unit × ConfigContent :=
  runEditor numbers edit.apply write value

/-- The value in the file after scripts were run one after the other, each with the way that its
write would end; nothing once the file holds no JSON any more. -/
def written (numbers : Numbers) : List (SettingsEdit × ConfigWrite) → Json → Option Json
  | [], value => some value
  | (edit, write) :: edits, value =>
    match (edit.run numbers write value).2 with
    | .json value' => written numbers edits value'
    | .malformed => none
    | .absent => none

/-- The scripts among them that went through. -/
def succeeded (numbers : Numbers) : List (SettingsEdit × ConfigWrite) → Json → List SettingsEdit
  | [], _ => []
  | (edit, write) :: edits, value =>
    match edit.run numbers write value with
    | (.ok (), .json value') => edit :: succeeded numbers edits value'
    | (.error _, .json value') => succeeded numbers edits value'
    | _ => []

end EveNet
