import EveNet.HostDnsFailures

/-!
# Rolling the host DNS settings back

`host-dns-rollback.sh` restores the newest snapshot. After a run of the apply script this is the
one that the run took before it changed anything. The links are put back, but a profile and
`/etc/resolv.conf` are in no snapshot.
-/

namespace EveNet.HostDnsScripts

/-! ### `host-dns-rollback.sh` -/

def repairUnlessOk : DnsProgram Unit := do
  if ← hostDnsOk then pure () else repair

/-- The script on the snapshot that it is given or finds, with `--repair` or without. -/
def hostDnsRollback (found : Option Snapshot) (withRepair : Bool) : DnsProgram Unit :=
  match found with
  | none => if withRepair then repair else .fail (.code 1)
  | some snapshot => do
    restoreSnapshot snapshot
    if withRepair then repairUnlessOk else pure ()

/-- The part of the apply script that ends with the snapshot. -/
def applySnapshot (listenAddr underlay : String) : DnsProgram Snapshot := do
  checkProxy listenAddr
  takeSnapshot underlay

/-! ### What a run of the apply script changes -/

def localDns : LinkDns where
  servers := ⟨["127.0.0.1"], fun _ hw =>
    List.mem_singleton.mp hw ▸ isWord_of_all (by decide) (by decide)⟩
  domains := ⟨["~."], fun _ hw => List.mem_singleton.mp hw ▸ isWord_of_all (by decide) (by decide)⟩
  defaultRoute := true

inductive Change where
  | links
  | profile (connection : String)
  | resolvConf

/-- The settings after the change. -/
def Change.on (env : DnsEnv) (d : HostDns) : Change → HostDns
  | .links => (d.putLink "wlo1" localDns).putLink "amn0" localDns
  | .profile connection => HostDns.mapLinks
    { d with profiles := Function.update d.profiles connection pinnedProfile } env.bounced
  | .resolvConf => { d with resolvConf := some managedText }

/-- The change is that of the method. -/
def Change.By : Change → Method → Prop
  | .links, method => method = .resolved
  | .profile _, method => method = .nm
  | .resolvConf, method => method = .resolvconf

/-- All that is in no snapshot was before the change as it is after it. -/
def Change.Reversible (env : DnsEnv) (start : HostDns) (underlay : String) : Change → Prop
  | .links => True
  | .profile connection => start.profiles connection = pinnedProfile ∧
    ∀ name held, ¬ InSnapshot start underlay name → start.links name = some held →
      env.bounced name held = held
  | .resolvConf => start.resolvConf = some managedText

section Applied

variable {env : DnsEnv} {s : DnsHost} {snapshot : Snapshot}

/-- Quiet commands, with whatever they answer. -/
theorem ends_of_quiet {α : Type} {p : DnsProgram α} (hp : p.Calls DnsCall.Quiet) :
    Program.Ends (dnsHost env) p s (fun _ t => t.dns = s.dns) (fun _ t => t.dns = s.dns) :=
  Program.ends_of_calls (fun _ hc _ ht => (quiet_dns hc).trans ht) hp rfl

theorem putLink_of_none {d : HostDns} {link : String} {new : LinkDns} (h : d.links link = none) :
    d.putLink link new = d := by
  refine HostDns.ext (funext fun name => ?_) rfl rfl
  by_cases hname : name = link
  · rw [hname, h]
    simp [HostDns.putLink, HostDns.mapLinks, h]
  · exact links_putLink_of_ne hname

theorem ends_true {α : Type} (p : DnsProgram α) :
    Program.Ends (dnsHost env) p s (fun _ _ => True) (fun _ _ => True) := by
  unfold Program.Ends
  rcases Program.run (dnsHost env) p s with ⟨e | a, t⟩
  · trivial
  · trivial

/-- The script does not go on after its fallback. -/
theorem ends_rollbackNow_fails {Q : Unit → DnsHost → Prop} :
    Program.Ends (dnsHost env) (rollbackNow snapshot) s Q (fun _ _ => True) := by
  refine Program.Ends.bind (ends_true _) fun _ t _ => ?_
  refine Program.Ends.bind (ends_true hostDnsOk) fun ok u _ => ?_
  cases ok with
  | true => trivial
  | false => trivial

theorem ends_orRollback_ok {command : DnsProgram Bool} {Q : DnsHost → Prop}
    (hcommand : Program.Ends (dnsHost env) command s (fun ok t => ok = true → Q t)
      (fun _ _ => True)) :
    Program.Ends (dnsHost env) (orRollback snapshot command) s (fun _ => Q) (fun _ _ => True) := by
  refine Program.Ends.bind hcommand fun ok t ht => ?_
  cases ok with
  | true => exact ht rfl
  | false => exact ends_rollbackNow_fails

theorem ends_mustAside_ok {step : Aside} :
    Program.Ends (dnsHost env) (must (aside step)) s (fun _ t => t.dns = s.dns)
      (fun _ _ => True) :=
  ends_mustAside (fun _ ht => ht) fun _ _ _ => trivial

theorem ends_applySetting {link : String} {setting : LinkSetting} {held new : LinkDns}
    (hheld : s.dns.links link = some held) (hnew : setting.on held = some new) :
    Program.Ends (dnsHost env) (orRollback snapshot (set .apply link setting)) s
      (fun _ t => t.dns = s.dns.putLink link new) (fun _ _ => True) := by
  refine ends_orRollback_ok (ends_set (fun d hd t ht _ => ?_) fun _ _ _ => nofun)
  rw [setOn_eq hheld hnew] at hd
  exact ht.trans (Option.some.inj hd).symm

theorem readValues_singleton {value : String} (hwords : ∀ w ∈ [value], IsWord w)
    (hvalue : value ≠ "") : readValues [value] = some ⟨[value], hwords⟩ := by
  rw [readValues, if_neg (by simpa using hvalue), dif_pos hwords]

/-- The settings of a link, or no going on where it is missing. -/
theorem ends_applyLink (link : String) :
    Program.Ends (dnsHost env) (applyLink snapshot link) s
      (fun _ t => t.dns = s.dns.putLink link localDns) (fun _ _ => True) := by
  cases hheld : s.dns.links link with
  | none =>
      refine Program.Ends.bind (Q := fun _ _ => False) ?_ fun _ _ => False.elim
      refine ends_orRollback_ok (ends_set (fun d hd => ?_) fun _ _ _ => nofun)
      rw [setOn, hheld] at hd
      cases hd
  | some held =>
      have hservers : (LinkSetting.dns ["127.0.0.1"]).on held =
          some { held with servers := localDns.servers } := by
        rw [LinkSetting.on, readValues_singleton localDns.servers.2 (by simp)]
        rfl
      have hdomains : (LinkSetting.domain ["~."]).on { held with servers := localDns.servers } =
          some { localDns with defaultRoute := held.defaultRoute } := by
        rw [LinkSetting.on, readValues_singleton localDns.domains.2 (by simp)]
        rfl
      have hroute : (LinkSetting.defaultRoute "yes").on
          { localDns with defaultRoute := held.defaultRoute } = some localDns := rfl
      refine Program.Ends.bind (ends_applySetting hheld hservers) fun _ t ht => ?_
      have hfirst : t.dns.links link = some { held with servers := localDns.servers } := by
        rw [ht]
        exact links_putLink_self (by rw [hheld]; rfl)
      refine Program.Ends.bind (ends_applySetting hfirst hdomains) fun _ u hu => ?_
      have hsecond : u.dns.links link =
          some { localDns with defaultRoute := held.defaultRoute } := by
        rw [hu]
        exact links_putLink_self (by rw [hfirst]; rfl)
      refine Program.Ends.bind (ends_applySetting hsecond hroute) fun _ v hv => ?_
      change v.dns = _
      rw [hv, hu, ht, putLink_putLink, putLink_putLink]

theorem ends_applyResolved :
    Program.Ends (dnsHost env) (applyResolved snapshot) s
      (fun _ t => t.dns = Change.links.on env s.dns) (fun _ _ => True) := by
  refine Program.Ends.bind ends_mustAside_ok fun _ t ht => ?_
  refine Program.Ends.bind (ends_considerLink ["wlo1"] "amn0") fun links u hu => ?_
  obtain ⟨hu, hlinks⟩ := hu
  have hloop : Program.Ends (dnsHost env) (Program.forEach (applyLink snapshot) links) u
      (fun _ v => v.dns = Change.links.on env s.dns) (fun _ _ => True) := by
    have hstart : u.dns = s.dns := hu.trans ht
    rcases hlinks with ⟨rfl, hknown⟩ | ⟨rfl, -⟩
    · refine Program.Ends.bind (ends_applyLink "wlo1") fun _ v hv => ?_
      change v.dns = _
      have hamn0 : s.dns.links "amn0" = none := by
        rw [← ht, ← Option.not_isSome_iff_eq_none]
        exact fun hsome => absurd (hknown hsome) (by decide)
      have hmissing : (s.dns.putLink "wlo1" localDns).links "amn0" = none :=
        (links_putLink_of_ne (by decide)).trans hamn0
      rw [hv, hstart, Change.on, putLink_of_none hmissing]
    · refine Program.Ends.bind (ends_applyLink "wlo1") fun _ v hv => ?_
      refine Program.Ends.bind (ends_applyLink "amn0") fun _ w hw => ?_
      change w.dns = _
      rw [hw, hv, hstart, Change.on]
  refine Program.Ends.bind hloop fun _ v hv => ?_
  exact Program.Ends.bind (ends_aside fun w hw => hw.trans hv) fun _ _ hw => hw

theorem ends_modifyConnection (connection : String) :
    Program.Ends (dnsHost env) (must (modifyConnection connection)) s
      (fun _ t => t.dns =
        { s.dns with profiles := Function.update s.dns.profiles connection pinnedProfile })
      (fun _ _ => True) := by
  refine ends_must ?_
  rw [modifyConnection, Program.ends_call]
  simp only [dnsHost]
  by_cases hfails : env.fails (.modifyConnection connection) = true
  · rw [if_pos hfails]
    trivial
  · rw [if_neg hfails]
    rfl

theorem ends_applyNm :
    Program.Ends (dnsHost env) (applyNm snapshot) s
      (fun _ t => ∃ connection, t.dns = (Change.profile connection).on env s.dns)
      (fun _ _ => True) := by
  have hasked : Program.Ends (dnsHost env) usableConnection s (fun _ t => t.dns = s.dns)
      (fun _ _ => True) :=
    (ends_of_quiet calls_usableConnection).mono (fun _ _ ht => ht) fun _ _ _ => trivial
  refine Program.Ends.bind hasked fun out t ht => ?_
  cases out with
  | none => trivial
  | some connection =>
      refine Program.Ends.bind ends_mustAside_ok fun _ u hu => ?_
      refine Program.Ends.bind ends_mustAside_ok fun _ v hv => ?_
      refine Program.Ends.bind (ends_modifyConnection connection) fun _ w hw => ?_
      have hbefore : v.dns = s.dns := hv.trans (hu.trans ht)
      rw [hbefore] at hw
      have hup : Program.Ends (dnsHost env) (bringUp connection) w
          (fun ok x => ok = true → x.dns = (Change.profile connection).on env s.dns)
          (fun _ _ => True) := fun _ => congrArg (fun d => HostDns.mapLinks d env.bounced) hw
      exact (ends_orRollback_ok hup).mono (fun _ _ hx => ⟨connection, hx⟩) fun _ _ he => he

theorem ends_applyResolvConf :
    Program.Ends (dnsHost env) applyResolvConf s
      (fun _ t => t.dns = Change.resolvConf.on env s.dns) (fun _ _ => True) := by
  have hasked : Program.Ends (dnsHost env) confIsSymlink s (fun _ t => t.dns = s.dns)
      (fun _ _ => True) := rfl
  refine Program.Ends.bind hasked fun link t ht => ?_
  cases link with
  | true => trivial
  | false =>
      refine Program.Ends.bind ends_mustAside_ok fun _ u hu => ends_must ?_
      rw [writeResolvConf, Program.ends_call]
      simp only [dnsHost]
      by_cases hfails : env.fails (.writeResolvConf managedText) = true
      · rw [if_pos hfails]
        trivial
      · rw [if_neg hfails]
        change HostDns.mk _ _ _ _ = _
        rw [hu, ht]
        rfl

theorem ends_applyMethod {method : Method} :
    Program.Ends (dnsHost env) (applyMethod snapshot method) s
      (fun _ t => ∃ change : Change, change.By method ∧ t.dns = change.on env s.dns)
      (fun _ _ => True) := by
  cases method with
  | resolved =>
      exact ends_applyResolved.mono (fun _ _ ht => ⟨.links, rfl, ht⟩) fun _ _ he => he
  | nm =>
      refine ends_applyNm.mono (fun _ _ ht => ?_) fun _ _ he => he
      obtain ⟨connection, ht⟩ := ht
      exact ⟨.profile connection, rfl, ht⟩
  | resolvconf =>
      exact ends_applyResolvConf.mono (fun _ _ ht => ⟨.resolvConf, rfl, ht⟩) fun _ _ he => he
  | auto => trivial
  | unknown => trivial

theorem ends_validateApplied :
    Program.Ends (dnsHost env) (validateApplied snapshot) s (fun _ t => t.dns = s.dns)
      (fun _ _ => True) := by
  refine Program.Ends.bind ends_mustAside_ok fun _ t ht => ?_
  have hcanary : Program.Ends (dnsHost env) (orRollback snapshot (aside .canaryAgain)) t
      (fun _ u => u.dns = t.dns) (fun _ _ => True) :=
    ends_orRollback_ok (ends_aside fun _ hu _ => hu)
  refine Program.Ends.bind hcanary fun _ u hu => ?_
  have htest : Program.Ends (dnsHost env) (aside .hostTest) u (fun _ v => v.dns = u.dns)
      (fun _ _ => True) := ends_aside fun _ hv => hv
  refine Program.Ends.bind htest fun ok v hv => ?_
  have hstart : v.dns = s.dns := hv.trans (hu.trans ht)
  cases ok with
  | true =>
      refine Program.Ends.bind ends_mustAside_ok fun _ w hw => ?_
      exact ends_mustAside_ok.mono (fun _ _ hx => hx.trans (hw.trans hstart)) fun _ _ he => he
  | false => exact Program.Ends.bind ends_mustAside_ok fun _ w _ => ends_rollbackNow_fails

end Applied

/-! ### Apply and rollback together -/

section RoundTrip

variable {env later : DnsEnv} {listenAddr underlay : String} {method : Method} {snapshot : Snapshot}
  {s mid t r u : DnsHost}

theorem method_of_chooseMethod {out : Method} (hmethod : method ≠ .auto)
    (h : Program.run (dnsHost env) (chooseMethod method) s = (.ok out, t)) : out = method := by
  cases method with
  | auto => exact absurd rfl hmethod
  | _ =>
      cases h
      rfl

/-- The snapshot knows the links and what the queries told of them. -/
structure Taken (env : DnsEnv) (start : HostDns) (underlay : String) (snapshot : Snapshot) :
    Prop where
  known : Lists start ["amn0", "wlo1", underlay] (snapshot.map Prod.fst)
  saved : TakenAt env start snapshot

/-- What a run that goes through has changed since the snapshot it took. -/
theorem changed_of_apply
    (htake : Program.run (dnsHost env) (applySnapshot listenAddr underlay) s = (.ok snapshot, mid))
    (happly : Program.run (dnsHost env) (hostDnsApply listenAddr underlay method) s = (.ok (), t)) :
    Taken env s.dns underlay snapshot ∧ ∃ change : Change, (method ≠ .auto → change.By method) ∧
      t.dns = change.on env s.dns := by
  obtain ⟨_, checked, hcheck, happly⟩ := Program.run_bind_eq_ok _ happly
  obtain ⟨taken, _, hsnapshot, happly⟩ := Program.run_bind_eq_ok _ happly
  have hsame : taken = snapshot := by
    have hfirst := Program.run_bind_ok (dnsHost env)
      (f := fun _ => takeSnapshot underlay) hcheck
    rw [hsnapshot] at hfirst
    exact Except.ok.inj (Prod.mk.inj (hfirst.symm.trans htake)).1
  subst hsame
  obtain ⟨_, noted, hnote, happly⟩ := Program.run_bind_eq_ok _ happly
  obtain ⟨out, chosen, hchoose, happly⟩ := Program.run_bind_eq_ok _ happly
  obtain ⟨_, changed, hchange, hvalidate⟩ := Program.run_bind_eq_ok _ happly
  have hchecked : checked.dns = s.dns := (ends_of_quiet (calls_checkProxy listenAddr)).ok hcheck
  obtain ⟨hbefore, hknown, hsaved⟩ := (ends_takeSnapshot underlay).ok hsnapshot
  rw [hchecked] at hbefore hknown hsaved
  have hchosen : chosen.dns = s.dns :=
    ((ends_of_quiet (calls_chooseMethod method)).ok hchoose).trans
      (((ends_of_quiet calls_noteState).ok hnote).trans hbefore)
  obtain ⟨change, hby, hon⟩ := ends_applyMethod.ok hchange
  refine ⟨⟨hknown, hsaved⟩, change, fun hmethod => ?_, ?_⟩
  · rwa [method_of_chooseMethod hmethod hchoose] at hby
  · rw [ends_validateApplied.ok hvalidate, hon, hchosen]

/-- A rollback that goes through has restored the snapshot, and had nothing to repair. -/
theorem restored_of_rollback {withRepair : Bool} {start : HostDns}
    (htaken : TakenAt env start snapshot) (hworks : withRepair = true → later.works = true)
    (h : Program.run (dnsHost later) (hostDnsRollback (some snapshot) withRepair) r = (.ok (), u)) :
    RestoredIn env start (snapshot.map Prod.fst) r.dns u.dns := by
  obtain ⟨_, restored, hrestore, h⟩ := Program.run_bind_eq_ok _ h
  have hdone := (ends_restoreSnapshot htaken).ok hrestore
  cases withRepair with
  | false =>
      obtain ⟨-, rfl⟩ := Prod.mk.inj h
      exact hdone
  | true =>
      have hlast : Program.Ends (dnsHost later) repairUnlessOk restored
          (fun _ t => t.dns = restored.dns) (fun _ _ => True) := by
        have hasked : Program.Ends (dnsHost later) hostDnsOk restored
            (fun ok t => ok = true ∧ t.dns = restored.dns) (fun _ _ => True) := ⟨hworks rfl, rfl⟩
        refine Program.Ends.bind hasked fun ok t ht => ?_
        obtain ⟨rfl, ht⟩ := ht
        exact ht
      rw [hlast.ok h]
      exact hdone

/-- The links of the snapshot are back, so the settings are those of the start exactly if the
rest has not been changed. -/
theorem eq_start_iff {start d d' : HostDns} (htaken : Taken env start underlay snapshot)
    (hqueries : ∀ link, InSnapshot start underlay link → ∀ key, env.fails (.query key link) = false)
    (hreadable : ∀ link held, InSnapshot start underlay link → start.links link = some held →
      held.servers.1 ≠ ["-"] ∧ held.domains.1 ≠ ["-"])
    (hthere : ∀ name, (d.links name).isSome = (start.links name).isSome)
    (hrestored : RestoredIn env start (snapshot.map Prod.fst) d d') :
    d' = start ↔ (∀ name, ¬ InSnapshot start underlay name → d.links name = start.links name) ∧
      d.profiles = start.profiles ∧ d.resolvConf = start.resolvConf := by
  constructor
  · intro hsame
    subst hsame
    refine ⟨fun name hname => ?_, hrestored.profiles.symm, hrestored.resolvConf.symm⟩
    exact (hrestored.elsewhere name fun hin => hname ((htaken.known name).mp hin)).symm
  · rintro ⟨helsewhere, hprofiles, hresolvConf⟩
    refine HostDns.ext (funext fun name => ?_) (hrestored.profiles.trans hprofiles)
      (hrestored.resolvConf.trans hresolvConf)
    by_cases hin : InSnapshot start underlay name
    · obtain ⟨held, hheld⟩ := Option.isSome_iff_exists.mp hin.2
      obtain ⟨before, hbefore⟩ := Option.isSome_iff_exists.mp ((hthere name).trans hin.2)
      obtain ⟨hservers, hdomains⟩ := hreadable name held hin hheld
      have hback : held.restored env name before = held := by
        simp only [LinkDns.restored, recordedWords, hqueries name hin, Bool.false_eq_true,
          hservers, hdomains, or_self, if_false]
      rw [hrestored.there name ((htaken.known name).mpr hin) held before hheld hbefore, hback, hheld]
    · rw [hrestored.elsewhere name fun hname => hin ((htaken.known name).mp hname),
        helsewhere name hin]

theorem isSome_links_on (env : DnsEnv) (d : HostDns) (change : Change) (name : String) :
    ((change.on env d).links name).isSome = (d.links name).isSome := by
  cases change with
  | links => exact isSome_links_putLink.trans isSome_links_putLink
  | profile connection => exact Option.isSome_map
  | resolvConf => rfl

/-- Outside the snapshot, the settings are the same after the change as before. -/
theorem reversible_iff {start : HostDns} (change : Change) :
    ((∀ name, ¬ InSnapshot start underlay name →
        (change.on env start).links name = start.links name) ∧
      (change.on env start).profiles = start.profiles ∧
      (change.on env start).resolvConf = start.resolvConf) ↔
        change.Reversible env start underlay := by
  cases change with
  | links =>
      refine iff_of_true ⟨fun name hname => ?_, rfl, rfl⟩ trivial
      change ((start.putLink "wlo1" localDns).putLink "amn0" localDns).links name = _
      cases hlink : start.links name with
      | none =>
          rw [← Option.not_isSome_iff_eq_none, isSome_links_putLink, isSome_links_putLink, hlink]
          exact Bool.false_ne_true
      | some held =>
          have hother : name ∉ ["amn0", "wlo1", underlay] := fun hin => hname ⟨hin, by rw [hlink]; rfl⟩
          simp only [List.mem_cons, List.not_mem_nil, or_false, not_or] at hother
          rw [links_putLink_of_ne hother.1, links_putLink_of_ne hother.2.1, hlink]
  | profile connection =>
      change (∀ name, ¬ InSnapshot start underlay name →
          (start.links name).map (env.bounced name) = start.links name) ∧
        Function.update start.profiles connection pinnedProfile = start.profiles ∧
          start.resolvConf = start.resolvConf ↔ start.profiles connection = pinnedProfile ∧ _
      rw [Function.update_eq_self_iff, eq_self, and_true, and_comm]
      refine and_congr eq_comm (forall_congr' fun name => ?_)
      constructor
      · intro h held hname hheld
        have hsame := h hname
        rw [hheld] at hsame
        exact Option.some.inj hsame
      · intro h hname
        cases hheld : start.links name with
        | none => rfl
        | some held => exact congrArg some (h held hname hheld)
  | resolvConf =>
      change _ ∧ start.profiles = start.profiles ∧ some managedText = start.resolvConf ↔ _
      refine ⟨fun h => h.2.2.symm, fun h => ⟨fun _ _ => rfl, rfl, h.symm⟩⟩

/-- After the apply script has gone through, the rollback to its snapshot brings back the
settings of the start exactly if the method's change is one that the snapshot covers. -/
theorem rollback_undoes_iff {withRepair : Bool}
    (htake : Program.run (dnsHost env) (applySnapshot listenAddr underlay) s = (.ok snapshot, mid))
    (happly : Program.run (dnsHost env) (hostDnsApply listenAddr underlay method) s = (.ok (), t))
    (hqueries : ∀ link, InSnapshot s.dns underlay link →
      ∀ key, env.fails (.query key link) = false)
    (hreadable : ∀ link held, InSnapshot s.dns underlay link → s.dns.links link = some held →
      held.servers.1 ≠ ["-"] ∧ held.domains.1 ≠ ["-"])
    (hbetween : r.dns = t.dns) (hworks : withRepair = true → later.works = true)
    (hrollback : Program.run (dnsHost later) (hostDnsRollback (some snapshot) withRepair) r =
      (.ok (), u)) :
    ∃ change : Change, (method ≠ .auto → change.By method) ∧ t.dns = change.on env s.dns ∧
      (u.dns = s.dns ↔ change.Reversible env s.dns underlay) := by
  obtain ⟨htaken, change, hby, hon⟩ := changed_of_apply htake happly
  have hrestored := restored_of_rollback htaken.saved hworks hrollback
  rw [hbetween, hon] at hrestored
  refine ⟨change, hby, hon, ?_⟩
  rw [← reversible_iff change]
  exact eq_start_iff htaken hqueries hreadable (isSome_links_on env s.dns change) hrestored

/-- A host with one link, and a profile that takes its DNS servers from the network. -/
def oneLinkHost : DnsHost := ⟨oneLinkDns noWords ⟨false, [], false, []⟩, 0⟩

def pointedHost : DnsHost :=
  (Program.run (dnsHost (failingEnv .repair)) (hostDnsApply "127.0.0.1:53" "wlo1" .nm) oneLinkHost).2

def oneLinkSnapshot : Snapshot := [("wlo1", ⟨[], [], some "no"⟩)]

/-- The profile that was pointed at the proxy still is after the rollback. -/
theorem rollback_undoes_iff_nm :
    (Program.run (dnsHost (failingEnv .repair)) (hostDnsRollback (some oneLinkSnapshot) true)
      pointedHost).2.dns ≠ oneLinkHost.dns := by
  have htake : Program.run (dnsHost (failingEnv .repair)) (applySnapshot "127.0.0.1:53" "wlo1")
      oneLinkHost = (.ok oneLinkSnapshot, _) := rfl
  have happly : Program.run (dnsHost (failingEnv .repair))
      (hostDnsApply "127.0.0.1:53" "wlo1" .nm) oneLinkHost = (.ok (), pointedHost) :=
    Prod.ext rfl rfl
  have hreadable : ∀ link held, InSnapshot oneLinkHost.dns "wlo1" link →
      oneLinkHost.dns.links link = some held →
        held.servers.1 ≠ ["-"] ∧ held.domains.1 ≠ ["-"] := by
    intro link held _ hheld
    change (if link = "wlo1" then some _ else none) = some held at hheld
    split_ifs at hheld
    cases hheld
    exact ⟨by decide, by decide⟩
  have hrollback : Program.run (dnsHost (failingEnv .repair))
      (hostDnsRollback (some oneLinkSnapshot) true) pointedHost = (.ok (), _) := Prod.ext rfl rfl
  obtain ⟨change, hby, -, hback⟩ := rollback_undoes_iff htake happly (fun _ _ _ => rfl)
    hreadable rfl (fun _ => rfl) hrollback
  intro hsame
  have hcovered := hback.mp hsame
  cases change with
  | links => cases hby nofun
  | resolvConf => cases hby nofun
  | profile connection =>
      have hprofile : (⟨false, [], false, []⟩ : NmProfile) = pinnedProfile := hcovered.1
      exact absurd hprofile (by decide)

end RoundTrip

end EveNet.HostDnsScripts
