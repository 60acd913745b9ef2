import EveNet.HostDnsRestore

/-!
# Failing runs of the script that applies the host DNS settings

The commands that a run has reached tell what it leaves. A key of a link is what the restore
set last, or else what the method set, and a profile and `/etc/resolv.conf` are never put back.
So a failing run leaves the settings of the start exactly if each command that it reached does.
-/

namespace EveNet.HostDnsScripts

/-! ### The condition -/

def LinkSetting.key : LinkSetting → LinkKey
  | .dns _ => .dns
  | .domain _ => .domain
  | .defaultRoute _ => .defaultRoute

/-- A command that sets the key of the link is reached, and works. -/
def Sets (env : DnsEnv) (calls : List DnsCall) (caller : Caller) (link : String) (key : LinkKey) :
    Prop :=
  ∃ setting : LinkSetting, setting.key = key ∧ .set caller link setting ∈ calls ∧
    env.fails (.set caller link setting) = false

/-- The run reaches `nmcli connection up`. -/
def BringsUp (calls : List DnsCall) : Prop := ∃ connection, .bringUp connection ∈ calls

/-- What the method `resolved` sets. -/
def appliedValues : LinkKey → List String
  | .dns => ["127.0.0.1"]
  | .domain => ["~."]
  | .defaultRoute => ["yes"]

/-- The snapshot holds the key as it was: a list that could not be read is empty, one that was
read is no lone dash. -/
def Noted (env : DnsEnv) (link : String) (held : LinkDns) : LinkKey → Prop
  | .dns => ListTold (env.fails (.query .dns link)) held.servers held.servers
  | .domain => ListTold (env.fails (.query .domain link)) held.domains held.domains
  | .defaultRoute => True

/-- What a write of the managed text leaves in `/etc/resolv.conf`. -/
def DnsEnv.written (env : DnsEnv) : Option String :=
  if env.fails (.writeResolvConf managedText) then env.broken else some managedText

/-- A key of a link that was noted well is put back, and one that is not put back has been set to
what it was. -/
structure KeyUndone (env : DnsEnv) (calls : List DnsCall) (link : String) (held : LinkDns)
    (key : LinkKey) : Prop where
  restored : Sets env calls .restore link key → Noted env link held key
  applied : ¬ Sets env calls .restore link key → Sets env calls .apply link key →
    held.values key = appliedValues key
  bounced : ¬ Sets env calls .restore link key → BringsUp calls →
    (env.bounced link held).values key = held.values key

/-- The commands reached undo all changes, or make none. -/
structure Undone (env : DnsEnv) (start : HostDns) (calls : List DnsCall) : Prop where
  links : ∀ link held, start.links link = some held → ∀ key, KeyUndone env calls link held key
  profiles : ∀ connection, .modifyConnection connection ∈ calls →
    env.fails (.modifyConnection connection) = false → start.profiles connection = pinnedProfile
  resolvConf : .writeResolvConf managedText ∈ calls → start.resolvConf = env.written

/-! ### What the commands make of the settings -/

/-- What a key of a link has become. -/
structure KeyOutcome (env : DnsEnv) (calls : List DnsCall) (link : String) (held now : LinkDns)
    (key : LinkKey) : Prop where
  restored : Sets env calls .restore link key →
    now.values key = (held.restored env link held).values key
  applied : ¬ Sets env calls .restore link key → Sets env calls .apply link key →
    now.values key = appliedValues key
  bounced : ¬ Sets env calls .restore link key → BringsUp calls →
    now.values key = (env.bounced link held).values key
  kept : ¬ Sets env calls .restore link key → ¬ Sets env calls .apply link key →
    ¬ BringsUp calls → now.values key = held.values key

/-- The settings `d` are what the commands made of those of the start. -/
structure Outcome (env : DnsEnv) (start : HostDns) (calls : List DnsCall) (d : HostDns) :
    Prop where
  there : ∀ name, (d.links name).isSome = (start.links name).isSome
  keys : ∀ link held now, start.links link = some held → d.links link = some now →
    ∀ key, KeyOutcome env calls link held now key
  profiles : ∀ connection, d.profiles connection =
    if .modifyConnection connection ∈ calls ∧ env.fails (.modifyConnection connection) = false
    then pinnedProfile else start.profiles connection
  resolvConf : d.resolvConf =
    if .writeResolvConf managedText ∈ calls then env.written else start.resolvConf

section Outcomes

variable {env : DnsEnv} {start d : HostDns} {calls : List DnsCall} {link : String}
  {held now : LinkDns} {key : LinkKey}

theorem values_restored_iff :
    (held.restored env link held).values key = held.values key ↔ Noted env link held key := by
  have hlist : ∀ (failed : Bool) (words : Words),
      (recordedWords failed words).1 = words.1 ↔ ListTold failed words words := by
    intro failed words
    rw [← recordedWords_eq_iff, ite_self, Subtype.ext_iff]
  cases key with
  | dns => exact hlist _ _
  | domain => exact hlist _ _
  | defaultRoute =>
      refine iff_of_true ?_ trivial
      change [yesNo (if _ then held.defaultRoute else held.defaultRoute)] = _
      rw [ite_self]
      rfl

theorem KeyOutcome.eq_iff (h : KeyOutcome env calls link held now key) :
    now.values key = held.values key ↔ KeyUndone env calls link held key := by
  refine ⟨fun heq => ⟨fun hsets => ?_, fun hnot hsets => ?_, fun hnot hup => ?_⟩, fun hundone => ?_⟩
  · exact values_restored_iff.mp ((h.restored hsets).symm.trans heq)
  · exact heq.symm.trans (h.applied hnot hsets)
  · exact (h.bounced hnot hup).symm.trans heq
  · by_cases hrestored : Sets env calls .restore link key
    · exact (h.restored hrestored).trans (values_restored_iff.mpr (hundone.restored hrestored))
    by_cases happlied : Sets env calls .apply link key
    · exact (h.applied hrestored happlied).trans (hundone.applied hrestored happlied).symm
    by_cases hup : BringsUp calls
    · exact (h.bounced hrestored hup).trans (hundone.bounced hrestored hup)
    · exact h.kept hrestored happlied hup

theorem LinkDns.eq_of_values (h : ∀ key, now.values key = held.values key) : now = held := by
  obtain ⟨servers, domains, route⟩ := now
  obtain ⟨servers', domains', route'⟩ := held
  obtain rfl : servers = servers' := Subtype.ext (h .dns)
  obtain rfl : domains = domains' := Subtype.ext (h .domain)
  have hroute : [yesNo route] = [yesNo route'] := h .defaultRoute
  congr 1
  revert hroute
  cases route <;> cases route' <;> decide

theorem Outcome.eq_start_iff (h : Outcome env start calls d) :
    d = start ↔ Undone env start calls := by
  constructor
  · rintro rfl
    refine ⟨fun link held hheld key => ?_, fun connection hmem hworks => ?_, fun hmem => ?_⟩
    · exact ((h.keys link held held hheld hheld key).eq_iff).mp rfl
    · rw [h.profiles, if_pos ⟨hmem, hworks⟩]
    · rw [h.resolvConf, if_pos hmem]
  · intro hundone
    refine HostDns.ext (funext fun link => ?_) (funext fun connection => ?_) ?_
    · cases hheld : start.links link with
      | none =>
          have hthere := h.there link
          rw [hheld] at hthere
          exact Option.isNone_iff_eq_none.mp (Option.isSome_eq_false_iff.mp hthere)
      | some held =>
          obtain ⟨now, hnow⟩ : ∃ now, d.links link = some now :=
            Option.isSome_iff_exists.mp (by rw [h.there, hheld]; rfl)
          rw [hnow, LinkDns.eq_of_values fun key =>
            (h.keys link held now hheld hnow key).eq_iff.mpr (hundone.links link held hheld key)]
    · rw [h.profiles]
      split_ifs with hmem
      · exact (hundone.profiles connection hmem.1 hmem.2).symm
      · rfl
    · rw [h.resolvConf]
      split_ifs with hmem
      · exact (hundone.resolvConf hmem).symm
      · rfl

end Outcomes

/-! ### One command -/

section Step

variable {env : DnsEnv} {start : HostDns} {calls : List DnsCall} {c : DnsCall} {s : DnsHost}
  {link name : String} {held now : LinkDns} {key : LinkKey} {caller : Caller}

def LinkSnapshot.settings (entry : LinkSnapshot) : List LinkSetting :=
  [.dns (valuesOrBlank entry.dnsServers), .domain (valuesOrBlank entry.dnsDomains)] ++
    entry.defaultRoute.toList.map .defaultRoute

/-- The command leaves the settings alone. -/
def DnsCall.Quiet : DnsCall → Prop
  | .set .. | .bringUp _ | .modifyConnection _ | .writeResolvConf _ | .repair => False
  | _ => True

/-- What may follow the commands so far: a method sets links or brings a connection up before
anything is restored, and the restore sets what the snapshot holds. -/
def Fits (env : DnsEnv) (start : HostDns) (calls : List DnsCall) : DnsCall → Prop
  | .set .apply _ setting => setting ∈ applySettings ∧ ¬ BringsUp calls ∧
    ∀ link key, ¬ Sets env calls .restore link key
  | .set .restore link setting => ∃ held, start.links link = some held ∧
    setting ∈ (LinkSnapshot.of env link held).settings
  | .bringUp _ => ¬ BringsUp calls ∧ ∀ caller link key, ¬ Sets env calls caller link key
  | .writeResolvConf text => text = managedText
  | .repair => False
  | _ => True

theorem sets_append : Sets env (calls ++ [c]) caller link key ↔ Sets env calls caller link key ∨
    ∃ setting : LinkSetting, setting.key = key ∧ c = .set caller link setting ∧
      env.fails c = false := by
  constructor
  · rintro ⟨setting, hkey, hmem, hworks⟩
    rcases List.mem_append.mp hmem with hmem | hmem
    · exact Or.inl ⟨setting, hkey, hmem, hworks⟩
    · obtain rfl := List.mem_singleton.mp hmem
      exact Or.inr ⟨setting, hkey, rfl, hworks⟩
  · rintro (⟨setting, hkey, hmem, hworks⟩ | ⟨setting, hkey, rfl, hworks⟩)
    · exact ⟨setting, hkey, List.mem_append_left _ hmem, hworks⟩
    · exact ⟨setting, hkey, List.mem_append_right _ List.mem_cons_self, hworks⟩

theorem bringsUp_append :
    BringsUp (calls ++ [c]) ↔ BringsUp calls ∨ ∃ connection, c = .bringUp connection := by
  simp only [BringsUp, List.mem_append, List.mem_singleton, exists_or, eq_comm]

/-- A command that touches no key of the link. -/
theorem KeyOutcome.frame (h : KeyOutcome env calls link held now key)
    (hsets : ∀ caller setting, setting.key = key → c = .set caller link setting →
      env.fails c = true) (hup : ∀ connection, c ≠ .bringUp connection) :
    KeyOutcome env (calls ++ [c]) link held now key := by
  have hsame : ∀ caller, Sets env (calls ++ [c]) caller link key ↔
      Sets env calls caller link key := by
    intro caller
    refine sets_append.trans (or_iff_left ?_)
    rintro ⟨setting, hkey, hc, hworks⟩
    rw [hsets caller setting hkey hc] at hworks
    cases hworks
  have hupSame : BringsUp (calls ++ [c]) ↔ BringsUp calls :=
    bringsUp_append.trans (or_iff_left fun ⟨connection, hc⟩ => hup connection hc)
  refine ⟨?_, ?_, ?_, ?_⟩
  · rw [hsame]
    exact h.restored
  · rw [hsame, hsame]
    exact h.applied
  · rw [hsame, hupSame]
    exact h.bounced
  · rw [hsame, hsame, hupSame]
    exact h.kept

theorem quiet_dns (hc : c.Quiet) : (dnsHost env c s).2.dns = s.dns := by
  cases c with
  | set => cases hc
  | bringUp => cases hc
  | modifyConnection => cases hc
  | writeResolvConf => cases hc
  | repair => cases hc
  | _ => rfl

/-- The profiles and `/etc/resolv.conf`, after a command that is for neither. -/
theorem Outcome.frameFiles {d d' : HostDns} (h : Outcome env start calls d)
    (hprofiles : d'.profiles = d.profiles) (hresolvConf : d'.resolvConf = d.resolvConf)
    (hmodify : ∀ connection, c = .modifyConnection connection → env.fails c = true)
    (hwrite : ∀ text, c ≠ .writeResolvConf text)
    (hthere : ∀ name, (d'.links name).isSome = (start.links name).isSome)
    (hkeys : ∀ link held now, start.links link = some held → d'.links link = some now →
      ∀ key, KeyOutcome env (calls ++ [c]) link held now key) :
    Outcome env start (calls ++ [c]) d' where
  there := hthere
  keys := hkeys
  profiles connection := by
    rw [hprofiles, h.profiles]
    refine if_congr (and_congr_left fun hworks => ?_) rfl rfl
    rw [List.mem_append, List.mem_singleton, or_iff_left]
    intro hc
    rw [hc, hmodify connection hc.symm] at hworks
    cases hworks
  resolvConf := by
    rw [hresolvConf, h.resolvConf]
    refine if_congr ?_ rfl rfl
    rw [List.mem_append, List.mem_singleton, or_iff_left (hwrite _ ∘ Eq.symm)]

/-- A command that leaves the settings alone, or fails. -/
theorem Outcome.frame {d : HostDns} (h : Outcome env start calls d)
    (hsets : ∀ caller link setting, c = .set caller link setting →
      env.fails c = true ∨ start.links link = none) (hup : ∀ connection, c ≠ .bringUp connection)
    (hmodify : ∀ connection, c = .modifyConnection connection → env.fails c = true)
    (hwrite : ∀ text, c ≠ .writeResolvConf text) : Outcome env start (calls ++ [c]) d := by
  refine h.frameFiles rfl rfl hmodify hwrite h.there fun link held now hheld hnow key => ?_
  refine (h.keys link held now hheld hnow key).frame (fun caller setting _ hc => ?_) hup
  refine (hsets caller link setting hc).resolve_right ?_
  rw [hheld]
  exact Option.some_ne_none held

/-- A setting of a link that fails, or of a link that is not there. -/
theorem Outcome.frameSet {d : HostDns} {caller : Caller} {link : String} {setting : LinkSetting}
    (h : Outcome env start calls d)
    (hset : env.fails (.set caller link setting) = true ∨ start.links link = none) :
    Outcome env start (calls ++ [.set caller link setting]) d := by
  refine h.frame ?_ ?_ ?_ ?_
  · rintro _ _ _ ⟨⟩
    exact hset
  · rintro _ ⟨⟩
  · rintro _ ⟨⟩
  · rintro _ ⟨⟩

theorem Outcome.frameModify {d : HostDns} {connection : String} (h : Outcome env start calls d)
    (hfails : env.fails (.modifyConnection connection) = true) :
    Outcome env start (calls ++ [.modifyConnection connection]) d := by
  refine h.frame ?_ ?_ ?_ ?_
  · rintro _ _ _ ⟨⟩
  · rintro _ ⟨⟩
  · rintro _ ⟨⟩
    exact hfails
  · rintro _ ⟨⟩

theorem Outcome.quiet {d : HostDns} (h : Outcome env start calls d) (hc : c.Quiet) :
    Outcome env start (calls ++ [c]) d := by
  refine h.frame ?_ ?_ ?_ ?_
  · rintro _ _ _ rfl
    cases hc
  · rintro _ rfl
    cases hc
  · rintro _ rfl
    cases hc
  · rintro _ rfl
    cases hc

/-- Where a set command works, it changes one key of one link. -/
theorem Outcome.set {d : HostDns} (h : Outcome env start calls d) {setting : LinkSetting}
    {old new : LinkDns} (hheld : start.links link = some held) (hold : d.links link = some old)
    (hself : KeyOutcome env (calls ++ [.set caller link setting]) link held new setting.key)
    (hother : ∀ key ≠ setting.key, new.values key = old.values key) :
    Outcome env start (calls ++ [.set caller link setting]) (d.putLink link new) := by
  refine h.frameFiles rfl rfl nofun nofun (fun name => isSome_links_putLink.trans (h.there name)) ?_
  intro name held' now hheld' hnow key
  by_cases hname : name = link
  · subst hname
    obtain rfl : held = held' := Option.some.inj (hheld.symm.trans hheld')
    rw [links_putLink_self (by rw [hold]; rfl)] at hnow
    obtain rfl : new = now := Option.some.inj hnow
    by_cases hkey : key = setting.key
    · subst hkey
      exact hself
    · have hframe := (h.keys name held old hheld hold key).frame (c := .set caller name setting)
        (fun caller' setting' hkey' hc => by cases hc; exact absurd hkey'.symm hkey) nofun
      have hsame := hother key hkey
      exact ⟨fun h => hsame.trans (hframe.restored h), fun h h' => hsame.trans (hframe.applied h h'),
        fun h h' => hsame.trans (hframe.bounced h h'),
        fun h h' h'' => hsame.trans (hframe.kept h h' h'')⟩
  · rw [links_putLink_of_ne hname] at hnow
    refine (h.keys name held' now hheld' hnow key).frame (fun caller' setting' _ hc => ?_) nofun
    cases hc
    exact absurd rfl hname

theorem Outcome.bringUp {d : HostDns} (h : Outcome env start calls d) {connection : String}
    (hfirst : ¬ BringsUp calls) (hnone : ∀ caller link key, ¬ Sets env calls caller link key) :
    Outcome env start (calls ++ [.bringUp connection]) (d.mapLinks env.bounced) := by
  refine h.frameFiles rfl rfl nofun nofun (fun name => ?_) ?_
  · exact (Option.isSome_map).trans (h.there name)
  intro link held now hheld hnow key
  obtain ⟨before, hbefore, rfl⟩ := Option.map_eq_some_iff.mp hnow
  obtain rfl : before = held := LinkDns.eq_of_values fun key =>
    (h.keys link held before hheld hbefore key).kept (hnone _ _ _) (hnone _ _ _) hfirst
  have hsets : ∀ caller, ¬ Sets env (calls ++ [.bringUp connection]) caller link key := by
    intro caller hsets
    rcases sets_append.mp hsets with hsets | ⟨_, _, hc, _⟩
    · exact hnone _ _ _ hsets
    · cases hc
  exact ⟨fun h => absurd h (hsets _), fun _ h => absurd h (hsets _), fun _ _ => rfl,
    fun _ _ h => absurd (bringsUp_append.mpr (Or.inr ⟨connection, rfl⟩)) h⟩

theorem Outcome.modify {d : HostDns} (h : Outcome env start calls d) {connection : String}
    (hworks : env.fails (.modifyConnection connection) = false) :
    Outcome env start (calls ++ [.modifyConnection connection])
      { d with profiles := Function.update d.profiles connection pinnedProfile } where
  there := h.there
  keys link held now hheld hnow key :=
    (h.keys link held now hheld hnow key).frame (fun _ _ _ hc => nomatch hc) nofun
  profiles other := by
    change Function.update d.profiles connection pinnedProfile other = _
    by_cases hother : other = connection
    · subst hother
      rw [Function.update_self, if_pos ⟨List.mem_append_right _ List.mem_cons_self, hworks⟩]
    · rw [Function.update_of_ne hother, h.profiles]
      refine if_congr (and_congr_left fun _ => ?_) rfl rfl
      rw [List.mem_append, List.mem_singleton, or_iff_left]
      rintro ⟨⟩
      exact hother rfl
  resolvConf := by
    refine h.resolvConf.trans (if_congr ?_ rfl rfl)
    rw [List.mem_append, List.mem_singleton, or_iff_left nofun]

theorem Outcome.write {d : HostDns} (h : Outcome env start calls d) :
    Outcome env start (calls ++ [.writeResolvConf managedText])
      { d with resolvConf := env.written } where
  there := h.there
  keys link held now hheld hnow key :=
    (h.keys link held now hheld hnow key).frame (fun _ _ _ hc => nomatch hc) nofun
  profiles connection := by
    refine (h.profiles connection).trans (if_congr (and_congr_left fun _ => ?_) rfl rfl)
    rw [List.mem_append, List.mem_singleton, or_iff_left nofun]
  resolvConf := by rw [if_pos (List.mem_append_right _ List.mem_cons_self)]

theorem values_on_of_ne {setting : LinkSetting} {old new : LinkDns}
    (hnew : setting.on old = some new) : ∀ key ≠ setting.key, new.values key = old.values key := by
  intro key hkey
  cases setting with
  | dns values =>
      obtain ⟨words, -, rfl⟩ := Option.map_eq_some_iff.mp hnew
      cases key with
      | dns => exact absurd rfl hkey
      | _ => rfl
  | domain values =>
      obtain ⟨words, -, rfl⟩ := Option.map_eq_some_iff.mp hnew
      cases key with
      | domain => exact absurd rfl hkey
      | _ => rfl
  | defaultRoute value =>
      have hlists : new.servers = old.servers ∧ new.domains = old.domains := by
        by_cases hyes : value = "yes"
        · subst hyes
          exact Option.some.inj hnew ▸ ⟨rfl, rfl⟩
        by_cases hno : value = "no"
        · subst hno
          exact Option.some.inj hnew ▸ ⟨rfl, rfl⟩
        · simp [LinkSetting.on] at hnew
      cases key with
      | dns => exact congrArg Subtype.val hlists.1
      | domain => exact congrArg Subtype.val hlists.2
      | defaultRoute => exact absurd rfl hkey

theorem values_apply {setting : LinkSetting} (h : setting ∈ applySettings) (old : LinkDns) :
    ∃ new, setting.on old = some new ∧ new.values setting.key = appliedValues setting.key := by
  have hvalues : ∀ value, IsWord value → value ≠ "" →
      ∃ words : Words, readValues [value] = some words ∧ words.1 = [value] := by
    intro value hvalue hne
    rw [readValues, if_neg (by simpa using hne), dif_pos (by simpa using hvalue)]
    exact ⟨_, rfl, rfl⟩
  simp only [applySettings, List.mem_cons, List.not_mem_nil, or_false] at h
  rcases h with rfl | rfl | rfl
  · obtain ⟨words, hwords, hlist⟩ := hvalues "127.0.0.1" (isWord_of_all (by decide) (by decide))
      (by decide)
    refine ⟨{ old with servers := words }, ?_, hlist⟩
    rw [LinkSetting.on, hwords]
    rfl
  · obtain ⟨words, hwords, hlist⟩ := hvalues "~." (isWord_of_all (by decide) (by decide))
      (by decide)
    refine ⟨{ old with domains := words }, ?_, hlist⟩
    rw [LinkSetting.on, hwords]
    rfl
  · exact ⟨_, rfl, rfl⟩

theorem values_restore {setting : LinkSetting}
    (h : setting ∈ (LinkSnapshot.of env link held).settings) (old : LinkDns) :
    ∃ new, setting.on old = some new ∧
      new.values setting.key = (held.restored env link held).values setting.key := by
  rcases List.mem_append.mp h with h | h
  · simp only [List.mem_cons, List.not_mem_nil, or_false] at h
    rcases h with rfl | rfl
    · exact ⟨_, congrArg (Option.map _) (readValues_valuesOrBlank _), rfl⟩
    · exact ⟨_, congrArg (Option.map _) (readValues_valuesOrBlank _), rfl⟩
  · obtain ⟨value, hvalue, rfl⟩ := List.mem_map.mp h
    have hroute : value = yesNo held.defaultRoute := by
      rw [Option.mem_toList, LinkSnapshot.of] at hvalue
      dsimp only at hvalue
      split_ifs at hvalue
      exact (Option.some.inj hvalue).symm
    subst hroute
    have hsame : (held.restored env link held).values .defaultRoute =
        [yesNo held.defaultRoute] := values_restored_iff.mpr trivial
    refine ⟨{ old with defaultRoute := held.defaultRoute }, ?_, hsame.symm⟩
    cases held.defaultRoute <;> rfl

/-- What one command of a run does to the settings. -/
theorem Outcome.step (h : Outcome env start calls s.dns) (hc : Fits env start calls c) :
    Outcome env start (calls ++ [c]) (dnsHost env c s).2.dns := by
  have hset : ∀ caller link setting, Fits env start calls (.set caller link setting) →
      Outcome env start (calls ++ [.set caller link setting])
        (dnsHost env (.set caller link setting) s).2.dns := by
    intro caller link setting hc
    simp only [dnsHost]
    cases hfails : env.fails (.set caller link setting) with
    | true => exact h.frameSet (Or.inl hfails)
    | false =>
        cases hold : s.dns.links link with
        | none =>
            have hnone : start.links link = none := by
              have hthere := h.there link
              rw [hold] at hthere
              exact Option.isNone_iff_eq_none.mp (Option.isSome_eq_false_iff.mp hthere.symm)
            rw [setOn, hold]
            exact h.frameSet (Or.inr hnone)
        | some old =>
            obtain ⟨held, hheld⟩ : ∃ held, start.links link = some held :=
              Option.isSome_iff_exists.mp (by rw [← h.there, hold]; rfl)
            have hown : Sets env (calls ++ [.set caller link setting]) caller link setting.key :=
              sets_append.mpr (Or.inr ⟨setting, rfl, rfl, hfails⟩)
            cases caller with
            | restore =>
                obtain ⟨held', hheld', hmem⟩ := hc
                obtain rfl : held = held' := Option.some.inj (hheld.symm.trans hheld')
                obtain ⟨new, hnew, hvalue⟩ := values_restore hmem old
                rw [setOn_eq hold hnew]
                exact h.set hheld hold ⟨fun _ => hvalue, fun hno => absurd hown hno,
                  fun hno => absurd hown hno, fun hno => absurd hown hno⟩ (values_on_of_ne hnew)
            | apply =>
                obtain ⟨hmem, hup, hrestore⟩ := hc
                obtain ⟨new, hnew, hvalue⟩ := values_apply hmem old
                rw [setOn_eq hold hnew]
                refine h.set hheld hold ⟨fun hsets => ?_, fun _ _ => hvalue, fun _ hups => ?_,
                  fun _ hno => absurd hown hno⟩ (values_on_of_ne hnew)
                · rcases sets_append.mp hsets with hsets | ⟨_, _, hc, _⟩
                  · exact absurd hsets (hrestore _ _)
                  · cases hc
                · rcases bringsUp_append.mp hups with hups | ⟨_, hc⟩
                  · exact absurd hups hup
                  · cases hc
  cases c with
  | set caller link setting => exact hset caller link setting hc
  | bringUp connection => exact h.bringUp hc.1 hc.2
  | modifyConnection connection =>
      simp only [dnsHost]
      split_ifs with hfails
      · exact h.frameModify hfails
      · exact h.modify (Bool.eq_false_of_not_eq_true hfails)
  | writeResolvConf text =>
      obtain rfl : text = managedText := hc
      have hwritten := h.write
      simp only [dnsHost, DnsEnv.written] at hwritten ⊢
      split_ifs at hwritten ⊢ with hfails
      · exact hwritten
      · exact hwritten
  | repair => cases hc
  | _ => exact h.quiet trivial

end Step

/-! ### The calls of the parts -/

section Parts

variable {P : DnsCall → Prop} {command : DnsProgram Bool}

theorem calls_must (h : command.Calls P) : (must command).Calls P :=
  h.bind fun _ => .ite (.pure _) (.fail _)

theorem calls_may (h : command.Calls P) : (may command).Calls P := h.bind fun _ => .pure _

theorem calls_check (h : command.Calls P) : (check command).Calls P :=
  h.bind fun _ => .ite (.pure _) (.fail _)

theorem calls_aside {step : Aside} (h : P (.aside step)) : (aside step).Calls P :=
  .call h fun _ => .pure _

theorem calls_checkProxy (listenAddr : String) :
    (checkProxy listenAddr).Calls DnsCall.Quiet := by
  refine (calls_must (calls_aside trivial)).bind fun _ => ?_
  refine (calls_check (.pure _)).bind fun _ => ?_
  refine (calls_check (calls_aside trivial)).bind fun _ => ?_
  refine (calls_check (calls_aside trivial)).bind fun _ => ?_
  exact calls_must (calls_aside trivial)

theorem calls_noteState : noteState.Calls DnsCall.Quiet := by
  refine (calls_must (calls_aside trivial)).bind fun _ => ?_
  refine (calls_must (calls_aside trivial)).bind fun _ => ?_
  refine (calls_must (calls_aside trivial)).bind fun _ => ?_
  refine (calls_may (calls_aside trivial)).bind fun _ => ?_
  exact calls_must (calls_aside trivial)

theorem calls_usableConnection : usableConnection.Calls DnsCall.Quiet :=
  .call trivial fun _ => .ite (.call trivial fun _ => .pure _) (.pure _)

theorem calls_chooseMethod (method : Method) : (chooseMethod method).Calls DnsCall.Quiet := by
  cases method with
  | auto =>
      have hprefers : prefersResolved.Calls DnsCall.Quiet :=
        .call trivial fun _ => .ite (.call trivial fun _ => .pure _) (.pure _)
      refine hprefers.bind fun _ => .ite (.pure _) ?_
      refine calls_usableConnection.bind fun _ => .ite (.pure _) ?_
      exact .call trivial fun _ => .ite (.fail _) (.pure _)
  | _ => exact .pure _

end Parts

/-! ### Whole runs -/

section Runs

variable {env : DnsEnv} {start : HostDns} {underlay : String} {snapshot : Snapshot}
  {s : DnsHost × List DnsCall} {A : DnsCall → Prop}

/-- The settings are what the commands so far made of them, and all of these are of one kind. -/
def SoFar (env : DnsEnv) (start : HostDns) (A : DnsCall → Prop) (t : DnsHost × List DnsCall) :
    Prop :=
  Outcome env start t.2 t.1.dns ∧ ∀ c ∈ t.2, A c

/-- The command fits after any commands of the kind, and is of it. -/
def Continues (env : DnsEnv) (start : HostDns) (A : DnsCall → Prop) (c : DnsCall) : Prop :=
  A c ∧ ∀ calls : List DnsCall, (∀ b ∈ calls, A b) → Fits env start calls c

theorem SoFar.mono {B : DnsCall → Prop} (h : SoFar env start A s) (hAB : ∀ c, A c → B c) :
    SoFar env start B s := ⟨h.1, fun c hc => hAB c (h.2 c hc)⟩

theorem SoFar.step {c : DnsCall} (h : SoFar env start A s) (hc : Continues env start A c) :
    SoFar env start A (Program.noting (dnsHost env) c s).2 := by
  refine ⟨h.1.step (hc.2 s.2 h.2), fun b hb => ?_⟩
  rcases List.mem_append.mp hb with hb | hb
  · exact h.2 b hb
  · rw [List.mem_singleton.mp hb]
    exact hc.1

end Runs

end EveNet.HostDnsScripts
