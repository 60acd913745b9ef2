import EveNet.CacheForm
import EveNet.StatusCommands

/-!
# Three readers of the cache

The status of the cache, a resolution and the validation each look an entry up in their own way:
the last one written into a map, the first one found, and again the first one, with tests of
their own for its freshness. On a file in form they see the same entry, and it has addresses.
-/

namespace EveNet

/-! ### Lookups -/

/-- With distinct keys the last element with a key is the first one. -/
theorem getLast?_filter_of_nodup {α κ : Type} [DecidableEq κ] {key : α → κ} {l : List α}
    (hkeys : (l.map key).Nodup) (k : κ) :
    (l.filter (fun a => key a = k)).getLast? = KeyedList.lookup key k l := by
  induction l with
  | nil => rfl
  | cons a l ih =>
      rw [List.map_cons, List.nodup_cons] at hkeys
      rw [KeyedList.lookup_cons]
      by_cases ha : key a = k
      · have hrest : l.filter (fun b => key b = k) = [] := by
          refine List.filter_eq_nil_iff.mpr fun b hb hkey => hkeys.1 ?_
          rw [ha, ← of_decide_eq_true hkey]
          exact List.mem_map_of_mem hb
        rw [if_pos ha, List.filter_cons_of_pos (by simpa using ha), hrest]
        rfl
      · rw [if_neg ha, List.filter_cons_of_neg (by simpa using ha)]
        exact ih hkeys.2

theorem lookup_map_pair {α β : Type} [DecidableEq α] {l : List α} (hl : l.Nodup) {a : α}
    (ha : a ∈ l) (f : α → β) :
    KeyedList.lookup Prod.fst a (l.map (fun b => (b, f b))) = some (a, f a) := by
  refine KeyedList.lookup_of_mem Prod.fst (a := (a, f a)) ?_ (List.mem_map_of_mem ha)
  rw [List.map_map]
  exact (List.map_id l).symm ▸ hl

theorem mapM_eq_ok {α β : Type} {f : α → Except Error β} {l : List α}
    (h : ∀ a ∈ l, ∃ b, f a = .ok b) : ∃ out, l.mapM f = .ok out := by
  induction l with
  | nil => exact ⟨[], rfl⟩
  | cons a l ih =>
      obtain ⟨⟨b, hb⟩, hrest⟩ := List.forall_mem_cons.mp h
      obtain ⟨bs, hbs⟩ := ih hrest
      exact ⟨b :: bs, by rw [List.mapM_cons, hb, hbs]; rfl⟩

theorem mem_of_mapM {α β : Type} {f : α → Except Error β} {l : List α} {out : List β}
    (h : l.mapM f = .ok out) {a : α} (ha : a ∈ l) {b : β} (hb : f a = .ok b) : b ∈ out := by
  induction l generalizing out with
  | nil => cases ha
  | cons first l ih =>
      rw [List.mapM_cons] at h
      obtain ⟨c, hc, h⟩ := except_bind_eq_ok.mp h
      obtain ⟨cs, hcs, h⟩ := except_bind_eq_ok.mp h
      obtain rfl : c :: cs = out := Except.ok.inj h
      rcases List.mem_cons.mp ha with rfl | ha
      · rw [Except.ok.inj (hb.symm.trans hc)]
        exact List.mem_cons_self
      · exact List.mem_cons_of_mem _ (ih hcs ha)

/-! ### What each reader says -/

/-- What is printed under a domain: the label and the entry it is about, if there is one. -/
def statusOf (printed : List (String × Option (String × DnsCacheEntry))) (name : String) :
    Option (String × DnsCacheEntry) :=
  (KeyedList.lookup Prod.fst name printed).bind Prod.snd

def LabelledFresh (printed : List (String × Option (String × DnsCacheEntry))) (name : String) :
    Prop :=
  ∃ entry, statusOf printed name = some ("FRESH", entry)

/-- The resolution is a fresh one from the cache, with the addresses that are printed. -/
def ServedAsPrinted (printed : List (String × Option (String × DnsCacheEntry))) (name : String)
    (resolved : Except Error DomainResolution) : Prop :=
  ∃ resolution label entry, resolved = .ok resolution ∧ resolution.source = .cacheFresh ∧
    statusOf printed name = some (label, entry) ∧ resolution.ips = entry.resolvedIpv4

/-- The warning is that the entry of a domain is missing, stale or without addresses. -/
def CacheWarning.Unusable (name : String) : CacheWarning → Prop
  | .zeroAddresses domain => domain = name
  | .stale domain _ => domain = name
  | .missing domain => domain = name
  | _ => False

theorem label_eq_fresh {expiresAtEpoch now : UInt64} :
    cacheFreshnessLabel expiresAtEpoch now = "FRESH" ↔ now < expiresAtEpoch := by
  unfold cacheFreshnessLabel
  split_ifs with h
  · exact ⟨fun _ => h, fun _ => rfl⟩
  · exact ⟨fun heq => absurd heq (by decide), fun hnow => absurd hnow h⟩

theorem unusable_entryWarnings {now : UInt64} {domain name : String} {entry : DnsCacheEntry} :
    (∃ w ∈ entryWarnings now domain entry, w.Unusable name) ↔
      domain = name ∧ (entry.resolvedIpv4 = [] ∨ entry.expiresAtEpoch ≤ now) := by
  unfold entryWarnings
  constructor
  · rintro ⟨w, hw, hname⟩
    rw [List.mem_append, List.mem_append] at hw
    rcases hw with (hw | hw) | hw
    · split_ifs at hw with hips
      · obtain rfl := List.mem_singleton.mp hw
        exact ⟨hname, Or.inl hips⟩
      · cases hw
    · split_ifs at hw with hexpired
      · obtain rfl := List.mem_singleton.mp hw
        exact ⟨hname, Or.inr hexpired⟩
      · cases hw
    · obtain ⟨err, -, rfl⟩ := List.mem_map.mp hw
      cases hname
  · rintro ⟨hname, hips | hexpired⟩
    · exact ⟨.zeroAddresses domain, by simp [hips], hname⟩
    · exact ⟨.stale domain (now - entry.expiresAtEpoch), by simp [hexpired], hname⟩

/-! ### The readers on a file in form -/

theorem fileForm_loadedFile {content : FileContent} (h : InForm content) :
    FileForm (loadedFile content) := by
  cases content with
  | absent => exact fileForm_empty
  | malformed => exact fileForm_empty
  | cache file =>
      have hform := h file rfl
      rw [loadedFile, hform.sortEntries_eq]
      exact hform

section Readers

variable {env : CacheEnv} {cfg : Config} {now : UInt64} {t : CacheStore}

/-- Whoever reads the cache now gets the cache file that the path holds, or none yet. -/
structure ReadNow (env : CacheEnv) (cfg : Config) (now : UInt64) (t : CacheStore) : Prop where
  reads : ∀ k, env.readFails k = none
  clock : ∀ k, env.clock k = now
  parses : t.files cfg.dnsCache.path ≠ .malformed

theorem ReadNow.load (h : ReadNow env cfg now t) {s : CacheStore} (hs : s.files = t.files) :
    Program.run (cacheHost env) (loadCacheOrEmpty cfg.dnsCache.path) s =
      (.ok (loadedFile (t.files cfg.dnsCache.path)), s.tick) := by
  rcases run_loadCacheOrEmpty env cfg.dnsCache.path s with ⟨e, -, hfails | hmalformed⟩ | hload
  · exact absurd (h.reads s.calls) hfails
  · exact absurd (hs ▸ hmalformed) h.parses
  · rw [hload, hs]

theorem ReadNow.clocked (h : ReadNow env cfg now t) (s : CacheStore) :
    Program.run (cacheHost env) nowEpoch s = (.ok now, s.tick) := by
  rw [← h.clock s.calls]
  rfl

/-- Every domain of a policy has a name. -/
def Named (cfg : Config) : Prop :=
  ∀ policy ∈ cfg.policies, ∀ domain, policy.matchSpec.domain = some domain →
    ∃ name, normalizeDomain domain = .ok name

theorem Named.mapM {policies : List Policy} (hnames : Named cfg) (hsub : policies ⊆ cfg.policies) :
    ∃ names, (policies.filterMap (fun policy => policy.matchSpec.domain)).mapM normalizeDomain =
      .ok names := by
  refine mapM_eq_ok fun domain hdomain => ?_
  obtain ⟨policy, hpolicy, hmatch⟩ := List.mem_filterMap.mp hdomain
  exact hnames policy (hsub hpolicy) domain hmatch

theorem mem_names {policies : List Policy} {names : List String} {policy : Policy}
    {domain name : String} (hnames : (policies.filterMap
      (fun policy => policy.matchSpec.domain)).mapM normalizeDomain = .ok names)
    (hpolicy : policy ∈ policies) (hdomain : policy.matchSpec.domain = some domain)
    (hname : normalizeDomain domain = .ok name) : name ∈ uniqueSorted names :=
  mem_uniqueSorted.mpr
    (mem_of_mapM hnames (List.mem_filterMap.mpr ⟨policy, hpolicy, hdomain⟩) hname)

/-- The status prints under a configured domain what a lookup finds. -/
theorem run_printDnsCacheStatus (h : ReadNow env cfg now t)
    (hform : FileForm (loadedFile (t.files cfg.dnsCache.path))) (hnames : Named cfg)
    {policy : Policy} (hpolicy : policy ∈ cfg.policies) {domain name : String}
    (hdomain : policy.matchSpec.domain = some domain) (hname : normalizeDomain domain = .ok name) :
    ∃ printed u, Program.run (cacheHost env) (printDnsCacheStatus cfg) t = (.ok printed, u) ∧
      statusOf printed name = ((t.files cfg.dnsCache.path).find name).map
        (fun entry => (cacheFreshnessLabel entry.expiresAtEpoch now, entry)) := by
  obtain ⟨names, hmapM⟩ := hnames.mapM (List.Subset.refl cfg.policies)
  have hmem := mem_names hmapM hpolicy hdomain hname
  set file := loadedFile (t.files cfg.dnsCache.path) with hfile
  set snapshot := (uniqueSorted names).map (fun domain =>
    (domain, (file.entries.filter (fun entry => entry.domain = domain)).getLast?)) with hsnapshot
  have hrun : Program.run (cacheHost env) (configuredDomainCacheSnapshot cfg) t =
      (.ok snapshot, t.tick) := by
    unfold configuredDomainCacheSnapshot
    rw [Program.bind_eq, Program.run_bind_ok _ (h.load rfl), hmapM]
    rfl
  obtain ⟨first, rest, hcons⟩ := List.exists_cons_of_ne_nil (List.ne_nil_of_mem hmem)
  have hattempt : Program.run (cacheHost env)
      (Program.attempt (configuredDomainCacheSnapshot cfg) : CacheProgram _) t =
        (.ok (.ok snapshot), t.tick) := by
    rw [Program.run_attempt, hrun]
  refine ⟨snapshot.map (fun s => (s.1, s.2.map
    (fun entry => (cacheFreshnessLabel entry.expiresAtEpoch now, entry)))), t.tick.tick, ?_, ?_⟩
  · unfold printDnsCacheStatus
    rw [Program.bind_eq, Program.run_bind_ok _ hattempt]
    rw [hsnapshot, hcons]
    change Program.run _ (nowEpoch.bind _) _ = _
    rw [Program.run_bind_ok _ (h.clocked t.tick)]
    rfl
  · rw [hsnapshot, List.map_map]
    change (KeyedList.lookup Prod.fst name ((uniqueSorted names).map (fun d => (d, _)))).bind _ = _
    rw [lookup_map_pair (nodup_uniqueSorted names) hmem]
    change Option.map _ ((file.entries.filter (fun entry => entry.domain = name)).getLast?) = _
    rw [getLast?_filter_of_nodup hform.ordered.nodup, ← find_loadedFile]
    rfl

/-- The validation warns about an enabled domain by what a lookup finds. -/
theorem run_validateDnsCache (h : ReadNow env cfg now t) (henabled : cfg.dnsCache.enabled = true)
    (hnames : Named cfg) {policy : Policy} (hpolicy : policy ∈ cfg.enabledPolicies)
    {domain name : String} (hdomain : policy.matchSpec.domain = some domain)
    (hname : normalizeDomain domain = .ok name) :
    ∃ warnings u, Program.run (cacheHost env) (validateDnsCache cfg) t = (.ok warnings, u) ∧
      ((∃ w ∈ warnings, w.Unusable name) ↔
        ∀ entry, (t.files cfg.dnsCache.path).find name = some entry →
          entry.resolvedIpv4 = [] ∨ entry.expiresAtEpoch ≤ now) := by
  have hsub : cfg.enabledPolicies ⊆ cfg.policies := List.filter_subset_self _
  obtain ⟨names, hmapM⟩ := hnames.mapM hsub
  have hmem := mem_names hmapM hpolicy hdomain hname
  have hdomains : enabledDomains cfg = .ok (uniqueSorted names) := by
    rw [enabledDomains, hmapM]
    rfl
  have hattempt : Program.run (cacheHost env)
      (Program.attempt (loadCacheOrEmpty cfg.dnsCache.path) : CacheProgram _) t =
        (.ok (.ok (loadedFile (t.files cfg.dnsCache.path))), t.tick) := by
    rw [Program.run_attempt, h.load rfl]
  refine ⟨(uniqueSorted names).flatMap (fun domain =>
    ((loadedFile (t.files cfg.dnsCache.path)).find domain).elim [.missing domain]
      (entryWarnings now domain)), t.tick.tick, ?_, ?_⟩
  · unfold validateDnsCache
    rw [hdomains]
    change Program.run _ (if uniqueSorted names = [] then _ else _) t = _
    rw [if_neg (List.ne_nil_of_mem hmem), if_neg (not_not.mpr henabled), Program.bind_eq,
      Program.run_bind_ok _ hattempt]
    change Program.run _ (nowEpoch.bind _) _ = _
    rw [Program.run_bind_ok _ (h.clocked t.tick), Program.pure_eq, Program.run_pure]
    congr 2
    refine List.flatMap_congr fun d _ => ?_
    cases (loadedFile (t.files cfg.dnsCache.path)).find d <;> rfl
  · constructor
    · rintro ⟨w, hw, hunusable⟩ entry hentry
      obtain ⟨d, -, hd⟩ := List.mem_flatMap.mp hw
      rw [find_loadedFile] at hd
      cases hfound : (t.files cfg.dnsCache.path).find d with
      | none =>
          rw [hfound] at hd
          obtain rfl := List.mem_singleton.mp hd
          obtain rfl : d = name := hunusable
          rw [hentry] at hfound
          cases hfound
      | some held =>
          rw [hfound] at hd
          obtain ⟨rfl, hbad⟩ := unusable_entryWarnings.mp ⟨w, hd, hunusable⟩
          obtain rfl := Option.some.inj (hentry.symm.trans hfound)
          exact hbad
    · intro hbad
      cases hfound : (t.files cfg.dnsCache.path).find name with
      | none =>
          refine ⟨.missing name, List.mem_flatMap.mpr ⟨name, hmem, ?_⟩, rfl⟩
          rw [find_loadedFile, hfound]
          exact List.mem_singleton_self _
      | some entry =>
          obtain ⟨w, hw, hunusable⟩ := unusable_entryWarnings.mpr ⟨rfl, hbad entry hfound⟩
          refine ⟨w, List.mem_flatMap.mpr ⟨name, hmem, ?_⟩, hunusable⟩
          rw [find_loadedFile, hfound]
          exact hw

theorem Resolved.of_cacheFresh {name : String} {writeCache : Bool} {mode : RefreshMode}
    {content after : FileContent} {answer : Except String (List String)}
    {resolution : DomainResolution}
    (h : Resolved cfg name writeCache mode now content answer resolution after)
    (hsource : resolution.source = .cacheFresh) :
    ∃ entry, content.find name = some entry ∧ now < entry.expiresAtEpoch ∧
      entry.resolvedIpv4 ≠ [] ∧ resolution.ips = entry.resolvedIpv4 := by
  cases h with
  | fresh entry hentry _ hnow hsome => exact ⟨entry, hentry, hnow, hsome, rfl⟩
  | live => cases hsource
  | unknown => cases hsource
  | stale => cases hsource
  | expired => cases hsource

/-- A resolution is fresh from the cache exactly when a lookup finds an entry to serve. -/
theorem resolveForRuntime_fresh_iff (h : ReadNow env cfg now t)
    (henabled : cfg.dnsCache.enabled = true) {domain name : String}
    (hname : normalizeDomain domain = .ok name) (writeCache : Bool) (ips : List String) :
    (∃ resolution, (Program.run (cacheHost env) (resolveForRuntime cfg domain writeCache) t).1 =
        .ok resolution ∧ resolution.source = .cacheFresh ∧ resolution.ips = ips) ↔
      ∃ entry, (t.files cfg.dnsCache.path).find name = some entry ∧ now < entry.expiresAtEpoch ∧
        entry.resolvedIpv4 ≠ [] ∧ entry.resolvedIpv4 = ips := by
  constructor
  · rintro ⟨resolution, hrun, hsource, hips⟩
    rcases resolveWithMode_cases env writeCache .preferFreshCache t henabled hname with
      ⟨e, hfailed, -⟩ | ⟨e, hfailed, -⟩ | ⟨a, hok, hresolved⟩
    · rw [resolveForRuntime, hfailed] at hrun
      cases hrun
    · rw [resolveForRuntime, hfailed] at hrun
      cases hrun
    · obtain rfl := Except.ok.inj (hrun.symm.trans hok)
      obtain ⟨entry, hentry, hnow, hsome, heq⟩ := hresolved.of_cacheFresh hsource
      rw [h.clock] at hnow
      exact ⟨entry, hentry, hnow, hsome, heq.symm.trans hips⟩
  · rintro ⟨entry, hentry, hnow, hsome, rfl⟩
    have hfresh : freshEntry .preferFreshCache
        ((loadedFile (t.files cfg.dnsCache.path)).find name) now = some entry := by
      rw [find_loadedFile, hentry, freshEntry, if_pos rfl, Option.filter_some]
      exact if_pos (decide_eq_true ⟨hnow, hsome⟩)
    refine ⟨⟨name, entry.resolvedIpv4, .cacheFresh, some entry, entry.lastError⟩, ?_, rfl, rfl⟩
    rw [resolveForRuntime, run_resolveWithMode writeCache .preferFreshCache t henabled hname,
      Program.run_bind_ok _ (h.load (s := t.tick) rfl), resolveFrom, h.clock, hfresh]
    rfl

end Readers

/-- Whatever cache file the operations have left, the three readers agree about a domain: it is
labelled fresh exactly when it is served from the cache, with the printed addresses, and
exactly when the validation has nothing against its entry. -/
theorem cache_views_agree {σ : Type} {h : Handler cacheInterface σ}
    {files : σ → String → FileContent} (hfs : FileSystem h files)
    {calls : List (Config × CacheOp)} (hcalls : ∀ call ∈ calls, call.2.AsCalled) {s : σ}
    {cfg : Config} (hstart : files s cfg.dnsCache.path = .absent)
    (henabled : cfg.dnsCache.enabled = true) (hnames : Named cfg) {env : CacheEnv} {now : UInt64}
    {t : CacheStore} (hnow : ReadNow env cfg now t)
    (hleft : t.files cfg.dnsCache.path = files (runCalls h calls s) cfg.dnsCache.path)
    {policy : Policy} (hpolicy : policy ∈ cfg.enabledPolicies) {domain name : String}
    (hdomain : policy.matchSpec.domain = some domain) (hname : normalizeDomain domain = .ok name)
    (writeCache : Bool) :
    ∃ printed warnings u v,
      Program.run (cacheHost env) (printDnsCacheStatus cfg) t = (.ok printed, u) ∧
      Program.run (cacheHost env) (validateDnsCache cfg) t = (.ok warnings, v) ∧
      (LabelledFresh printed name ↔ ServedAsPrinted printed name
        (Program.run (cacheHost env) (resolveForRuntime cfg domain writeCache) t).1) ∧
      (LabelledFresh printed name ↔ ∀ w ∈ warnings, ¬ w.Unusable name) := by
  have hform : InForm (t.files cfg.dnsCache.path) := by
    rw [hleft]
    refine cache_stays_in_form hfs _ calls hcalls s ?_
    rw [hstart]
    exact fun file hfile => by cases hfile
  obtain ⟨printed, u, hprinted, hstatus⟩ := run_printDnsCacheStatus hnow (fileForm_loadedFile hform)
    hnames (List.mem_of_mem_filter hpolicy) hdomain hname
  obtain ⟨warnings, v, hwarnings, hunusable⟩ :=
    run_validateDnsCache hnow henabled hnames hpolicy hdomain hname
  have hserved := resolveForRuntime_fresh_iff hnow henabled hname writeCache
  have hlabelled : LabelledFresh printed name ↔ ∃ entry,
      (t.files cfg.dnsCache.path).find name = some entry ∧ now < entry.expiresAtEpoch := by
    unfold LabelledFresh
    rw [hstatus]
    constructor
    · rintro ⟨entry, hentry⟩
      obtain ⟨held, hheld, heq⟩ := Option.map_eq_some_iff.mp hentry
      exact ⟨held, hheld, label_eq_fresh.mp (Prod.mk.inj heq).1⟩
    · rintro ⟨entry, hentry, hfresh⟩
      refine ⟨entry, ?_⟩
      rw [hentry, Option.map_some, label_eq_fresh.mpr hfresh]
  -- Every writer has kept the entries from being empty.
  have hsome : ∀ entry, (t.files cfg.dnsCache.path).find name = some entry →
      entry.resolvedIpv4 ≠ [] := by
    intro entry hentry
    rw [← find_loadedFile] at hentry
    exact ((fileForm_loadedFile hform).find hentry).nonempty
  refine ⟨printed, warnings, u, v, hprinted, hwarnings, hlabelled.trans ?_, hlabelled.trans ?_⟩
  · constructor
    · rintro ⟨entry, hentry, hfresh⟩
      obtain ⟨resolution, hrun, hsource, hips⟩ :=
        (hserved _).mpr ⟨entry, hentry, hfresh, hsome entry hentry, rfl⟩
      refine ⟨resolution, cacheFreshnessLabel entry.expiresAtEpoch now, entry, hrun, hsource, ?_,
        hips⟩
      rw [hstatus, hentry, Option.map_some]
    · rintro ⟨resolution, label, entry, hrun, hsource, -, hips⟩
      obtain ⟨held, hheld, hfresh, -⟩ := (hserved _).mp ⟨resolution, hrun, hsource, hips⟩
      exact ⟨held, hheld, hfresh⟩
  · have hnone : (∀ w ∈ warnings, ¬ w.Unusable name) ↔ ¬ ∃ w ∈ warnings, w.Unusable name := by
      push Not
      rfl
    rw [hnone, hunusable]
    constructor
    · rintro ⟨entry, hentry, hfresh⟩ hbad
      rcases hbad entry hentry with hempty | hexpired
      · exact hsome entry hentry hempty
      · exact absurd hfresh (UInt64.not_lt.mpr hexpired)
    · intro hgood
      push Not at hgood
      obtain ⟨entry, hentry, -, hfresh⟩ := hgood
      exact ⟨entry, hentry, UInt64.not_le.mp hfresh⟩

/-- A host with a steady clock, to look at what two refreshes have left. -/
def steadyCache : CacheEnv := { answeringCache with clock := fun _ => 1000 }

def refreshedStore : CacheStore :=
  runCalls (cacheHost steadyCache) [(twoDomains, .refreshAll true)] bareState.2

theorem cache_views_agree_twoDomains :
    ∃ printed warnings u v,
      Program.run (cacheHost steadyCache) (printDnsCacheStatus twoDomains) refreshedStore =
        (.ok printed, u) ∧
      Program.run (cacheHost steadyCache) (validateDnsCache twoDomains) refreshedStore =
        (.ok warnings, v) ∧
      (LabelledFresh printed "a.example" ↔ ServedAsPrinted printed "a.example"
        (Program.run (cacheHost steadyCache) (resolveForRuntime twoDomains "a.example" true)
          refreshedStore).1) ∧
      (LabelledFresh printed "a.example" ↔ ∀ w ∈ warnings, ¬ w.Unusable "a.example") := by
  have hfs : FileSystem (cacheHost steadyCache) CacheStore.files :=
    fileSystem_cacheHost fun k cause left h => by cases h
  have hcalls : ∀ call ∈ [(twoDomains, CacheOp.refreshAll true)], call.2.AsCalled := by
    intro call hcall
    rw [List.mem_singleton.mp hcall]
    trivial
  have hnames : Named twoDomains := by
    intro policy hpolicy domain hdomain
    rcases List.mem_pair.mp hpolicy with rfl | rfl
    · obtain rfl := Option.some.inj hdomain
      exact ⟨"a.example", by decide⟩
    · obtain rfl := Option.some.inj hdomain
      exact ⟨"b.example", by decide⟩
  have hnow : ReadNow steadyCache twoDomains 1000 refreshedStore :=
    ⟨fun _ => rfl, fun _ => rfl, by decide⟩
  have hpolicy : domainPolicy "first" "a.example" "tun0" ∈ twoDomains.enabledPolicies :=
    List.mem_cons_self
  exact cache_views_agree hfs hcalls rfl rfl hnames hnow rfl hpolicy rfl (by decide) true

end EveNet
