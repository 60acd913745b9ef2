import EveNet.CacheBook

/-!
# How old a served answer can be

Whatever the operations did before, and whether they failed or not, an entry of the cache
file carries the addresses and the times of an answer of the story: failed lookups rewrite
its note only. With a clock that never goes back, the age of what a resolution serves is
bounded by the times in the entry.
-/

namespace EveNet

/-! ### Entries and answers -/

section Told

variable {env : CacheEnv} {cfg : Config} {content : FileContent} {events : List CacheEvent}
  {s : CacheStore}

/-- Every entry is an answer of the story, up to its note. -/
def Told (content : FileContent) (events : List CacheEvent) : Prop :=
  ∀ d entry, content.find d = some entry →
    ∃ answer, .answered answer ∈ events ∧ answer.domain = d ∧ answer.answer = entry.answer

/-- What an interrupted write leaves behind is no cache file, unless all of it has been written but
for the end of the line. -/
def TornUnreadable (env : CacheEnv) : Prop :=
  ∀ k cause left, env.writes k = .interrupted cause left →
    ∀ file, left file = .malformed ∨ left file = .cache file

theorem Told.mono {later : List CacheEvent} (h : Told content events) :
    Told content (events ++ later) := by
  intro d entry hentry
  obtain ⟨answer, hmem, hrest⟩ := h d entry hentry
  exact ⟨answer, List.mem_append_left _ hmem, hrest⟩

theorem Told.leftBehind {after : FileContent} {good : FileContent → Prop}
    (h : Told content events) (htorn : TornUnreadable env)
    (hgood : ∀ written, good written → Told written events)
    (hleft : LeftBehind env good content after) : Told after events := by
  rcases hleft with rfl | ⟨k, cause, left, file, hbroken, rfl, hfile⟩
  · exact h
  · rcases htorn k cause left hbroken file with hbad | hall
    · rw [hbad]
      intro d entry hentry
      cases hentry
    · rw [hall]
      exact hgood _ hfile

theorem Told.saved {entry answer : DnsCacheEntry} (h : Told content events)
    (hmem : .answered answer ∈ events) (hanswer : answer.answer = entry.answer) :
    Told (savedOver content entry) events := by
  intro d held hheld
  rw [find_savedOver] at hheld
  split_ifs at hheld with hd
  · obtain rfl := Option.some.inj hheld
    exact ⟨answer, hmem, (congrArg DnsCacheEntry.domain hanswer).trans hd, hanswer⟩
  · exact h d held hheld

/-- The note of a failed lookup changes nothing else. -/
theorem Told.noted {entry : DnsCacheEntry} {name error : String} {writeCache : Bool}
    (h : Told content events) (hentry : content.find name = some entry) :
    Told (savedIf writeCache content { entry with lastError := some error }) events := by
  cases writeCache with
  | false => exact h
  | true =>
      obtain ⟨answer, hmem, -, hanswer⟩ := h name entry hentry
      exact h.saved hmem hanswer

/-- A resolution without the cache asks the resolver and touches no file. -/
theorem run_resolveWithMode_disabled {domain name : String} (writeCache : Bool)
    (mode : RefreshMode) (s : CacheStore) (hdisabled : cfg.dnsCache.enabled = false)
    (hname : normalizeDomain domain = .ok name) :
    ∃ r, Program.run (cacheHost env) (resolveWithMode cfg domain writeCache mode) s = (r, s.tick) ∧
      ∀ res, r = .ok res → res.ips ≠ [] → answerAt env s.calls name = .ok res.ips := by
  unfold resolveWithMode resolveDomainV4 answerAt
  rw [hname]
  change ∃ r, Program.run _ (if ¬ cfg.dnsCache.enabled then _ else _) s = (r, s.tick) ∧ _
  rw [if_pos (by simp [hdisabled]), normalizeDomain_normalized hname]
  change ∃ r, Program.run _ (Program.call _ _) s = (r, s.tick) ∧ _
  rw [Program.run_call]
  simp only [cacheHost]
  cases env.lookups s.calls name with
  | error cause => exact ⟨_, rfl, fun res h => by cases h⟩
  | ok addrs =>
      refine ⟨_, rfl, ?_⟩
      intro res h hips
      obtain rfl := Except.ok.inj h
      exact if_pos hips

theorem readable_of_load {path : String} {file : DnsCacheFile} {t : CacheStore}
    (h : Program.run (cacheHost env) (loadCacheOrEmpty path) s = (.ok file, t)) :
    env.readFails s.calls = none ∧ s.files path ≠ .malformed := by
  rw [loadCacheOrEmpty, Program.run_call] at h
  simp only [cacheHost] at h
  cases hfails : env.readFails s.calls with
  | some cause => simp [hfails] at h
  | none =>
      refine ⟨rfl, fun hmalformed => ?_⟩
      simp [hfails, hmalformed] at h

/-- What goes on after loading the file has loaded it, and else nothing was done. -/
theorem cacheLoads_or_unloaded {α : Type} {next : DnsCacheFile → CacheProgram α} {u : CacheStore}
    (henabled : cfg.dnsCache.enabled = true) (hfiles : u.files = s.files) :
    cacheLoads env cfg s u.calls = true ∨ ∃ e, Program.run (cacheHost env)
      ((loadCacheOrEmpty cfg.dnsCache.path).bind next) u = (.error e, u.tick) := by
  rcases run_loadCacheOrEmpty env cfg.dnsCache.path u with ⟨e, hload, -⟩ | hload
  · exact Or.inr ⟨e, Program.run_bind_error _ hload⟩
  · obtain ⟨hreads, hcontent⟩ := readable_of_load hload
    rw [hfiles] at hcontent
    exact Or.inl (decide_eq_true ⟨henabled, hreads, hcontent⟩)

variable (env) in
theorem resolve_loads_or_unloaded {domain name : String} (writeCache : Bool) (mode : RefreshMode)
    (s : CacheStore) (henabled : cfg.dnsCache.enabled = true)
    (hname : normalizeDomain domain = .ok name) :
    cacheLoads env cfg s (s.calls + 1) = true ∨ ∃ e, Program.run (cacheHost env)
      (resolveWithMode cfg domain writeCache mode) s = (.error e, s.tick.tick) := by
  rw [run_resolveWithMode writeCache mode s henabled hname]
  exact cacheLoads_or_unloaded (u := s.tick) henabled rfl

variable (env) in
/-- An insertion that has something to insert has loaded the file, or done nothing. -/
theorem saves_loads_or_unloaded {domain name : String} {ips : List String} (writeCache : Bool)
    (s : CacheStore) (hname : normalizeDomain domain = .ok name) :
    (ips ≠ [] → cfg.dnsCache.enabled = true → cacheLoads env cfg s s.calls = true) ∨
      ∃ e, Program.run (cacheHost env)
        (upsertLiveIpsFromProxy cfg domain ips writeCache) s = (.error e, s.tick) := by
  by_cases hinserts : ips ≠ [] ∧ cfg.dnsCache.enabled = true
  · obtain ⟨hips, henabled⟩ := hinserts
    rw [run_upsert hname hips henabled]
    exact (cacheLoads_or_unloaded henabled rfl).imp_left fun hloads _ _ => hloads
  · exact Or.inl fun hips henabled => absurd ⟨hips, henabled⟩ hinserts

theorem answered_of_loads {domain name : String} {mode : RefreshMode} {ips : List String}
    (hname : normalizeDomain domain = .ok name)
    (hloads : cacheLoads env cfg s (s.calls + 1) = true)
    (hasked : freshEntry mode ((s.files cfg.dnsCache.path).find name) (env.clock s.calls) = none)
    (hanswer : answerAt env (s.calls + 2) name = .ok ips) :
    .answered (answerEntry cfg name ips (env.clock s.calls) "live") ∈
      resolveEvents env cfg domain true mode s := by
  rw [resolveEvents, hname]
  dsimp only
  rw [if_pos ⟨rfl, hloads, hasked⟩, hanswer]
  exact List.mem_singleton_self _

theorem answered_of_live {domain name : String} {mode : RefreshMode} {ips : List String}
    {res : DomainResolution} (henabled : cfg.dnsCache.enabled = true)
    (hname : normalizeDomain domain = .ok name)
    (hasked : freshEntry mode ((s.files cfg.dnsCache.path).find name) (env.clock s.calls) = none)
    (hanswer : answerAt env (s.calls + 2) name = .ok ips)
    (hok : (Program.run (cacheHost env) (resolveWithMode cfg domain true mode) s).1 = .ok res) :
    .answered (answerEntry cfg name ips (env.clock s.calls) "live") ∈
      resolveEvents env cfg domain true mode s := by
  rcases resolve_loads_or_unloaded env true mode s henabled hname with hloads | ⟨e, hrun⟩
  · exact answered_of_loads hname hloads hasked hanswer
  · rw [hrun] at hok
    cases hok

theorem answered_of_saved {domain name : String} {ips : List String}
    (hname : normalizeDomain domain = .ok name) (hips : ips ≠ [])
    (hloads : cacheLoads env cfg s s.calls = true) :
    .answered (answerEntry cfg name (uniqueSorted ips) (env.clock (s.calls + 1)) "dns-proxy") ∈
      proxyEvents env cfg domain ips true s := by
  rw [proxyEvents, hname]
  dsimp only
  rw [if_pos ⟨rfl, hloads, hips⟩]
  exact List.mem_singleton_self _

/-- What a resolution leaves, or leaves behind, is told. -/
theorem told_of_resolved {domain name : String} {writeCache : Bool} {mode : RefreshMode}
    {res : DomainResolution} {after : FileContent} (hname : normalizeDomain domain = .ok name)
    (hloads : cacheLoads env cfg s (s.calls + 1) = true)
    (h : Told (s.files cfg.dnsCache.path) events)
    (hgood : Resolved cfg name writeCache mode (env.clock s.calls) (s.files cfg.dnsCache.path)
      (answerAt env (s.calls + 2) name) res after) :
    Told after (events ++ resolveEvents env cfg domain writeCache mode s) := by
  cases hgood with
  | fresh entry hentry hmode hnow hips => exact h.mono
  | unknown error hasked hanswer hentry => exact h.mono
  | stale entry error hasked hanswer hentry hstale => exact h.mono.noted hentry
  | expired entry error hasked hanswer hentry hstale => exact h.mono.noted hentry
  | live hasked hanswer =>
      cases writeCache with
      | false => exact h.mono
      | true =>
          refine h.mono.saved (List.mem_append_right _ ?_) rfl
          exact answered_of_loads hname hloads hasked hanswer

theorem told_resolve (domain : String) (writeCache : Bool) (mode : RefreshMode)
    (htorn : TornUnreadable env) (h : Told (s.files cfg.dnsCache.path) events) :
    Told ((Program.run (cacheHost env) (resolveWithMode cfg domain writeCache mode) s).2.files
        cfg.dnsCache.path)
      (events ++ resolveEvents env cfg domain writeCache mode s) := by
  cases hname : normalizeDomain domain with
  | error e =>
      rw [run_resolveWithMode_refused writeCache mode s hname]
      exact h.mono
  | ok name =>
      cases henabled : cfg.dnsCache.enabled with
      | false =>
          obtain ⟨r, hrun, -⟩ := run_resolveWithMode_disabled writeCache mode s henabled hname
          rw [hrun]
          exact h.mono
      | true =>
          rcases resolve_loads_or_unloaded env writeCache mode s henabled hname with
            hloads | ⟨e, hrun⟩
          · rcases resolveWithMode_cases env writeCache mode s henabled hname with
              ⟨e, hrun, -⟩ | ⟨e, -, hleft, -⟩ | ⟨res, -, hgood⟩
            · rw [hrun]
              exact h.mono
            · refine h.mono.leftBehind htorn ?_ hleft
              rintro written ⟨res, hgood⟩
              exact told_of_resolved hname hloads h hgood
            · exact told_of_resolved hname hloads h hgood
          · rw [hrun]
            exact h.mono

theorem told_refreshEach (writeCache : Bool) {domains : List String} (htorn : TornUnreadable env)
    (h : Told (s.files cfg.dnsCache.path) events) :
    Told ((Program.run (cacheHost env) (refreshEach cfg writeCache domains) s).2.files
        cfg.dnsCache.path)
      (events ++ refreshEvents env cfg writeCache domains s) := by
  induction domains generalizing s events with
  | nil =>
      rw [refreshEvents, List.append_nil]
      exact h
  | cons domain domains ih =>
      have hfirst := told_resolve domain writeCache .forceLive htorn h
      rw [refreshEvents, refreshEach, Program.bind_eq]
      rcases hrun : Program.run (cacheHost env) (refreshDomain cfg domain writeCache) s with
        ⟨e | res, t⟩
      · rw [← refreshDomain, hrun] at hfirst
        rw [Program.run_bind_error _ hrun, List.append_nil]
        exact hfirst
      · rw [← refreshDomain, hrun] at hfirst
        rw [Program.run_bind_ok _ hrun, Program.bind_eq, ← List.append_assoc]
        simp only [Program.pure_eq, Program.run_bind_pure_state]
        exact ih hfirst

theorem told_of_upserted {domain name : String} {ips : List String} {writeCache : Bool}
    {saved : Option DnsCacheEntry} {after : FileContent} (hname : normalizeDomain domain = .ok name)
    (hloads : ips ≠ [] → cfg.dnsCache.enabled = true → cacheLoads env cfg s s.calls = true)
    (h : Told (s.files cfg.dnsCache.path) events)
    (hgood : Upserted cfg name ips writeCache (env.clock (s.calls + 1))
      (s.files cfg.dnsCache.path) saved after) :
    Told after (events ++ proxyEvents env cfg domain ips writeCache s) := by
  cases hgood with
  | skipped _ => exact h.mono
  | saved hips henabled =>
      cases writeCache with
      | false => exact h.mono
      | true =>
          refine h.mono.saved (List.mem_append_right _ ?_) rfl
          exact answered_of_saved hname hips (hloads hips henabled)

theorem told_proxy {domain : String} {ips : List String} (writeCache : Bool)
    (htorn : TornUnreadable env) (h : Told (s.files cfg.dnsCache.path) events) :
    Told ((Program.run (cacheHost env) (upsertLiveIpsFromProxy cfg domain ips writeCache) s).2.files
        cfg.dnsCache.path)
      (events ++ proxyEvents env cfg domain ips writeCache s) := by
  cases hname : normalizeDomain domain with
  | error e =>
      unfold upsertLiveIpsFromProxy
      rw [hname]
      exact h.mono
  | ok name =>
      rcases saves_loads_or_unloaded env writeCache s hname with hloads | ⟨e, hrun⟩
      · rcases upsertLiveIpsFromProxy_cases env cfg ips writeCache s hname with
          ⟨e, hrun, -⟩ | ⟨e, -, hleft, -⟩ | ⟨saved, -, hgood⟩
        · rw [hrun]
          exact h.mono
        · refine h.mono.leftBehind htorn ?_ hleft
          rintro written ⟨saved, hgood⟩
          exact told_of_upserted hname hloads h hgood
        · exact told_of_upserted hname hloads h hgood
      · rw [hrun]
        exact h.mono

theorem told_prune (writeCache : Bool) (htorn : TornUnreadable env)
    (h : Told (s.files cfg.dnsCache.path) events) :
    Told ((Program.run (cacheHost env) (pruneCacheToConfiguredDomains cfg writeCache) s).2.files
      cfg.dnsCache.path) events := by
  have hpruned : Told (prunedIf cfg writeCache (s.files cfg.dnsCache.path)) events := by
    rw [prunedIf]
    dsimp only
    split_ifs
    · -- what is left for a domain was there for it before
      intro d entry hentry
      refine h d entry ?_
      rw [FileContent.find, find_sortEntries, DnsCacheFile.find] at hentry
      have hmem := KeyedList.mem_of_lookup _ hentry
      have hd : d ∈ configuredDomains cfg := by
        rw [← KeyedList.key_of_lookup _ hentry]
        exact of_decide_eq_true (List.mem_filter.mp hmem).2
      rw [KeyedList.lookup_filter _ (fun e he => by simpa [he] using hd)] at hentry
      rw [← find_loadedFile]
      exact hentry
    · exact h
  rcases pruneCacheToConfiguredDomains_cases env cfg writeCache s with
    ⟨e, hrun, -⟩ | ⟨e, -, hleft, -⟩ | ⟨counts, -, hafter⟩
  · rw [hrun]
    exact h
  · refine h.leftBehind htorn ?_ hleft
    rintro written ⟨-, rfl⟩
    exact hpruned
  · rw [hafter]
    exact hpruned

theorem told_op (op : CacheOp) (htorn : TornUnreadable env)
    (h : Told (s.files cfg.dnsCache.path) events) :
    Told ((op.run env cfg s).files cfg.dnsCache.path) (events ++ op.events env cfg s) := by
  cases op with
  | runtime domain writeCache =>
      rw [CacheOp.run, CacheOp.events, resolveForRuntime]
      exact told_resolve domain writeCache _ htorn h
  | refresh domain writeCache =>
      rw [CacheOp.run, CacheOp.events, refreshDomain]
      exact told_resolve domain writeCache _ htorn h
  | proxy domain ips writeCache =>
      rw [CacheOp.run, CacheOp.events]
      exact told_proxy writeCache htorn h
  | prune writeCache =>
      rw [CacheOp.run, CacheOp.events, List.append_nil]
      exact told_prune writeCache htorn h
  | refreshAll writeCache =>
      rw [CacheOp.run, CacheOp.events, refreshDomainPolicies]
      cases hdomains : enabledDomains cfg with
      | error e => exact h.mono
      | ok domains => exact told_refreshEach writeCache htorn h

theorem told_ops (ops : List CacheOp) (htorn : TornUnreadable env)
    (h : Told (s.files cfg.dnsCache.path) events) :
    Told ((runOps env cfg ops s).files cfg.dnsCache.path) (events ++ story env cfg ops s) := by
  induction ops generalizing s events with
  | nil =>
      rw [story, List.append_nil]
      exact h
  | cons op ops ih =>
      rw [story, ← List.append_assoc]
      exact ih (told_op op htorn h)

end Told

/-! ### The times of answers -/

section Dates

variable {env : CacheEnv} {cfg : Config} {s : CacheStore} {answer : DnsCacheEntry}

/-- The answer was obtained at one of the first calls, at the time the clock had then. -/
def Dated (env : CacheEnv) (cfg : Config) (calls : ℕ) (answer : DnsCacheEntry) : Prop :=
  ∃ k ≤ calls, answer.resolvedAtEpoch = env.clock k ∧
    answer.expiresAtEpoch = saturatingAdd (env.clock k) cfg.dnsCache.ttlSec

theorem Dated.mono {m n : ℕ} (h : Dated env cfg m answer) (hle : m ≤ n) : Dated env cfg n answer := by
  obtain ⟨k, hk, hrest⟩ := h
  exact ⟨k, hk.trans hle, hrest⟩

theorem dated_resolveEvents {domain : String} {writeCache : Bool} {mode : RefreshMode}
    (h : .answered answer ∈ resolveEvents env cfg domain writeCache mode s) :
    Dated env cfg s.calls answer := by
  unfold resolveEvents at h
  cases hname : normalizeDomain domain with
  | error e => simp [hname] at h
  | ok name =>
      simp only [hname] at h
      split_ifs at h
      · rw [List.mem_singleton] at h
        cases hanswer : answerAt env (s.calls + 2) name with
        | error error =>
            rw [hanswer] at h
            cases h
        | ok ips =>
            rw [hanswer] at h
            obtain rfl := CacheEvent.answered.inj h
            exact ⟨s.calls, le_rfl, rfl, rfl⟩
      · cases h

theorem dated_refreshEvents {writeCache : Bool} {domains : List String}
    (h : .answered answer ∈ refreshEvents env cfg writeCache domains s) :
    Dated env cfg (Program.run (cacheHost env) (refreshEach cfg writeCache domains) s).2.calls
      answer := by
  induction domains generalizing s with
  | nil => cases h
  | cons domain domains ih =>
      rcases List.mem_append.mp h with h | h
      · exact (dated_resolveEvents h).mono (calls_run_le env _ s)
      · rw [refreshEach, Program.bind_eq]
        rcases hrun : Program.run (cacheHost env) (refreshDomain cfg domain writeCache) s with
          ⟨e | res, t⟩
        · rw [hrun] at h
          cases h
        · rw [hrun] at h
          rw [Program.run_bind_ok _ hrun, Program.bind_eq]
          simp only [Program.pure_eq, Program.run_bind_pure_state]
          exact ih h

/-- The proxy looks at the clock after it has loaded the file. -/
theorem dated_proxyEvents {domain : String} {ips : List String} {writeCache : Bool}
    (h : .answered answer ∈ proxyEvents env cfg domain ips writeCache s) :
    Dated env cfg (Program.run (cacheHost env)
      (upsertLiveIpsFromProxy cfg domain ips writeCache) s).2.calls answer := by
  unfold proxyEvents at h
  cases hname : normalizeDomain domain with
  | error e => simp [hname] at h
  | ok name =>
      simp only [hname] at h
      split_ifs at h with hcond
      · obtain rfl := CacheEvent.answered.inj (List.mem_singleton.mp h)
        obtain ⟨henabled, -⟩ := of_decide_eq_true hcond.2.1
        refine ⟨s.calls + 1, ?_, rfl, rfl⟩
        rw [run_upsert hname hcond.2.2 henabled]
        exact calls_run_lt env _ _ s
      · cases h

theorem dated_op {op : CacheOp} (h : .answered answer ∈ op.events env cfg s) :
    Dated env cfg (op.run env cfg s).calls answer := by
  cases op with
  | runtime domain writeCache =>
      rw [CacheOp.events] at h
      rw [CacheOp.run, resolveForRuntime]
      exact (dated_resolveEvents h).mono (calls_run_le env _ s)
  | refresh domain writeCache =>
      rw [CacheOp.events] at h
      rw [CacheOp.run, refreshDomain]
      exact (dated_resolveEvents h).mono (calls_run_le env _ s)
  | proxy domain ips writeCache =>
      rw [CacheOp.run]
      exact dated_proxyEvents h
  | prune writeCache => cases h
  | refreshAll writeCache =>
      rw [CacheOp.events] at h
      rw [CacheOp.run, refreshDomainPolicies]
      cases hdomains : enabledDomains cfg with
      | error e => simp [hdomains] at h
      | ok domains =>
          rw [hdomains] at h
          exact dated_refreshEvents h

theorem calls_op_le (op : CacheOp) : s.calls ≤ (op.run env cfg s).calls := by
  cases op with
  | runtime domain writeCache => rw [CacheOp.run]; exact calls_run_le env _ s
  | refresh domain writeCache => rw [CacheOp.run]; exact calls_run_le env _ s
  | refreshAll writeCache => rw [CacheOp.run]; exact calls_run_le env _ s
  | proxy domain ips writeCache => rw [CacheOp.run]; exact calls_run_le env _ s
  | prune writeCache => rw [CacheOp.run]; exact calls_run_le env _ s

theorem calls_runOps_le (ops : List CacheOp) : s.calls ≤ (runOps env cfg ops s).calls := by
  induction ops generalizing s with
  | nil => exact le_rfl
  | cons op ops ih => exact (calls_op_le op).trans ih

theorem dated_story {ops : List CacheOp} (h : .answered answer ∈ story env cfg ops s) :
    Dated env cfg (runOps env cfg ops s).calls answer := by
  induction ops generalizing s with
  | nil => cases h
  | cons op ops ih =>
      rcases List.mem_append.mp h with h | h
      · exact (dated_op h).mono (calls_runOps_le ops)
      · exact ih h

end Dates

/-! ### Served answers -/

section Served

variable {env : CacheEnv} {cfg : Config} {s t : CacheStore}

/-- Stale answers are never served. -/
def servesFreshOnly (cfg : Config) : Bool :=
  trim cfg.dnsCache.unresolvedDomainMode.toList ≠ "allow_stale".toList ∧
    cfg.dnsCache.failClosedUnresolved

/-- At time `now` the answer is no older than the configuration allows. -/
def RecentEnough (cfg : Config) (now : UInt64) (answer : DnsCacheEntry) : Prop :=
  answer.resolvedAtEpoch ≤ now ∧
    now.toNat - answer.resolvedAtEpoch.toNat ≤
      cfg.dnsCache.ttlSec.toNat + cfg.dnsCache.staleGraceSec.toNat ∧
    (servesFreshOnly cfg = true →
      now.toNat - answer.resolvedAtEpoch.toNat < cfg.dnsCache.ttlSec.toNat)

/-- The call at which a resolution asks the resolver, if it does. -/
def askedAt (cfg : Config) (s : CacheStore) : ℕ :=
  if cfg.dnsCache.enabled then s.calls + 2 else s.calls

theorem recentEnough_of_fresh {answer : DnsCacheEntry} {at' now : UInt64}
    (hat : answer.resolvedAtEpoch = at') (hle : at' ≤ now)
    (hnow : now < saturatingAdd at' cfg.dnsCache.ttlSec) : RecentEnough cfg now answer := by
  have hlt : now.toNat < at'.toNat + cfg.dnsCache.ttlSec.toNat := by
    have hnat : now.toNat < (saturatingAdd at' cfg.dnsCache.ttlSec).toNat := hnow
    rw [toNat_saturatingAdd] at hnat
    omega
  have hleNat : at'.toNat ≤ now.toNat := hle
  rw [RecentEnough, hat]
  exact ⟨hle, by omega, fun _ => by omega⟩

theorem recentEnough_of_stale {answer entry : DnsCacheEntry} {at' now : UInt64}
    (hat : answer.resolvedAtEpoch = at') (hle : at' ≤ now)
    (hexpires : entry.expiresAtEpoch = saturatingAdd at' cfg.dnsCache.ttlSec)
    (hstale : canUseStale cfg entry now = true) : RecentEnough cfg now answer := by
  obtain ⟨hmode, hgrace, -⟩ := of_decide_eq_true hstale
  have hbound : now.toNat ≤
      at'.toNat + cfg.dnsCache.ttlSec.toNat + cfg.dnsCache.staleGraceSec.toNat := by
    have hnat : now.toNat ≤
        (saturatingAdd entry.expiresAtEpoch cfg.dnsCache.staleGraceSec).toNat := hgrace
    rw [toNat_saturatingAdd, hexpires, toNat_saturatingAdd] at hnat
    omega
  have hleNat : at'.toNat ≤ now.toNat := hle
  rw [RecentEnough, hat]
  refine ⟨hle, by omega, fun hfresh => ?_⟩
  obtain ⟨hnot, hclosed⟩ := of_decide_eq_true hfresh
  rcases hmode with hallow | hopen
  · exact absurd hallow hnot
  · exact absurd hclosed hopen

/-- Whatever was done to the cache since there was no file, with a clock that never goes back:
the addresses that a resolution returns are the answer of this very call or an answer of the
story for its domain that is recent enough. -/
theorem bounded_staleness (hclock : ∀ i j, i ≤ j → env.clock i ≤ env.clock j)
    (htorn : TornUnreadable env) (hstart : s.files cfg.dnsCache.path = .absent)
    {ops : List CacheOp} {domain : String} {writeCache : Bool} {mode : RefreshMode}
    {res : DomainResolution}
    (hrun : Program.run (cacheHost env) (resolveWithMode cfg domain writeCache mode)
      (runOps env cfg ops s) = (.ok res, t)) (hips : res.ips ≠ []) :
    ∃ name, normalizeDomain domain = .ok name ∧
      (answerAt env (askedAt cfg (runOps env cfg ops s)) name = .ok res.ips ∨
        ∃ answer, .answered answer ∈ story env cfg ops s ∧ answer.domain = name ∧
          answer.resolvedIpv4 = res.ips ∧
          RecentEnough cfg (env.clock (runOps env cfg ops s).calls) answer) := by
  have hempty : Told (s.files cfg.dnsCache.path) [] := by
    intro d entry hentry
    rw [hstart] at hentry
    cases hentry
  have htold := told_ops ops htorn hempty
  rw [List.nil_append] at htold
  set u := runOps env cfg ops s with hu
  cases hname : normalizeDomain domain with
  | error e =>
      rw [run_resolveWithMode_refused writeCache mode u hname] at hrun
      cases hrun
  | ok name =>
      refine ⟨name, rfl, ?_⟩
      cases henabled : cfg.dnsCache.enabled with
      | false =>
          obtain ⟨r, hrun', hanswer⟩ := run_resolveWithMode_disabled writeCache mode u henabled hname
          rw [hrun'] at hrun
          have hasked : askedAt cfg u = u.calls := if_neg (by simp [henabled])
          rw [hasked]
          exact Or.inl (hanswer res (congrArg Prod.fst hrun) hips)
      | true =>
          have hasked : askedAt cfg u = u.calls + 2 := if_pos henabled
          rw [hasked]
          -- an entry that is served is an answer of the story, with its times
          have hentry : ∀ entry, (u.files cfg.dnsCache.path).find name = some entry →
              ∃ answer, .answered answer ∈ story env cfg ops s ∧ answer.domain = name ∧
                answer.resolvedIpv4 = entry.resolvedIpv4 ∧
                ∃ k ≤ u.calls, answer.resolvedAtEpoch = env.clock k ∧
                  entry.expiresAtEpoch = saturatingAdd (env.clock k) cfg.dnsCache.ttlSec := by
            intro entry hfind
            obtain ⟨answer, hmem, hdomain, hsame⟩ := htold name entry hfind
            obtain ⟨k, hk, hat, hexpires⟩ := dated_story hmem
            have hsameIps : answer.answer.resolvedIpv4 = entry.answer.resolvedIpv4 := by rw [hsame]
            have hsameExpires : answer.answer.expiresAtEpoch = entry.answer.expiresAtEpoch := by
              rw [hsame]
            exact ⟨answer, hmem, hdomain, hsameIps, k, hk, hat, hsameExpires.symm.trans hexpires⟩
          rcases resolveWithMode_cases env writeCache mode u henabled hname with
            ⟨e, hrun', -⟩ | ⟨e, hrun', -⟩ | ⟨res', hok, hgood⟩
          · rw [hrun'] at hrun
            cases hrun
          · rw [hrun] at hrun'
            cases hrun'
          · rw [hrun] at hok hgood
            obtain rfl := Except.ok.inj hok
            generalize (Except.ok res, t).2.files cfg.dnsCache.path = after at hgood
            cases hgood with
            | fresh entry hfind hmode hnow _ =>
                obtain ⟨answer, hmem, hdomain, hsame, k, hk, hat, hexpires⟩ := hentry entry hfind
                exact Or.inr ⟨answer, hmem, hdomain, hsame,
                  recentEnough_of_fresh hat (hclock k _ hk) (hexpires ▸ hnow)⟩
            | live hasked hanswer => exact Or.inl hanswer
            | unknown error hasked hanswer hfind => exact absurd rfl hips
            | stale entry error hasked hanswer hfind hstale =>
                obtain ⟨answer, hmem, hdomain, hsame, k, hk, hat, hexpires⟩ := hentry entry hfind
                exact Or.inr ⟨answer, hmem, hdomain, hsame,
                  recentEnough_of_stale hat (hclock k _ hk) hexpires hstale⟩
            | expired entry error hasked hanswer hfind hstale => exact absurd rfl hips

end Served

/-- A configuration that serves stale answers. -/
def staleConfig : Config :=
  { twoDomains with dnsCache := { unresolvedDomainMode := "allow_stale" } }

/-- A host on which time passes after the first calls, and no lookup works. -/
def agingCache : CacheEnv :=
  { quietHost.cache with clock := fun k => if k < 4 then 1000 else 1400 }

/-- What the proxy cached at 1000 is still served at 1400, past its time to live. -/
theorem bounded_staleness_aging : ∃ name, normalizeDomain "a.example" = .ok name ∧
    (answerAt agingCache (askedAt staleConfig (runOps agingCache staleConfig
        [.proxy "a.example" ["192.0.2.1"] true] bareState.2)) name = .ok ["192.0.2.1"] ∨
      ∃ answer, .answered answer ∈ story agingCache staleConfig
          [.proxy "a.example" ["192.0.2.1"] true] bareState.2 ∧ answer.domain = name ∧
        answer.resolvedIpv4 = ["192.0.2.1"] ∧ RecentEnough staleConfig 1400 answer) := by
  have hclock : ∀ i j, i ≤ j → agingCache.clock i ≤ agingCache.clock j := by
    intro i j hij
    simp only [agingCache]
    split_ifs with hi hj hj
    · exact UInt64.le_refl _
    · decide
    · omega
    · exact UInt64.le_refl _
  have htorn : TornUnreadable agingCache := fun k cause left h => by cases h
  have hrun : Program.run (cacheHost agingCache)
      (resolveWithMode staleConfig "a.example" true .preferFreshCache)
      (runOps agingCache staleConfig [.proxy "a.example" ["192.0.2.1"] true] bareState.2) =
        (.ok ⟨"a.example", ["192.0.2.1"], .cacheStale,
          some ⟨"a.example", ["192.0.2.1"], 1000, 1300, "dns-proxy",
            some "failed to resolve domain: a.example"⟩,
          some "failed to resolve domain: a.example"⟩,
          (Program.run (cacheHost agingCache)
            (resolveWithMode staleConfig "a.example" true .preferFreshCache)
            (runOps agingCache staleConfig [.proxy "a.example" ["192.0.2.1"] true]
              bareState.2)).2) := Prod.ext (by decide +kernel) rfl
  exact bounded_staleness hclock htorn rfl hrun (by simp)

end EveNet
