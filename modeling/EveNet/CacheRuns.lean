import EveNet.CacheWriters

/-!
# What each cache operation does

One statement for each operation: with what it was told by the clock, the resolver and the
file system, what it returns and what it leaves in the cache file. Later results about runs
of operations rest on these statements and do not look into the operations again.
-/

namespace EveNet

variable {env : CacheEnv} {cfg : Config} {s t : CacheStore}

/-! ### Sorted lists without duplicates -/

theorem mem_uniqueSorted {ip : String} {ips : List String} : ip ∈ uniqueSorted ips ↔ ip ∈ ips := by
  simp [uniqueSorted]

@[simp] theorem uniqueSorted_eq_nil {ips : List String} : uniqueSorted ips = [] ↔ ips = [] := by
  simp only [List.eq_nil_iff_forall_not_mem, mem_uniqueSorted]

theorem nodup_uniqueSorted (ips : List String) : (uniqueSorted ips).Nodup :=
  (List.perm_insertionSort _ _).nodup_iff.mpr (List.nodup_dedup ips)

theorem pairwise_uniqueSorted (ips : List String) : (uniqueSorted ips).Pairwise (· < ·) := by
  have hle : (uniqueSorted ips).Pairwise (· ≤ ·) := List.pairwise_insertionSort _ _
  exact hle.imp₂ (fun _ _ hle hne => lt_of_le_of_ne hle hne) (nodup_uniqueSorted ips)

@[simp] theorem uniqueSorted_uniqueSorted (ips : List String) :
    uniqueSorted (uniqueSorted ips) = uniqueSorted ips := by
  rw [uniqueSorted, (nodup_uniqueSorted ips).dedup]
  exact List.Pairwise.insertionSort_eq (List.pairwise_insertionSort _ _)

/-! ### Counting calls -/

section Calls

variable (env : CacheEnv)

theorem calls_cacheHost (c : CacheCall) (s : CacheStore) :
    (cacheHost env c s).2.calls = s.calls + 1 := by
  cases c with
  | nowEpoch => rfl
  | lookup domain => rfl
  | read path =>
      simp only [cacheHost]
      cases env.readFails s.calls <;> rfl
  | createParentDir path =>
      simp only [cacheHost]
      cases env.mkdirFails s.calls <;> rfl
  | write path file =>
      simp only [cacheHost]
      cases env.writes s.calls <;> rfl

theorem calls_run_le {α : Type} (p : CacheProgram α) (s : CacheStore) :
    s.calls ≤ (Program.run (cacheHost env) p s).2.calls := by
  refine Program.run_invariant (cacheHost env) (Q := fun x => s.calls ≤ x.calls) ?_
    (Program.Calls.any p) le_rfl
  intro c _ x hx
  rw [calls_cacheHost]
  omega

/-- A program that starts with a call has made it in the end. -/
theorem calls_run_lt {α : Type} (c : CacheCall)
    (next : cacheInterface.Answer c → CacheProgram α) (s : CacheStore) :
    s.calls < (Program.run (cacheHost env) (.call c next) s).2.calls := by
  have hrest := calls_run_le env (next (cacheHost env c s).1) (cacheHost env c s).2
  rw [calls_cacheHost] at hrest
  rw [Program.run_call]
  omega

end Calls

/-! ### Loading and saving -/

/-- The cache file after saving an entry over what it held. -/
def savedOver (content : FileContent) (entry : DnsCacheEntry) : FileContent :=
  .cache (sortEntries (upsertEntry (loadedFile content) entry))

theorem find_savedOver (content : FileContent) (entry : DnsCacheEntry) (d : String) :
    (savedOver content entry).find d = if entry.domain = d then some entry else content.find d := by
  rw [savedOver, FileContent.find, find_sortEntries, find_upsertEntry, find_loadedFile]

/-- An operation that failed left the file alone, or broke off while writing a file as it is
good to write. -/
def LeftBehind (env : CacheEnv) (good : FileContent → Prop) (before after : FileContent) : Prop :=
  after = before ∨ ∃ k cause left file, env.writes k = .interrupted cause left ∧
    after = left file ∧ good (.cache file)

theorem LeftBehind.mono {good good' : FileContent → Prop} {before after : FileContent}
    (hgood : ∀ content, good content → good' content) (h : LeftBehind env good before after) :
    LeftBehind env good' before after := by
  rcases h with hsame | ⟨k, cause, left, file, hbroken, hafter, hfile⟩
  · exact Or.inl hsame
  · exact Or.inr ⟨k, cause, left, file, hbroken, hafter, hgood _ hfile⟩

variable (env) in
theorem run_loadCacheOrEmpty (path : String) (s : CacheStore) :
    (∃ e, Program.run (cacheHost env) (loadCacheOrEmpty path) s = (.error e, s.tick) ∧
        (env.readFails s.calls ≠ none ∨ s.files path = .malformed)) ∨
      Program.run (cacheHost env) (loadCacheOrEmpty path) s =
        (.ok (loadedFile (s.files path)), s.tick) := by
  rw [loadCacheOrEmpty, Program.run_call]
  simp only [cacheHost]
  cases hfails : env.readFails s.calls with
  | some cause => exact Or.inl ⟨_, rfl, by simp⟩
  | none =>
      cases hfile : s.files path with
      | absent => exact Or.inr rfl
      | malformed => exact Or.inl ⟨_, rfl, by simp⟩
      | cache file => exact Or.inr rfl

/-- A file system on which everything works. -/
structure Working (env : CacheEnv) : Prop where
  reads : ∀ k, env.readFails k = none
  mkdirs : ∀ k, env.mkdirFails k = none
  writes : ∀ k, env.writes k = .done

variable (env) in
theorem run_saveCache (path : String) (file : DnsCacheFile) (s : CacheStore) :
    ∃ r t, Program.run (cacheHost env) (saveCache path file) s = (r, t) ∧
      ((∃ e, r = .error e ∧ LeftBehind env (· = .cache (sortEntries file)) (s.files path)
          (t.files path) ∧ ¬ Working env) ∨
        r = .ok () ∧ t.files path = .cache (sortEntries file)) := by
  rw [saveCache, Program.run_call]
  simp only [cacheHost]
  cases hmade : env.mkdirFails s.calls with
  | some cause =>
      refine ⟨_, _, rfl, Or.inl ⟨_, rfl, Or.inl rfl, fun hw => ?_⟩⟩
      simp [hw.mkdirs] at hmade
  | none =>
      dsimp only
      rw [Program.run_call]
      simp only [cacheHost]
      cases hwrite : env.writes s.tick.calls with
      | done => exact ⟨_, _, rfl, Or.inr ⟨rfl, by simp⟩⟩
      | refused cause =>
          refine ⟨_, _, rfl, Or.inl ⟨_, rfl, Or.inl rfl, fun hw => ?_⟩⟩
          simp [hw.writes] at hwrite
      | interrupted cause left =>
          refine ⟨_, _, rfl, Or.inl ⟨_, rfl, Or.inr ⟨_, cause, left, sortEntries file, hwrite, ?_,
            rfl⟩, fun hw => ?_⟩⟩
          · simp
          · simp [hw.writes] at hwrite

/-- What is in the file after an entry has been saved over it, if it is saved at all. -/
def savedIf (writeCache : Bool) (content : FileContent) (entry : DnsCacheEntry) : FileContent :=
  if writeCache then savedOver content entry else content

/-! ### The operations -/

/-- What the resolver says about a name at a call: addresses, or the note of a failed lookup. -/
def answerAt (env : CacheEnv) (k : ℕ) (name : String) : Except String (List String) :=
  match env.lookups k name with
  | .error _ => .error ("failed to resolve domain: " ++ name)
  | .ok addrs =>
    let ips := uniqueSorted (addrs.filterMap ipv4Text)
    if ips ≠ [] then .ok ips else .error "resolver returned zero IPv4 addresses"

theorem uniqueSorted_of_answerAt {k : ℕ} {name : String} {ips : List String}
    (h : answerAt env k name = .ok ips) : ips ≠ [] ∧ uniqueSorted ips = ips := by
  unfold answerAt at h
  cases hlookup : env.lookups k name with
  | error cause =>
      rw [hlookup] at h
      cases h
  | ok addrs =>
      rw [hlookup] at h
      dsimp only at h
      split_ifs at h with hips
      obtain rfl := Except.ok.inj h
      exact ⟨hips, uniqueSorted_uniqueSorted _⟩

/-- What a resolution that returns can be, with the file that it leaves. -/
inductive Resolved (cfg : Config) (name : String) (writeCache : Bool) (mode : RefreshMode)
    (now : UInt64) (content : FileContent) (answer : Except String (List String)) :
    DomainResolution → FileContent → Prop where
  | fresh (entry : DnsCacheEntry) (hentry : content.find name = some entry)
      (hmode : mode = .preferFreshCache) (hnow : now < entry.expiresAtEpoch)
      (hips : entry.resolvedIpv4 ≠ []) :
      Resolved cfg name writeCache mode now content answer
        ⟨name, entry.resolvedIpv4, .cacheFresh, some entry, entry.lastError⟩ content
  | live {ips : List String} (hasked : freshEntry mode (content.find name) now = none)
      (hanswer : answer = .ok ips) :
      Resolved cfg name writeCache mode now content answer
        ⟨name, ips, .live, some (answerEntry cfg name ips now "live"), none⟩
        (savedIf writeCache content (answerEntry cfg name ips now "live"))
  | unknown (error : String) (hasked : freshEntry mode (content.find name) now = none)
      (hanswer : answer = .error error) (hentry : content.find name = none) :
      Resolved cfg name writeCache mode now content answer
        ⟨name, [], .empty, none, some error⟩ content
  | stale (entry : DnsCacheEntry) (error : String)
      (hasked : freshEntry mode (content.find name) now = none)
      (hanswer : answer = .error error) (hentry : content.find name = some entry)
      (hstale : canUseStale cfg { entry with lastError := some error } now = true) :
      Resolved cfg name writeCache mode now content answer
        ⟨name, entry.resolvedIpv4, .cacheStale, some { entry with lastError := some error },
          some error⟩
        (savedIf writeCache content { entry with lastError := some error })
  | expired (entry : DnsCacheEntry) (error : String)
      (hasked : freshEntry mode (content.find name) now = none)
      (hanswer : answer = .error error) (hentry : content.find name = some entry)
      (hstale : canUseStale cfg { entry with lastError := some error } now = false) :
      Resolved cfg name writeCache mode now content answer
        ⟨name, [], .empty, some { entry with lastError := some error }, some error⟩
        (savedIf writeCache content { entry with lastError := some error })

/-- How an operation with a result ends: with an error and a file that at most an interrupted
write has changed, or with a result that fits the file. -/
def EndsAs {α : Type} (env : CacheEnv) (path : String) (before : FileContent)
    (good : α → FileContent → Prop) (out : Except Error α × CacheStore) : Prop :=
  (∃ e, out.1 = .error e ∧ LeftBehind env (fun after => ∃ a, good a after) before
      (out.2.files path) ∧ ¬ Working env) ∨
    ∃ a, out.1 = .ok a ∧ good a (out.2.files path)

/-- An operation could not load the file, and did nothing else. -/
def Unloaded {α : Type} (env : CacheEnv) (content : FileContent) (k : ℕ) (s : CacheStore)
    (out : Except Error α × CacheStore) : Prop :=
  ∃ e, out = (.error e, s) ∧ (env.readFails k ≠ none ∨ content = .malformed)

section Ends

variable {α : Type} {good : α → FileContent → Prop} {content : FileContent}

theorem endsAs_pure {a : α} (h : good a (s.files cfg.dnsCache.path)) :
    EndsAs env cfg.dnsCache.path content good (Program.run (cacheHost env) (.pure a) s) :=
  Or.inr ⟨a, rfl, h⟩

/-- Saving a file and returning. -/
theorem endsAs_saveIf {writeCache : Bool} {file : DnsCacheFile} {a : α}
    {next : Unit → CacheProgram α} (hcontent : s.files cfg.dnsCache.path = content)
    (hnext : next () = .pure a)
    (hgood : good a (if writeCache then .cache (sortEntries file) else content)) :
    EndsAs env cfg.dnsCache.path content good (Program.run (cacheHost env)
      ((saveIf writeCache cfg.dnsCache.path file).bind next) s) := by
  cases writeCache with
  | false =>
      change EndsAs _ _ _ _ (Program.run (cacheHost env) (next ()) s)
      rw [hnext]
      exact endsAs_pure (hcontent ▸ hgood)
  | true =>
      obtain ⟨r, t, hrun, hfailed | ⟨rfl, hfile⟩⟩ :=
        run_saveCache env cfg.dnsCache.path file s
      · obtain ⟨e, rfl, hleft, hbroken⟩ := hfailed
        rw [saveIf, if_pos rfl, Program.run_bind_error _ hrun]
        refine Or.inl ⟨e, rfl, hcontent ▸ hleft.mono fun after hafter => ⟨a, ?_⟩, hbroken⟩
        rw [hafter]
        exact hgood
      · rw [saveIf, if_pos rfl, Program.run_bind_ok _ hrun, hnext]
        exact endsAs_pure (hfile ▸ hgood)

/-- Loading the file and going on. -/
theorem endsAs_load {next : DnsCacheFile → CacheProgram α}
    (hcontent : s.files cfg.dnsCache.path = content)
    (hnext : EndsAs env cfg.dnsCache.path content good
      (Program.run (cacheHost env) (next (loadedFile content)) s.tick)) :
    Unloaded env content s.calls s.tick
        (Program.run (cacheHost env) ((loadCacheOrEmpty cfg.dnsCache.path).bind next) s) ∨
      EndsAs env cfg.dnsCache.path content good
        (Program.run (cacheHost env) ((loadCacheOrEmpty cfg.dnsCache.path).bind next) s) := by
  rcases run_loadCacheOrEmpty env cfg.dnsCache.path s with ⟨e, hload, hwhy⟩ | hload
  · exact Or.inl ⟨e, Program.run_bind_error _ hload, hcontent ▸ hwhy⟩
  · rw [Program.run_bind_ok _ hload, hcontent]
    exact Or.inr hnext

end Ends

theorem endsAs_fallback {content : FileContent} {name : String} {now : UInt64}
    {writeCache : Bool} {mode : RefreshMode} {answer : Except String (List String)} {error : String}
    (hasked : freshEntry mode (content.find name) now = none) (hanswer : answer = .error error)
    (hcontent : s.files cfg.dnsCache.path = content) :
    EndsAs env cfg.dnsCache.path content (Resolved cfg name writeCache mode now content answer)
      (Program.run (cacheHost env) (fallbackAfterLiveFailure cfg name
        ((loadedFile content).find name) now writeCache (loadedFile content) error) s) := by
  unfold fallbackAfterLiveFailure
  rw [find_loadedFile]
  cases hentry : content.find name with
  | none =>
      apply endsAs_pure
      rw [hcontent]
      exact .unknown error hasked hanswer hentry
  | some entry =>
      cases hstale : canUseStale cfg { entry with lastError := some error } now with
      | true =>
          exact endsAs_saveIf hcontent (if_pos hstale)
            (.stale entry error hasked hanswer hentry hstale)
      | false =>
          exact endsAs_saveIf hcontent (if_neg (ne_true_of_eq_false hstale))
            (.expired entry error hasked hanswer hentry hstale)

theorem endsAs_resolveLive {content : FileContent} {name : String} {now : UInt64}
    {writeCache : Bool} {mode : RefreshMode} (hname : normalizeDomain name = .ok name)
    (hasked : freshEntry mode (content.find name) now = none)
    (hcontent : s.files cfg.dnsCache.path = content) :
    EndsAs env cfg.dnsCache.path content
      (Resolved cfg name writeCache mode now content (answerAt env s.calls name))
      (Program.run (cacheHost env) (resolveLive cfg name writeCache now (loadedFile content)) s) := by
  unfold resolveLive resolveDomainV4
  rw [hname]
  change EndsAs _ _ _ _ (Program.run _ (Program.call _ _) s)
  rw [Program.run_call]
  simp only [cacheHost, answerAt]
  cases env.lookups s.calls name with
  | error cause => exact endsAs_fallback hasked rfl hcontent
  | ok addrs =>
      change EndsAs _ _ _ _ (Program.run _ (if _ ≠ [] then _ else _) _)
      dsimp only
      split_ifs with hips
      · refine endsAs_saveIf (s := s.tick) hcontent rfl ?_
        rw [uniqueSorted_uniqueSorted]
        exact .live hasked rfl
      · exact endsAs_fallback hasked rfl hcontent

/-- A resolution goes on from the file and the time: it serves what is fresh, or asks. -/
def resolveFrom (cfg : Config) (name : String) (writeCache : Bool) (mode : RefreshMode)
    (now : UInt64) (cache : DnsCacheFile) : CacheProgram DomainResolution :=
  match freshEntry mode (cache.find name) now with
  | some entry => .pure ⟨name, entry.resolvedIpv4, .cacheFresh, some entry, entry.lastError⟩
  | none => resolveLive cfg name writeCache now cache

/-- A resolution reads the clock and the file first. -/
theorem resolveWithMode_eq {domain name : String} (writeCache : Bool) (mode : RefreshMode)
    (henabled : cfg.dnsCache.enabled = true) (hname : normalizeDomain domain = .ok name) :
    resolveWithMode cfg domain writeCache mode =
      .call .nowEpoch fun now => (loadCacheOrEmpty cfg.dnsCache.path).bind
        (resolveFrom cfg name writeCache mode now) := by
  unfold resolveWithMode
  rw [hname]
  change (if ¬ cfg.dnsCache.enabled then _ else _) = _
  rw [if_neg (not_not.mpr henabled)]
  rfl

theorem run_resolveWithMode {domain name : String} (writeCache : Bool) (mode : RefreshMode)
    (s : CacheStore) (henabled : cfg.dnsCache.enabled = true)
    (hname : normalizeDomain domain = .ok name) :
    Program.run (cacheHost env) (resolveWithMode cfg domain writeCache mode) s =
      Program.run (cacheHost env) ((loadCacheOrEmpty cfg.dnsCache.path).bind
        (resolveFrom cfg name writeCache mode (env.clock s.calls))) s.tick := by
  rw [resolveWithMode_eq writeCache mode henabled hname, Program.run_call]
  rfl

variable (env) in
/-- A resolution with the cache reads the clock and the file. -/
theorem calls_resolve {domain name : String} (writeCache : Bool) (mode : RefreshMode)
    (s : CacheStore) (henabled : cfg.dnsCache.enabled = true)
    (hname : normalizeDomain domain = .ok name) :
    s.calls + 1 <
      (Program.run (cacheHost env) (resolveWithMode cfg domain writeCache mode) s).2.calls := by
  rw [run_resolveWithMode writeCache mode s henabled hname]
  exact calls_run_lt env _ _ s.tick

variable (env) in
theorem resolveWithMode_cases {domain name : String} (writeCache : Bool) (mode : RefreshMode)
    (s : CacheStore) (henabled : cfg.dnsCache.enabled = true)
    (hname : normalizeDomain domain = .ok name) :
    Unloaded env (s.files cfg.dnsCache.path) (s.calls + 1) s.tick.tick
        (Program.run (cacheHost env) (resolveWithMode cfg domain writeCache mode) s) ∨
      EndsAs env cfg.dnsCache.path (s.files cfg.dnsCache.path)
        (Resolved cfg name writeCache mode (env.clock s.calls) (s.files cfg.dnsCache.path)
          (answerAt env (s.calls + 2) name))
        (Program.run (cacheHost env) (resolveWithMode cfg domain writeCache mode) s) := by
  rw [run_resolveWithMode writeCache mode s henabled hname]
  refine endsAs_load (s := s.tick) rfl ?_
  rw [resolveFrom, find_loadedFile]
  cases hfresh : freshEntry mode ((s.files cfg.dnsCache.path).find name) (env.clock s.calls) with
  | none =>
      exact endsAs_resolveLive (s := s.tick.tick) (normalizeDomain_normalized hname) hfresh rfl
  | some entry =>
      apply endsAs_pure
      unfold freshEntry at hfresh
      split_ifs at hfresh with hmode
      obtain ⟨hentry, hgood⟩ := Option.filter_eq_some_iff.mp hfresh
      rw [decide_eq_true_eq] at hgood
      exact .fresh entry hentry hmode hgood.1 hgood.2

/-- A domain that cannot be normalized is refused before anything is done. -/
theorem run_resolveWithMode_refused {domain : String} {e : Error} (writeCache : Bool)
    (mode : RefreshMode) (s : CacheStore) (hname : normalizeDomain domain = .error e) :
    Program.run (cacheHost env) (resolveWithMode cfg domain writeCache mode) s = (.error e, s) := by
  unfold resolveWithMode
  rw [hname]
  rfl

/-- What the proxy's insertion returns, with the file that it leaves. -/
inductive Upserted (cfg : Config) (name : String) (ips : List String) (writeCache : Bool)
    (now : UInt64) (content : FileContent) : Option DnsCacheEntry → FileContent → Prop where
  | skipped (h : ips = [] ∨ cfg.dnsCache.enabled = false) :
      Upserted cfg name ips writeCache now content none content
  | saved (hips : ips ≠ []) (henabled : cfg.dnsCache.enabled = true) :
      Upserted cfg name ips writeCache now content
        (some (answerEntry cfg name (uniqueSorted ips) now "dns-proxy"))
        (savedIf writeCache content (answerEntry cfg name (uniqueSorted ips) now "dns-proxy"))

/-- An insertion that has something to insert loads the file first. -/
theorem run_upsert {domain name : String} {ips : List String} {writeCache : Bool}
    (hname : normalizeDomain domain = .ok name) (hips : ips ≠ [])
    (henabled : cfg.dnsCache.enabled = true) :
    Program.run (cacheHost env) (upsertLiveIpsFromProxy cfg domain ips writeCache) s =
      Program.run (cacheHost env) ((loadCacheOrEmpty cfg.dnsCache.path).bind fun cache =>
        nowEpoch.bind fun now =>
          let entry := answerEntry cfg name (uniqueSorted ips) now "dns-proxy"
          (saveIf writeCache cfg.dnsCache.path (upsertEntry cache entry)).bind
            fun _ => .pure (some entry)) s := by
  unfold upsertLiveIpsFromProxy
  rw [hname]
  change Program.run _ (if uniqueSorted ips = [] then _ else if ¬ cfg.dnsCache.enabled then _
    else _) s = _
  rw [if_neg (fun hnil => hips (uniqueSorted_eq_nil.mp hnil)), if_neg (not_not.mpr henabled)]
  rfl

variable (env cfg) in
theorem upsertLiveIpsFromProxy_cases {domain name : String} (ips : List String)
    (writeCache : Bool) (s : CacheStore) (hname : normalizeDomain domain = .ok name) :
    Unloaded env (s.files cfg.dnsCache.path) s.calls s.tick
        (Program.run (cacheHost env) (upsertLiveIpsFromProxy cfg domain ips writeCache) s) ∨
      EndsAs env cfg.dnsCache.path (s.files cfg.dnsCache.path)
        (Upserted cfg name ips writeCache (env.clock (s.calls + 1)) (s.files cfg.dnsCache.path))
        (Program.run (cacheHost env) (upsertLiveIpsFromProxy cfg domain ips writeCache) s) := by
  unfold upsertLiveIpsFromProxy
  rw [hname]
  change Unloaded _ _ _ _ (Program.run _ (if uniqueSorted ips = [] then _ else _) s) ∨
    EndsAs _ _ _ _ (Program.run _ (if uniqueSorted ips = [] then _ else _) s)
  split_ifs with hips henabled
  · exact Or.inr (endsAs_pure (.skipped (Or.inl (uniqueSorted_eq_nil.mp hips))))
  · refine endsAs_load rfl ?_
    exact endsAs_saveIf (s := s.tick.tick) rfl rfl
      (.saved (fun h => hips (uniqueSorted_eq_nil.mpr h)) henabled)
  · exact Or.inr (endsAs_pure (.skipped (Or.inr (by simpa using henabled))))

/-- The file after pruning. -/
def prunedIf (cfg : Config) (writeCache : Bool) (content : FileContent) : FileContent :=
  let kept := (loadedFile content).entries.filter (fun entry => entry.domain ∈ configuredDomains cfg)
  if writeCache && (loadedFile content).entries.length != kept.length then
    .cache (sortEntries { loadedFile content with entries := kept })
  else content

variable (env cfg) in
theorem pruneCacheToConfiguredDomains_cases (writeCache : Bool) (s : CacheStore) :
    Unloaded env (s.files cfg.dnsCache.path) s.calls s.tick
        (Program.run (cacheHost env) (pruneCacheToConfiguredDomains cfg writeCache) s) ∨
      EndsAs env cfg.dnsCache.path (s.files cfg.dnsCache.path)
        (fun _ after => after = prunedIf cfg writeCache (s.files cfg.dnsCache.path))
        (Program.run (cacheHost env) (pruneCacheToConfiguredDomains cfg writeCache) s) := by
  unfold pruneCacheToConfiguredDomains
  refine endsAs_load rfl ?_
  exact endsAs_saveIf (s := s.tick) rfl rfl rfl

end EveNet
