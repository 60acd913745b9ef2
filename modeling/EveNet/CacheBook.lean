import EveNet.CacheRuns

/-!
# The cache file as a book of answers

A run of cache operations, one after the other, tells a story: the answers that were saved
and the failed lookups that were noted. The book of a story has for each domain its last
answer, with the note of the last failed lookup after it. The cache file is shown to be the
book of its story, as a list in the order of the domains, after every run that starts without
a cache file.
-/

namespace EveNet

/-! ### Operations -/

/-- The operations on the cache. -/
inductive CacheOp where
  | runtime (domain : String) (writeCache : Bool)
  | refresh (domain : String) (writeCache : Bool)
  | refreshAll (writeCache : Bool)
  | proxy (domain : String) (ips : List String) (writeCache : Bool)
  | prune (writeCache : Bool)
  deriving DecidableEq

/-- The surroundings after an operation, whether it returned or failed. -/
def CacheOp.run (env : CacheEnv) (cfg : Config) (s : CacheStore) : CacheOp → CacheStore
  | .runtime domain writeCache =>
    (Program.run (cacheHost env) (resolveForRuntime cfg domain writeCache) s).2
  | .refresh domain writeCache =>
    (Program.run (cacheHost env) (refreshDomain cfg domain writeCache) s).2
  | .refreshAll writeCache => (Program.run (cacheHost env) (refreshDomainPolicies cfg writeCache) s).2
  | .proxy domain ips writeCache =>
    (Program.run (cacheHost env) (upsertLiveIpsFromProxy cfg domain ips writeCache) s).2
  | .prune writeCache =>
    (Program.run (cacheHost env) (pruneCacheToConfiguredDomains cfg writeCache) s).2

def runOps (env : CacheEnv) (cfg : Config) (ops : List CacheOp) (s : CacheStore) : CacheStore :=
  ops.foldl (CacheOp.run env cfg) s

/-- The operation is for a domain of the configuration's policies, if it is for one. -/
def CacheOp.Configured (cfg : Config) : CacheOp → Prop
  | .runtime domain _ => ∀ name, normalizeDomain domain = .ok name → name ∈ configuredDomains cfg
  | .refresh domain _ => ∀ name, normalizeDomain domain = .ok name → name ∈ configuredDomains cfg
  | .proxy domain _ _ => ∀ name, normalizeDomain domain = .ok name → name ∈ configuredDomains cfg
  | .refreshAll _ => True
  | .prune _ => True

/-- The operation writes nothing or only prunes. -/
def CacheOp.silent : CacheOp → Bool
  | .runtime _ writeCache => !writeCache
  | .refresh _ writeCache => !writeCache
  | .refreshAll writeCache => !writeCache
  | .proxy _ _ writeCache => !writeCache
  | .prune _ => true

/-! ### The story of a run -/

inductive CacheEvent where
  | answered (entry : DnsCacheEntry)
  | failed (domain error : String)
  deriving DecidableEq

/-- What the resolver's answer writes. -/
def eventOf (cfg : Config) (name : String) (now : UInt64) :
    Except String (List String) → CacheEvent
  | .ok ips => .answered (answerEntry cfg name ips now "live")
  | .error error => .failed name error

/-- The cache is in use, and its file can be loaded at the call. -/
def cacheLoads (env : CacheEnv) (cfg : Config) (s : CacheStore) (k : ℕ) : Bool :=
  cfg.dnsCache.enabled ∧ env.readFails k = none ∧ s.files cfg.dnsCache.path ≠ .malformed

/-- A resolution that writes has an event when it asks the resolver. -/
def resolveEvents (env : CacheEnv) (cfg : Config) (domain : String) (writeCache : Bool)
    (mode : RefreshMode) (s : CacheStore) : List CacheEvent :=
  match normalizeDomain domain with
  | .error _ => []
  | .ok name =>
    if writeCache ∧ cacheLoads env cfg s (s.calls + 1) ∧
        freshEntry mode ((s.files cfg.dnsCache.path).find name) (env.clock s.calls) = none
    then [eventOf cfg name (env.clock s.calls) (answerAt env (s.calls + 2) name)]
    else []

/-- The refreshes of some domains, up to the first that fails. -/
def refreshEvents (env : CacheEnv) (cfg : Config) (writeCache : Bool) :
    List String → CacheStore → List CacheEvent
  | [], _ => []
  | domain :: domains, s =>
    resolveEvents env cfg domain writeCache .forceLive s ++
      match Program.run (cacheHost env) (refreshDomain cfg domain writeCache) s with
      | (.ok _, t) => refreshEvents env cfg writeCache domains t
      | (.error _, _) => []

def proxyEvents (env : CacheEnv) (cfg : Config) (domain : String) (ips : List String)
    (writeCache : Bool) (s : CacheStore) : List CacheEvent :=
  match normalizeDomain domain with
  | .error _ => []
  | .ok name =>
    if writeCache ∧ cacheLoads env cfg s s.calls ∧ ips ≠ [] then
      [.answered (answerEntry cfg name (uniqueSorted ips) (env.clock (s.calls + 1)) "dns-proxy")]
    else []

/-- The answers and failed lookups of an operation that writes. -/
def CacheOp.events (env : CacheEnv) (cfg : Config) (s : CacheStore) : CacheOp → List CacheEvent
  | .runtime domain writeCache => resolveEvents env cfg domain writeCache .preferFreshCache s
  | .refresh domain writeCache => resolveEvents env cfg domain writeCache .forceLive s
  | .refreshAll writeCache =>
    match enabledDomains cfg with
    | .error _ => []
    | .ok domains => refreshEvents env cfg writeCache domains s
  | .proxy domain ips writeCache => proxyEvents env cfg domain ips writeCache s
  | .prune _ => []

def story (env : CacheEnv) (cfg : Config) : List CacheOp → CacheStore → List CacheEvent
  | [], _ => []
  | op :: ops, s => op.events env cfg s ++ story env cfg ops (op.run env cfg s)

/-! ### The book of a story -/

abbrev Book : Type := String → Option DnsCacheEntry

def Book.record (book : Book) : CacheEvent → Book
  | .answered entry => Function.update book entry.domain (some entry)
  | .failed domain error =>
    Function.update book domain
      ((book domain).map (fun entry => { entry with lastError := some error }))

def bookOf (events : List CacheEvent) : Book := events.foldl Book.record (fun _ => none)

/-- The entry of an answer for the domain. -/
def CacheEvent.answerFor (domain : String) : CacheEvent → Option DnsCacheEntry
  | .answered entry => if entry.domain = domain then some entry else none
  | .failed _ _ => none

def lastAnswer (domain : String) (events : List CacheEvent) : Option DnsCacheEntry :=
  (events.filterMap (CacheEvent.answerFor domain)).getLast?

def CacheEvent.failureFor (domain : String) : CacheEvent → Option String
  | .answered _ => none
  | .failed name error => if name = domain then some error else none

/-- The note of the last failed lookup since the last answer. -/
def noteSince (domain : String) (events : List CacheEvent) : Option String :=
  (events.reverse.takeWhile (fun event => (event.answerFor domain).isNone)).findSome?
    (CacheEvent.failureFor domain)

theorem lastAnswer_append (domain : String) (events : List CacheEvent) (event : CacheEvent) :
    lastAnswer domain (events ++ [event]) =
      (event.answerFor domain).or (lastAnswer domain events) := by
  rw [lastAnswer, List.filterMap_append, List.getLast?_append]
  cases h : event.answerFor domain with
  | none => simp [h, lastAnswer]
  | some entry => simp [h]

theorem noteSince_append (domain : String) (events : List CacheEvent) (event : CacheEvent) :
    noteSince domain (events ++ [event]) =
      if (event.answerFor domain).isNone then
        (event.failureFor domain).or (noteSince domain events)
      else none := by
  rw [noteSince, List.reverse_append, List.reverse_singleton, List.singleton_append,
    List.takeWhile_cons]
  split_ifs with h
  · rw [List.findSome?_cons]
    cases event.failureFor domain <;> rfl
  · rfl

theorem bookOf_append (events : List CacheEvent) (event : CacheEvent) :
    bookOf (events ++ [event]) = (bookOf events).record event := by
  rw [bookOf, List.foldl_append]
  rfl

/-- The answers of the story carry no note of their own. -/
def Unnoted (events : List CacheEvent) : Prop :=
  ∀ entry, CacheEvent.answered entry ∈ events → entry.lastError = none

/-- For each domain the book has the last answer and the note since then. -/
theorem bookOf_eq {events : List CacheEvent} (h : Unnoted events) (domain : String) :
    bookOf events domain = (lastAnswer domain events).map
      (fun entry => { entry with lastError := noteSince domain events }) := by
  induction events using List.reverseRecOn with
  | nil => rfl
  | append_singleton events event ih =>
      have hbefore := ih (fun entry he => h entry (List.mem_append_left _ he))
      rw [bookOf_append, lastAnswer_append, noteSince_append]
      cases event with
      | answered entry =>
          have hnote : entry.lastError = none := h entry (by simp)
          by_cases hd : entry.domain = domain
          · subst hd
            rw [Book.record, Function.update_self, CacheEvent.answerFor, if_pos rfl]
            exact congrArg some (by rw [← hnote]; rfl)
          · rw [Book.record, Function.update_of_ne (Ne.symm hd), hbefore, CacheEvent.answerFor,
              if_neg hd]
            rfl
      | failed name error =>
          by_cases hd : name = domain
          · subst hd
            rw [Book.record, Function.update_self, hbefore, CacheEvent.failureFor, if_pos rfl,
              Option.map_map]
            rfl
          · rw [Book.record, Function.update_of_ne (Ne.symm hd), hbefore, CacheEvent.failureFor,
              if_neg hd]
            rfl

/-! ### The file and the book -/

/-- The file with these entries; as long as there are none, none has been written. -/
def contentOf (entries : List DnsCacheEntry) : FileContent :=
  if entries = [] then .absent else .cache { emptyCache with entries := entries }

/-- The content is the list of the book's entries, all for domains of the configuration. -/
def Represents (cfg : Config) (content : FileContent) (book : Book) : Prop :=
  ∃ entries, content = contentOf entries ∧ KeyedList.Ordered DnsCacheEntry.domain entries ∧
    (∀ d, KeyedList.lookup DnsCacheEntry.domain d entries = book d) ∧
    ∀ entry ∈ entries, entry.domain ∈ configuredDomains cfg

theorem find_contentOf (entries : List DnsCacheEntry) (d : String) :
    (contentOf entries).find d = KeyedList.lookup DnsCacheEntry.domain d entries := by
  unfold contentOf
  split_ifs with h
  · rw [h]
    rfl
  · rfl

theorem loadedFile_contentOf {entries : List DnsCacheEntry}
    (h : KeyedList.Ordered DnsCacheEntry.domain entries) :
    loadedFile (contentOf entries) = { emptyCache with entries := entries } := by
  unfold contentOf
  split_ifs with hnil
  · rw [hnil]
    rfl
  · rw [loadedFile, sortEntries, KeyedList.sortBy_of_ordered _ h]

namespace Represents

variable {cfg : Config} {content : FileContent} {book : Book}

theorem find (h : Represents cfg content book) (d : String) : content.find d = book d := by
  obtain ⟨entries, rfl, -, hlookup, -⟩ := h
  rw [find_contentOf, hlookup]

theorem ne_malformed (h : Represents cfg content book) : content ≠ .malformed := by
  obtain ⟨entries, rfl, -⟩ := h
  unfold contentOf
  split_ifs <;> simp

/-- There is one file for a book. -/
theorem unique {content' : FileContent} (h : Represents cfg content book)
    (h' : Represents cfg content' book) : content = content' := by
  obtain ⟨entries, rfl, hordered, hlookup, -⟩ := h
  obtain ⟨entries', rfl, hordered', hlookup', -⟩ := h'
  rw [KeyedList.eq_of_lookup_eq _ hordered hordered' (fun d => by rw [hlookup, hlookup'])]

theorem nothing (cfg : Config) : Represents cfg .absent (bookOf []) :=
  ⟨[], rfl, List.Pairwise.nil, fun _ => rfl, by simp⟩

theorem saved (h : Represents cfg content book) (entry : DnsCacheEntry)
    (hdomain : entry.domain ∈ configuredDomains cfg) :
    Represents cfg (savedOver content entry)
      (Function.update book entry.domain (some entry)) := by
  obtain ⟨entries, rfl, hordered, hlookup, hconfigured⟩ := h
  have hnodup := KeyedList.nodup_upsert DnsCacheEntry.domain (a := entry) hordered.nodup
  refine ⟨KeyedList.sortBy DnsCacheEntry.domain (KeyedList.upsert DnsCacheEntry.domain entry entries),
    ?_, KeyedList.ordered_sortBy _ hnodup, ?_, ?_⟩
  · have hmem : entry ∈ KeyedList.sortBy DnsCacheEntry.domain
        (KeyedList.upsert DnsCacheEntry.domain entry entries) :=
      (KeyedList.mem_sortBy _).mpr (KeyedList.mem_upsert_self _ entry entries)
    rw [savedOver, loadedFile_contentOf hordered, contentOf, if_neg (List.ne_nil_of_mem hmem)]
    rfl
  · intro d
    rw [KeyedList.lookup_sortBy, KeyedList.lookup_upsert, hlookup]
    by_cases hd : entry.domain = d
    · rw [if_pos hd, ← hd, Function.update_self]
    · rw [if_neg hd, Function.update_of_ne (Ne.symm hd)]
  · intro e he
    rcases KeyedList.mem_of_mem_upsert _ ((KeyedList.mem_sortBy _).mp he) with rfl | he
    · exact hdomain
    · exact hconfigured e he

end Represents

section Steps

variable {env : CacheEnv} {cfg : Config} {book : Book} {s : CacheStore}

/-- What an operation leaves when the file system works. -/
theorem ok_of_endsAs {α : Type} {path : String} {content : FileContent}
    {good : α → FileContent → Prop} {out : Except Error α × CacheStore}
    (hworking : Working env) (h : EndsAs env path content good out) :
    ∃ a, out.1 = .ok a ∧ good a (out.2.files path) := by
  rcases h with ⟨e, -, -, hbroken⟩ | hgood
  · exact absurd hworking hbroken
  · exact hgood

theorem cacheLoads_of_working (henabled : cfg.dnsCache.enabled = true) (hworking : Working env)
    (h : Represents cfg (s.files cfg.dnsCache.path) book) (k : ℕ) :
    cacheLoads env cfg s k = true := by
  rw [cacheLoads, decide_eq_true_eq]
  exact ⟨henabled, hworking.reads k, h.ne_malformed⟩

theorem not_unloaded {α : Type} {content : FileContent} {k : ℕ}
    {out : Except Error α × CacheStore} (hworking : Working env) (hcontent : content ≠ .malformed) :
    ¬ Unloaded env content k s out := by
  rintro ⟨e, -, hfails | hmalformed⟩
  · exact hfails (hworking.reads k)
  · exact hcontent hmalformed

/-- A failed lookup is noted in the entry of its domain. -/
theorem represents_noted {content : FileContent} {name error : String} {now : UInt64}
    {writeCache : Bool} {asked : Prop} [Decidable asked] {entry : DnsCacheEntry}
    (hconfigured : name ∈ configuredDomains cfg) (hentry : content.find name = some entry)
    (hasked : asked) (h : Represents cfg content book) :
    Represents cfg (savedIf writeCache content { entry with lastError := some error })
      ((if writeCache = true ∧ asked then
          [eventOf cfg name now (.error error)] else []).foldl Book.record book) := by
  cases writeCache with
  | false =>
      rw [if_neg (fun hc => Bool.noConfusion hc.1)]
      exact h
  | true =>
      rw [if_pos ⟨rfl, hasked⟩]
      have hdomain : entry.domain = name := domain_of_find hentry
      have hsaved := h.saved { entry with lastError := some error } (by rw [hdomain]; exact hconfigured)
      rw [h.find] at hentry
      change Represents cfg _ (Function.update book name ((book name).map _))
      rw [hentry]
      exact hdomain ▸ hsaved

/-- The file after a resolution is the book after the events of the resolution. -/
theorem represents_resolve {domain : String} (writeCache : Bool) (mode : RefreshMode)
    (henabled : cfg.dnsCache.enabled = true) (hworking : Working env)
    (hdomain : ∀ name, normalizeDomain domain = .ok name → name ∈ configuredDomains cfg)
    (h : Represents cfg (s.files cfg.dnsCache.path) book) :
    Represents cfg ((Program.run (cacheHost env) (resolveWithMode cfg domain writeCache mode) s).2.files
        cfg.dnsCache.path)
      ((resolveEvents env cfg domain writeCache mode s).foldl Book.record book) := by
  unfold resolveEvents
  cases hname : normalizeDomain domain with
  | error e => rwa [run_resolveWithMode_refused writeCache mode s hname]
  | ok name =>
      have hends := (resolveWithMode_cases env writeCache mode s henabled hname).resolve_left
        (not_unloaded hworking h.ne_malformed)
      obtain ⟨res, -, hgood⟩ := ok_of_endsAs hworking hends
      have hconfigured := hdomain name hname
      have hloads := cacheLoads_of_working henabled hworking h (s.calls + 1)
      generalize (Program.run (cacheHost env) (resolveWithMode cfg domain writeCache mode) s).2.files
        cfg.dnsCache.path = after at hgood ⊢
      dsimp only
      cases hgood with
      | fresh entry hentry hmode hnow hips =>
          have hserved : freshEntry mode ((s.files cfg.dnsCache.path).find name)
              (env.clock s.calls) = some entry := by
            simp [freshEntry, hmode, hentry, hnow, hips]
          rw [if_neg (fun hc => by rw [hserved] at hc; cases hc.2.2)]
          exact h
      | live hasked hanswer =>
          rw [hanswer]
          cases writeCache with
          | false =>
              rw [if_neg (fun hc => Bool.noConfusion hc.1)]
              exact h
          | true =>
              rw [if_pos ⟨rfl, hloads, hasked⟩]
              exact h.saved _ hconfigured
      | unknown error hasked hanswer hentry =>
          rw [hanswer]
          split_ifs
          · rw [h.find] at hentry
            change Represents cfg _ (Function.update book name ((book name).map _))
            rw [hentry, Option.map_none, ← hentry, Function.update_eq_self]
            exact h
          · exact h
      | stale entry error hasked hanswer hentry hstale =>
          rw [hanswer]
          exact represents_noted hconfigured hentry ⟨hloads, hasked⟩ h
      | expired entry error hasked hanswer hentry hstale =>
          rw [hanswer]
          exact represents_noted hconfigured hentry ⟨hloads, hasked⟩ h

theorem mem_configuredDomains {policy : Policy} {domain name : String}
    (hpolicy : policy ∈ cfg.policies) (hdomain : policy.matchSpec.domain = some domain)
    (hname : normalizeDomain domain = .ok name) : name ∈ configuredDomains cfg := by
  refine List.mem_filterMap.mpr ⟨domain, List.mem_filterMap.mpr ⟨policy, hpolicy, hdomain⟩, ?_⟩
  rw [hname]
  rfl

theorem of_mem_mapM {α β : Type} {f : α → Except Error β} {l : List α} {out : List β}
    (h : l.mapM f = .ok out) : ∀ b ∈ out, ∃ a ∈ l, f a = .ok b := by
  induction l generalizing out with
  | nil =>
      obtain rfl : [] = out := Except.ok.inj h
      simp
  | cons a l ih =>
      rw [List.mapM_cons] at h
      obtain ⟨b, hb, h⟩ := except_bind_eq_ok.mp h
      obtain ⟨bs, hbs, h⟩ := except_bind_eq_ok.mp h
      obtain rfl : b :: bs = out := Except.ok.inj h
      intro c hc
      rcases List.mem_cons.mp hc with rfl | hc
      · exact ⟨a, List.mem_cons_self, hb⟩
      · obtain ⟨a', ha', hc'⟩ := ih hbs c hc
        exact ⟨a', List.mem_cons_of_mem _ ha', hc'⟩

/-- The domains that a refresh of all policies goes through are normalized and configured. -/
theorem of_mem_enabledDomains {domains : List String} (h : enabledDomains cfg = .ok domains) :
    ∀ d ∈ domains, normalizeDomain d = .ok d ∧ d ∈ configuredDomains cfg := by
  obtain ⟨names, hnames, h⟩ := except_bind_eq_ok.mp h
  obtain rfl : uniqueSorted names = domains := Except.ok.inj h
  intro d hd
  obtain ⟨domain, hmem, hname⟩ := of_mem_mapM hnames d (mem_uniqueSorted.mp hd)
  obtain ⟨policy, hpolicy, hdomain⟩ := List.mem_filterMap.mp hmem
  exact ⟨normalizeDomain_normalized hname,
    mem_configuredDomains (List.mem_of_mem_filter hpolicy) hdomain hname⟩

theorem represents_refreshEach {writeCache : Bool} {domains : List String}
    (henabled : cfg.dnsCache.enabled = true) (hworking : Working env)
    (hdomains : ∀ d ∈ domains, normalizeDomain d = .ok d ∧ d ∈ configuredDomains cfg)
    (h : Represents cfg (s.files cfg.dnsCache.path) book) :
    Represents cfg ((Program.run (cacheHost env) (refreshEach cfg writeCache domains) s).2.files
        cfg.dnsCache.path)
      ((refreshEvents env cfg writeCache domains s).foldl Book.record book) := by
  induction domains generalizing s book with
  | nil => exact h
  | cons domain domains ih =>
      obtain ⟨hname, hconfigured⟩ := hdomains domain List.mem_cons_self
      have hfirst := represents_resolve writeCache .forceLive henabled hworking
        (fun name hn => by
          obtain rfl : domain = name := Except.ok.inj (hname.symm.trans hn)
          exact hconfigured) h
      obtain ⟨res, hok, -⟩ := ok_of_endsAs hworking
        ((resolveWithMode_cases env writeCache .forceLive s henabled hname).resolve_left
          (not_unloaded hworking h.ne_malformed))
      rcases hrun : Program.run (cacheHost env) (refreshDomain cfg domain writeCache) s with
        ⟨e | res', t⟩
      · rw [refreshDomain, Prod.eq_iff_fst_eq_snd_eq, hok] at hrun
        cases hrun.1
      · rw [← refreshDomain, hrun] at hfirst
        have hrest := ih (fun d hd => hdomains d (List.mem_cons_of_mem _ hd)) hfirst
        rw [refreshEvents, List.foldl_append, hrun, refreshEach, Program.bind_eq,
          Program.run_bind_ok _ hrun, Program.bind_eq]
        simp only [Program.pure_eq, Program.run_bind_pure_state]
        exact hrest

theorem represents_proxy {domain : String} {ips : List String} {writeCache : Bool}
    (henabled : cfg.dnsCache.enabled = true) (hworking : Working env)
    (hdomain : ∀ name, normalizeDomain domain = .ok name → name ∈ configuredDomains cfg)
    (h : Represents cfg (s.files cfg.dnsCache.path) book) :
    Represents cfg ((Program.run (cacheHost env)
        (upsertLiveIpsFromProxy cfg domain ips writeCache) s).2.files cfg.dnsCache.path)
      ((proxyEvents env cfg domain ips writeCache s).foldl Book.record book) := by
  unfold proxyEvents
  cases hname : normalizeDomain domain with
  | error e =>
      unfold upsertLiveIpsFromProxy
      rw [hname]
      exact h
  | ok name =>
      have hends := (upsertLiveIpsFromProxy_cases env cfg ips writeCache s
        hname).resolve_left (not_unloaded hworking h.ne_malformed)
      obtain ⟨saved, -, hgood⟩ := ok_of_endsAs hworking hends
      generalize (Program.run (cacheHost env) (upsertLiveIpsFromProxy cfg domain ips writeCache)
        s).2.files cfg.dnsCache.path = after at hgood ⊢
      dsimp only
      cases hgood with
      | skipped hskipped =>
          rcases hskipped with hips | hdisabled
          · rw [if_neg (fun hc => hc.2.2 hips)]
            exact h
          · rw [henabled] at hdisabled
            cases hdisabled
      | saved hips _ =>
          have hloads := cacheLoads_of_working henabled hworking h s.calls
          cases writeCache with
          | false =>
              rw [if_neg (fun hc => Bool.noConfusion hc.1)]
              exact h
          | true =>
              rw [if_pos ⟨rfl, hloads, hips⟩]
              exact h.saved _ (hdomain name hname)

/-- There is nothing to prune. -/
theorem represents_prune {writeCache : Bool} (hworking : Working env)
    (h : Represents cfg (s.files cfg.dnsCache.path) book) :
    Represents cfg ((Program.run (cacheHost env)
      (pruneCacheToConfiguredDomains cfg writeCache) s).2.files cfg.dnsCache.path) book := by
  have hends := (pruneCacheToConfiguredDomains_cases env cfg writeCache
    s).resolve_left (not_unloaded hworking h.ne_malformed)
  obtain ⟨counts, -, hafter⟩ := ok_of_endsAs hworking hends
  rw [hafter]
  obtain ⟨entries, hcontent, hordered, hlookup, hconfigured⟩ := h
  have hkept : (loadedFile (contentOf entries)).entries.filter
      (fun entry => entry.domain ∈ configuredDomains cfg) =
        (loadedFile (contentOf entries)).entries := by
    rw [loadedFile_contentOf hordered, List.filter_eq_self]
    exact fun entry he => decide_eq_true (hconfigured entry he)
  rw [prunedIf, hcontent, hkept, bne_self_eq_false, Bool.and_false]
  exact ⟨entries, rfl, hordered, hlookup, hconfigured⟩

/-- One operation: the file stays the book of the story. -/
theorem represents_op (op : CacheOp) (henabled : cfg.dnsCache.enabled = true)
    (hworking : Working env) (hop : op.Configured cfg)
    (h : Represents cfg (s.files cfg.dnsCache.path) book) :
    Represents cfg ((op.run env cfg s).files cfg.dnsCache.path)
      ((op.events env cfg s).foldl Book.record book) := by
  cases op with
  | runtime domain writeCache =>
      rw [CacheOp.run, CacheOp.events, resolveForRuntime]
      exact represents_resolve writeCache _ henabled hworking hop h
  | refresh domain writeCache =>
      rw [CacheOp.run, CacheOp.events, refreshDomain]
      exact represents_resolve writeCache _ henabled hworking hop h
  | proxy domain ips writeCache =>
      rw [CacheOp.run, CacheOp.events]
      exact represents_proxy henabled hworking hop h
  | prune writeCache =>
      rw [CacheOp.run, CacheOp.events, List.foldl_nil]
      exact represents_prune hworking h
  | refreshAll writeCache =>
      cases hdomains : enabledDomains cfg with
      | error e =>
          rw [CacheOp.run, CacheOp.events, hdomains, refreshDomainPolicies, hdomains,
            Program.bind_eq, Program.ofExcept, Program.bind_fail, Program.run_fail, List.foldl_nil]
          exact h
      | ok domains =>
          rw [CacheOp.run, CacheOp.events, hdomains, refreshDomainPolicies, hdomains]
          exact represents_refreshEach henabled hworking (of_mem_enabledDomains hdomains) h

/-- A run of operations. -/
theorem represents_ops (ops : List CacheOp) (henabled : cfg.dnsCache.enabled = true)
    (hworking : Working env) (hops : ∀ op ∈ ops, op.Configured cfg)
    (h : Represents cfg (s.files cfg.dnsCache.path) book) :
    Represents cfg ((runOps env cfg ops s).files cfg.dnsCache.path)
      ((story env cfg ops s).foldl Book.record book) := by
  induction ops generalizing s book with
  | nil => exact h
  | cons op ops ih =>
      rw [story, List.foldl_append]
      exact ih (fun o ho => hops o (List.mem_cons_of_mem _ ho))
        (represents_op op henabled hworking (hops op List.mem_cons_self) h)

end Steps

/-! ### The answers of a story -/

section Answers

variable {env : CacheEnv} {cfg : Config} {s : CacheStore} {entry : DnsCacheEntry}

/-- The entry of a non-empty answer, sorted and without duplicates. -/
def IsAnswer (cfg : Config) (entry : DnsCacheEntry) : Prop :=
  ∃ name ips now source, entry = answerEntry cfg name ips now source ∧ ips ≠ [] ∧
    uniqueSorted ips = ips

theorem isAnswer_resolveEvents {domain : String} {writeCache : Bool} {mode : RefreshMode}
    (h : .answered entry ∈ resolveEvents env cfg domain writeCache mode s) :
    IsAnswer cfg entry := by
  unfold resolveEvents at h
  cases hname : normalizeDomain domain with
  | error e => simp [hname] at h
  | ok name =>
      simp only [hname] at h
      split_ifs at h
      · rw [List.mem_singleton] at h
        cases hanswer : answerAt env (s.calls + 2) name with
        | error error =>
            rw [hanswer] at h
            cases h
        | ok ips =>
            rw [hanswer] at h
            obtain rfl := CacheEvent.answered.inj h
            exact ⟨name, ips, _, "live", rfl, uniqueSorted_of_answerAt hanswer⟩
      · cases h

theorem isAnswer_refreshEvents {writeCache : Bool} {domains : List String}
    (h : .answered entry ∈ refreshEvents env cfg writeCache domains s) : IsAnswer cfg entry := by
  induction domains generalizing s with
  | nil => cases h
  | cons domain domains ih =>
      rcases List.mem_append.mp h with h | h
      · exact isAnswer_resolveEvents h
      · split at h
        · exact ih h
        · cases h

theorem isAnswer_proxyEvents {domain : String} {ips : List String} {writeCache : Bool}
    (h : .answered entry ∈ proxyEvents env cfg domain ips writeCache s) : IsAnswer cfg entry := by
  unfold proxyEvents at h
  cases hname : normalizeDomain domain with
  | error e => simp [hname] at h
  | ok name =>
      simp only [hname] at h
      split_ifs at h with hips
      · rw [List.mem_singleton] at h
        obtain rfl := CacheEvent.answered.inj h
        exact ⟨name, uniqueSorted ips, _, "dns-proxy", rfl,
          fun hnil => hips.2.2 (uniqueSorted_eq_nil.mp hnil), uniqueSorted_uniqueSorted ips⟩
      · cases h

theorem isAnswer_story {ops : List CacheOp} (h : .answered entry ∈ story env cfg ops s) :
    IsAnswer cfg entry := by
  induction ops generalizing s with
  | nil => cases h
  | cons op ops ih =>
      rcases List.mem_append.mp h with h | h
      · cases op with
        | runtime domain writeCache =>
            rw [CacheOp.events] at h
            exact isAnswer_resolveEvents h
        | refresh domain writeCache =>
            rw [CacheOp.events] at h
            exact isAnswer_resolveEvents h
        | proxy domain ips writeCache =>
            rw [CacheOp.events] at h
            exact isAnswer_proxyEvents h
        | prune writeCache => cases h
        | refreshAll writeCache =>
            rw [CacheOp.events] at h
            cases hdomains : enabledDomains cfg with
            | error e => simp [hdomains] at h
            | ok domains =>
                rw [hdomains] at h
                exact isAnswer_refreshEvents h
      · exact ih h

theorem unnoted_story (ops : List CacheOp) : Unnoted (story env cfg ops s) := by
  intro entry h
  obtain ⟨name, ips, now, source, rfl, -⟩ := isAnswer_story h
  rfl

theorem resolveEvents_silent (domain : String) (mode : RefreshMode) :
    resolveEvents env cfg domain false mode s = [] := by
  unfold resolveEvents
  cases normalizeDomain domain <;> simp

theorem refreshEvents_silent (domains : List String) :
    refreshEvents env cfg false domains s = [] := by
  induction domains generalizing s with
  | nil => rfl
  | cons domain domains ih =>
      rw [refreshEvents, resolveEvents_silent, List.nil_append]
      split
      · exact ih
      · rfl

/-- What writes nothing or only prunes has no events. -/
theorem events_of_silent {op : CacheOp} (h : op.silent = true) : op.events env cfg s = [] := by
  cases op with
  | runtime domain writeCache =>
      obtain rfl : writeCache = false := by simpa [CacheOp.silent] using h
      rw [CacheOp.events, resolveEvents_silent]
  | refresh domain writeCache =>
      obtain rfl : writeCache = false := by simpa [CacheOp.silent] using h
      rw [CacheOp.events, resolveEvents_silent]
  | proxy domain ips writeCache =>
      obtain rfl : writeCache = false := by simpa [CacheOp.silent] using h
      rw [CacheOp.events, proxyEvents]
      cases normalizeDomain domain <;> simp
  | prune writeCache => rfl
  | refreshAll writeCache =>
      obtain rfl : writeCache = false := by simpa [CacheOp.silent] using h
      rw [CacheOp.events]
      cases enabledDomains cfg with
      | error e => rfl
      | ok domains => exact refreshEvents_silent domains

/-- After every run that starts without a cache file, the file is the ordered list of the last
answers, each with the note of the last failed lookup since; what writes nothing or only prunes
has changed nothing. -/
theorem cache_file_is_book (env : CacheEnv) (s : CacheStore) {ops : List CacheOp}
    (henabled : cfg.dnsCache.enabled = true)
    (hworking : Working env) (hops : ∀ op ∈ ops, op.Configured cfg)
    (hstart : s.files cfg.dnsCache.path = .absent) :
    (∃ entries, (runOps env cfg ops s).files cfg.dnsCache.path = contentOf entries ∧
        KeyedList.Ordered DnsCacheEntry.domain entries ∧
        ∀ d, KeyedList.lookup DnsCacheEntry.domain d entries =
          (lastAnswer d (story env cfg ops s)).map
            (fun answer => { answer with lastError := noteSince d (story env cfg ops s) })) ∧
      (∀ entry, .answered entry ∈ story env cfg ops s → IsAnswer cfg entry) ∧
      ∀ before op after, ops = before ++ op :: after → op.silent = true →
        (runOps env cfg (before ++ [op]) s).files cfg.dnsCache.path =
          (runOps env cfg before s).files cfg.dnsCache.path := by
  have hnothing : Represents cfg (s.files cfg.dnsCache.path) (bookOf []) := by
    rw [hstart]
    exact Represents.nothing cfg
  refine ⟨?_, fun entry => isAnswer_story, ?_⟩
  · obtain ⟨entries, hcontent, hordered, hlookup, -⟩ :=
      represents_ops ops henabled hworking hops hnothing
    refine ⟨entries, hcontent, hordered, fun d => ?_⟩
    rw [hlookup, ← bookOf_eq (unnoted_story ops)]
    rfl
  · intro before op after hsplit hsilent
    have hbefore := represents_ops before henabled hworking
      (fun o ho => hops o (by simp [hsplit, ho])) hnothing
    have hop := represents_op op henabled hworking (hops op (by simp [hsplit])) hbefore
    rw [events_of_silent hsilent] at hop
    rw [runOps, List.foldl_append]
    exact Represents.unique hop hbefore

end Answers

/-- The proxy caches an address, a refresh fails, and nothing can be pruned. -/
def noted : List CacheOp :=
  [.proxy "A.example." ["192.0.2.7", "192.0.2.1", "192.0.2.7"] true, .refresh "a.example" true,
    .prune true]

theorem cache_file_is_book_noted : ∃ entries,
    (runOps quietHost.cache twoDomains noted bareState.2).files twoDomains.dnsCache.path =
        contentOf entries ∧
      KeyedList.lookup DnsCacheEntry.domain "a.example" entries =
        some ⟨"a.example", ["192.0.2.1", "192.0.2.7"], 1000, 1300, "dns-proxy",
          some "failed to resolve domain: a.example"⟩ := by
  have hops : ∀ op ∈ noted, op.Configured twoDomains := by
    have hdomain : ∀ domain ∈ ["A.example.", "a.example"], ∀ name,
        normalizeDomain domain = .ok name → name ∈ configuredDomains twoDomains := by
      intro domain hmem name hname
      have hok : normalizeDomain domain = .ok "a.example" := by
        rcases List.mem_pair.mp hmem with rfl | rfl <;> decide
      obtain rfl := Except.ok.inj (hok.symm.trans hname)
      decide
    simp only [noted, List.forall_mem_cons, CacheOp.Configured]
    exact ⟨hdomain _ (by simp), hdomain _ (by simp), trivial, by simp⟩
  obtain ⟨⟨entries, hcontent, -, hlookup⟩, -⟩ := cache_file_is_book quietHost.cache
    bareState.2 rfl ⟨fun _ => rfl, fun _ => rfl, fun _ => rfl⟩ hops rfl
  refine ⟨entries, hcontent, (hlookup "a.example").trans ?_⟩
  decide +kernel

end EveNet
