import EveNet.Interleaving
import EveNet.Reconcile

/-!
# Writers of the cache file

Every writer of the cache loads the whole file, may look a domain up, and saves its own
copy with one entry changed or with entries dropped. The writers run as separate
processes and nothing locks the file, so one that loads between another's load and save
can write the other's answer away again. As long as no completed save falls between the
load and the save of a writer, each answer stays until it is replaced by a later one.
-/

namespace EveNet

/-! ### The writers -/

/-- The operations that save the cache. A process that resolves several domains one after
the other counts as several writers. -/
inductive Writer where
  | runtime (domain : String)
  | refresh (domain : String)
  | prune
  | proxy (domain : String) (ips : List String)
  deriving DecidableEq

/-- The entry saved for a live answer. -/
def liveEntry (resolution : DomainResolution) : Option DnsCacheEntry :=
  if resolution.source = .live then resolution.entry else none

/-- A writer, with the entry of the answer that it saved. -/
def Writer.program (cfg : Config) : Writer → CacheProgram (Option DnsCacheEntry)
  | .runtime domain => do
    let resolution ← resolveForRuntime cfg domain true
    pure (liveEntry resolution)
  | .refresh domain => do
    let resolution ← refreshDomain cfg domain true
    pure (liveEntry resolution)
  | .prune => do
    let _ ← pruneCacheToConfiguredDomains cfg true
    pure none
  | .proxy domain ips => upsertLiveIpsFromProxy cfg domain ips true

/-! ### What a writer does to the file -/

/-- The entry that counts for a domain, as a reader of the file finds it. -/
def FileContent.find (content : FileContent) (domain : String) : Option DnsCacheEntry :=
  match content with
  | .cache file => file.find domain
  | .absent => none
  | .malformed => none

theorem domain_of_find {content : FileContent} {name : String} {entry : DnsCacheEntry}
    (h : content.find name = some entry) : entry.domain = name := by
  cases content with
  | absent => cases h
  | malformed => cases h
  | cache file => exact KeyedList.key_of_lookup _ h

/-- An entry without the note of a failed lookup. -/
def DnsCacheEntry.answer (entry : DnsCacheEntry) : DnsCacheEntry := { entry with lastError := none }

/-- The file that a writer saves over `content` has the answer of the writer for its domain,
and for every other configured domain the answer that was there. -/
def Keeps (cfg : Config) (content : FileContent) (file : DnsCacheFile)
    (saved : Option DnsCacheEntry) : Prop :=
  ∀ d ∈ configuredDomains cfg,
    (∃ entry, saved = some entry ∧ entry.domain = d ∧ file.find d = some entry) ∨
      (∀ entry, saved = some entry → entry.domain ≠ d) ∧
        (file.find d).map DnsCacheEntry.answer = (content.find d).map DnsCacheEntry.answer

def CacheCall.touchesFile : CacheCall → Bool
  | .read _ => true
  | .write _ _ => true
  | _ => false

/-- A writer that has seen some content of the file, or not read it yet: it reads at most
once, and saves at most once, over what it has read, as the last thing it does. -/
inductive Careful (cfg : Config) :
    Option FileContent → CacheProgram (Option DnsCacheEntry) → Prop where
  | returns (seen : Option FileContent) : Careful cfg seen (.pure none)
  | fails (seen : Option FileContent) (e : Error) : Careful cfg seen (.fail e)
  | asks {seen : Option FileContent} {c : CacheCall}
      {next : cacheInterface.Answer c → CacheProgram (Option DnsCacheEntry)}
      (hc : c.touchesFile = false) (hnext : ∀ r, Careful cfg seen (next r)) :
      Careful cfg seen (.call c next)
  | reads {next : Except String FileContent → CacheProgram (Option DnsCacheEntry)}
      (hread : ∀ content, Careful cfg (some content) (next (.ok content)))
      (hfailed : ∀ cause, ∃ e, next (.error cause) = .fail e) :
      Careful cfg none (.call (.read cfg.dnsCache.path) next)
  | saves {content : FileContent} {file : DnsCacheFile} {saved : Option DnsCacheEntry}
      {next : Except String Unit → CacheProgram (Option DnsCacheEntry)}
      (hkeeps : Keeps cfg content file saved) (hdone : next (.ok ()) = .pure saved)
      (hfailed : ∀ cause, ∃ e, next (.error cause) = .fail e) :
      Careful cfg (some content) (.call (.write cfg.dnsCache.path file) next)

/-- The file as a successful load returns it. -/
def loadedFile : FileContent → DnsCacheFile
  | .cache file => sortEntries file
  | .absent => emptyCache
  | .malformed => emptyCache

theorem find_sortEntries (file : DnsCacheFile) (d : String) :
    (sortEntries file).find d = file.find d :=
  KeyedList.lookup_sortBy _ _ _

theorem find_loadedFile (content : FileContent) (d : String) :
    (loadedFile content).find d = content.find d := by
  cases content with
  | absent => rfl
  | malformed => rfl
  | cache file => exact find_sortEntries file d

theorem find_upsertEntry (file : DnsCacheFile) (entry : DnsCacheEntry) (d : String) :
    (upsertEntry file entry).find d = if entry.domain = d then some entry else file.find d :=
  KeyedList.lookup_upsert _ _ _ _

section Writers

variable {cfg : Config} {content : FileContent}

theorem keeps_answer (entry : DnsCacheEntry) :
    Keeps cfg content (sortEntries (upsertEntry (loadedFile content) entry)) (some entry) := by
  intro d _
  rw [find_sortEntries, find_upsertEntry, find_loadedFile]
  by_cases hd : entry.domain = d
  · exact Or.inl ⟨entry, rfl, hd, if_pos hd⟩
  · refine Or.inr ⟨fun e he => ?_, by rw [if_neg hd]⟩
    rwa [← Option.some.inj he]

/-- A failed lookup only notes the error in the entry that is there. -/
theorem keeps_lastError {entry : DnsCacheEntry} {domain : String} (error : Option String)
    (hentry : (loadedFile content).find domain = some entry) :
    Keeps cfg content (sortEntries (upsertEntry (loadedFile content)
      { entry with lastError := error })) none := by
  intro d _
  rw [find_sortEntries, find_upsertEntry, find_loadedFile]
  refine Or.inr ⟨fun e he => by simp at he, ?_⟩
  by_cases hd : entry.domain = d
  · have hfound : (loadedFile content).find d = some entry := by
      rw [← hd, KeyedList.key_of_lookup _ hentry]
      exact hentry
    rw [if_pos hd, ← find_loadedFile, hfound]
    rfl
  · rw [if_neg hd]

theorem keeps_pruned : Keeps cfg content (sortEntries { loadedFile content with
    entries := (loadedFile content).entries.filter
      (fun entry => entry.domain ∈ configuredDomains cfg) }) none := by
  intro d hd
  refine Or.inr ⟨fun e he => by simp at he, ?_⟩
  rw [find_sortEntries, ← find_loadedFile, DnsCacheFile.find, DnsCacheFile.find,
    KeyedList.lookup_filter]
  intro entry hentry
  simpa [hentry] using hd

/-- Saving and then returning. -/
theorem careful_saveCache {file : DnsCacheFile} {saved : Option DnsCacheEntry}
    {next : Unit → CacheProgram (Option DnsCacheEntry)} (hnext : next () = .pure saved)
    (hkeeps : Keeps cfg content (sortEntries file) saved) :
    Careful cfg (some content) ((saveCache cfg.dnsCache.path file).bind next) := by
  refine .asks rfl (fun made => ?_)
  cases made with
  | error cause => exact .fails _ _
  | ok u => exact .saves hkeeps hnext (fun cause => ⟨_, rfl⟩)

/-- Loading and then going on with the file. -/
theorem careful_load {next : DnsCacheFile → CacheProgram (Option DnsCacheEntry)}
    (hnext : ∀ content, Careful cfg (some content) (next (loadedFile content))) :
    Careful cfg none ((loadCacheOrEmpty cfg.dnsCache.path).bind next) := by
  refine .reads (fun content => ?_) (fun cause => ⟨_, rfl⟩)
  cases content with
  | absent => exact hnext .absent
  | malformed => exact .fails _ _
  | cache file => exact hnext (.cache file)

theorem careful_proxy (domain : String) (ips : List String) :
    Careful cfg none (upsertLiveIpsFromProxy cfg domain ips true) := by
  unfold upsertLiveIpsFromProxy
  cases normalizeDomain domain with
  | error e => exact .fails _ _
  | ok name =>
      change Careful cfg none (if uniqueSorted ips = [] then _ else _)
      split_ifs
      · exact .returns _
      · refine careful_load (fun content => ?_)
        refine .asks rfl (fun now => ?_)
        exact careful_saveCache rfl (keeps_answer _)
      · exact .returns _

theorem careful_prune : Careful cfg none (Writer.prune.program cfg) := by
  change Careful cfg none ((pruneCacheToConfiguredDomains cfg true).bind _)
  unfold pruneCacheToConfiguredDomains
  rw [Program.bind_eq, Program.bind_assoc]
  refine careful_load (fun content => ?_)
  rw [Program.bind_eq, Program.bind_assoc, saveIf]
  split_ifs
  · exact careful_saveCache rfl keeps_pruned
  · exact .returns _

/-- The save of a failed lookup, where there is one. -/
theorem careful_fallback {domain : String} (now : UInt64) (error : String) :
    Careful cfg (some content) ((fallbackAfterLiveFailure cfg domain
      ((loadedFile content).find domain) now true (loadedFile content) error).bind
        (fun resolution => .pure (liveEntry resolution))) := by
  unfold fallbackAfterLiveFailure
  cases hentry : (loadedFile content).find domain with
  | none => exact .returns _
  | some entry =>
      dsimp only
      rw [Program.bind_eq, Program.bind_assoc, saveIf, if_pos rfl]
      refine careful_saveCache ?_ (keeps_lastError (some error) hentry)
      split_ifs <;> rfl

theorem careful_resolveLive {domain : String} (now : UInt64) :
    Careful cfg (some content) ((resolveLive cfg domain true now (loadedFile content)).bind
      (fun resolution => .pure (liveEntry resolution))) := by
  unfold resolveLive resolveDomainV4
  cases normalizeDomain domain with
  | error e => exact careful_fallback now _
  | ok name =>
      refine .asks rfl (fun found => ?_)
      cases found with
      | error cause => exact careful_fallback now _
      | ok addrs =>
          change Careful cfg (some content) (Program.bind (if _ ≠ [] then _ else _) _)
          split_ifs with hips
          · rw [Program.bind_eq, Program.bind_assoc, saveIf, if_pos rfl]
            exact careful_saveCache rfl (keeps_answer _)
          · exact careful_fallback now _

theorem careful_resolveWithMode (domain : String) (mode : RefreshMode) :
    Careful cfg none ((resolveWithMode cfg domain true mode).bind
      (fun resolution => .pure (liveEntry resolution))) := by
  unfold resolveWithMode
  cases hname : normalizeDomain domain with
  | error e => exact .fails _ _
  | ok name =>
      change Careful cfg none (Program.bind (if _ then _ else _) _)
      split_ifs with henabled
      · refine .asks rfl (fun now => ?_)
        change Careful cfg none (Program.bind (Program.bind (loadCacheOrEmpty _) _) _)
        rw [Program.bind_assoc]
        refine careful_load (fun content => ?_)
        cases freshEntry mode ((loadedFile content).find name) now with
        | some entry => exact .returns _
        | none => exact careful_resolveLive now
      · unfold resolveDomainV4
        rw [normalizeDomain_normalized hname]
        refine .asks rfl (fun found => ?_)
        cases found with
        | error cause => exact .fails _ _
        | ok addrs => exact .returns _

theorem careful_program (writer : Writer) : Careful cfg none (writer.program cfg) := by
  cases writer with
  | runtime domain => exact careful_resolveWithMode domain .preferFreshCache
  | refresh domain => exact careful_resolveWithMode domain .forceLive
  | prune => exact careful_prune
  | proxy domain ips => exact careful_proxy domain ips

end Writers

/-! ### Writers side by side -/

section Interleaving

variable {ι : Type} [DecidableEq ι]

/-- The writers that have read the file since it was last saved. A writer that saves must be
one of them. -/
def freshReaders (fresh : List ι) : Program.Event cacheInterface ι → Option (List ι)
  | ⟨i, .read _, _⟩ => some (i :: fresh)
  | ⟨i, .write _ _, .ok _⟩ => if i ∈ fresh then some [] else none
  | ⟨_, .write _ _, .error _⟩ => some fresh
  | ⟨_, .nowEpoch, _⟩ => some fresh
  | ⟨_, .lookup _, _⟩ => some fresh
  | ⟨_, .createParentDir _, _⟩ => some fresh

/-- No completed save falls between the load of a writer and its own completed save. -/
def Undisturbed (events : List (Program.Event cacheInterface ι)) : Prop :=
  (Program.monitored freshReaders [] events).isSome

abbrev WriterPool (ι : Type) := Program.Pool cacheInterface Error (Option DnsCacheEntry) CacheStore ι

/-- The writers at their start. -/
def startWriters (cfg : Config) (writers : ι → Writer) (store : CacheStore) : WriterPool ι :=
  (fun i => (writers i).program cfg, store)

/-- Some writer has saved this entry for the answer it got. -/
def SavedAnswer (x : WriterPool ι) (entry : DnsCacheEntry) : Prop :=
  ∃ i, (x.1 i).outcome = some (.ok (some entry))

/-- The file has, for every configured domain with a saved answer, one of its saved answers. -/
def AnswersKept (cfg : Config) (x : WriterPool ι) : Prop :=
  ∀ d ∈ configuredDomains cfg, ∀ entry, SavedAnswer x entry → entry.domain = d →
    ∃ held kept, (x.2.files cfg.dnsCache.path).find d = some held ∧ SavedAnswer x kept ∧
      kept.domain = d ∧ held.answer = kept.answer

/-- Every writer is careful or done, and those that have read the file since the last save
have seen what it holds now. -/
def WritersCareful (cfg : Config) (fresh : List ι) (x : WriterPool ι) : Prop :=
  ∀ i, (∃ saved, x.1 i = .pure saved) ∨ ∃ seen, Careful cfg seen (x.1 i) ∧
    (i ∈ fresh → seen = some (x.2.files cfg.dnsCache.path))

variable {cfg : Config} {env : CacheEnv} {x : WriterPool ι} {fresh : List ι} {i : ι}

variable (env) in
theorem files_of_not_touching {c : CacheCall} (hc : c.touchesFile = false) (s : CacheStore) :
    (cacheHost env c s).2.files = s.files := by
  cases c with
  | nowEpoch => rfl
  | lookup domain => rfl
  | read path => simp [CacheCall.touchesFile] at hc
  | createParentDir path =>
      simp only [cacheHost]
      cases env.mkdirFails s.calls <;> rfl
  | write path file => simp [CacheCall.touchesFile] at hc

theorem fresh_of_not_touching {c : CacheCall} (hc : c.touchesFile = false)
    (r : cacheInterface.Answer c) {fresh' : List ι}
    (h : freshReaders fresh ⟨i, c, r⟩ = some fresh') : fresh' = fresh := by
  cases c with
  | nowEpoch => exact (Option.some.inj h).symm
  | lookup domain => exact (Option.some.inj h).symm
  | read path => simp [CacheCall.touchesFile] at hc
  | createParentDir path => exact (Option.some.inj h).symm
  | write path file => simp [CacheCall.touchesFile] at hc

theorem not_careful_answer {seen : Option FileContent} {entry : DnsCacheEntry} :
    ¬ Careful cfg seen (.pure (some entry)) := by
  intro h
  cases h

/-- As long as the file is the same, a step that saves nothing keeps what is known. -/
theorem answersKept_of_same_file {p : CacheProgram (Option DnsCacheEntry)} {s : CacheStore}
    (hfile : s.files cfg.dnsCache.path = x.2.files cfg.dnsCache.path)
    (hcall : ∀ saved, x.1 i ≠ .pure saved) (hp : ∀ entry, p ≠ .pure (some entry))
    (hkept : AnswersKept cfg x) : AnswersKept cfg (Function.update x.1 i p, s) := by
  have hsaved : ∀ entry, SavedAnswer (Function.update x.1 i p, s) entry ↔ SavedAnswer x entry := by
    intro entry
    unfold SavedAnswer
    refine exists_congr (fun j => ?_)
    by_cases hj : j = i
    · subst hj
      simp [Program.outcome_eq_ok, hp entry, hcall (some entry)]
    · simp [hj]
  intro d hd entry hentry hdomain
  obtain ⟨held, kept, hheld, hk, hrest⟩ := hkept d hd entry ((hsaved entry).mp hentry) hdomain
  exact ⟨held, kept, by rw [hfile]; exact hheld, (hsaved kept).mpr hk, hrest⟩

theorem writersCareful_update {p : CacheProgram (Option DnsCacheEntry)} {s : CacheStore}
    {fresh' : List ι} (hcareful : WritersCareful cfg fresh x)
    (hothers : ∀ j ∈ fresh', j ≠ i →
      j ∈ fresh ∧ s.files cfg.dnsCache.path = x.2.files cfg.dnsCache.path)
    (hself : (∃ saved, p = .pure saved) ∨ ∃ seen, Careful cfg seen p ∧
      (i ∈ fresh' → seen = some (s.files cfg.dnsCache.path))) :
    WritersCareful cfg fresh' (Function.update x.1 i p, s) := by
  intro j
  by_cases hj : j = i
  · subst hj
    simpa using hself
  · dsimp only
    rw [Function.update_of_ne hj]
    refine (hcareful j).imp_right (fun ⟨seen, hseen, hfresh⟩ => ⟨seen, hseen, fun hmem => ?_⟩)
    obtain ⟨hold, hfile⟩ := hothers j hmem hj
    rw [hfile]
    exact hfresh hold

/-- A save over what the file holds keeps the saved answers and adds the one it makes. -/
theorem answersKept_of_save {file : DnsCacheFile} {saved : Option DnsCacheEntry} {s : CacheStore}
    (hkeeps : Keeps cfg (x.2.files cfg.dnsCache.path) file saved)
    (hfile : s.files cfg.dnsCache.path = .cache file) (hcall : ∀ saved, x.1 i ≠ .pure saved)
    (hkept : AnswersKept cfg x) : AnswersKept cfg (Function.update x.1 i (.pure saved), s) := by
  intro d hd entry ⟨j, hj⟩ hdomain
  dsimp only at hj ⊢
  rw [hfile]
  have hself : ∀ e, saved = some e →
      SavedAnswer (Function.update x.1 i (.pure saved), s) e := by
    rintro e rfl
    exact ⟨i, by simp [Program.outcome]⟩
  rcases hkeeps d hd with ⟨own, hown, hdom, hfind⟩ | ⟨hnot, hfind⟩
  · exact ⟨own, own, hfind, hself own hown, hdom, rfl⟩
  · -- the entry is an older answer, and what was held for it is held still
    have hji : j ≠ i := by
      rintro rfl
      simp only [Function.update_self, Program.outcome, Option.some.injEq, Except.ok.injEq] at hj
      exact hnot entry hj hdomain
    rw [Function.update_of_ne hji] at hj
    obtain ⟨held, kept, hheld, ⟨k, hk⟩, hkdomain, hsame⟩ := hkept d hd entry ⟨j, hj⟩ hdomain
    rw [hheld] at hfind
    obtain ⟨held', hheld', hsame'⟩ := Option.map_eq_some_iff.mp hfind
    have hki : k ≠ i := by
      rintro rfl
      exact hcall _ (Program.outcome_eq_ok.mp hk)
    refine ⟨held', kept, hheld', ⟨k, ?_⟩, hkdomain, hsame'.trans hsame⟩
    dsimp only
    rw [Function.update_of_ne hki]
    exact hk

/-- One call of one writer. -/
theorem writer_step (hatomic : ∀ k cause left, env.writes k ≠ .interrupted cause left)
    {c : CacheCall} {next : cacheInterface.Answer c → CacheProgram (Option DnsCacheEntry)}
    {fresh' : List ι} (hp : x.1 i = .call c next)
    (hmonitor : freshReaders fresh ⟨i, c, (cacheHost env c x.2).1⟩ = some fresh')
    (hcareful : WritersCareful cfg fresh x) (hkept : AnswersKept cfg x) :
    WritersCareful cfg fresh'
        (Function.update x.1 i (next (cacheHost env c x.2).1), (cacheHost env c x.2).2) ∧
      AnswersKept cfg
        (Function.update x.1 i (next (cacheHost env c x.2).1), (cacheHost env c x.2).2) := by
  have hcall : ∀ saved, x.1 i ≠ .pure saved := by simp [hp]
  obtain ⟨seen, hwriter, hseen⟩ := (hcareful i).resolve_left (fun ⟨saved, h⟩ => hcall saved h)
  rw [hp] at hwriter
  cases hwriter with
  | asks hc hnext =>
      have hfiles := files_of_not_touching env hc x.2
      have hfile : (cacheHost env c x.2).2.files cfg.dnsCache.path =
          x.2.files cfg.dnsCache.path := by rw [hfiles]
      rw [fresh_of_not_touching hc _ hmonitor]
      constructor
      · refine writersCareful_update hcareful (fun j hj _ => ⟨hj, hfile⟩) (Or.inr ?_)
        exact ⟨seen, hnext _, fun hi => by rw [hfile]; exact hseen hi⟩
      · refine answersKept_of_same_file hfile hcall (fun entry he => ?_) hkept
        exact not_careful_answer (he ▸ hnext _)
  | reads hread hfailed =>
      rw [← Option.some.inj hmonitor]
      have hothers : ∀ j ∈ i :: fresh, j ≠ i → j ∈ fresh :=
        fun j hj hne => (List.mem_cons.mp hj).resolve_left hne
      simp only [cacheHost]
      cases env.readFails x.2.calls with
      | some cause =>
          obtain ⟨e, he⟩ := hfailed cause
          constructor
          · refine writersCareful_update hcareful (fun j hj hne => ⟨hothers j hj hne, rfl⟩)
              (Or.inr ⟨some (x.2.files cfg.dnsCache.path), ?_, fun _ => rfl⟩)
            exact he ▸ .fails _ e
          · exact answersKept_of_same_file rfl hcall (fun entry => by simp [he]) hkept
      | none =>
          constructor
          · exact writersCareful_update hcareful (fun j hj hne => ⟨hothers j hj hne, rfl⟩)
              (Or.inr ⟨_, hread _, fun _ => rfl⟩)
          · refine answersKept_of_same_file rfl hcall (fun entry he => ?_) hkept
            exact not_careful_answer (he ▸ hread _)
  | @saves content file saved next hkeeps hdone hfailed =>
      simp only [cacheHost] at hmonitor ⊢
      cases hw : env.writes x.2.calls with
      | interrupted cause left => exact absurd hw (hatomic _ cause left)
      | refused cause =>
          simp only [hw] at hmonitor ⊢
          rw [← Option.some.inj hmonitor]
          obtain ⟨e, he⟩ := hfailed cause
          constructor
          · refine writersCareful_update hcareful (fun j hj _ => ⟨hj, rfl⟩)
              (Or.inr ⟨some (x.2.files cfg.dnsCache.path), ?_, fun _ => rfl⟩)
            exact he ▸ .fails _ e
          · exact answersKept_of_same_file rfl hcall (fun entry => by simp [he]) hkept
      | done =>
          simp only [hw, freshReaders] at hmonitor ⊢
          split_ifs at hmonitor with hmem
          rw [← Option.some.inj hmonitor, hdone]
          have hcontent := Option.some.inj (hseen hmem)
          rw [hcontent] at hkeeps
          constructor
          · exact writersCareful_update hcareful (fun j hj => by simp at hj) (Or.inl ⟨saved, rfl⟩)
          · exact answersKept_of_save hkeeps (by simp) hcall hkept

/-- Whatever the interleaving, as long as no completed save falls between the load and the
save of a writer, the file has a saved answer for every configured domain that got one. -/
theorem saved_answers_kept (cfg : Config) (env : CacheEnv)
    (hatomic : ∀ k cause left, env.writes k ≠ .interrupted cause left) (writers : ι → Writer)
    (store : CacheStore) (schedule : List ι)
    (hundisturbed : Undisturbed
      (Program.trace (cacheHost env) schedule (startWriters cfg writers store))) :
    AnswersKept cfg
      (Program.interleave (cacheHost env) schedule (startWriters cfg writers store)) := by
  obtain ⟨fresh, hfresh⟩ := Option.isSome_iff_exists.mp hundisturbed
  refine (Program.interleave_invariant (cacheHost env)
    (Q := fun fresh x => WritersCareful cfg fresh x ∧ AnswersKept cfg x) ?_ hfresh ?_).2
  · rintro fresh fresh' x i c next hp hmonitor ⟨hcareful, hkept⟩
    exact writer_step hatomic hp hmonitor hcareful hkept
  · constructor
    · exact fun i => Or.inr ⟨none, careful_program (writers i), fun hi => by simp at hi⟩
    · intro d _ entry ⟨i, hi⟩ _
      rw [Program.outcome_eq_ok] at hi
      have hwriter : Careful cfg none ((writers i).program cfg) := careful_program (writers i)
      dsimp only [startWriters] at hi
      rw [hi] at hwriter
      exact absurd hwriter not_careful_answer

end Interleaving

/-- Two domains behind one tunnel. -/
def twoDomains : Config :=
  configOf [tunnel "tun0" 100 16]
    [domainPolicy "first" "a.example" "tun0", domainPolicy "second" "b.example" "tun0"]

/-- A resolver that answers every lookup with one address. -/
def answeringCache : CacheEnv :=
  { quietHost.cache with lookups := fun _ _ => .ok [.v4 192 0 2 1 0] }

def refreshBoth : Fin 2 → Writer := ![.refresh "a.example", .refresh "b.example"]

/-- One refresh after the other. -/
theorem saved_answers_kept_twoDomains :
    AnswersKept twoDomains (Program.interleave (cacheHost answeringCache)
      [0, 0, 0, 0, 0, 1, 1, 1, 1, 1] (startWriters twoDomains refreshBoth bareState.2)) := by
  refine saved_answers_kept twoDomains answeringCache (fun k cause left h => ?_) refreshBoth
    bareState.2 [0, 0, 0, 0, 0, 1, 1, 1, 1, 1] rfl
  cases h

/-- Both refreshes load the file before either saves it, and the second save takes the
answer of the first away. -/
theorem not_answers_kept : ¬ ∀ (cfg : Config) (env : CacheEnv) (n : ℕ) (writers : Fin n → Writer)
    (store : CacheStore) (schedule : List (Fin n)), cfg.validate = .ok () →
    (∀ k cause left, env.writes k ≠ .interrupted cause left) →
    (∀ i, ((Program.interleave (cacheHost env) schedule
      (startWriters cfg writers store)).1 i).outcome.isSome) →
    AnswersKept cfg
      (Program.interleave (cacheHost env) schedule (startWriters cfg writers store)) := by
  intro hclaim
  have hkept := hclaim twoDomains answeringCache 2 refreshBoth bareState.2
    [0, 0, 1, 1, 0, 0, 0, 1, 1, 1] (by decide) (fun k cause left h => by cases h)
    (by decide +kernel) "a.example" (by decide)
    (answerEntry twoDomains "a.example" ["192.0.2.1"] 1000 "live") ⟨0, by decide +kernel⟩ rfl
  obtain ⟨held, -, hheld, -⟩ := hkept
  have hnone : ((Program.interleave (cacheHost answeringCache) [0, 0, 1, 1, 0, 0, 0, 1, 1, 1]
      (startWriters twoDomains refreshBoth bareState.2)).2.files twoDomains.dnsCache.path).find
        "a.example" = none := by decide +kernel
  rw [hnone] at hheld
  cases hheld

end EveNet
