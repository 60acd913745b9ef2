import EveNet.CacheText

/-!
# Saves that are cut off

The save is followed call by call on a disk that holds bytes. At every point the file is the
old one or a first part of the new text. What a reader makes of the bytes is left to a parser
that reads back a printed cache and takes no text with an open bracket.
-/

namespace EveNet

open JsonText

/-! ### Saving in chunks -/

inductive DiskCall where
  | createParentDir (path : String)
  | truncate (path : String)
  | append (path : String) (chunk : List UInt8)
  deriving DecidableEq

abbrev diskInterface : Interface where
  Call := DiskCall
  Answer _ := Except String Unit

structure Disk where
  files : String → Option (List UInt8)
  calls : ℕ

/-- The error of the `k`-th call, if it fails. -/
abbrev DiskEnv := ℕ → Option String

def Disk.setFile (s : Disk) (path : String) (bytes : List UInt8) : Disk :=
  { s with files := Function.update s.files path (some bytes) }

def Disk.perform (s : Disk) : DiskCall → Disk
  | .createParentDir _ => s
  | .truncate path => s.setFile path []
  | .append path chunk => s.setFile path ((s.files path).getD [] ++ chunk)

def diskHost (env : DiskEnv) : Handler diskInterface Disk := fun c s =>
  match env s.calls with
  | some cause => (.error cause, { s with calls := s.calls + 1 })
  | none => (.ok (), { s.perform c with calls := s.calls + 1 })

abbrev DiskProgram := Program diskInterface Error

def diskCall (c : DiskCall) (context : String) : DiskProgram Unit :=
  .call c fun
    | .error cause => .fail [context, cause]
    | .ok () => .pure ()

def writeChunk (path : String) (chunk : List UInt8) : DiskProgram Unit :=
  diskCall (.append path chunk) ("failed to write DNS cache: " ++ path)

/-- `saveCache`, with the write taken apart. -/
def saveInChunks (path : String) (chunks : List (List UInt8)) : DiskProgram Unit := do
  diskCall (.createParentDir path) ("failed to create DNS cache directory: " ++ parentDir path)
  diskCall (.truncate path) ("failed to write DNS cache: " ++ path)
  Program.forEach (writeChunk path) chunks

section Chunks

variable (env : DiskEnv) {path : String} {s x : Disk} {chunk done : List UInt8}

/-- A call fails and leaves the files alone, or is performed. -/
theorem mem_visited_diskCall {c : DiskCall} {context : String}
    (hx : x ∈ Program.visited (diskHost env) (diskCall c context) s) :
    x.files = s.files ∨ x.files = (s.perform c).files := by
  rcases List.mem_cons.mp hx with rfl | hx
  · exact Or.inl rfl
  · simp only [diskHost] at hx
    cases hfails : env s.calls with
    | some cause =>
        simp only [hfails, Program.visited, List.mem_singleton] at hx
        exact Or.inl (by rw [hx])
    | none =>
        simp only [hfails, Program.visited, List.mem_singleton] at hx
        exact Or.inr (by rw [hx])

theorem run_diskCall {c : DiskCall} {context : String} {u : Unit} {t : Disk}
    (h : Program.run (diskHost env) (diskCall c context) s = (.ok u, t)) :
    t.files = (s.perform c).files := by
  rw [diskCall, Program.run_call] at h
  simp only [diskHost] at h
  cases hfails : env s.calls with
  | some cause => simp [hfails] at h
  | none =>
      simp only [hfails, Program.run_pure, Prod.mk.injEq] at h
      rw [← h.2]

/-- While chunks are appended the file grows from what it holds to all of them. -/
theorem visited_writeChunks {chunks : List (List UInt8)} (hs : s.files path = some done) :
    ∀ x ∈ Program.visited (diskHost env) (Program.forEach (writeChunk path) chunks) s,
      ∃ part, part <+: chunks.flatten ∧ x.files path = some (done ++ part) := by
  induction chunks generalizing s done with
  | nil =>
      intro x hx
      exact ⟨[], List.nil_prefix, by rw [List.mem_singleton.mp hx, hs, List.append_nil]⟩
  | cons chunk chunks ih =>
      intro x hx
      have hperform : (s.perform (.append path chunk)).files path = some (done ++ chunk) := by
        simp [Disk.perform, Disk.setFile, hs]
      rcases (Program.mem_visited_bind (diskHost env)).mp hx with hx | ⟨u, t, ht, hx⟩
      · rcases mem_visited_diskCall env hx with hsame | hdone
        · exact ⟨[], List.nil_prefix, by rw [hsame, hs, List.append_nil]⟩
        · exact ⟨chunk, List.prefix_append _ _, by rw [hdone, hperform]⟩
      · have hfile : t.files path = some (done ++ chunk) := by
          rw [run_diskCall env ht, hperform]
        obtain ⟨part, hpart, hxfile⟩ := ih hfile x hx
        refine ⟨chunk ++ part, ?_, by rw [hxfile, List.append_assoc]⟩
        rw [List.flatten_cons]
        exact (List.prefix_append_right_inj chunk).mpr hpart

/-- At every point of a save the file is the old one or a first part of the new text. -/
theorem visited_saveInChunks (path : String) (chunks : List (List UInt8)) (s : Disk) :
    ∀ x ∈ Program.visited (diskHost env) (saveInChunks path chunks) s,
      x.files path = s.files path ∨
        ∃ part, part <+: chunks.flatten ∧ x.files path = some part := by
  intro x hx
  rcases (Program.mem_visited_bind (diskHost env)).mp hx with hx | ⟨u, t, ht, hx⟩
  · rcases mem_visited_diskCall env hx with hsame | hdone
    · exact Or.inl (by rw [hsame])
    · exact Or.inl (by rw [hdone]; rfl)
  have hmade : t.files = s.files := run_diskCall env ht
  rcases (Program.mem_visited_bind (diskHost env)).mp hx with hx | ⟨v, w, hw, hx⟩
  · rcases mem_visited_diskCall env hx with hsame | hempty
    · exact Or.inl (by rw [hsame, hmade])
    · refine Or.inr ⟨[], List.nil_prefix, ?_⟩
      rw [hempty]
      simp [Disk.perform, Disk.setFile]
  · have hempty : w.files path = some [] := by
      rw [run_diskCall env hw]
      simp [Disk.perform, Disk.setFile]
    exact Or.inr (visited_writeChunks env hempty x hx)

end Chunks

/-! ### What a reader gets -/

/-- A parser of the cache file takes no text with an open bracket. -/
def TakesClosed (parse : List UInt8 → Option DnsCacheFile) : Prop :=
  ∀ bytes file, parse bytes = some file → Closed bytes

/-- The parser reads back the printed cache, with the line feed or without. -/
def ReadsBack (parse : List UInt8 → Option DnsCacheFile) (file : DnsCacheFile) : Prop :=
  parse (objectBytes file) = some (sortEntries file) ∧
    parse (savedBytes file) = some (sortEntries file)

/-- The content of a file, as its bytes parse. -/
def parsedContent (parse : List UInt8 → Option DnsCacheFile) : Option (List UInt8) → FileContent
  | none => .absent
  | some bytes => (parse bytes).elim .malformed .cache

section Readers

variable {parse : List UInt8 → Option DnsCacheFile} {file : DnsCacheFile} {part : List UInt8}

/-- The part lacks more of the text than the line feed at its end. -/
def Torn (file : DnsCacheFile) (part : List UInt8) : Prop :=
  part <+: objectBytes file ∧ part ≠ objectBytes file

theorem parsedContent_part (hclosed : TakesClosed parse) (hback : ReadsBack parse file)
    (hpart : part <+: savedBytes file) :
    parsedContent parse (some part) = .cache (sortEntries file) ∨
      Torn file part ∧ parsedContent parse (some part) = .malformed := by
  rw [savedBytes_eq] at hpart
  rcases List.prefix_concat_iff.mp hpart with rfl | hobject
  · rw [← savedBytes_eq, parsedContent, hback.2]
    exact Or.inl rfl
  · by_cases hwhole : part = objectBytes file
    · rw [hwhole, parsedContent, hback.1]
      exact Or.inl rfl
    · refine Or.inr ⟨⟨hobject, hwhole⟩, ?_⟩
      cases hparse : parse part with
      | none => rw [parsedContent, hparse]; rfl
      | some file' => exact absurd (hclosed part file' hparse) (not_closed_of_part hobject hwhole)

end Readers

/-! ### Operations on a file that does not parse -/

/-- Whether an operation returned, with its error if it did not. -/
def CacheOp.result (env : CacheEnv) (cfg : Config) (s : CacheStore) : CacheOp → Except Error Unit
  | .runtime domain writeCache =>
    (Program.run (cacheHost env) (resolveForRuntime cfg domain writeCache) s).1.map (fun _ => ())
  | .refresh domain writeCache =>
    (Program.run (cacheHost env) (refreshDomain cfg domain writeCache) s).1.map (fun _ => ())
  | .refreshAll writeCache =>
    (Program.run (cacheHost env) (refreshDomainPolicies cfg writeCache) s).1.map (fun _ => ())
  | .proxy domain ips writeCache =>
    (Program.run (cacheHost env) (upsertLiveIpsFromProxy cfg domain ips writeCache) s).1.map
      (fun _ => ())
  | .prune writeCache =>
    (Program.run (cacheHost env) (pruneCacheToConfiguredDomains cfg writeCache) s).1.map
      (fun _ => ())

/-- The operation does not end before it would load the cache, unless it fails. -/
def CacheOp.Loads (cfg : Config) : CacheOp → Prop
  | .runtime _ _ => cfg.dnsCache.enabled = true
  | .refresh _ _ => cfg.dnsCache.enabled = true
  | .refreshAll _ => cfg.dnsCache.enabled = true ∧ enabledDomains cfg ≠ .ok []
  | .proxy _ ips _ => cfg.dnsCache.enabled = true ∧ ips ≠ []
  | .prune _ => True

section Malformed

variable {env : CacheEnv} {cfg : Config} {s t : CacheStore} {α : Type}

/-- The cache file of the configuration does not parse. -/
def Unparsable (cfg : Config) (s : CacheStore) : Prop := s.files cfg.dnsCache.path = .malformed

theorem not_loaded {file : DnsCacheFile} (hs : Unparsable cfg s) :
    Program.run (cacheHost env) (loadCacheOrEmpty cfg.dnsCache.path) s ≠ (.ok file, t) := by
  rw [loadCacheOrEmpty, Program.run_call]
  simp only [cacheHost]
  cases env.readFails s.calls with
  | some cause => simp
  | none =>
      rw [hs]
      simp

/-- A program that goes on after loading does not go on. -/
theorem not_ok_after_load {next : DnsCacheFile → CacheProgram α} {a : α} (hs : Unparsable cfg s) :
    Program.run (cacheHost env) ((loadCacheOrEmpty cfg.dnsCache.path).bind next) s ≠
      (.ok a, t) := by
  intro h
  obtain ⟨file, u, hload, -⟩ := Program.run_bind_eq_ok _ h
  exact not_loaded hs hload

theorem not_ok_resolve {domain : String} {writeCache : Bool} {mode : RefreshMode}
    {resolution : DomainResolution} (henabled : cfg.dnsCache.enabled = true)
    (hs : Unparsable cfg s) :
    Program.run (cacheHost env) (resolveWithMode cfg domain writeCache mode) s ≠
      (.ok resolution, t) := by
  cases hname : normalizeDomain domain with
  | error e =>
      rw [run_resolveWithMode_refused writeCache mode s hname]
      simp
  | ok name =>
      rw [run_resolveWithMode writeCache mode s henabled hname]
      exact not_ok_after_load (s := s.tick) hs

theorem not_ok_refreshAll {writeCache : Bool} {resolutions : List DomainResolution}
    (henabled : cfg.dnsCache.enabled = true) (hdomains : enabledDomains cfg ≠ .ok [])
    (hs : Unparsable cfg s) :
    Program.run (cacheHost env) (refreshDomainPolicies cfg writeCache) s ≠
      (.ok resolutions, t) := by
  intro h
  obtain ⟨domains, u, hread, hrest⟩ := Program.run_bind_eq_ok _ h
  rw [Program.run_ofExcept, Prod.mk.injEq] at hread
  obtain ⟨hread, rfl⟩ := hread
  cases domains with
  | nil => exact hdomains hread
  | cons domain domains =>
      obtain ⟨resolution, v, hfirst, -⟩ := Program.run_bind_eq_ok _ hrest
      exact not_ok_resolve henabled hs hfirst

theorem not_ok_upsert {domain : String} {ips : List String} {writeCache : Bool}
    {saved : Option DnsCacheEntry} (henabled : cfg.dnsCache.enabled = true) (hips : ips ≠ [])
    (hs : Unparsable cfg s) :
    Program.run (cacheHost env) (upsertLiveIpsFromProxy cfg domain ips writeCache) s ≠
      (.ok saved, t) := by
  cases hname : normalizeDomain domain with
  | error e =>
      intro h
      obtain ⟨name, u, hread, -⟩ := Program.run_bind_eq_ok _ h
      rw [hname] at hread
      simp [Program.ofExcept] at hread
  | ok name =>
      rw [run_upsert hname hips henabled]
      exact not_ok_after_load hs

/-- An operation that loads the file fails. -/
theorem result_of_unparsable {op : CacheOp} (hop : op.Loads cfg) (hs : Unparsable cfg s) :
    ∃ e, op.result env cfg s = .error e := by
  have hfails : ∀ {β : Type} (out : Except Error β × CacheStore), (∀ b t, out ≠ (.ok b, t)) →
      ∃ e, out.1.map (fun _ => ()) = .error e := by
    rintro β ⟨e | b, t⟩ hout
    · exact ⟨e, rfl⟩
    · exact absurd rfl (hout b t)
  cases op with
  | runtime domain writeCache =>
      rw [CacheOp.result, resolveForRuntime]
      exact hfails _ (fun b t => not_ok_resolve hop hs)
  | refresh domain writeCache =>
      rw [CacheOp.result, refreshDomain]
      exact hfails _ (fun b t => not_ok_resolve hop hs)
  | refreshAll writeCache => exact hfails _ (fun b t => not_ok_refreshAll hop.1 hop.2 hs)
  | proxy domain ips writeCache =>
      rw [CacheOp.result]
      exact hfails _ (fun b t => not_ok_upsert hop.1 hop.2 hs)
  | prune writeCache => exact hfails _ (fun b t => not_ok_after_load hs)

/-! ### The file stays as it is -/

theorem keeps_untouching {p : CacheProgram α} (hp : p.Calls (fun c : CacheCall => c.touchesFile = false)) :
    Program.Keeps (cacheHost env) (Unparsable cfg) p := by
  refine Program.Keeps.of_calls (cacheHost env) (fun c hc s hs => ?_) hp
  rw [Unparsable, files_of_not_touching env hc s]
  exact hs

/-- What follows a load is never reached. -/
theorem keeps_after_load (next : DnsCacheFile → CacheProgram α) :
    Program.Keeps (cacheHost env) (Unparsable cfg)
      ((loadCacheOrEmpty cfg.dnsCache.path).bind next) := by
  refine Program.Keeps.bind _ ?_ (fun file hload => ?_)
  · refine Program.Keeps.of_calls _ (P := fun c => ∃ path, c = .read path) ?_
      (.call ⟨_, rfl⟩ (fun r => ?_))
    · rintro c ⟨path, rfl⟩ s hs
      simp only [cacheHost]
      cases env.readFails s.calls <;> exact hs
    · rcases r with cause | (_ | _ | file)
      · exact .fail _
      · exact .pure _
      · exact .fail _
      · exact .pure _
  · obtain ⟨s, t, hs, hrun⟩ := hload
    exact absurd hrun (not_loaded hs)

theorem keeps_ofExcept (r : Except Error α) :
    Program.Keeps (cacheHost env) (Unparsable cfg) (Program.ofExcept r) :=
  keeps_untouching (Program.Calls.ofExcept r)

theorem keeps_resolve {domain : String} {writeCache : Bool} {mode : RefreshMode} :
    Program.Keeps (cacheHost env) (Unparsable cfg)
      (resolveWithMode cfg domain writeCache mode) := by
  refine Program.Keeps.bind _ (keeps_ofExcept _) (fun name _ => ?_)
  by_cases henabled : cfg.dnsCache.enabled = true
  · rw [if_neg (not_not.mpr henabled)]
    exact Program.Keeps.bind _ (keeps_untouching (.call rfl (fun _ => .pure _)))
      (fun now _ => keeps_after_load _)
  · rw [if_pos henabled]
    refine keeps_untouching (Program.Calls.bind (Program.Calls.bind (Program.Calls.ofExcept _)
      (fun name => .call rfl (fun r => ?_))) (fun ips => .pure _))
    cases r with
    | error cause => exact .fail _
    | ok addrs => exact .pure _

theorem keeps_refreshEach {writeCache : Bool} (domains : List String) :
    Program.Keeps (cacheHost env) (Unparsable cfg) (refreshEach cfg writeCache domains) := by
  induction domains with
  | nil => exact Program.Keeps.pure _ _
  | cons domain domains ih =>
      exact Program.Keeps.bind _ keeps_resolve
        (fun _ _ => Program.Keeps.bind _ ih (fun _ _ => Program.Keeps.pure _ _))

theorem keeps_upsert {domain : String} {ips : List String} {writeCache : Bool} :
    Program.Keeps (cacheHost env) (Unparsable cfg)
      (upsertLiveIpsFromProxy cfg domain ips writeCache) := by
  refine Program.Keeps.bind _ (keeps_ofExcept _) (fun name _ => ?_)
  by_cases hips : uniqueSorted ips = []
  · rw [if_pos hips]
    exact Program.Keeps.pure _ _
  · rw [if_neg hips]
    by_cases henabled : cfg.dnsCache.enabled = true
    · rw [if_neg (not_not.mpr henabled)]
      exact keeps_after_load _
    · rw [if_pos henabled]
      exact Program.Keeps.pure _ _

theorem unparsable_op (op : CacheOp) (hs : Unparsable cfg s) :
    Unparsable cfg (op.run env cfg s) := by
  cases op with
  | runtime domain writeCache => exact keeps_resolve.run _ hs
  | refresh domain writeCache => exact keeps_resolve.run _ hs
  | refreshAll writeCache =>
      exact (Program.Keeps.bind _ (keeps_ofExcept _) (fun _ _ => keeps_refreshEach _)).run _ hs
  | proxy domain ips writeCache => exact keeps_upsert.run _ hs
  | prune writeCache => exact (keeps_after_load _).run _ hs

variable (env) in
/-- No run of operations leaves this state. -/
theorem unparsable_ops (ops : List CacheOp) (hs : Unparsable cfg s) :
    Unparsable cfg (runOps env cfg ops s) := by
  induction ops generalizing s with
  | nil => exact hs
  | cons op ops ih => exact ih (unparsable_op op hs)

end Malformed

/-! ### Readers of a save under way -/

section Readers

variable {parse : List UInt8 → Option DnsCacheFile} {file : DnsCacheFile}

/-- The disk as another process finds it, or as it is found after an interruption. -/
def foundAs (parse : List UInt8 → Option DnsCacheFile) (x : Disk) : CacheStore :=
  ⟨fun path => parsedContent parse (x.files path), 0⟩

def loadAt (env : CacheEnv) (parse : List UInt8 → Option DnsCacheFile) (path : String) (x : Disk) :
    Except Error DnsCacheFile :=
  (Program.run (cacheHost env) (loadCacheOrEmpty path) (foundAs parse x)).1

/-- What a load makes of a content that it can read. -/
def loadOf (path : String) : FileContent → Except Error DnsCacheFile
  | .absent => .ok emptyCache
  | .malformed => .error ["failed to parse DNS cache: " ++ path]
  | .cache file => .ok (sortEntries file)

theorem loadAt_eq (env : CacheEnv) (path : String) (x : Disk) : loadAt env parse path x =
    match env.readFails 0 with
    | some cause => .error ["failed to read DNS cache: " ++ path, cause]
    | none => loadOf path (parsedContent parse (x.files path)) := by
  simp only [loadAt, loadCacheOrEmpty, Program.run_call, cacheHost, foundAs]
  cases env.readFails 0 with
  | some cause => rfl
  | none => cases parsedContent parse (x.files path) <;> rfl

theorem sortEntries_sortEntries (file : DnsCacheFile) :
    sortEntries (sortEntries file) = sortEntries file := by
  simp only [sortEntries, KeyedList.sortBy]
  rw [List.Pairwise.insertionSort_eq (List.pairwise_insertionSort _ _)]

/-- What is found at a point of a save: the old cache, the new one, or text that lacks at least
the closing brace. In the last case a load fails, and so does every later operation that loads,
whatever was run in between. -/
def Found (parse : List UInt8 → Option DnsCacheFile) (cfg : Config) (file : DnsCacheFile)
    (s x : Disk) : Prop :=
  ((foundAs parse x).files cfg.dnsCache.path = (foundAs parse s).files cfg.dnsCache.path ∧
      ∀ env, loadAt env parse cfg.dnsCache.path x = loadAt env parse cfg.dnsCache.path s) ∨
    ((foundAs parse x).files cfg.dnsCache.path = .cache (sortEntries file) ∧
      ∀ env, env.readFails 0 = none →
        loadAt env parse cfg.dnsCache.path x = .ok (sortEntries file)) ∨
    (∃ part, x.files cfg.dnsCache.path = some part ∧ Torn file part) ∧
      ∀ env, (∃ e, loadAt env parse cfg.dnsCache.path x = .error e) ∧
        ∀ ops, Unparsable cfg (runOps env cfg ops (foundAs parse x)) ∧
          ∀ op : CacheOp, op.Loads cfg →
            ∃ e, op.result env cfg (runOps env cfg ops (foundAs parse x)) = .error e

/-- A save can be interrupted, and the file can be loaded, at any point. -/
theorem found_during_save (hclosed : TakesClosed parse) (hback : ReadsBack parse file)
    (disk : DiskEnv) (cfg : Config) {chunks : List (List UInt8)}
    (hchunks : chunks.flatten = savedBytes file) (s : Disk) :
    ∀ x ∈ Program.visited (diskHost disk) (saveInChunks cfg.dnsCache.path chunks) s,
      Found parse cfg file s x := by
  intro x hx
  unfold Found
  simp only [loadAt_eq]
  change parsedContent parse (x.files cfg.dnsCache.path) =
    parsedContent parse (s.files cfg.dnsCache.path) ∧ _ ∨
      parsedContent parse (x.files cfg.dnsCache.path) = _ ∧ _ ∨ _
  rcases visited_saveInChunks disk cfg.dnsCache.path chunks s x hx with hold | ⟨part, hpart, hfile⟩
  · rw [hold]
    exact Or.inl ⟨rfl, fun env => rfl⟩
  · right
    rw [hchunks] at hpart
    rcases parsedContent_part hclosed hback hpart with hnew | ⟨htorn, hbad⟩
    · rw [hfile, hnew]
      refine Or.inl ⟨rfl, fun env hreads => ?_⟩
      rw [hreads]
      exact congrArg Except.ok (sortEntries_sortEntries file)
    · rw [← hfile] at hbad
      have hunparsable : Unparsable cfg (foundAs parse x) := hbad
      refine Or.inr ⟨⟨part, hfile, htorn⟩, fun env => ⟨?_, fun ops => ?_⟩⟩
      · rw [hbad]
        cases env.readFails 0 with
        | some cause => exact ⟨_, rfl⟩
        | none => exact ⟨_, rfl⟩
      · have hlater := unparsable_ops env ops hunparsable
        exact ⟨hlater, fun op hop => result_of_unparsable hop hlater⟩

end Readers

/-- A parser that knows one cache. -/
def parseOnly (file : DnsCacheFile) (bytes : List UInt8) : Option DnsCacheFile :=
  if bytes = objectBytes file ∨ bytes = savedBytes file then some (sortEntries file) else none

theorem takesClosed_parseOnly (file : DnsCacheFile) : TakesClosed (parseOnly file) := by
  intro bytes file' h
  unfold parseOnly at h
  split_ifs at h with hknown
  rcases hknown with rfl | rfl
  · exact closed_object file
  · exact closed_saved file

theorem readsBack_parseOnly (file : DnsCacheFile) : ReadsBack (parseOnly file) file :=
  ⟨if_pos (Or.inl rfl), if_pos (Or.inr rfl)⟩

def blankDisk : Disk := ⟨fun _ => none, 0⟩

/-- A cache with one entry. -/
def oneEntry : DnsCacheFile :=
  { emptyCache with entries := [⟨"a.example", ["192.0.2.1"], 1000, 1300, "live", none⟩] }

/-- The file of the one entry, written in two chunks. -/
def entryChunks : List (List UInt8) := [(savedBytes oneEntry).take 40, (savedBytes oneEntry).drop 40]

/-- An older cache is on the disk. -/
def olderDisk : Disk := ⟨fun _ => some (savedBytes emptyCache), 0⟩

/-- The older file has been emptied, and the first of the two chunks is written. -/
def midSave : Disk :=
  { Disk.perform { olderDisk.setFile twoDomains.dnsCache.path [] with calls := 2 }
      (.append twoDomains.dnsCache.path ((savedBytes oneEntry).take 40)) with calls := 3 }

theorem found_during_save_entry :
    Found (parseOnly oneEntry) twoDomains oneEntry olderDisk midSave := by
  have hchunks : entryChunks.flatten = savedBytes oneEntry := by simp [entryChunks]
  exact found_during_save (takesClosed_parseOnly oneEntry) (readsBack_parseOnly oneEntry)
    (fun _ => none) twoDomains hchunks olderDisk midSave (.tail _ (.tail _ (.tail _ (.head _))))

/-- The file has been emptied and the first chunk is not written yet. -/
theorem not_old_or_new : ¬ ∀ (parse : List UInt8 → Option DnsCacheFile) (file : DnsCacheFile),
    TakesClosed parse → ReadsBack parse file → ∀ (disk : DiskEnv) (path : String)
      (chunks : List (List UInt8)), chunks.flatten = savedBytes file → ∀ s : Disk,
    ∀ x ∈ Program.visited (diskHost disk) (saveInChunks path chunks) s,
    ∀ env : CacheEnv, env.readFails 0 = none →
      loadAt env parse path x = loadAt env parse path s ∨
        loadAt env parse path x = .ok (sortEntries file) := by
  intro h
  have hx := h (parseOnly emptyCache) emptyCache (takesClosed_parseOnly emptyCache)
    (readsBack_parseOnly emptyCache) (fun _ => none) "cache" [savedBytes emptyCache]
    List.flatten_singleton blankDisk
    ⟨Function.update (fun _ => none) "cache" (some []), 2⟩
    (.tail _ (.tail _ (.head _))) quietHost.cache rfl
  have hblank : parseOnly emptyCache [] = none := by
    refine if_neg (fun hknown => ?_)
    rcases hknown with hobject | hsaved
    · exact (closed_object emptyCache).1 hobject.symm
    · exact (closed_saved emptyCache).1 hsaved.symm
  have hload : loadAt quietHost.cache (parseOnly emptyCache) "cache"
      ⟨Function.update (fun _ => none) "cache" (some []), 2⟩ =
        .error ["failed to parse DNS cache: " ++ "cache"] := by
    rw [loadAt_eq]
    simp only [quietHost, Function.update_self, parsedContent, hblank, Option.elim, loadOf]
  have hold : loadAt quietHost.cache (parseOnly emptyCache) "cache" blankDisk = .ok emptyCache := by
    rw [loadAt_eq]
    rfl
  rw [hload, hold] at hx
  rcases hx with hx | hx
  · cases hx
  · cases hx

end EveNet
