import EveNet.ProxyCache
import EveNet.Staleness

/-!
# The form of the cache file

The cache operations keep the entries of a file sorted by their domains, with normalized
domains, sorted addresses in dotted form, and times in order. This is shown for every host
whose calls do to the files what the file system does, and for calls under configurations
that change from one call to the next.
-/

namespace EveNet

/-! ### Entries in form -/

def IsDottedQuad (ip : String) : Prop := ∃ a b c d, ip = dottedQuad a b c d

structure EntryForm (entry : DnsCacheEntry) : Prop where
  normalized : normalizeDomain entry.domain = .ok entry.domain
  nonempty : entry.resolvedIpv4 ≠ []
  increasing : entry.resolvedIpv4.Pairwise (· < ·)
  dotted : ∀ ip ∈ entry.resolvedIpv4, IsDottedQuad ip
  dated : entry.resolvedAtEpoch ≤ entry.expiresAtEpoch

structure FileForm (file : DnsCacheFile) : Prop where
  ordered : KeyedList.Ordered (·.domain) file.entries
  entries : ∀ entry ∈ file.entries, EntryForm entry

/-- The path holds no cache, or one in form. -/
def InForm (content : FileContent) : Prop := ∀ file, content = .cache file → FileForm file

theorem fileForm_empty : FileForm emptyCache where
  ordered := List.Pairwise.nil
  entries _ hentry := absurd hentry List.not_mem_nil

namespace FileForm

variable {file : DnsCacheFile}

theorem sortEntries_eq (h : FileForm file) : sortEntries file = file := by
  rw [sortEntries, KeyedList.sortBy_of_ordered _ h.ordered]

theorem upsert (h : FileForm file) {entry : DnsCacheEntry} (hentry : EntryForm entry) :
    FileForm (sortEntries (upsertEntry file entry)) where
  ordered := KeyedList.ordered_sortBy _ (KeyedList.nodup_upsert _ h.ordered.nodup)
  entries held hheld := by
    rw [sortEntries, KeyedList.mem_sortBy, upsertEntry] at hheld
    rcases KeyedList.mem_of_mem_upsert _ hheld with rfl | hold
    · exact hentry
    · exact h.entries held hold

theorem filter (h : FileForm file) (keep : DnsCacheEntry → Bool) :
    FileForm (sortEntries { file with entries := file.entries.filter keep }) := by
  have hform : FileForm { file with entries := file.entries.filter keep } :=
    { ordered := h.ordered.sublist List.filter_sublist
      entries := fun entry hentry => h.entries entry (List.mem_of_mem_filter hentry) }
  rwa [hform.sortEntries_eq]

end FileForm

theorem le_saturatingAdd (a b : UInt64) : a ≤ saturatingAdd a b := by
  have ha := a.toNat_lt
  rw [UInt64.le_iff_toNat_le, toNat_saturatingAdd]
  omega

theorem EntryForm.answer {cfg : Config} {name source : String} {ips : List String} {now : UInt64}
    (hname : normalizeDomain name = .ok name) (hips : uniqueSorted ips ≠ [])
    (hdotted : ∀ ip ∈ ips, IsDottedQuad ip) :
    EntryForm (answerEntry cfg name (uniqueSorted ips) now source) where
  normalized := hname
  nonempty := hips
  increasing := pairwise_uniqueSorted ips
  dotted ip hip := hdotted ip (mem_uniqueSorted.mp hip)
  dated := le_saturatingAdd now _

theorem EntryForm.noted {entry : DnsCacheEntry} (h : EntryForm entry) (error : Option String) :
    EntryForm { entry with lastError := error } :=
  ⟨h.normalized, h.nonempty, h.increasing, h.dotted, h.dated⟩

theorem FileForm.find {file : DnsCacheFile} (h : FileForm file) {domain : String}
    {entry : DnsCacheEntry} (hentry : file.find domain = some entry) : EntryForm entry :=
  h.entries entry (KeyedList.mem_of_lookup _ hentry)

/-! ### Addresses in dotted form -/

theorem isDottedQuad_ipv4Text {addr : SocketAddr} {ip : String} (h : ipv4Text addr = some ip) :
    IsDottedQuad ip := by
  cases addr with
  | v4 a b c d port => exact ⟨a, b, c, d, (Option.some.inj h).symm⟩
  | v6 segments scope port => cases h

theorem isDottedQuad_of_readAnswers {buf : Packet} {count pos : ℕ} {ips : List String}
    (h : readAnswers buf count pos = .ok ips) : ∀ ip ∈ ips, IsDottedQuad ip := by
  induction count generalizing pos ips with
  | zero =>
      obtain rfl := Except.ok.inj h
      exact fun ip hip => absurd hip List.not_mem_nil
  | succ count ih =>
      obtain ⟨record, -, h⟩ := except_bind_eq_ok.mp h
      obtain ⟨later, hlater, h⟩ := except_bind_eq_ok.mp h
      obtain rfl := Except.ok.inj h
      intro ip hip
      rcases List.mem_append.mp hip with hhere | hthere
      · rw [Option.mem_toList, aRecordIp] at hhere
        split_ifs at hhere
        exact ⟨_, _, _, _, (Option.some.inj hhere).symm⟩
      · exact ih hlater ip hthere

theorem isDottedQuad_of_parseARecords {response : Packet} {records : ARecordSet}
    (h : parseARecords response = .ok records) : ∀ ip ∈ records.ips, IsDottedQuad ip := by
  obtain ⟨_, -, h⟩ := except_bind_eq_ok.mp h
  obtain ⟨_, -, h⟩ := except_bind_eq_ok.mp h
  obtain ⟨_, -, h⟩ := except_bind_eq_ok.mp h
  obtain ⟨_, -, h⟩ := except_bind_eq_ok.mp h
  obtain ⟨ips, hips, h⟩ := except_bind_eq_ok.mp h
  obtain rfl := Except.ok.inj h
  exact fun ip hip => isDottedQuad_of_readAnswers hips ip (mem_uniqueSorted.mp hip)

/-! ### Hosts -/

/-- What the calls do to the files: a read gives what is there, and only a write changes anything,
namely its own path, to the file written or to text that does not parse. -/
structure FileSystem {σ : Type} (h : Handler cacheInterface σ) (files : σ → String → FileContent) :
    Prop where
  reads : ∀ path s content, (h (.read path) s).1 = .ok content → content = files s path
  untouched : ∀ c s, (∀ path file, c ≠ .write path file) → files (h c s).2 = files s
  elsewhere : ∀ path file s other, other ≠ path →
    files (h (.write path file) s).2 other = files s other
  writes : ∀ path file s, files (h (.write path file) s).2 path ∈
    ({files s path, .cache file, .malformed} : Set FileContent)

/-- The modelled host is one, if what an interrupted write leaves is all of the file or does not
parse. -/
theorem fileSystem_cacheHost {env : CacheEnv} (htorn : TornUnreadable env) :
    FileSystem (cacheHost env) CacheStore.files where
  reads path s content h := by
    simp only [cacheHost] at h
    cases hfails : env.readFails s.calls with
    | some cause =>
        rw [hfails] at h
        cases h
    | none =>
        rw [hfails] at h
        exact (Except.ok.inj h).symm
  untouched c s hc := by
    cases c with
    | nowEpoch => rfl
    | lookup domain => rfl
    | read path => simp only [cacheHost]; cases env.readFails s.calls <;> rfl
    | createParentDir path => simp only [cacheHost]; cases env.mkdirFails s.calls <;> rfl
    | write path file => exact absurd rfl (hc path file)
  elsewhere path file s other hother := by
    simp only [cacheHost]
    cases env.writes s.calls with
    | done => exact Function.update_of_ne hother _ _
    | refused cause => rfl
    | interrupted cause left => exact Function.update_of_ne hother _ _
  writes path file s := by
    simp only [cacheHost]
    cases hwrite : env.writes s.calls with
    | done => exact Or.inr (Or.inl (by simp))
    | refused cause => exact Or.inl rfl
    | interrupted cause left =>
        rcases htorn _ _ _ hwrite file with hbad | hall
        · exact Or.inr (Or.inr (by simp [hbad]))
        · exact Or.inr (Or.inl (by simp [hall]))

section Calls

variable {σ : Type} {h : Handler cacheInterface σ} {files : σ → String → FileContent}
  {target : String} {cfg : Config} {writeCache : Bool}

/-- What is written to the path is in form. -/
def WritesForm (target : String) (c : CacheCall) : Prop :=
  ∀ file, c = .write target file → FileForm file

/-- The program leaves the path in form. -/
abbrev KeepsForm {α : Type} (h : Handler cacheInterface σ) (files : σ → String → FileContent)
    (target : String) (p : CacheProgram α) : Prop :=
  Program.Keeps h (fun s => InForm (files s target)) p

variable (hfs : FileSystem h files)
include hfs

theorem keepsForm_of_calls {α : Type} {p : CacheProgram α} (hp : p.Calls (WritesForm target)) :
    KeepsForm h files target p := by
  refine Program.Keeps.of_calls h (fun c hc s hs => ?_) hp
  by_cases hwrite : ∃ path file, c = .write path file
  · obtain ⟨path, file, rfl⟩ := hwrite
    by_cases hpath : target = path
    · subst hpath
      intro written hwritten
      rcases hfs.writes target file s with hsame | hnew | hbad
      · exact hs written (hsame.symm.trans hwritten)
      · obtain rfl := FileContent.cache.inj (hnew.symm.trans hwritten)
        exact hc _ rfl
      · cases hwritten.symm.trans hbad
    · rw [hfs.elsewhere path file s target hpath]
      exact hs
  · push Not at hwrite
    rw [hfs.untouched c s hwrite]
    exact hs

omit hfs in
theorem writesForm_saveIf {path : String} {file : DnsCacheFile}
    (hfile : path = target → FileForm (sortEntries file)) :
    (saveIf writeCache path file).Calls (WritesForm target) := by
  unfold saveIf saveCache
  split_ifs
  · refine .call (fun _ h => by cases h) fun made => ?_
    cases made with
    | error cause => exact .fail _
    | ok _ =>
        refine .call (fun written hwritten => ?_) fun done => ?_
        · obtain ⟨rfl, rfl⟩ := CacheCall.write.inj hwritten
          exact hfile rfl
        · cases done with
          | error cause => exact .fail _
          | ok _ => exact .pure _
  · exact .pure _

/-- What is loaded is in form if it comes from the path. -/
theorem keepsForm_load {α : Type} {path : String} {next : DnsCacheFile → CacheProgram α}
    (hnext : ∀ file, (path = target → FileForm file) → KeepsForm h files target (next file)) :
    KeepsForm h files target ((loadCacheOrEmpty path).bind next) := by
  refine Program.Keeps.bind h (keepsForm_of_calls hfs ?_) fun file hfile => hnext file ?_
  · refine .call (fun _ h => by cases h) fun content => ?_
    rcases content with cause | (_ | _ | file)
    · exact .fail _
    · exact .pure _
    · exact .fail _
    · exact .pure _
  · rintro rfl
    obtain ⟨s, t, hs, hrun⟩ := hfile
    rw [loadCacheOrEmpty, Program.run_call] at hrun
    cases hread : (h (.read path) s).1 with
    | error cause =>
        rw [hread] at hrun
        cases hrun
    | ok content =>
        rw [hread] at hrun
        have hform : InForm content := hfs.reads path s content hread ▸ hs
        cases content with
        | absent =>
            obtain ⟨hempty, -⟩ := Prod.mk.inj hrun
            rw [← Except.ok.inj hempty]
            exact fileForm_empty
        | malformed => cases hrun
        | cache held =>
            have hheld := hform held rfl
            obtain ⟨hsorted, -⟩ := Prod.mk.inj hrun
            rw [← Except.ok.inj hsorted, hheld.sortEntries_eq]
            exact hheld

theorem keepsForm_ofExcept {α : Type} (r : Except Error α) :
    KeepsForm h files target (Program.ofExcept r) :=
  keepsForm_of_calls hfs (Program.Calls.ofExcept r)

theorem keepsForm_fallback {name : String} {existing : Option DnsCacheEntry} {now : UInt64}
    {file : DnsCacheFile} {error : String}
    (hfile : cfg.dnsCache.path = target → FileForm file)
    (hexisting : cfg.dnsCache.path = target → ∀ entry ∈ existing, EntryForm entry) :
    KeepsForm h files target
      (fallbackAfterLiveFailure cfg name existing now writeCache file error) := by
  unfold fallbackAfterLiveFailure
  cases existing with
  | none => exact Program.Keeps.pure h _
  | some entry =>
      refine Program.Keeps.bind h (keepsForm_of_calls hfs (writesForm_saveIf fun hpath => ?_))
        fun _ _ => ?_
      · exact (hfile hpath).upsert ((hexisting hpath entry rfl).noted _)
      · split_ifs <;> exact Program.Keeps.pure h _

omit hfs in
theorem isDottedQuad_of_resolveDomainV4 {name : String} {ips : List String} {s t : σ}
    (hname : normalizeDomain name = .ok name)
    (hrun : Program.run h (resolveDomainV4 name) s = (.ok ips, t)) :
    ∀ ip ∈ ips, IsDottedQuad ip := by
  unfold resolveDomainV4 at hrun
  rw [hname] at hrun
  change Program.run h (.call _ _) s = _ at hrun
  rw [Program.run_call] at hrun
  cases hfound : (h (.lookup name) s).1 with
  | error cause =>
      rw [hfound] at hrun
      cases hrun
  | ok addrs =>
      rw [hfound] at hrun
      obtain ⟨hips, -⟩ := Prod.mk.inj hrun
      intro ip hip
      rw [← Except.ok.inj hips, mem_uniqueSorted] at hip
      obtain ⟨addr, -, haddr⟩ := List.mem_filterMap.mp hip
      exact isDottedQuad_ipv4Text haddr

theorem keepsForm_resolveDomainV4 (name : String) :
    KeepsForm h files target (resolveDomainV4 name) := by
  refine keepsForm_of_calls hfs (Program.Calls.bind (Program.Calls.ofExcept _) fun name =>
    .call (fun _ h => by cases h) fun found => ?_)
  cases found with
  | error cause => exact .fail _
  | ok addrs => exact .pure _

theorem keepsForm_resolveLive {name : String} {now : UInt64} {file : DnsCacheFile}
    (hname : normalizeDomain name = .ok name) (hfile : cfg.dnsCache.path = target → FileForm file) :
    KeepsForm h files target (resolveLive cfg name writeCache now file) := by
  have hfound : cfg.dnsCache.path = target → ∀ entry ∈ file.find name, EntryForm entry :=
    fun hpath entry hentry => (hfile hpath).find hentry
  refine Program.Keeps.bind h (Program.Keeps.attempt h (keepsForm_resolveDomainV4 hfs name))
    fun outcome houtcome => ?_
  cases outcome with
  | error e => exact keepsForm_fallback hfs hfile hfound
  | ok ips =>
      dsimp only
      split_ifs with hips
      · obtain ⟨s, t, -, hrun⟩ := houtcome
        rw [Program.run_attempt] at hrun
        obtain ⟨hrun, -⟩ := Prod.mk.inj hrun
        have hdotted : ∀ ip ∈ ips, IsDottedQuad ip := by
          cases hlookup : Program.run h (resolveDomainV4 name) s with
          | mk r u =>
              rw [hlookup] at hrun
              obtain rfl := Except.ok.inj hrun
              exact isDottedQuad_of_resolveDomainV4 hname hlookup
        have hsome : uniqueSorted ips ≠ [] := fun hnil => hips (uniqueSorted_eq_nil.mp hnil)
        refine Program.Keeps.bind h (keepsForm_of_calls hfs (writesForm_saveIf fun hpath => ?_))
          fun _ _ => Program.Keeps.pure h _
        exact (hfile hpath).upsert (EntryForm.answer hname hsome hdotted)
      · exact keepsForm_fallback hfs hfile hfound

theorem keepsForm_resolveWithMode (domain : String) (mode : RefreshMode) :
    KeepsForm h files target (resolveWithMode cfg domain writeCache mode) := by
  refine Program.Keeps.bind h (keepsForm_ofExcept hfs _) fun name hname => ?_
  have hnorm : normalizeDomain name = .ok name := by
    obtain ⟨s, t, -, hrun⟩ := hname
    rw [Program.run_ofExcept] at hrun
    exact normalizeDomain_normalized (Prod.mk.inj hrun).1
  by_cases henabled : cfg.dnsCache.enabled = true
  · rw [if_neg (not_not.mpr henabled)]
    refine Program.Keeps.bind h (keepsForm_of_calls hfs (.call (fun _ h => by cases h)
      fun now => .pure _)) fun now _ => keepsForm_load hfs fun file hfile => ?_
    cases freshEntry mode (file.find name) now with
    | some entry => exact Program.Keeps.pure h _
    | none => exact keepsForm_resolveLive hfs hnorm hfile
  · rw [if_pos henabled]
    exact Program.Keeps.bind h (keepsForm_resolveDomainV4 hfs name) fun _ _ => Program.Keeps.pure h _

theorem keepsForm_refreshEach (domains : List String) :
    KeepsForm h files target (refreshEach cfg writeCache domains) := by
  induction domains with
  | nil => exact Program.Keeps.pure h _
  | cons domain domains ih =>
      exact Program.Keeps.bind h (keepsForm_resolveWithMode hfs domain .forceLive)
        fun _ _ => Program.Keeps.bind h ih fun _ _ => Program.Keeps.pure h _

theorem keepsForm_upsert {ips : List String} (hdotted : ∀ ip ∈ ips, IsDottedQuad ip)
    (domain : String) :
    KeepsForm h files target (upsertLiveIpsFromProxy cfg domain ips writeCache) := by
  refine Program.Keeps.bind h (keepsForm_ofExcept hfs _) fun name hname => ?_
  have hnorm : normalizeDomain name = .ok name := by
    obtain ⟨s, t, -, hrun⟩ := hname
    rw [Program.run_ofExcept] at hrun
    exact normalizeDomain_normalized (Prod.mk.inj hrun).1
  dsimp only
  split_ifs with hips henabled
  · exact Program.Keeps.pure h _
  · refine keepsForm_load hfs fun file hfile => Program.Keeps.bind h (keepsForm_of_calls hfs
      (.call (fun _ h => by cases h) fun now => .pure _)) fun now _ => ?_
    refine Program.Keeps.bind h (keepsForm_of_calls hfs (writesForm_saveIf fun hpath => ?_))
      fun _ _ => Program.Keeps.pure h _
    exact (hfile hpath).upsert (EntryForm.answer hnorm hips hdotted)
  · exact Program.Keeps.pure h _

theorem keepsForm_prune :
    KeepsForm h files target (pruneCacheToConfiguredDomains cfg writeCache) := by
  refine keepsForm_load hfs fun file hfile => ?_
  refine Program.Keeps.bind h (keepsForm_of_calls hfs (writesForm_saveIf fun hpath => ?_))
    fun _ _ => Program.Keeps.pure h _
  exact (hfile hpath).filter _

end Calls

/-! ### Sequences of calls -/

def CacheOp.program (cfg : Config) : CacheOp → CacheProgram Unit
  | .runtime domain writeCache => (resolveForRuntime cfg domain writeCache).bind fun _ => .pure ()
  | .refresh domain writeCache => (refreshDomain cfg domain writeCache).bind fun _ => .pure ()
  | .refreshAll writeCache => (refreshDomainPolicies cfg writeCache).bind fun _ => .pure ()
  | .proxy domain ips writeCache =>
    (upsertLiveIpsFromProxy cfg domain ips writeCache).bind fun _ => .pure ()
  | .prune writeCache => (pruneCacheToConfiguredDomains cfg writeCache).bind fun _ => .pure ()

/-- The proxy hands over what it has read in a response. -/
def CacheOp.AsCalled : CacheOp → Prop
  | .proxy _ ips _ => ∃ response, parseARecords response = .ok ⟨ips⟩
  | _ => True

/-- Call after call, each under its own configuration, whether it returns or fails. -/
def runCalls {σ : Type} (h : Handler cacheInterface σ) (calls : List (Config × CacheOp)) (s : σ) :
    σ :=
  calls.foldl (fun s call => (Program.run h (call.2.program call.1) s).2) s

section Runs

variable {σ : Type} {h : Handler cacheInterface σ} {files : σ → String → FileContent}
  {target : String}

theorem keepsForm_program (hfs : FileSystem h files) (cfg : Config) {op : CacheOp}
    (hop : op.AsCalled) : KeepsForm h files target (op.program cfg) := by
  cases op with
  | runtime domain writeCache =>
      exact Program.Keeps.bind h (keepsForm_resolveWithMode hfs domain .preferFreshCache)
        fun _ _ => Program.Keeps.pure h _
  | refresh domain writeCache =>
      exact Program.Keeps.bind h (keepsForm_resolveWithMode hfs domain .forceLive)
        fun _ _ => Program.Keeps.pure h _
  | refreshAll writeCache =>
      exact Program.Keeps.bind h (Program.Keeps.bind h (keepsForm_ofExcept hfs _)
        fun domains _ => keepsForm_refreshEach hfs domains) fun _ _ => Program.Keeps.pure h _
  | proxy domain ips writeCache =>
      obtain ⟨response, hresponse⟩ := hop
      exact Program.Keeps.bind h
        (keepsForm_upsert hfs (isDottedQuad_of_parseARecords hresponse) domain)
        fun _ _ => Program.Keeps.pure h _
  | prune writeCache =>
      exact Program.Keeps.bind h (keepsForm_prune hfs) fun _ _ => Program.Keeps.pure h _

/-- No sequence of calls, under whatever configurations, brings a path out of form. -/
theorem cache_stays_in_form (hfs : FileSystem h files) (path : String)
    (calls : List (Config × CacheOp)) (hcalls : ∀ call ∈ calls, call.2.AsCalled) (s : σ)
    (hstart : InForm (files s path)) : InForm (files (runCalls h calls s) path) := by
  induction calls generalizing s with
  | nil => exact hstart
  | cons call calls ih =>
      rw [runCalls, List.foldl_cons]
      exact ih (fun later hlater => hcalls later (List.mem_cons_of_mem _ hlater)) _
        ((keepsForm_program hfs call.1 (hcalls call List.mem_cons_self)).run h hstart)

end Runs

/-- Two refreshes with different times to live, and what the proxy reads in an answer. -/
theorem cache_stays_in_form_twoDomains :
    InForm ((runCalls (cacheHost answeringCache)
      [(twoDomains, .refreshAll true), (domainConfig, .proxy "A.example" ["192.0.2.1"] true),
        (domainConfig, .prune true)] bareState.2).files twoDomains.dnsCache.path) := by
  refine cache_stays_in_form (fileSystem_cacheHost fun k cause left h => ?_) _ _ ?_ _ ?_
  · cases h
  · intro call hcall
    simp only [List.mem_cons, List.not_mem_nil, or_false] at hcall
    rcases hcall with rfl | rfl | rfl
    · trivial
    · exact ⟨bothAnswer, by decide +kernel⟩
    · trivial
  · intro file hfile
    cases hfile

end EveNet
