import EveNet.CallProgram
import EveNet.KeyedList
import EveNet.Config

/-!
# The DNS cache file

The cache operations are programs that call on the clock, the system resolver and the
file system. The surroundings hold the files and count the calls answered so far, and
`CacheEnv` says what the clock, the resolver and the file system do at each of them.
A file is known here by what reading it back gives.
-/

namespace EveNet

/-- `a + b` on 64-bit numbers, stopping at the largest one. -/
def saturatingAdd (a b : UInt64) : UInt64 :=
  if a.toNat + b.toNat < 2 ^ 64 then a + b else UInt64.ofNat (2 ^ 64 - 1)

theorem toNat_saturatingAdd (a b : UInt64) :
    (saturatingAdd a b).toNat = min (a.toNat + b.toNat) (2 ^ 64 - 1) := by
  unfold saturatingAdd
  split_ifs with h
  · rw [UInt64.toNat_add, Nat.mod_eq_of_lt h]
    omega
  · rw [UInt64.toNat_ofNat_of_lt' (by norm_num)]
    omega

/-! ### Surroundings -/

/-- What a path holds: nothing, a text that does not parse, or a cache. -/
inductive FileContent where
  | absent
  | malformed
  | cache (file : DnsCacheFile)
  deriving DecidableEq

inductive CacheCall where
  | nowEpoch
  | lookup (domain : String)
  | read (path : String)
  | createParentDir (path : String)
  | write (path : String) (file : DnsCacheFile)
  deriving DecidableEq

/-- The calls of the cache operations. A read gives the content or the error of the file
system, a lookup the addresses found or the resolver's error. -/
abbrev cacheInterface : Interface where
  Call := CacheCall
  Answer
    | .nowEpoch => UInt64
    | .lookup _ => Except String (List SocketAddr)
    | .read _ => Except String FileContent
    | .createParentDir _ => Except String Unit
    | .write _ _ => Except String Unit

/-- How a write ends: the file is written, it could not be opened, or it was truncated
and the write broke off with some of what was to be written left behind. -/
inductive WriteOutcome where
  | done
  | refused (cause : String)
  | interrupted (cause : String) (left : DnsCacheFile → FileContent)

/-- What the clock, the resolver and the file system do at the `k`-th call. -/
structure CacheEnv where
  clock : ℕ → UInt64
  lookups : ℕ → String → Except String (List SocketAddr)
  readFails : ℕ → Option String
  mkdirFails : ℕ → Option String
  writes : ℕ → WriteOutcome

structure CacheStore where
  files : String → FileContent
  calls : ℕ

namespace CacheStore

def tick (s : CacheStore) : CacheStore := { s with calls := s.calls + 1 }

def setFile (s : CacheStore) (path : String) (content : FileContent) : CacheStore :=
  { s with files := Function.update s.files path content }

@[simp] theorem tick_files (s : CacheStore) : s.tick.files = s.files := rfl

@[simp] theorem tick_calls (s : CacheStore) : s.tick.calls = s.calls + 1 := rfl

@[simp] theorem setFile_files_self (s : CacheStore) (path : String) (content : FileContent) :
    (s.setFile path content).files path = content := by simp [setFile]

@[simp] theorem setFile_calls (s : CacheStore) (path : String) (content : FileContent) :
    (s.setFile path content).calls = s.calls := rfl

end CacheStore

/-- The file system, resolver and clock as a handler. -/
def cacheHost (env : CacheEnv) : Handler cacheInterface CacheStore
  | .nowEpoch, s => (env.clock s.calls, s.tick)
  | .lookup domain, s => (env.lookups s.calls domain, s.tick)
  | .read path, s =>
    match env.readFails s.calls with
    | some cause => (.error cause, s.tick)
    | none => (.ok (s.files path), s.tick)
  | .createParentDir _, s =>
    match env.mkdirFails s.calls with
    | some cause => (.error cause, s.tick)
    | none => (.ok (), s.tick)
  | .write path file, s =>
    match env.writes s.calls with
    | .done => (.ok (), s.tick.setFile path (.cache file))
    | .refused cause => (.error cause, s.tick)
    | .interrupted cause left => (.error cause, s.tick.setFile path (left file))

/-! ### Loading and saving -/

/-- A program over the cache's surroundings. -/
abbrev CacheProgram := Program cacheInterface Error

def nowEpoch : CacheProgram UInt64 := .call .nowEpoch .pure

def sortEntries (file : DnsCacheFile) : DnsCacheFile :=
  { file with entries := KeyedList.sortBy (·.domain) file.entries }

def emptyCache : DnsCacheFile where
  version := 1
  generatedBy := "eve-net"
  entries := []

/-- `path.parent()` as text. -/
def parentDir (path : String) : String :=
  String.ofList ((path.toList.rdropWhile (· != '/')).dropLast)

def loadCacheOrEmpty (path : String) : CacheProgram DnsCacheFile :=
  .call (.read path) fun
    | .error cause => .fail ["failed to read DNS cache: " ++ path, cause]
    | .ok .absent => .pure emptyCache
    | .ok .malformed => .fail ["failed to parse DNS cache: " ++ path]
    | .ok (.cache file) => .pure (sortEntries file)

def saveCache (path : String) (file : DnsCacheFile) : CacheProgram Unit :=
  .call (.createParentDir path) fun
    | .error cause =>
      .fail ["failed to create DNS cache directory: " ++ parentDir path, cause]
    | .ok () =>
      .call (.write path (sortEntries file)) fun
        | .error cause => .fail ["failed to write DNS cache: " ++ path, cause]
        | .ok () => .pure ()

/-- Save only when asked to. -/
def saveIf (writeCache : Bool) (path : String) (file : DnsCacheFile) : CacheProgram Unit :=
  if writeCache then saveCache path file else .pure ()

/-! ### Resolution -/

/-- A sorted list without duplicates, as a `BTreeSet` yields it. -/
def uniqueSorted (values : List String) : List String :=
  values.dedup.insertionSort (· ≤ ·)

/-- The text of an IPv4 address; IPv6 answers are dropped. -/
def ipv4Text : SocketAddr → Option String
  | .v4 a b c d _ => some (dottedQuad a b c d)
  | .v6 .. => none

def resolveDomainV4 (domain : String) : CacheProgram (List String) := do
  let domain ← Program.ofExcept (normalizeDomain domain)
  .call (.lookup domain) fun
    | .error cause => .fail ["failed to resolve domain: " ++ domain, cause]
    | .ok addrs => .pure (uniqueSorted (addrs.filterMap ipv4Text))

inductive ResolutionSource where
  | live
  | cacheFresh
  | cacheStale
  | empty
  deriving DecidableEq

inductive RefreshMode where
  | preferFreshCache
  | forceLive
  deriving DecidableEq

structure DomainResolution where
  domain : String
  ips : List String
  source : ResolutionSource
  entry : Option DnsCacheEntry
  lastError : Option String
  deriving DecidableEq

def DnsCacheFile.find (file : DnsCacheFile) (domain : String) : Option DnsCacheEntry :=
  KeyedList.lookup (·.domain) domain file.entries

def upsertEntry (file : DnsCacheFile) (entry : DnsCacheEntry) : DnsCacheFile :=
  { file with entries := KeyedList.upsert (·.domain) entry file.entries }

/-- The entry written for an answer obtained at time `now`. -/
def answerEntry (cfg : Config) (domain : String) (ips : List String) (now : UInt64)
    (source : String) : DnsCacheEntry where
  domain := domain
  resolvedIpv4 := ips
  resolvedAtEpoch := now
  expiresAtEpoch := saturatingAdd now cfg.dnsCache.ttlSec
  source := source
  lastError := none

def canUseStale (cfg : Config) (entry : DnsCacheEntry) (now : UInt64) : Bool :=
  let withinGrace := saturatingAdd entry.expiresAtEpoch cfg.dnsCache.staleGraceSec ≥ now
  let allowStaleMode := trim cfg.dnsCache.unresolvedDomainMode.toList = "allow_stale".toList
  (allowStaleMode ∨ ¬ cfg.dnsCache.failClosedUnresolved) ∧ withinGrace ∧ entry.resolvedIpv4 ≠ []

def fallbackAfterLiveFailure (cfg : Config) (domain : String) (existing : Option DnsCacheEntry)
    (now : UInt64) (writeCache : Bool) (cache : DnsCacheFile) (error : String) :
    CacheProgram DomainResolution :=
  match existing with
  | some entry => do
    let entry := { entry with lastError := some error }
    saveIf writeCache cfg.dnsCache.path (upsertEntry cache entry)
    if canUseStale cfg entry now then
      pure ⟨domain, entry.resolvedIpv4, .cacheStale, some entry, some error⟩
    else pure ⟨domain, [], .empty, some entry, some error⟩
  | none => pure ⟨domain, [], .empty, none, some error⟩

/-- What is known of a domain before any lookup: its entry, if it can be served as it is. -/
def freshEntry (mode : RefreshMode) (existing : Option DnsCacheEntry) (now : UInt64) :
    Option DnsCacheEntry :=
  if mode = .preferFreshCache then
    existing.filter (fun entry => now < entry.expiresAtEpoch ∧ entry.resolvedIpv4 ≠ [])
  else none

def resolveLive (cfg : Config) (domain : String) (writeCache : Bool) (now : UInt64)
    (cache : DnsCacheFile) : CacheProgram DomainResolution := do
  let existing := cache.find domain
  match ← Program.attempt (resolveDomainV4 domain) with
  | .ok ips =>
    if ips ≠ [] then do
      let ips := uniqueSorted ips
      let entry := answerEntry cfg domain ips now "live"
      saveIf writeCache cfg.dnsCache.path (upsertEntry cache entry)
      pure ⟨domain, ips, .live, some entry, none⟩
    else
      fallbackAfterLiveFailure cfg domain existing now writeCache cache
        "resolver returned zero IPv4 addresses"
  | .error err =>
    fallbackAfterLiveFailure cfg domain existing now writeCache cache (Error.display err)

def resolveWithMode (cfg : Config) (domain : String) (writeCache : Bool) (mode : RefreshMode) :
    CacheProgram DomainResolution := do
  let domain ← Program.ofExcept (normalizeDomain domain)
  if ¬ cfg.dnsCache.enabled then do
    let ips ← resolveDomainV4 domain
    pure ⟨domain, ips, .live, none, none⟩
  else do
    let now ← nowEpoch
    let cache ← loadCacheOrEmpty cfg.dnsCache.path
    match freshEntry mode (cache.find domain) now with
    | some entry =>
      pure ⟨domain, entry.resolvedIpv4, .cacheFresh, some entry, entry.lastError⟩
    | none => resolveLive cfg domain writeCache now cache

def resolveForRuntime (cfg : Config) (domain : String) (writeCache : Bool) :
    CacheProgram DomainResolution :=
  resolveWithMode cfg domain writeCache .preferFreshCache

def refreshDomain (cfg : Config) (domain : String) (writeCache : Bool) :
    CacheProgram DomainResolution :=
  resolveWithMode cfg domain writeCache .forceLive

/-- The domains of the enabled policies, as a `BTreeSet` yields them. -/
def enabledDomains (cfg : Config) : Except Error (List String) := do
  let domains ← (cfg.enabledPolicies.filterMap (fun policy => policy.matchSpec.domain)).mapM
    normalizeDomain
  .ok (uniqueSorted domains)

def refreshEach (cfg : Config) (writeCache : Bool) :
    List String → CacheProgram (List DomainResolution)
  | [] => .pure []
  | domain :: domains => do
    let resolution ← refreshDomain cfg domain writeCache
    let resolutions ← refreshEach cfg writeCache domains
    pure (resolution :: resolutions)

def refreshDomainPolicies (cfg : Config) (writeCache : Bool) :
    CacheProgram (List DomainResolution) := do
  let domains ← Program.ofExcept (enabledDomains cfg)
  refreshEach cfg writeCache domains

/-! ### The other writers -/

/-- The domains of the configuration that a cache entry may be for. -/
def configuredDomains (cfg : Config) : List String :=
  (cfg.policies.filterMap (fun policy => policy.matchSpec.domain)).filterMap
    (fun domain => (normalizeDomain domain).toOption)

def pruneCacheToConfiguredDomains (cfg : Config) (writeCache : Bool) :
    CacheProgram (ℕ × ℕ) := do
  let cache ← loadCacheOrEmpty cfg.dnsCache.path
  let kept := cache.entries.filter (fun entry => entry.domain ∈ configuredDomains cfg)
  saveIf (writeCache && cache.entries.length != kept.length) cfg.dnsCache.path
    { cache with entries := kept }
  pure (cache.entries.length, kept.length)

def upsertLiveIpsFromProxy (cfg : Config) (domain : String) (ips : List String)
    (writeCache : Bool) : CacheProgram (Option DnsCacheEntry) := do
  let domain ← Program.ofExcept (normalizeDomain domain)
  let ips := uniqueSorted ips
  if ips = [] then pure none
  else if ¬ cfg.dnsCache.enabled then pure none
  else do
    let cache ← loadCacheOrEmpty cfg.dnsCache.path
    let now ← nowEpoch
    let entry := answerEntry cfg domain ips now "dns-proxy"
    saveIf writeCache cfg.dnsCache.path (upsertEntry cache entry)
    pure (some entry)

end EveNet
