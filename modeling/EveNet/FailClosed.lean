import EveNet.Staleness

/-!
# What is served when no lookup works

When the resolver gives no address, the cache may still serve what it holds. The mode
`allow_stale` lets it serve what is past its time to live, within the grace period; so does
a configuration that does not set `failClosedUnresolved`, whatever its mode.
-/

namespace EveNet

section FailClosed

variable {cfg : Config} {entry : DnsCacheEntry} {content : FileContent} {now : UInt64}
  {domain name : String} {writeCache : Bool}

def allowsStale (cfg : Config) : Prop :=
  trim cfg.dnsCache.unresolvedDomainMode.toList = "allow_stale".toList

/-- The grace period of the entry is not over. -/
def WithinGrace (cfg : Config) (entry : DnsCacheEntry) (now : UInt64) : Prop :=
  now.toNat ≤ entry.expiresAtEpoch.toNat + cfg.dnsCache.staleGraceSec.toNat

theorem withinGrace_iff :
    now ≤ saturatingAdd entry.expiresAtEpoch cfg.dnsCache.staleGraceSec ↔
      WithinGrace cfg entry now := by
  have hnow := now.toNat_lt
  rw [UInt64.le_iff_toNat_le, toNat_saturatingAdd, WithinGrace]
  omega

theorem canUseStale_iff : canUseStale cfg entry now = true ↔
    (allowsStale cfg ∨ cfg.dnsCache.failClosedUnresolved = false) ∧
      WithinGrace cfg entry now ∧ entry.resolvedIpv4 ≠ [] := by
  simp only [canUseStale, ge_iff_le, withinGrace_iff, decide_eq_true_eq, Bool.not_eq_true,
    allowsStale]

/-- What a resolution may return without an answer: the addresses of a fresh entry, and in mode
`allow_stale` those of an entry in its grace period. -/
def MayServe (cfg : Config) (content : FileContent) (now : UInt64) (name : String)
    (res : DomainResolution) : Prop :=
  res.ips ≠ [] → ∃ entry, content.find name = some entry ∧ res.ips = entry.resolvedIpv4 ∧
    (now < entry.expiresAtEpoch ∨ allowsStale cfg ∧ WithinGrace cfg entry now)

/-- With this file at this time, every resolution of the domain whose lookup gives no address
returns what it may. -/
def FailsClosed (cfg : Config) (content : FileContent) (now : UInt64) (domain : String)
    (writeCache : Bool) : Prop :=
  ∀ (env : CacheEnv) (s t : CacheStore) (name error : String) (res : DomainResolution),
    s.files cfg.dnsCache.path = content → env.clock s.calls = now →
    normalizeDomain domain = .ok name → answerAt env (s.calls + 2) name = .error error →
    Program.run (cacheHost env) (resolveForRuntime cfg domain writeCache) s = (.ok res, t) →
    MayServe cfg content now name res

/-- The entry is past its time to live, but in its grace period and not empty. -/
def Stale (cfg : Config) (now : UInt64) (entry : DnsCacheEntry) : Prop :=
  entry.expiresAtEpoch ≤ now ∧ WithinGrace cfg entry now ∧ entry.resolvedIpv4 ≠ []

theorem mayServe_of_resolved {error : String} {res : DomainResolution} {after : FileContent}
    (hclosed : allowsStale cfg ∨ cfg.dnsCache.failClosedUnresolved = true ∨
      ∀ entry, content.find name = some entry → ¬ Stale cfg now entry)
    (h : Resolved cfg name writeCache .preferFreshCache now content (.error error) res after) :
    MayServe cfg content now name res := by
  intro hips
  cases h with
  | fresh entry hentry hmode hnow _ => exact ⟨entry, hentry, rfl, Or.inl hnow⟩
  | live hasked hanswer => cases hanswer
  | unknown error hasked hanswer hentry => exact absurd rfl hips
  | expired entry error hasked hanswer hentry hstale => exact absurd rfl hips
  | stale entry error hasked hanswer hentry hstale =>
      obtain ⟨hmode, hgrace, hsome⟩ := canUseStale_iff.mp hstale
      refine ⟨entry, hentry, rfl, ?_⟩
      by_cases hfresh : now < entry.expiresAtEpoch
      · exact Or.inl hfresh
      · right
        rcases hclosed with hallow | hclosed | hnone
        · exact ⟨hallow, hgrace⟩
        · rcases hmode with hallow | hopen
          · exact ⟨hallow, hgrace⟩
          · rw [hclosed] at hopen
            cases hopen
        · exact absurd ⟨UInt64.not_lt.mp hfresh, hgrace, hsome⟩ (hnone entry hentry)

/-- A host on which the file system works, the clock stands still and no lookup does. -/
def deafHost (now : UInt64) : CacheEnv where
  clock _ := now
  lookups _ _ := .error "Temporary failure in name resolution"
  readFails _ := none
  mkdirFails _ := none
  writes _ := .done

/-- Stale addresses are served without `allow_stale` if nothing else is set to forbid it. -/
theorem serves_stale (henabled : cfg.dnsCache.enabled = true) (hmode : ¬ allowsStale cfg)
    (hopen : cfg.dnsCache.failClosedUnresolved = false) (hname : normalizeDomain domain = .ok name)
    (hentry : content.find name = some entry) (hstale : Stale cfg now entry) :
    ¬ FailsClosed cfg content now domain writeCache := by
  intro hclosed
  set s : CacheStore := ⟨fun _ => content, 0⟩ with hs
  have hanswer : answerAt (deafHost now) (s.calls + 2) name =
      .error ("failed to resolve domain: " ++ name) := rfl
  have hworking : Working (deafHost now) := ⟨fun _ => rfl, fun _ => rfl, fun _ => rfl⟩
  rcases resolveWithMode_cases (deafHost now) writeCache .preferFreshCache s henabled hname with
    ⟨e, -, hfails | hmalformed⟩ | ⟨e, -, -, hbroken⟩ | ⟨res, hok, hgood⟩
  · exact hfails rfl
  · have hcontent : content = .malformed := hmalformed
    rw [hcontent] at hentry
    cases hentry
  · exact hbroken hworking
  · have hrun : ∃ t, Program.run (cacheHost (deafHost now))
        (resolveForRuntime cfg domain writeCache) s = (.ok res, t) := by
      rw [resolveForRuntime]
      exact ⟨_, Prod.ext hok rfl⟩
    obtain ⟨t, hrun⟩ := hrun
    have hserved := hclosed (deafHost now) s t name _ res rfl rfl hname hanswer hrun
    rw [hanswer] at hgood
    generalize (Program.run (cacheHost (deafHost now))
      (resolveWithMode cfg domain writeCache .preferFreshCache) s).2.files
        cfg.dnsCache.path = after at hgood
    have hold : ∀ e : DnsCacheEntry, content.find name = some e → ¬ now < e.expiresAtEpoch := by
      intro e he
      obtain rfl := Option.some.inj (hentry.symm.trans he)
      exact UInt64.not_lt.mpr hstale.1
    cases hgood with
    | fresh e he _ hnow _ => exact hold e he hnow
    | live hasked hanswer' => cases hanswer'
    | unknown error hasked hanswer' hnone =>
        rw [show content.find name = none from hnone] at hentry
        cases hentry
    | stale e error hasked hanswer' he huse =>
        obtain ⟨-, -, hips⟩ := canUseStale_iff.mp huse
        obtain ⟨held, hheld, -, hnow | ⟨hallow, -⟩⟩ := hserved hips
        · exact hold held hheld hnow
        · exact hmode hallow
    | expired e error hasked hanswer' he huse =>
        obtain rfl := Option.some.inj (hentry.symm.trans he)
        have huse' : canUseStale cfg { entry with lastError := some error } now = true :=
          canUseStale_iff.mpr ⟨Or.inr hopen, hstale.2.1, hstale.2.2⟩
        exact absurd (huse'.symm.trans huse) (by decide)

end FailClosed

/-- Without an answer nothing stale is served against the mode, except under a configuration
that does not set `failClosedUnresolved`, for a domain with a stale entry. -/
theorem fails_closed_iff (cfg : Config) (henabled : cfg.dnsCache.enabled = true)
    (content : FileContent) (now : UInt64) (domain : String) (writeCache : Bool) :
    FailsClosed cfg content now domain writeCache ↔
      allowsStale cfg ∨ cfg.dnsCache.failClosedUnresolved = true ∨
        ∀ name entry, normalizeDomain domain = .ok name → content.find name = some entry →
          ¬ Stale cfg now entry := by
  constructor
  · intro hclosed
    by_contra hopen
    push Not at hopen
    obtain ⟨hmode, hflag, name, entry, hname, hentry, hstale⟩ := hopen
    exact serves_stale henabled hmode (by simpa using hflag) hname hentry hstale hclosed
  · rintro hclosed env s t name error res rfl rfl hname hanswer hrun
    rcases resolveWithMode_cases env writeCache .preferFreshCache s henabled hname with
      ⟨e, hrun', -⟩ | ⟨e, hrun', -⟩ | ⟨res', hok, hgood⟩
    · rw [resolveForRuntime, hrun'] at hrun
      cases hrun
    · rw [← resolveForRuntime, hrun] at hrun'
      cases hrun'
    · rw [← resolveForRuntime, hrun] at hok
      obtain rfl := Except.ok.inj hok
      rw [hanswer] at hgood
      exact mayServe_of_resolved
        (hclosed.imp_right (Or.imp_right fun hnone entry => hnone name entry hname)) hgood

/-- An entry that expired at 1300. -/
def expiredFile : FileContent :=
  .cache ⟨1, "eve-net", [⟨"a.example", ["192.0.2.1"], 1000, 1300, "live", none⟩]⟩

theorem fails_closed_iff_expired : FailsClosed twoDomains expiredFile 1400 "A.example" true :=
  (fails_closed_iff twoDomains rfl expiredFile 1400 "A.example" true).mpr (Or.inr (Or.inl rfl))

/-- The mode fails closed, but the flag is not set. -/
def openConfig : Config :=
  { twoDomains with dnsCache := { failClosedUnresolved := false } }

theorem not_fails_closed : ¬ ∀ cfg : Config, cfg.validate = .ok () →
    trim cfg.dnsCache.unresolvedDomainMode.toList ∈
      ["soft_fail_closed_l3".toList, "hard_fail_closed_dns_required".toList] →
    cfg.dnsCache.enabled = true → ∀ content now domain writeCache,
      FailsClosed cfg content now domain writeCache := by
  intro h
  have hstale : Stale openConfig 1400 ⟨"a.example", ["192.0.2.1"], 1000, 1300, "live", none⟩ := by
    refine ⟨by decide, ?_, by simp⟩
    rw [WithinGrace]
    decide
  refine serves_stale rfl ?_ rfl (by decide : normalizeDomain "a.example" = .ok "a.example")
    (by decide : expiredFile.find "a.example" = some _) hstale
    (h openConfig (by decide) (by decide) rfl expiredFile 1400 "a.example" true)
  rw [allowsStale]
  decide

end EveNet
