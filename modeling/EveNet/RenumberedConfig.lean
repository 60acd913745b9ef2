import EveNet.JsonNumbers

/-!
# Configurations read and written again

The numbers that a configuration holds are small natural numbers, which whoever reads and writes
the file keeps as they are. So the file is decoded to the same configuration afterwards, whatever
became of the numbers in members that are not looked at.
-/

namespace EveNet

/-- Natural numbers that fit into 64 bits are printed as they were written. -/
def KeepsNaturals (number : String → String) : Prop :=
  ∀ text value, Json.asNat (2 ^ 64) (.num text) = some value → number text = text

/-- What is read from a value is read from the value that was read and written too. -/
def Rereads {α : Type} (number : String → String) (read : Json → Option α) : Prop :=
  ∀ json a, read json = some a → read (json.renumber number) = some a

/-! ### Plain values -/

section Plain

variable {α : Type} {number : String → String} {read : Json → Option α}

theorem reread_asBool : Rereads number Json.asBool := by
  intro json a h
  cases json <;> exact h

theorem reread_asStr : Rereads number Json.asStr := by
  intro json a h
  cases json <;> exact h

theorem reread_asNat (hnumber : KeepsNaturals number) {bound : ℕ} (hbound : bound ≤ 2 ^ 64) :
    Rereads number (Json.asNat bound) := by
  rintro (_ | b | text | s | items | members) a h <;> try cases h
  have hwide : Json.asNat (2 ^ 64) (.num text) = some a := by
    simp only [Json.asNat] at h ⊢
    split_ifs at h with hdigits
    rw [if_pos ⟨hdigits.1, hdigits.2.1, hdigits.2.2.trans_le hbound⟩]
    exact h
  change Json.asNat bound (.num (number text)) = some a
  rw [hnumber text a hwide]
  exact h

theorem reread_asU32 (hnumber : KeepsNaturals number) : Rereads number Json.asU32 := by
  intro json a h
  obtain ⟨value, hvalue, rfl⟩ := Option.map_eq_some_iff.mp h
  rw [Json.asU32, reread_asNat hnumber (by decide) json value hvalue, Option.map_some]

theorem reread_asU64 (hnumber : KeepsNaturals number) : Rereads number Json.asU64 := by
  intro json a h
  obtain ⟨value, hvalue, rfl⟩ := Option.map_eq_some_iff.mp h
  rw [Json.asU64, reread_asNat hnumber (by decide) json value hvalue, Option.map_some]

/-- What can be read is not `null` before it is written. -/
theorem reread_nullable (hread : Rereads number read) (hnull : read .null = none) :
    Rereads number (Json.nullable read) := by
  intro json a h
  by_cases hjson : json = .null
  · subst hjson
    exact h
  · have hsome : (read json).map some = some a := by
      cases json <;> first | exact absurd rfl hjson | exact h
    obtain ⟨value, hvalue, rfl⟩ := Option.map_eq_some_iff.mp hsome
    have hkept := hread json value hvalue
    generalize json.renumber number = json' at hkept ⊢
    cases json' <;> first | rw [hnull] at hkept; cases hkept | exact congrArg (Option.map some) hkept

theorem reread_listOf (hread : Rereads number read) : Rereads number (Json.listOf read) := by
  rintro (_ | b | text | s | items | members) out h <;> try cases h
  change (Json.asArray ((Json.arr items).renumber number)).bind _ = some out
  rw [Json.renumber_arr]
  change (items.map _).mapM read = some out
  change items.mapM read = some out at h
  induction items generalizing out with
  | nil => exact h
  | cons item items ih =>
      rw [List.mapM_cons, Option.bind_eq_bind, Option.bind_eq_some_iff] at h
      obtain ⟨a, ha, h⟩ := h
      obtain ⟨rest, hrest, hout⟩ := Option.bind_eq_some_iff.mp h
      rw [List.map_cons, List.mapM_cons, hread item a ha, Option.bind_eq_bind, Option.bind_some,
        ih rest hrest]
      exact hout

end Plain

/-! ### Structs -/

section Structs

variable {α : Type} {number : String → String} {read : Json → Option α} {default a : α}
  {names : List String} {field field' : String → Option Json} {name : String}

/-- The fields of a struct that was read and written. -/
def Renumbered (number : String → String) (names : List String)
    (field field' : String → Option Json) : Prop :=
  ∀ name ∈ names, field' name = (field name).map (Json.renumber number)

theorem Renumbered.required (h : Renumbered number names field field') (hname : name ∈ names)
    (hread : Rereads number read) (ha : required read (field name) = some a) :
    EveNet.required read (field' name) = some a := by
  obtain ⟨json, hjson, hvalue⟩ := Option.bind_eq_some_iff.mp ha
  rw [h name hname, hjson]
  exact hread json a hvalue

theorem Renumbered.withDefault (h : Renumbered number names field field') (hname : name ∈ names)
    (hread : Rereads number read) (ha : withDefault default read (field name) = some a) :
    EveNet.withDefault default read (field' name) = some a := by
  rw [h name hname]
  cases hjson : field name with
  | none =>
      rw [hjson] at ha
      exact ha
  | some json =>
      rw [hjson] at ha
      exact hread json a ha

/-- A struct is read again if what is built from its fields is. -/
theorem reread_struct {least : ℕ} {build : (String → Option Json) → Option α}
    (hbuild : ∀ field field' a, Renumbered number names field field' → build field = some a →
      build field' = some a) :
    Rereads number (fun json => (json.fields names least).bind build) := by
  intro json a h
  obtain ⟨field, hfield, hread⟩ := Option.bind_eq_some_iff.mp h
  obtain ⟨field', hfield', hsame⟩ := @Json.fields_renumber number names json least field hfield
  change (Json.fields names least _).bind build = some a
  rw [hfield']
  exact hbuild field field' a hsame hread

end Structs

/-! ### The records -/

section Records

variable {number : String → String}

theorem reread_nft : Rereads number NftConfig.decode := by
  refine reread_struct fun field field' a hsame h => ?_
  simp only [Option.bind_eq_bind, Option.bind_eq_some_iff] at h ⊢
  obtain ⟨table, htable, chain, hchain, h⟩ := h
  exact ⟨table, hsame.withDefault (by decide) reread_asStr htable, chain,
    hsame.withDefault (by decide) reread_asStr hchain, h⟩

theorem reread_underlay : Rereads number WifiUnderlay.decode := by
  refine reread_struct fun field field' a hsame h => ?_
  simp only [Option.bind_eq_bind, Option.bind_eq_some_iff] at h ⊢
  obtain ⟨interface, hinterface, bands, hbands, note, hnote, h⟩ := h
  exact ⟨interface, hsame.required (by decide) reread_asStr hinterface, bands,
    hsame.withDefault (by decide) (reread_listOf reread_asStr) hbands, note,
    hsame.withDefault (by decide) reread_asStr hnote, h⟩

theorem reread_kind : Rereads number EgressKind.decode := by
  rintro (_ | b | text | s | items | (_ | ⟨⟨name, value⟩, _ | ⟨member, members⟩⟩)) a h
  · cases h
  · cases h
  · cases h
  · exact h
  · cases h
  · cases h
  · cases value <;> exact h
  · cases value <;> cases h

theorem reread_action : Rereads number ActionSpec.decode := by
  refine reread_struct fun field field' a hsame h => ?_
  simp only [Option.bind_eq_bind, Option.bind_eq_some_iff] at h ⊢
  obtain ⟨egress, hegress, h⟩ := h
  exact ⟨egress, hsame.required (by decide) reread_asStr hegress, h⟩

variable (hnumber : KeepsNaturals number)
include hnumber

theorem reread_runtime : Rereads number RuntimeConfig.decode := by
  refine reread_struct fun field field' a hsame h => ?_
  simp only [Option.bind_eq_bind, Option.bind_eq_some_iff] at h ⊢
  obtain ⟨dryRun, hdryRun, interval, hinterval, closed, hclosed, auto, hauto, h⟩ := h
  exact ⟨dryRun, hsame.withDefault (by decide) reread_asBool hdryRun, interval,
    hsame.withDefault (by decide) (reread_asU64 hnumber) hinterval, closed,
    hsame.withDefault (by decide) reread_asBool hclosed, auto,
    hsame.withDefault (by decide) reread_asBool hauto, h⟩

theorem reread_dnsCache : Rereads number DnsCacheConfig.decode := by
  refine reread_struct fun field field' a hsame h => ?_
  simp only [Option.bind_eq_bind, Option.bind_eq_some_iff] at h ⊢
  obtain ⟨enabled, henabled, path, hpath, ttl, httl, grace, hgrace, closed, hclosed, mode, hmode,
    intercepted, hintercepted, h⟩ := h
  exact ⟨enabled, hsame.withDefault (by decide) reread_asBool henabled, path,
    hsame.withDefault (by decide) reread_asStr hpath, ttl,
    hsame.withDefault (by decide) (reread_asU64 hnumber) httl, grace,
    hsame.withDefault (by decide) (reread_asU64 hnumber) hgrace, closed,
    hsame.withDefault (by decide) reread_asBool hclosed, mode,
    hsame.withDefault (by decide) reread_asStr hmode, intercepted,
    hsame.withDefault (by decide) reread_asBool hintercepted, h⟩

theorem reread_interception : Rereads number DnsInterceptionConfig.decode := by
  refine reread_struct fun field field' a hsame h => ?_
  simp only [Option.bind_eq_bind, Option.bind_eq_some_iff] at h ⊢
  obtain ⟨enabled, henabled, listen, hlisten, upstream, hupstream, upstreams, hupstreams, timeout,
    htimeout, answers, hanswers, unresolved, hunresolved, aaaa, haaaa, audited, haudited,
    redirected, hredirected, h⟩ := h
  exact ⟨enabled, hsame.withDefault (by decide) reread_asBool henabled, listen,
    hsame.withDefault (by decide) reread_asStr hlisten, upstream,
    hsame.withDefault (by decide) reread_asStr hupstream, upstreams,
    hsame.withDefault (by decide) (reread_listOf reread_asStr) hupstreams, timeout,
    hsame.withDefault (by decide) (reread_asU64 hnumber) htimeout, answers,
    hsame.withDefault (by decide) reread_asBool hanswers, unresolved,
    hsame.withDefault (by decide) reread_asBool hunresolved, aaaa,
    hsame.withDefault (by decide) reread_asBool haaaa, audited,
    hsame.withDefault (by decide) reread_asBool haudited, redirected,
    hsame.withDefault (by decide) reread_asBool hredirected, h⟩

theorem reread_healthcheck : Rereads number HealthCheck.decode := by
  refine reread_struct fun field field' a hsame h => ?_
  simp only [Option.bind_eq_bind, Option.bind_eq_some_iff] at h ⊢
  obtain ⟨enabled, henabled, target, htarget, timeout, htimeout, h⟩ := h
  exact ⟨enabled, hsame.withDefault (by decide) reread_asBool henabled, target,
    hsame.withDefault (by decide) reread_asStr htarget, timeout,
    hsame.withDefault (by decide) (reread_asU64 hnumber) htimeout, h⟩

theorem reread_egress : Rereads number EgressInterface.decode := by
  refine reread_struct fun field field' a hsame h => ?_
  simp only [Option.bind_eq_bind, Option.bind_eq_some_iff] at h ⊢
  obtain ⟨enabled, henabled, name, hname, kind, hkind, gateway, hgateway, source, hsource, table,
    htable, fwmark, hfwmark, priority, hpriority, healthcheck, hhealthcheck, h⟩ := h
  exact ⟨enabled, hsame.withDefault (by decide) reread_asBool henabled, name,
    hsame.required (by decide) reread_asStr hname, kind,
    hsame.required (by decide) reread_kind hkind, gateway,
    hsame.withDefault (by decide) (reread_nullable reread_asStr rfl) hgateway, source,
    hsame.withDefault (by decide) (reread_nullable reread_asStr rfl) hsource, table,
    hsame.required (by decide) (reread_asU32 hnumber) htable, fwmark,
    hsame.required (by decide) (reread_asU32 hnumber) hfwmark, priority,
    hsame.withDefault (by decide) (reread_asU32 hnumber) hpriority, healthcheck,
    hsame.withDefault (by decide) (reread_healthcheck hnumber) hhealthcheck, h⟩

theorem reread_match : Rereads number MatchSpec.decode := by
  refine reread_struct fun field field' a hsame h => ?_
  simp only [Option.bind_eq_bind, Option.bind_eq_some_iff] at h ⊢
  obtain ⟨ip, hip, cidr, hcidr, uid, huid, domain, hdomain, h⟩ := h
  exact ⟨ip, hsame.withDefault (by decide) (reread_nullable reread_asStr rfl) hip, cidr,
    hsame.withDefault (by decide) (reread_nullable reread_asStr rfl) hcidr, uid,
    hsame.withDefault (by decide) (reread_nullable (reread_asU32 hnumber) rfl) huid, domain,
    hsame.withDefault (by decide) (reread_nullable reread_asStr rfl) hdomain, h⟩

theorem reread_policy : Rereads number Policy.decode := by
  refine reread_struct fun field field' a hsame h => ?_
  simp only [Option.bind_eq_bind, Option.bind_eq_some_iff] at h ⊢
  obtain ⟨id, hid, enabled, henabled, spec, hspec, action, haction, h⟩ := h
  exact ⟨id, hsame.required (by decide) reread_asStr hid, enabled,
    hsame.withDefault (by decide) reread_asBool henabled, spec,
    hsame.required (by decide) (reread_match hnumber) hspec, action,
    hsame.required (by decide) reread_action haction, h⟩

/-- The configuration is the one that was in the file before. -/
theorem reread_config : Rereads number Config.decode := by
  refine reread_struct fun field field' a hsame h => ?_
  simp only [Option.bind_eq_bind, Option.bind_eq_some_iff] at h ⊢
  obtain ⟨version, hversion, runtime, hruntime, nft, hnft, cache, hcache, dns, hdns, underlay,
    hunderlay, egresses, hegresses, policies, hpolicies, h⟩ := h
  exact ⟨version, hsame.required (by decide) (reread_asU32 hnumber) hversion, runtime,
    hsame.withDefault (by decide) (reread_runtime hnumber) hruntime, nft,
    hsame.withDefault (by decide) reread_nft hnft, cache,
    hsame.withDefault (by decide) (reread_dnsCache hnumber) hcache, dns,
    hsame.withDefault (by decide) (reread_interception hnumber) hdns, underlay,
    hsame.required (by decide) reread_underlay hunderlay, egresses,
    hsame.required (by decide) (reread_listOf (reread_egress hnumber)) hegresses, policies,
    hsame.required (by decide) (reread_listOf (reread_policy hnumber)) hpolicies, h⟩

end Records

end EveNet
