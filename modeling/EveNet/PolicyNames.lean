import EveNet.DnsProxy
import EveNet.Reconcile

/-!
# One policy for each name

The validator compares domains by a key of its own, everything else by `normalizeDomain`. On
the texts that `normalizeDomain` accepts the two differ at one character only: the Kelvin sign,
which is not an ASCII letter and lower-cases to one.
-/

namespace EveNet

/-- A character of the validator's key, with the Kelvin sign as the letter it lower-cases to. -/
def kelvinLetter (c : Char) : Char := if c = '\u212a' then 'k' else c

def kelvinKey (domain : String) : List Char := (domainKey domain).toList.map kelvinLetter

/-- Two domains of which one is spelled with a Kelvin sign, the same but for it. -/
def KelvinTwins (d d' : String) : Prop :=
  ('\u212a' ∈ d.toList ∨ '\u212a' ∈ d'.toList) ∧ kelvinKey d = kelvinKey d' ∧
    ∃ name, normalizeDomain d = .ok name

/-! ### The two keys -/

theorem toLower_ne_kelvin {c : Char} (hc : c ≠ '\u212a') : c.toLower ≠ '\u212a' := by
  by_cases hu : c.isUpper = true
  · intro h
    have halpha : c.isAlpha = true := by simp [Char.isAlpha, hu]
    rw [← Char.isLower_toLower_eq_isAlpha, h] at halpha
    exact absurd halpha (by decide)
  · rwa [Char.toLower_eq_of_not_isUpper hu]

theorem toLowercase_eq {c : Char} (hc : c ≠ '\u0130') : toLowercase c = [kelvinLetter c.toLower] := by
  unfold toLowercase kelvinLetter
  by_cases hk : c = '\u212a'
  · subst hk
    decide
  · rw [if_neg hk, if_neg hc, if_neg (toLower_ne_kelvin hk)]

theorem kelvinKey_eq (d : String) : kelvinKey d =
    (trimEndDots (trim d.toList)).map (fun c => kelvinLetter c.toLower) := by
  rw [kelvinKey, domainKey, String.toList_ofList, List.map_map]
  rfl

/-- Without a dotted capital I the folded text is the key with the Kelvin signs replaced. -/
theorem foldDomain_eq_kelvinKey {d : String} (h : '\u0130' ∉ trimEndDots (trim d.toList)) :
    foldDomain d = kelvinKey d := by
  rw [foldDomain, kelvinKey_eq, List.map_eq_flatMap]
  apply List.flatMap_congr
  intro c hc
  exact toLowercase_eq (by rintro rfl; exact h hc)

theorem not_hostChar_dottedI : hostChar (kelvinLetter '\u0130'.toLower) = false := by decide

/-- A domain is accepted exactly when its key with the Kelvin signs replaced is canonical. -/
theorem normalizeDomain_eq_ok_iff_kelvinKey {d name : String} :
    normalizeDomain d = .ok name ↔ name.toList = kelvinKey d ∧ Canonical (kelvinKey d) := by
  rw [normalizeDomain_eq_ok_iff]
  by_cases hI : '\u0130' ∈ trimEndDots (trim d.toList)
  · constructor
    · rintro ⟨-, hcan⟩
      have hmem : '\u0307' ∈ foldDomain d := List.mem_flatMap.mpr ⟨_, hI, by decide⟩
      exact absurd (hcan.hostChars _ hmem) (by decide)
    · rintro ⟨-, hcan⟩
      have hmem : kelvinLetter '\u0130'.toLower ∈ kelvinKey d := by
        rw [kelvinKey_eq]
        exact List.mem_map_of_mem hI
      have hhost := hcan.hostChars _ hmem
      rw [not_hostChar_dottedI] at hhost
      cases hhost
  · rw [foldDomain_eq_kelvinKey hI]

/-- Without Kelvin signs the key stays as it is. -/
theorem kelvinKey_of_no_kelvin {d : String} (h : '\u212a' ∉ d.toList) :
    kelvinKey d = (domainKey d).toList := by
  rw [kelvinKey_eq, domainKey, String.toList_ofList]
  apply List.map_congr_left
  intro c hc
  have htrimmed : (trimEndDots (trim d.toList)).Sublist d.toList :=
    ((List.rdropWhile_prefix _ _).sublist.trans (List.rdropWhile_prefix _ _).sublist).trans
      (List.dropWhile_suffix _).sublist
  have hne : c ≠ '\u212a' := by
    rintro rfl
    exact h (htrimmed.subset hc)
  exact if_neg (toLower_ne_kelvin hne)

/-- Two domains have one name exactly when they are accepted and the validator's keys agree or
the domains are twins. -/
theorem same_name_iff {d d' : String} :
    (∃ name, normalizeDomain d = .ok name ∧ normalizeDomain d' = .ok name) ↔
      kelvinKey d = kelvinKey d' ∧ ∃ name, normalizeDomain d = .ok name := by
  simp only [normalizeDomain_eq_ok_iff_kelvinKey]
  constructor
  · rintro ⟨name, ⟨hname, hcan⟩, hname', -⟩
    exact ⟨hname.symm.trans hname', name, hname, hcan⟩
  · rintro ⟨hkey, name, hname, hcan⟩
    exact ⟨name, ⟨hname, hcan⟩, hname.trans hkey, hkey ▸ hcan⟩

/-! ### The policies of a name -/

section Names

variable {cfg : Config}

/-- No name belongs to two of the enabled policies. -/
def OnePolicyEach (cfg : Config) : Prop :=
  cfg.enabledPolicies.Pairwise
    (fun p q => ∀ name, ¬ (p.hasName name = true ∧ q.hasName name = true))

theorem hasName_iff {policy : Policy} {name : String} : policy.hasName name = true ↔
    ∃ d ∈ policy.matchSpec.domain, normalizeDomain d = .ok name := by
  unfold Policy.hasName
  cases policy.matchSpec.domain with
  | none => simp
  | some d => simp

/-- The validator's keys of the enabled policies differ. -/
theorem keys_differ (hcfg : Accepted cfg) : cfg.enabledPolicies.Pairwise
    (fun p q => ∀ d ∈ p.matchSpec.domain, ∀ d' ∈ q.matchSpec.domain, domainKey d ≠ domainKey d') := by
  have hdisjoint := (List.nodup_flatMap.mp hcfg.keys).2
  have hfiltered : cfg.enabledPolicies.Pairwise (Function.onFun List.Disjoint policyKeys) :=
    List.Pairwise.filter _ hdisjoint
  refine hfiltered.imp_of_mem ?_
  intro p q hp hq hkeys d hd d' hd' hsame
  have hpOn : p.enabled = true := (List.mem_filter.mp hp).2
  have hqOn : q.enabled = true := (List.mem_filter.mp hq).2
  have hpKey : domainKey d ∈ policyKeys p := by simp [policyKeys, hpOn, Option.mem_def.mp hd]
  have hqKey : domainKey d' ∈ policyKeys q := by simp [policyKeys, hqOn, Option.mem_def.mp hd']
  rw [← hsame] at hqKey
  exact hkeys hpKey hqKey

theorem found_eq_of_onePolicyEach (h : OnePolicyEach cfg) {policy found : Policy} {name : String}
    (hpolicy : policy ∈ cfg.enabledPolicies) (hname : policy.hasName name = true)
    (hfound : findEnabledDomainPolicy cfg name = .ok (some found)) : found = policy := by
  obtain ⟨d, -, hd⟩ := hasName_iff.mp hname
  obtain ⟨hfind, -⟩ := (findEnabledDomainPolicy_eq_ok_iff (normalizeDomain_normalized hd)).mp hfound
  have hfoundName : found.hasName name = true := by simpa using List.find?_some hfind
  by_contra hne
  have hsymm : Std.Symm (fun p q : Policy =>
      ∀ name, ¬ (p.hasName name = true ∧ q.hasName name = true)) :=
    ⟨fun p q hpq name hqp => hpq name ⟨hqp.2, hqp.1⟩⟩
  exact List.Pairwise.forall h (List.mem_of_find?_eq_some hfind) hpolicy hne name
    ⟨hfoundName, hname⟩

/-- Whatever else an accepted configuration says, every name belongs to at most one enabled
policy, which is then the one the proxy finds for it, exactly when no two enabled policies have
domains that differ in a Kelvin sign for a letter only. -/
theorem one_policy_each_iff (hcfg : cfg.validate = .ok ()) :
    (OnePolicyEach cfg ∧ ∀ policy ∈ cfg.enabledPolicies, ∀ name, policy.hasName name = true →
        ∀ found, findEnabledDomainPolicy cfg name = .ok (some found) → found = policy) ↔
      cfg.enabledPolicies.Pairwise
        (fun p q => ∀ d ∈ p.matchSpec.domain, ∀ d' ∈ q.matchSpec.domain, ¬ KelvinTwins d d') := by
  constructor
  · rintro ⟨hone, -⟩
    refine List.Pairwise.imp ?_ hone
    rintro p q hpq d hd d' hd' ⟨-, hkey, haccepted⟩
    obtain ⟨name, hname, hname'⟩ := same_name_iff.mpr ⟨hkey, haccepted⟩
    exact hpq name ⟨hasName_iff.mpr ⟨d, hd, hname⟩, hasName_iff.mpr ⟨d', hd', hname'⟩⟩
  · intro htwins
    have hone : OnePolicyEach cfg := by
      refine List.Pairwise.imp ?_ (htwins.and (keys_differ (accepted_of_validate hcfg)))
      rintro p q ⟨hnone, hkeys⟩ name ⟨hp, hq⟩
      obtain ⟨d, hd, hname⟩ := hasName_iff.mp hp
      obtain ⟨d', hd', hname'⟩ := hasName_iff.mp hq
      obtain ⟨hkey, haccepted⟩ := same_name_iff.mp ⟨name, hname, hname'⟩
      by_cases hsign : '\u212a' ∈ d.toList ∨ '\u212a' ∈ d'.toList
      · exact hnone d hd d' hd' ⟨hsign, hkey, haccepted⟩
      · -- without the sign these are the validator's own keys
        rw [not_or] at hsign
        rw [kelvinKey_of_no_kelvin hsign.1, kelvinKey_of_no_kelvin hsign.2] at hkey
        exact hkeys d hd d' hd' (String.toList_injective hkey)
    exact ⟨hone, fun policy hpolicy name hname found hfound =>
      found_eq_of_onePolicyEach hone hpolicy hname hfound⟩

end Names

/-- Two enabled policies for one name, through two egresses. -/
def twinsConfig : Config :=
  configOf [tunnel "tun0" 100 16, tunnel "tun1" 200 32]
    [domainPolicy "plain" "k.example" "tun0", domainPolicy "sign" "\u212a.example" "tun1"]

theorem one_policy_each_iff_host :
    (OnePolicyEach twinsConfig ∧ ∀ policy ∈ twinsConfig.enabledPolicies, ∀ name,
        policy.hasName name = true → ∀ found,
          findEnabledDomainPolicy twinsConfig name = .ok (some found) → found = policy) ↔
      twinsConfig.enabledPolicies.Pairwise
        (fun p q => ∀ d ∈ p.matchSpec.domain, ∀ d' ∈ q.matchSpec.domain, ¬ KelvinTwins d d') :=
  one_policy_each_iff (by decide)

/-- The validator accepts them both. -/
theorem not_one_policy_each : ¬ ∀ cfg : Config, cfg.validate = .ok () → OnePolicyEach cfg := by
  intro hclaim
  have hone := hclaim twinsConfig (by decide)
  rw [OnePolicyEach, show twinsConfig.enabledPolicies = [domainPolicy "plain" "k.example" "tun0",
    domainPolicy "sign" "\u212a.example" "tun1"] from rfl, List.pairwise_pair] at hone
  exact hone "k.example" ⟨by decide, by decide⟩

end EveNet
