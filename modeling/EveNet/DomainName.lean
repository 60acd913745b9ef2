import Mathlib

/-!
# Domain names as the configuration and the cache see them

`normalizeDomain` is the one notion of a usable name: everything that is looked up,
cached or compared goes through it. Its image is described by `Canonical`, and a
canonical name is left as it is, so that normalizing twice changes nothing.
-/

namespace EveNet

/-- An error with its causes, outermost message first. -/
abbrev Error := List String

/-- What the outermost message of an error prints as. -/
def Error.display (e : Error) : String := e.headD ""

section Characters

/-- The characters with the Unicode property `White_Space`. -/
def isWhitespace (c : Char) : Bool :=
  let n := c.toNat
  (9 ≤ n && n ≤ 13) || n == 0x20 || n == 0x85 || n == 0xa0 || n == 0x1680 ||
    (0x2000 ≤ n && n ≤ 0x200a) || n == 0x2028 || n == 0x2029 || n == 0x202f || n == 0x205f ||
    n == 0x3000

def trim (s : List Char) : List Char := (s.dropWhile isWhitespace).rdropWhile isWhitespace

theorem trim_ne_nil {c : Char} (hc : isWhitespace c = false) {s : List Char} (h : c ∈ s) :
    trim s ≠ [] := by
  intro hempty
  rw [trim, List.rdropWhile_eq_nil_iff] at hempty
  have hsplit := List.takeWhile_append_dropWhile (p := isWhitespace) (l := s)
  rw [← hsplit, List.mem_append] at h
  rcases h with htaken | hdropped
  · rw [List.mem_takeWhile_imp htaken] at hc
    cases hc
  · rw [hempty c hdropped] at hc
    cases hc

def trimEndDots (s : List Char) : List Char := s.rdropWhile (· == '.')

/-- Lowercase form of one character. Outside ASCII only the Kelvin sign and the dotted
capital I lowercase to text with an ASCII character in it. The other non-ASCII letters
lowercase to non-ASCII letters, which no accepted name contains, and stand for
themselves here. -/
def toLowercase (c : Char) : List Char :=
  if c = '\u212a' then ['k']
  else if c = '\u0130' then ['i', '\u0307']
  else [c.toLower]

/-- Length in bytes. -/
def utf8Len (s : List Char) : ℕ := (s.map Char.utf8Size).sum

end Characters

def hostChar (c : Char) : Bool := c.isAlphanum || c == '-' || c == '.'

/-- The text whose form `normalizeDomain` then checks. -/
def foldDomain (domain : String) : List Char :=
  (trimEndDots (trim domain.toList)).flatMap toLowercase

def normalizeDomain (domain : String) : Except Error String :=
  let value := foldDomain domain
  let text := String.ofList value
  if value = [] then .error ["domain cannot be empty"]
  else if "://".toList <:+: value ∨ '/' ∈ value ∨ ' ' ∈ value then
    .error ["domain must be a bare hostname, not URL/path: " ++ text ++ ". Example: example.com"]
  else if utf8Len value > 253 then .error ["domain is too long: " ++ text]
  else if ¬ value.all hostChar then
    .error ["domain contains unsupported characters: " ++ text]
  else if (value.splitOn '.').any (fun label => label == [] || utf8Len label > 63) then
    .error ["domain has invalid labels: " ++ text]
  else .ok text

/-! ### Canonical names -/

/-- The form every accepted name has. -/
structure Canonical (value : List Char) : Prop where
  nonempty : value ≠ []
  short : utf8Len value ≤ 253
  hostChars : ∀ c ∈ value, hostChar c = true
  lower : ∀ c ∈ value, c.isUpper = false
  labels : ∀ label ∈ value.splitOn '.', label ≠ [] ∧ utf8Len label ≤ 63

theorem isUpper_of_mem_toLowercase {c d : Char} (hd : d ∈ toLowercase c) : d.isUpper = false := by
  unfold toLowercase at hd
  split_ifs at hd
  · rw [List.mem_singleton.mp hd]
    decide
  · rcases List.mem_pair.mp hd with rfl | rfl <;> decide
  · rw [List.mem_singleton.mp hd]
    exact Char.isUpper_toLower_eq_false c

theorem toLowercase_of_hostChar {c : Char} (hc : hostChar c = true) (hu : c.isUpper = false) :
    toLowercase c = [c] := by
  have hk : c ≠ '\u212a' := by rintro rfl; exact absurd hc (by decide)
  have hi : c ≠ '\u0130' := by rintro rfl; exact absurd hc (by decide)
  rw [toLowercase, if_neg hk, if_neg hi, Char.toLower_eq_of_not_isUpper (by simp [hu])]

theorem toNat_of_hostChar {c : Char} (hc : hostChar c = true) :
    0x2d ≤ c.toNat ∧ c.toNat ≤ 0x7a ∧ c ≠ '/' := by
  simp only [hostChar, Char.isAlphanum, Char.isAlpha, Char.isUpper, Char.isLower, Char.isDigit,
    Bool.or_eq_true, Bool.and_eq_true, beq_iff_eq, decide_eq_true_eq, UInt32.le_iff_toNat_le,
    ge_iff_le] at hc
  change ((((65 ≤ c.toNat ∧ c.toNat ≤ 90) ∨ (97 ≤ c.toNat ∧ c.toNat ≤ 122)) ∨
    (48 ≤ c.toNat ∧ c.toNat ≤ 57)) ∨ c = '-') ∨ c = '.' at hc
  have hslash : '/'.toNat = 47 := rfl
  rcases hc with (((hc | hc) | hc) | rfl) | rfl
  · exact ⟨by omega, by omega, by rintro rfl; omega⟩
  · exact ⟨by omega, by omega, by rintro rfl; omega⟩
  · exact ⟨by omega, by omega, by rintro rfl; omega⟩
  · decide
  · decide

theorem isWhitespace_of_hostChar {c : Char} (hc : hostChar c = true) :
    isWhitespace c = false := by
  obtain ⟨hlo, hhi, -⟩ := toNat_of_hostChar hc
  simp only [isWhitespace, Bool.or_eq_false_iff, Bool.and_eq_false_iff, decide_eq_false_iff_not,
    beq_eq_false_iff_ne]
  omega

theorem trim_of_hostChars {value : List Char} (h : ∀ c ∈ value, hostChar c = true) :
    trim value = value := by
  have hws : ∀ c ∈ value, isWhitespace c = false :=
    fun c hc => isWhitespace_of_hostChar (h c hc)
  have hdrop : value.dropWhile isWhitespace = value := by
    cases value with
    | nil => rfl
    | cons c cs => simp [hws c (by simp)]
  rw [trim, hdrop, List.rdropWhile_eq_self_iff]
  intro hne
  simp [hws _ (List.getLast_mem hne)]

/-- A text that ends in a dot has an empty last label. -/
theorem trimEndDots_of_labels {value : List Char} (h : [] ∉ value.splitOn '.') :
    trimEndDots value = value := by
  rw [trimEndDots, List.rdropWhile_eq_self_iff]
  intro hne hdot
  have hlast : value.dropLast ++ ['.'] = value := by
    rw [← beq_iff_eq.mp hdot]
    exact List.dropLast_append_getLast hne
  apply h
  rw [← hlast, List.splitOn_eq_splitOnP, List.splitOnP_append_cons _ _ (by simp)]
  simp

theorem flatMap_toLowercase_of_hostChars {value : List Char} (h : ∀ c ∈ value, hostChar c = true)
    (hlower : ∀ c ∈ value, c.isUpper = false) : value.flatMap toLowercase = value := by
  have hone : ∀ c ∈ value, toLowercase c = [c] :=
    fun c hc => toLowercase_of_hostChar (h c hc) (hlower c hc)
  rw [List.flatMap_congr hone]
  exact List.flatMap_singleton' value

theorem foldDomain_of_hostChars {s : String} (h : ∀ c ∈ s.toList, hostChar c = true)
    (hlower : ∀ c ∈ s.toList, c.isUpper = false) (hlabels : [] ∉ s.toList.splitOn '.') :
    foldDomain s = s.toList := by
  rw [foldDomain, trim_of_hostChars h, trimEndDots_of_labels hlabels,
    flatMap_toLowercase_of_hostChars h hlower]

theorem Canonical.foldDomain_eq {d : String} (h : Canonical d.toList) : foldDomain d = d.toList :=
  foldDomain_of_hostChars h.hostChars h.lower (fun hnil => (h.labels [] hnil).1 rfl)

theorem lower_foldDomain (s : String) : ∀ c ∈ foldDomain s, c.isUpper = false := by
  intro c hc
  obtain ⟨b, -, hb⟩ := List.mem_flatMap.mp hc
  exact isUpper_of_mem_toLowercase hb

/-- The accepted names are those whose folded form is canonical, and they are returned
in that form. -/
theorem normalizeDomain_eq_ok_iff {s d : String} :
    normalizeDomain s = .ok d ↔ d.toList = foldDomain s ∧ Canonical (foldDomain s) := by
  have hlower := lower_foldDomain s
  constructor
  · intro h
    unfold normalizeDomain at h
    dsimp only at h
    split_ifs at h with hne hurl hlen hchars hlabels
    rw [Except.ok.injEq] at h
    subst d
    refine ⟨String.toList_ofList, hne, by omega, ?_, hlower, ?_⟩
    · simpa using hchars
    · intro label hl
      have hlab := (List.any_eq_false.mp (Bool.not_eq_true _ ▸ hlabels)) label hl
      simpa using hlab
  · rintro ⟨hd, hcan⟩
    have hplain : ∀ c ∈ foldDomain s, c ≠ '/' ∧ c ≠ ' ' := by
      intro c hc
      obtain ⟨hlo, -, hslash⟩ := toNat_of_hostChar (hcan.hostChars c hc)
      exact ⟨hslash, by rintro rfl; exact absurd hlo (by decide)⟩
    have hslash : '/' ∉ foldDomain s := fun hm => (hplain _ hm).1 rfl
    have hurl : ¬ "://".toList <:+: foldDomain s := fun hin => hslash (hin.subset (by decide))
    have hspace : ' ' ∉ foldDomain s := fun hm => (hplain _ hm).2 rfl
    unfold normalizeDomain
    dsimp only
    rw [if_neg hcan.nonempty, if_neg (not_or.mpr ⟨hurl, not_or.mpr ⟨hslash, hspace⟩⟩),
      if_neg (not_lt.mpr hcan.short), if_neg (by simpa using hcan.hostChars),
      if_neg (by simpa using hcan.labels), ← hd, String.ofList_toList]

theorem canonical_of_normalizeDomain {s d : String} (h : normalizeDomain s = .ok d) :
    Canonical d.toList := by
  obtain ⟨hd, hcan⟩ := normalizeDomain_eq_ok_iff.mp h
  exact hd ▸ hcan

theorem normalizeDomain_of_canonical {d : String} (h : Canonical d.toList) :
    normalizeDomain d = .ok d := by
  refine normalizeDomain_eq_ok_iff.mpr ⟨h.foldDomain_eq.symm, ?_⟩
  rwa [h.foldDomain_eq]

/-- Normalizing a normalized name leaves it as it is. -/
theorem normalizeDomain_normalized {s d : String} (h : normalizeDomain s = .ok d) :
    normalizeDomain d = .ok d :=
  normalizeDomain_of_canonical (canonical_of_normalizeDomain h)

example : normalizeDomain " Example.COM. " = .ok "example.com" := by decide

end EveNet
