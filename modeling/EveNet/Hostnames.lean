import EveNet.QueryNames

/-!
# The names that normalization gives are the hostnames

A `Hostname` is a non-empty list of labels with a dot between each two. It is said without
the normalizer: the labels carry their lengths and characters. `Canonical`, the form in
which the other modules use an accepted name, is the same set of texts.
-/

namespace EveNet

def LabelChar (c : Char) : Prop := ('a' ≤ c ∧ c ≤ 'z') ∨ ('0' ≤ c ∧ c ≤ '9') ∨ c = '-'

structure Label where
  text : List Char
  length : 1 ≤ text.length ∧ text.length ≤ 63
  chars : ∀ c ∈ text, LabelChar c

/-- The labels of a name, joined by dots. -/
def dotted (labels : List Label) : List Char := ['.'].intercalate (labels.map (·.text))

structure Hostname where
  labels : List Label
  labelled : labels ≠ []
  short : (dotted labels).length ≤ 253

def Hostname.text (host : Hostname) : String := String.ofList (dotted host.labels)

/-! ### The characters -/

theorem labelChar_iff {c : Char} : LabelChar c ↔
    (0x61 ≤ c.toNat ∧ c.toNat ≤ 0x7a) ∨ (0x30 ≤ c.toNat ∧ c.toNat ≤ 0x39) ∨ c.toNat = 0x2d := by
  simp only [LabelChar, Char.le_def, UInt32.le_iff_toNat_le, ← Char.toNat_inj]
  rfl

theorem isUpper_iff {c : Char} : c.isUpper = true ↔ 0x41 ≤ c.toNat ∧ c.toNat ≤ 0x5a := by
  simp only [Char.isUpper, decide_eq_true_eq, UInt32.le_iff_toNat_le, ge_iff_le]
  rfl

theorem labelChar_of_hostChar {c : Char} (hhost : hostChar c = true) (hlower : c.isUpper = false)
    (hdot : c ≠ '.') : LabelChar c := by
  have hrange := hostChar_iff.mp hhost
  have hupper : ¬ (0x41 ≤ c.toNat ∧ c.toNat ≤ 0x5a) := by
    intro h
    rw [isUpper_iff.mpr h] at hlower
    cases hlower
  have hnat : c.toNat ≠ 0x2e := fun h => hdot (Char.toNat_inj.mp h)
  exact labelChar_iff.mpr (by omega)

theorem hostChar_of_labelChar {c : Char} (h : LabelChar c) :
    hostChar c = true ∧ c.isUpper = false ∧ c ≠ '.' ∧ c.toNat < 128 := by
  have hrange := labelChar_iff.mp h
  refine ⟨hostChar_iff.mpr (by omega), ?_, ?_, by omega⟩
  · rw [Bool.eq_false_iff, ne_eq, isUpper_iff]
    omega
  · rintro rfl
    exact absurd hrange (by decide)

/-- The characters of a hostname take one byte each. -/
theorem utf8Len_of_ascii {text : List Char} (h : ∀ c ∈ text, c.toNat < 128) :
    utf8Len text = text.length := by
  induction text with
  | nil => rfl
  | cons c text ih =>
      have hsize : c.utf8Size = 1 := by
        rw [← String.length_utf8EncodeChar, utf8EncodeChar_ascii (h c List.mem_cons_self)]
        rfl
      have hrest : utf8Len text = text.length := ih (fun d hd => h d (List.mem_cons_of_mem _ hd))
      rw [utf8Len] at hrest ⊢
      rw [List.map_cons, List.sum_cons, hsize, hrest, List.length_cons, Nat.add_comm]

theorem ascii_of_hostChar {c : Char} (h : hostChar c = true) : c.toNat < 128 := by
  have hrange := hostChar_iff.mp h
  omega

/-! ### Canonical names and hostnames -/

theorem Canonical.label_chars {text label : List Char} (h : Canonical text)
    (hlabel : label ∈ text.splitOn '.') : ∀ c ∈ label, LabelChar c := by
  intro c hc
  have hmem : c ∈ text := by
    have hjoin : ['.'].intercalate (text.splitOn '.') = text := List.intercalate_splitOn '.'
    rw [← hjoin]
    exact mem_intercalate_of_mem hlabel hc
  have hdot : c ≠ '.' := by
    rintro rfl
    exact notMem_of_mem_splitOn hlabel hc
  exact labelChar_of_hostChar (h.hostChars c hmem) (h.lower c hmem) hdot

theorem Canonical.label_length {text label : List Char} (h : Canonical text)
    (hlabel : label ∈ text.splitOn '.') : 1 ≤ label.length ∧ label.length ≤ 63 := by
  obtain ⟨hne, hlen⟩ := h.labels label hlabel
  have hascii : ∀ c ∈ label, c.toNat < 128 :=
    fun c hc => (hostChar_of_labelChar (h.label_chars hlabel c hc)).2.2.2
  rw [utf8Len_of_ascii hascii] at hlen
  exact ⟨List.length_pos_iff.mpr hne, hlen⟩

/-- The labels of a canonical name. -/
def Canonical.labelList {text : List Char} (h : Canonical text) : List Label :=
  (text.splitOn '.').attach.map
    (fun label => ⟨label.1, h.label_length label.2, h.label_chars label.2⟩)

theorem Canonical.dotted_labelList {text : List Char} (h : Canonical text) :
    dotted h.labelList = text := by
  have htexts : h.labelList.map (·.text) = text.splitOn '.' := by
    rw [Canonical.labelList, List.map_map]
    exact List.attach_map_subtype_val _
  rw [dotted, htexts, List.intercalate_splitOn]

theorem hostname_of_canonical {d : String} (h : Canonical d.toList) :
    ∃ host : Hostname, d = host.text := by
  have hlabelled : h.labelList ≠ [] := by
    intro hnil
    exact h.nonempty (by rw [← h.dotted_labelList, hnil]; rfl)
  have hshort : (dotted h.labelList).length ≤ 253 := by
    have hlen := h.short
    rw [utf8Len_of_ascii (fun c hc => ascii_of_hostChar (h.hostChars c hc))] at hlen
    rwa [h.dotted_labelList]
  refine ⟨⟨h.labelList, hlabelled, hshort⟩, ?_⟩
  rw [Hostname.text, h.dotted_labelList, String.ofList_toList]

theorem splitOn_dotted {labels : List Label} (h : labels ≠ []) :
    (dotted labels).splitOn '.' = labels.map (·.text) := by
  rw [dotted, List.splitOn_intercalate]
  · intro text htext hdot
    obtain ⟨label, -, rfl⟩ := List.mem_map.mp htext
    exact (hostChar_of_labelChar (label.chars '.' hdot)).2.2.1 rfl
  · simpa using h

theorem mem_dotted {labels : List Label} {c : Char} (hc : c ∈ dotted labels) :
    hostChar c = true ∧ c.isUpper = false := by
  rcases mem_intercalate_dot hc with rfl | ⟨text, htext, hmem⟩
  · decide
  · obtain ⟨label, -, rfl⟩ := List.mem_map.mp htext
    obtain ⟨hhost, hlower, -⟩ := hostChar_of_labelChar (label.chars c hmem)
    exact ⟨hhost, hlower⟩

theorem Label.canonical (label : Label) : label.text ≠ [] ∧ utf8Len label.text ≤ 63 := by
  obtain ⟨hpos, hlen⟩ := label.length
  have hascii : ∀ c ∈ label.text, c.toNat < 128 :=
    fun c hc => (hostChar_of_labelChar (label.chars c hc)).2.2.2
  exact ⟨List.length_pos_iff.mp hpos, (utf8Len_of_ascii hascii).trans_le hlen⟩

theorem Hostname.canonical (host : Hostname) : Canonical host.text.toList := by
  have hlabels : ∀ label ∈ (dotted host.labels).splitOn '.',
      label ≠ [] ∧ utf8Len label ≤ 63 := by
    intro text htext
    rw [splitOn_dotted host.labelled] at htext
    obtain ⟨label, -, rfl⟩ := List.mem_map.mp htext
    exact label.canonical
  rw [Hostname.text, String.toList_ofList]
  refine ⟨?_, ?_, fun c hc => (mem_dotted hc).1, fun c hc => (mem_dotted hc).2, hlabels⟩
  · intro hnil
    rw [hnil] at hlabels
    exact (hlabels [] (by simp)).1 rfl
  · rw [utf8Len_of_ascii (fun c hc => ascii_of_hostChar (mem_dotted hc).1)]
    exact host.short

/-- A name whose labels are not empty has no dot at its ends. -/
theorem Canonical.ends {text : List Char} (h : Canonical text) :
    text.head? ≠ some '.' ∧ text.getLast? ≠ some '.' := by
  have hlabels : [] ∉ text.splitOn '.' := fun hnil => (h.labels [] hnil).1 rfl
  constructor
  · intro hhead
    obtain ⟨rest, rfl⟩ := List.head?_eq_some_iff.mp hhead
    apply hlabels
    rw [List.splitOn_cons_eq_if_modifyHead]
    exact List.mem_cons_self
  · intro hlast
    obtain ⟨front, rfl⟩ := List.getLast?_eq_some_iff.mp hlast
    apply hlabels
    rw [List.splitOn_eq_splitOnP, List.splitOnP_append_cons _ _ (by simp)]
    simp

/-! ### The normalizer -/

/-- Normalization changes no name that it gave, and the names it gives are exactly the
hostnames. -/
theorem normalizeDomain_hostnames :
    (∀ s d : String, normalizeDomain s = .ok d → normalizeDomain d = .ok d ∧
      (∃ host : Hostname, d = host.text) ∧
      d.toList.head? ≠ some '.' ∧ d.toList.getLast? ≠ some '.') ∧
    ∀ host : Hostname, normalizeDomain host.text = .ok host.text := by
  constructor
  · intro s d h
    have hcan := canonical_of_normalizeDomain h
    exact ⟨normalizeDomain_of_canonical hcan, hostname_of_canonical hcan, hcan.ends⟩
  · intro host
    exact normalizeDomain_of_canonical host.canonical

end EveNet
