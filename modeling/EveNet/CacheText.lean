import EveNet.JsonText
import EveNet.CacheBook

/-!
# The cache file on disk

A save empties the file and then writes the printed cache in one chunk or several, so a file
can hold any first part of the text. No such part but the whole object is JSON: a reader that
comes in between fails, it never gets a shorter cache. A file that was left in this state stays
as it is, because every operation that would save a cache loads one first.
-/

namespace EveNet

open JsonText

/-! ### The printed cache -/

def escapeChar (c : Char) : List Char :=
  if c = '\"' then ['\\', '\"']
  else if c = '\\' then ['\\', '\\']
  else if c = '\x08' then ['\\', 'b']
  else if c = '\t' then ['\\', 't']
  else if c = '\n' then ['\\', 'n']
  else if c = '\x0c' then ['\\', 'f']
  else if c = '\r' then ['\\', 'r']
  else if c.toNat < 0x20 then
    ['\\', 'u', '0', '0', Nat.digitChar (c.toNat / 16), Nat.digitChar (c.toNat % 16)]
  else [c]

def jsonString (s : String) : List Char := '\"' :: s.toList.flatMap escapeChar ++ ['\"']

/-- A new line, indented by two spaces a level. -/
def indent (level : ℕ) : List Char := '\n' :: List.replicate (2 * level) ' '

def prettyItems (level : ℕ) : List (List Char) → List Char
  | [] => []
  | [item] => indent level ++ item
  | item :: items => indent level ++ item ++ ',' :: prettyItems level items

def prettyArray (level : ℕ) (items : List (List Char)) : List Char :=
  if items = [] then ['[', ']'] else '[' :: (prettyItems (level + 1) items ++ indent level) ++ [']']

def prettyMember (member : String × List Char) : List Char :=
  jsonString member.1 ++ ':' :: ' ' :: member.2

/-- An object with at least one member. -/
def prettyObject (level : ℕ) (members : List (String × List Char)) : List Char :=
  '\x7b' :: (prettyItems (level + 1) (members.map prettyMember) ++ indent level) ++ ['\x7d']

def prettyNull : List Char := ['n', 'u', 'l', 'l']

def DnsCacheEntry.pretty (level : ℕ) (entry : DnsCacheEntry) : List Char :=
  prettyObject level
    [("domain", jsonString entry.domain),
      ("resolved_ipv4", prettyArray (level + 1) (entry.resolvedIpv4.map jsonString)),
      ("resolved_at_epoch", Nat.toDigits 10 entry.resolvedAtEpoch.toNat),
      ("expires_at_epoch", Nat.toDigits 10 entry.expiresAtEpoch.toNat),
      ("source", jsonString entry.source),
      ("last_error", entry.lastError.elim prettyNull jsonString)]

def DnsCacheFile.pretty (file : DnsCacheFile) : List Char :=
  prettyObject 0
    [("version", Nat.toDigits 10 file.version.toNat),
      ("generated_by", jsonString file.generatedBy),
      ("entries", prettyArray 1 (file.entries.map (DnsCacheEntry.pretty 2)))]

/-- The object alone, without the line feed at the end of the file. -/
def objectBytes (file : DnsCacheFile) : List UInt8 := bytesOf (sortEntries file).pretty

def savedBytes (file : DnsCacheFile) : List UInt8 :=
  bytesOf ((sortEntries file).pretty ++ ['\n'])

theorem savedBytes_eq (file : DnsCacheFile) : savedBytes file = objectBytes file ++ [0x0a] := by
  rw [savedBytes, bytesOf_append]
  rfl

/-! ### Its brackets -/

section Brackets

theorem digitChar_plain {n : ℕ} (hn : n < 16) :
    (Nat.digitChar n).toNat ≠ 0x22 ∧ (Nat.digitChar n).toNat ≠ 0x5c := by
  have hall : ∀ i : Fin 16, (Nat.digitChar i).toNat ≠ 0x22 ∧ (Nat.digitChar i).toNat ≠ 0x5c := by
    decide
  exact hall ⟨n, hn⟩

theorem inString_escapeChar (c : Char) : InString (bytesOf (escapeChar c)) := by
  have hnil : InString [] := fun _ hd => .nil hd
  unfold escapeChar
  split_ifs with h1 h2 h3 h4 h5 h6 h7 h8
  · exact hnil.escape 0x22
  · exact hnil.escape 0x5c
  · exact hnil.escape 0x62
  · exact hnil.escape 0x74
  · exact hnil.escape 0x6e
  · exact hnil.escape 0x66
  · exact hnil.escape 0x72
  · have hcode : InString (bytesOf ['0', '0', Nat.digitChar (c.toNat / 16),
        Nat.digitChar (c.toNat % 16)]) := by
      refine inString_text ?_
      simp only [List.forall_mem_cons]
      exact ⟨by decide, by decide, digitChar_plain (by omega), digitChar_plain (by omega), by simp⟩
    exact hcode.escape 0x75
  · refine inString_text ?_
    rw [List.forall_mem_singleton]
    exact ⟨fun he => h1 (Char.toNat_inj.mp he), fun he => h2 (Char.toNat_inj.mp he)⟩

theorem nested_jsonString (s : String) : Nested (bytesOf (jsonString s)) := by
  have hbody : InString (bytesOf (s.toList.flatMap escapeChar)) := by
    rw [bytesOf, List.flatMap_assoc]
    exact InString.flatMap (fun c _ => inString_escapeChar c)
  have hbytes : bytesOf (jsonString s) =
      0x22 :: bytesOf (s.toList.flatMap escapeChar) ++ [0x22] := by
    rw [jsonString, bytesOf_append, bytesOf_cons]
    rfl
  rw [hbytes]
  exact hbody.quoted

theorem nested_indent (level : ℕ) : Nested (bytesOf (indent level)) := by
  refine nested_text (fun c hc => ?_)
  rcases List.mem_cons.mp hc with rfl | hc
  · exact ⟨by decide, by decide, by decide, by decide, by decide⟩
  · rw [List.eq_of_mem_replicate hc]
    exact ⟨by decide, by decide, by decide, by decide, by decide⟩

theorem nested_digits (n : ℕ) : Nested (bytesOf (Nat.toDigits 10 n)) := by
  refine nested_text (fun c hc => ?_)
  have hdigit := Nat.isDigit_of_mem_toDigits (by decide) (by decide) hc
  simp only [Char.isDigit, Bool.and_eq_true, decide_eq_true_eq, UInt32.le_iff_toNat_le] at hdigit
  change 48 ≤ c.toNat ∧ c.toNat ≤ 57 at hdigit
  exact ⟨by omega, by omega, by omega, by omega, by omega⟩

theorem nested_prettyItems (level : ℕ) {items : List (List Char)}
    (h : ∀ item ∈ items, Nested (bytesOf item)) : Nested (bytesOf (prettyItems level items)) := by
  have hcomma : Nested (bytesOf [',']) := nested_text (by
    simp only [List.forall_mem_singleton]
    exact ⟨by decide, by decide, by decide, by decide, by decide⟩)
  induction items with
  | nil => exact nested_nil
  | cons item items ih =>
      have hitem : Nested (bytesOf (indent level ++ item)) := by
        rw [bytesOf_append]
        exact (nested_indent level).append (h item (by simp))
      cases items with
      | nil => exact hitem
      | cons next items =>
          rw [prettyItems, bytesOf_append, bytesOf_cons]
          · exact hitem.append (hcomma.append (ih (fun i hi => h i (by simp [hi]))))
          · simp

theorem bytesOf_object (text : List Char) :
    bytesOf ('\x7b' :: text ++ ['\x7d']) = 0x7b :: bytesOf text ++ [0x7d] := by
  rw [bytesOf_append, bytesOf_cons]
  rfl

theorem bytesOf_array (text : List Char) :
    bytesOf ('[' :: text ++ [']']) = 0x5b :: bytesOf text ++ [0x5d] := by
  rw [bytesOf_append, bytesOf_cons]
  rfl

theorem nested_prettyArray (level : ℕ) {items : List (List Char)}
    (h : ∀ item ∈ items, Nested (bytesOf item)) : Nested (bytesOf (prettyArray level items)) := by
  unfold prettyArray
  split_ifs
  · exact nested_nil.bracket (Or.inr rfl) (Or.inr rfl)
  · rw [bytesOf_array, bytesOf_append]
    exact ((nested_prettyItems _ h).append (nested_indent level)).bracket (Or.inr rfl) (Or.inr rfl)

/-- What stands between the braces of an object. -/
def membersText (level : ℕ) (members : List (String × List Char)) : List Char :=
  prettyItems (level + 1) (members.map prettyMember) ++ indent level

theorem nested_membersText (level : ℕ) (members : List (String × List Char))
    (h : ∀ member ∈ members, Nested (bytesOf member.2)) :
    Nested (bytesOf (membersText level members)) := by
  rw [membersText, bytesOf_append]
  refine (nested_prettyItems _ (fun item hitem => ?_)).append (nested_indent level)
  obtain ⟨member, hmember, rfl⟩ := List.mem_map.mp hitem
  have hcolon : Nested (bytesOf [':', ' ']) := nested_text (by
    simp only [List.forall_mem_cons]
    exact ⟨⟨by decide, by decide, by decide, by decide, by decide⟩,
      ⟨by decide, by decide, by decide, by decide, by decide⟩, by simp⟩)
  have hsplit : prettyMember member = jsonString member.1 ++ ([':', ' '] ++ member.2) := rfl
  rw [hsplit, bytesOf_append, bytesOf_append]
  exact (nested_jsonString _).append (hcolon.append (h member hmember))

theorem nested_entry (level : ℕ) (entry : DnsCacheEntry) :
    Nested (bytesOf (entry.pretty level)) := by
  rw [DnsCacheEntry.pretty, prettyObject, bytesOf_object]
  refine (nested_membersText level _ ?_).bracket (Or.inl rfl) (Or.inl rfl)
  simp only [List.forall_mem_cons]
  refine ⟨nested_jsonString _, nested_prettyArray _ ?_, nested_digits _, nested_digits _,
    nested_jsonString _, ?_, by simp⟩
  · intro item hitem
    obtain ⟨ip, -, rfl⟩ := List.mem_map.mp hitem
    exact nested_jsonString ip
  · cases entry.lastError with
    | some error => exact nested_jsonString error
    | none =>
        have hnull : ∀ c ∈ prettyNull, PlainChar c := by simp [prettyNull, PlainChar]
        exact nested_text hnull

/-- The printed cache is one object around nested text. -/
theorem pretty_eq (file : DnsCacheFile) :
    ∃ body, bytesOf file.pretty = 0x7b :: body ++ [0x7d] ∧ Nested body := by
  refine ⟨_, ?_, nested_membersText 0 [("version", Nat.toDigits 10 file.version.toNat),
    ("generated_by", jsonString file.generatedBy),
    ("entries", prettyArray 1 (file.entries.map (DnsCacheEntry.pretty 2)))] ?_⟩
  · rw [DnsCacheFile.pretty, prettyObject, bytesOf_object]
    rfl
  · simp only [List.forall_mem_cons]
    refine ⟨nested_digits _, nested_jsonString _, nested_prettyArray _ ?_, by simp⟩
    intro item hitem
    obtain ⟨entry, -, rfl⟩ := List.mem_map.mp hitem
    exact nested_entry 2 entry

/-- Text that has something in it and leaves no bracket open. -/
def Closed (bytes : List UInt8) : Prop :=
  bytes ≠ [] ∧ ((⟨0, .plain⟩ : Scan).along bytes).depth = 0

/-- A part of the printed cache that is not all of it is not closed. -/
theorem not_closed_of_part {file : DnsCacheFile} {part : List UInt8}
    (hpart : part <+: bytesOf file.pretty) (hne : part ≠ bytesOf file.pretty) :
    ¬ Closed part := by
  obtain ⟨body, hbytes, hbody⟩ := pretty_eq file
  rw [hbytes] at hpart hne
  rintro ⟨hfull, hdepth⟩
  rcases List.prefix_cons_iff.mp hpart with rfl | ⟨rest, rfl, hrest⟩
  · exact hfull rfl
  · have hinner : rest <+: body := by
      rcases List.prefix_concat_iff.mp hrest with rfl | hinner
      · exact absurd rfl hne
      · exact hinner
    have hopen : (⟨0, .plain⟩ : Scan).along (0x7b :: rest) = (⟨1, .plain⟩ : Scan).along rest := rfl
    have hpos := (hbody 1 Nat.one_pos).depth_pos_of_part hinner
    rw [hopen] at hdepth
    omega

theorem closed_object (file : DnsCacheFile) : Closed (objectBytes file) := by
  obtain ⟨body, hbytes, hbody⟩ := pretty_eq (sortEntries file)
  rw [objectBytes, hbytes]
  refine ⟨by simp, ?_⟩
  have hopen : (⟨0, .plain⟩ : Scan).along (0x7b :: body ++ [0x7d]) =
      ((⟨1, .plain⟩ : Scan).along body).along [0x7d] := Scan.along_append _ _ _
  rw [hopen, (hbody 1 Nat.one_pos).along_eq]
  rfl

theorem closed_saved (file : DnsCacheFile) : Closed (savedBytes file) := by
  obtain ⟨body, hbytes, hbody⟩ := pretty_eq (sortEntries file)
  rw [savedBytes_eq, objectBytes, hbytes]
  refine ⟨by simp, ?_⟩
  have hopen : (⟨0, .plain⟩ : Scan).along (0x7b :: body ++ [0x7d] ++ [0x0a]) =
      ((⟨1, .plain⟩ : Scan).along body).along [0x7d, 0x0a] := by
    rw [List.append_assoc]
    exact Scan.along_append _ _ _
  rw [hopen, (hbody 1 Nat.one_pos).along_eq]
  rfl

end Brackets

end EveNet
