import EveNet.JsonText
import EveNet.ProxyReplies
import EveNet.WireReaders

/-!
# Names in queries

A name is read without regard to the case of its letters: the proxy takes every spelling of a
domain for that domain. The other direction needs labels of letters, digits and hyphens. A
label with a dot in it, say, is taken for two labels.
-/

namespace EveNet

open JsonText Wire

/-! ### Letter case -/

/-- A byte with an ASCII capital made small. -/
def lowerByte (b : UInt8) : UInt8 :=
  if 0x41 ≤ b.toNat ∧ b.toNat ≤ 0x5a then UInt8.ofNat (b.toNat + 0x20) else b

/-- The same bytes up to the case of ASCII letters. -/
def SameButCase (bytes bytes' : List UInt8) : Prop := bytes.map lowerByte = bytes'.map lowerByte

instance (bytes bytes' : List UInt8) : Decidable (SameButCase bytes bytes') :=
  inferInstanceAs (Decidable (_ = _))

theorem lowerByte_of_big {b : UInt8} (h : 128 ≤ b.toNat) : lowerByte b = b := if_neg (by omega)

theorem toNat_lowerByte (b : UInt8) :
    (lowerByte b).toNat = if 0x41 ≤ b.toNat ∧ b.toNat ≤ 0x5a then b.toNat + 0x20 else b.toNat := by
  rw [lowerByte]
  split_ifs with h
  · rw [UInt8.toNat_ofNat']
    omega
  · rfl

theorem toNat_toLower (c : Char) :
    c.toLower.toNat = if 0x41 ≤ c.toNat ∧ c.toNat ≤ 0x5a then c.toNat + 0x20 else c.toNat := by
  have hiff : (c.val ≥ 'A'.val ∧ c.val ≤ 'Z'.val) ↔ (0x41 ≤ c.toNat ∧ c.toNat ≤ 0x5a) := Iff.rfl
  unfold Char.toLower
  by_cases h : c.val ≥ 'A'.val ∧ c.val ≤ 'Z'.val
  · rw [dif_pos h, if_pos (hiff.mp h)]
    have hle := (hiff.mp h).2
    change (c.val + 0x20).toNat = c.val.toNat + 0x20
    rw [UInt32.toNat_add]
    change c.val.toNat ≤ 0x5a at hle
    change (c.val.toNat + 0x20) % 2 ^ 32 = c.val.toNat + 0x20
    omega
  · rw [dif_neg h, if_neg (fun hn => h (hiff.mpr hn))]

theorem toLower_toLower (c : Char) : c.toLower.toLower = c.toLower :=
  Char.toLower_eq_of_not_isUpper (by simp [Char.isUpper_toLower_eq_false])

theorem utf8EncodeChar_ascii {c : Char} (h : c.toNat < 128) :
    String.utf8EncodeChar c = [UInt8.ofNat c.toNat] := by
  change c.val.toNat < 128 at h
  unfold String.utf8EncodeChar
  dsimp only
  rw [if_pos (by omega)]
  rfl

theorem utf8EncodeChar_big {c : Char} (h : 128 ≤ c.toNat) :
    ∀ b ∈ String.utf8EncodeChar c, 128 ≤ b.toNat := by
  rcases utf8EncodeChar_cases c with ⟨hlt, -⟩ | hall
  · omega
  · exact hall

theorem lower_utf8EncodeChar (c : Char) :
    (String.utf8EncodeChar c).map lowerByte = String.utf8EncodeChar c.toLower := by
  have hlower := toNat_toLower c
  by_cases hc : c.toNat < 128
  · have hsmall : c.toLower.toNat < 128 := by
      rw [hlower]
      split_ifs <;> omega
    rw [utf8EncodeChar_ascii hc, utf8EncodeChar_ascii hsmall, List.map_singleton]
    congr 1
    apply UInt8.toNat_inj.mp
    rw [toNat_lowerByte, UInt8.toNat_ofNat_of_lt' (show c.toNat < 256 by omega),
      UInt8.toNat_ofNat_of_lt' (show c.toLower.toNat < 256 by omega), hlower]
  · have hbig := utf8EncodeChar_big (not_lt.mp hc)
    have hsame : c.toLower = c := by
      apply Char.toNat_inj.mp
      rw [hlower, if_neg (by omega)]
    rw [hsame, List.map_congr_left (fun b hb => lowerByte_of_big (hbig b hb)), List.map_id']

theorem lower_bytesOf (text : List Char) :
    (bytesOf text).map lowerByte = bytesOf (text.map Char.toLower) := by
  induction text with
  | nil => rfl
  | cons c text ih =>
      rw [bytesOf_cons, List.map_append, ih, lower_utf8EncodeChar, List.map_cons, bytesOf_cons]

/-- What is UTF-8 in small letters is UTF-8 in any letters. -/
theorem bytesOf_of_lower {bytes : List UInt8} {text : List Char}
    (h : bytes.map lowerByte = bytesOf text) : ∃ text', bytes = bytesOf text' := by
  induction text generalizing bytes with
  | nil => exact ⟨[], List.map_eq_nil_iff.mp h⟩
  | cons c text ih =>
      rw [bytesOf_cons, List.map_eq_append_iff] at h
      obtain ⟨front, back, rfl, hfront, hback⟩ := h
      obtain ⟨rest, rfl⟩ := ih hback
      suffices hchar : ∃ c', front = String.utf8EncodeChar c' by
        obtain ⟨c', rfl⟩ := hchar
        exact ⟨c' :: rest, (bytesOf_cons c' rest).symm⟩
      by_cases hc : c.toNat < 128
      · rw [utf8EncodeChar_ascii hc] at hfront
        obtain ⟨b, rfl, hb⟩ := List.map_eq_singleton_iff.mp hfront
        have hlt : b.toNat < 128 := by
          have hnat := congrArg UInt8.toNat hb
          rw [toNat_lowerByte, UInt8.toNat_ofNat_of_lt' (show c.toNat < 256 by omega)] at hnat
          split_ifs at hnat <;> omega
        have hvalid : b.toNat.isValidChar := Or.inl (by omega)
        have hnat : (Char.ofNat b.toNat).toNat = b.toNat := by
          rw [Char.toNat_ofNat, if_pos hvalid]
        refine ⟨Char.ofNat b.toNat, ?_⟩
        rw [utf8EncodeChar_ascii (by omega), hnat, UInt8.ofNat_toNat]
      · have hbig := utf8EncodeChar_big (not_lt.mp hc)
        refine ⟨c, ?_⟩
        rw [← hfront]
        refine (List.map_id' front).symm.trans (List.map_congr_left (fun b hb => ?_))
        have hlow := hbig _ (hfront ▸ List.mem_map_of_mem hb)
        rw [toNat_lowerByte] at hlow
        refine (lowerByte_of_big ?_).symm
        split_ifs at hlow <;> omega

/-! ### Decoding -/

theorem length_bytesOf (text : List Char) : (bytesOf text).length = utf8Len text := by
  induction text with
  | nil => rfl
  | cons c text ih =>
      rw [bytesOf_cons, List.length_append, ih, String.length_utf8EncodeChar, utf8Len, utf8Len,
        List.map_cons, List.sum_cons]

theorem fromUTF8?_eq_some_iff {bytes : List UInt8} {s : String} :
    String.fromUTF8? ⟨bytes.toArray⟩ = some s ↔ bytes = bytesOf s.toList := by
  have harray : ∀ l : List UInt8, (⟨l.toArray⟩ : ByteArray) = l.toByteArray :=
    fun l => ByteArray.ext List.data_toByteArray.symm
  have htext : s.toByteArray = (bytesOf s.toList).toByteArray := String.utf8Encode_toList.symm
  rw [harray, String.fromUTF8?]
  constructor
  · intro h
    split_ifs at h with hvalid
    have hs : bytes.toByteArray = s.toByteArray := by
      rw [← Option.some.inj h]
      rfl
    have hdata := congrArg ByteArray.data (hs.trans htext)
    rw [List.data_toByteArray, List.data_toByteArray] at hdata
    exact congrArg Array.toList hdata
  · intro h
    have hs : bytes.toByteArray = s.toByteArray := by rw [h, htext]
    have hvalid : bytes.toByteArray.IsValidUTF8 := hs ▸ s.isValidUTF8
    rw [dif_pos hvalid, Option.some.injEq]
    exact String.toByteArray_inj.mp hs

theorem decodeLabel_eq_ok_iff {bytes : List UInt8} {s : String} :
    decodeLabel bytes = .ok s ↔
      ∃ text, bytes = bytesOf text ∧ s = String.ofList (text.map Char.toLower) := by
  rw [decodeLabel]
  cases hread : String.fromUTF8? ⟨bytes.toArray⟩ with
  | none =>
      constructor
      · intro h
        cases h
      · rintro ⟨text, rfl, -⟩
        have hsome := fromUTF8?_eq_some_iff.mpr (congrArg bytesOf (String.toList_ofList (l := text)).symm)
        rw [hread] at hsome
        cases hsome
  | some label =>
      obtain rfl := fromUTF8?_eq_some_iff.mp hread
      dsimp only
      rw [Except.ok.injEq]
      constructor
      · rintro rfl
        exact ⟨label.toList, rfl, rfl⟩
      · rintro ⟨text, htext, rfl⟩
        have hsame : String.ofList text = label := by
          have hread' := fromUTF8?_eq_some_iff.mpr
            (htext.trans (congrArg bytesOf (String.toList_ofList (l := text)).symm))
          exact (Option.some.inj (hread.symm.trans hread')).symm
        rw [← hsame, String.toList_ofList]

theorem decodeLabel_bytesOf (text : List Char) :
    decodeLabel (bytesOf text) = .ok (String.ofList (text.map Char.toLower)) :=
  decodeLabel_eq_ok_iff.mpr ⟨text, rfl, rfl⟩

theorem lowerByte_between {lo hi : UInt8} (hlo : 0x80 ≤ lo) (b : UInt8) :
    lo ≤ lowerByte b ∧ lowerByte b ≤ hi ↔ lo ≤ b ∧ b ≤ hi := by
  by_cases hb : 128 ≤ b.toNat
  · rw [lowerByte_of_big hb]
  · have hlow := toNat_lowerByte b
    simp only [UInt8.le_iff_toNat_le, UInt8.reduceToNat] at hlo ⊢
    split_ifs at hlow <;> omega

/-- A character outside ASCII goes on with bytes outside ASCII. -/
theorem continuations_big {first : UInt8} {ranges : List (UInt8 × UInt8)}
    (h : continuations first = some ranges) : ∀ range ∈ ranges, 0x80 ≤ range.1 := by
  unfold continuations at h
  split_ifs at h
  all_goals
    obtain rfl := Option.some.inj h
    simp

theorem utf8Fault_lower {ranges : List (UInt8 × UInt8)} (bytes : List UInt8) (start read : ℕ)
    (h : ∀ range ∈ ranges, 0x80 ≤ range.1) :
    utf8Fault start read ranges (bytes.map lowerByte) = utf8Fault start read ranges bytes := by
  induction bytes generalizing start read ranges with
  | nil => rfl
  | cons b bytes ih =>
      cases ranges with
      | cons range ranges =>
          obtain ⟨hrange, hranges⟩ := List.forall_mem_cons.mp h
          rw [List.map_cons, utf8Fault, utf8Fault]
          simp only [lowerByte_between hrange, ih _ _ hranges]
      | nil =>
          have hplain : lowerByte b < 0x80 ↔ b < 0x80 := by
            have hlow := toNat_lowerByte b
            simp only [UInt8.lt_iff_toNat_lt, UInt8.reduceToNat]
            split_ifs at hlow <;> omega
          rw [List.map_cons, utf8Fault, utf8Fault]
          by_cases hb : b < 0x80
          · rw [if_pos hb, if_pos (hplain.mpr hb)]
            exact ih _ _ (by simp)
          · have hbig : 128 ≤ b.toNat := by simpa [UInt8.lt_iff_toNat_lt] using hb
            rw [if_neg hb, if_neg (fun hn => hb (hplain.mp hn)), lowerByte_of_big hbig]
            cases hranges : continuations b with
            | none => rfl
            | some ranges => exact ih _ _ (continuations_big hranges)

/-- The case of the letters in a label is not read. -/
theorem decodeLabel_lower (bytes : List UInt8) :
    decodeLabel (bytes.map lowerByte) = decodeLabel bytes := by
  by_cases hvalid : ∃ text, bytes = bytesOf text
  · obtain ⟨text, rfl⟩ := hvalid
    rw [lower_bytesOf, decodeLabel_bytesOf, decodeLabel_bytesOf, List.map_map]
    congr 3
    funext c
    exact toLower_toLower c
  · have hinvalid : ¬ ∃ text, bytes.map lowerByte = bytesOf text :=
      fun ⟨_, h⟩ => hvalid (bytesOf_of_lower h)
    have herror : ∀ l : List UInt8, (¬ ∃ text, l = bytesOf text) →
        decodeLabel l = .error ["DNS qname label is not UTF-8", utf8Error l] := by
      intro l hl
      rw [decodeLabel]
      cases hread : String.fromUTF8? ⟨l.toArray⟩ with
      | none => rfl
      | some label => exact absurd ⟨_, fromUTF8?_eq_some_iff.mp hread⟩ hl
    rw [herror _ hvalid, herror _ hinvalid, utf8Error, utf8Error, utf8Fault_lower _ _ _ (by simp)]

theorem decodeLabels_lower (labels : List (List UInt8)) :
    decodeLabels (labels.map (List.map lowerByte)) = decodeLabels labels := by
  induction labels with
  | nil => rfl
  | cons label labels ih => rw [List.map_cons, decodeLabels, decodeLabels, decodeLabel_lower, ih]

theorem queryName_lower (labels : List (List UInt8)) :
    queryName (labels.map (List.map lowerByte)) = queryName labels := by
  rw [queryName, queryName, decodeLabels_lower]

/-! ### Domains as names -/

/-- The labels of a text, as bytes. -/
def textLabels (text : List Char) : List (List UInt8) := (text.splitOn '.').map bytesOf

theorem decodeLabels_map_bytesOf (labels : List (List Char)) :
    decodeLabels (labels.map bytesOf) =
      .ok (labels.map (fun label => String.ofList (label.map Char.toLower))) := by
  induction labels with
  | nil => rfl
  | cons label labels ih =>
      rw [List.map_cons, decodeLabels, decodeLabel_bytesOf, ih]
      rfl

theorem map_intercalate_dot (f : Char → Char) (hdot : f '.' = '.') (labels : List (List Char)) :
    (['.'].intercalate labels).map f = ['.'].intercalate (labels.map (List.map f)) := by
  induction labels with
  | nil => rfl
  | cons label labels ih =>
      cases labels with
      | nil => simp
      | cons next labels =>
          rw [List.map_cons] at ih
          rw [List.intercalate_cons_cons, List.map_append, List.map_append, ih]
          simp [List.intercalate_cons_cons, hdot]

/-- Any spelling of a domain is read as the domain. -/
theorem queryName_textLabels {d recased : String} (hd : normalizeDomain d = .ok d)
    (hcase : recased.toList.map Char.toLower = d.toList) :
    queryName (textLabels recased.toList) = .ok d := by
  have hjoin : ".".intercalate ((recased.toList.splitOn '.').map
      (fun label => String.ofList (label.map Char.toLower))) = d := by
    apply String.toList_inj.mp
    rw [String.toList_intercalate, List.map_map]
    have htext : String.toList ∘ (fun label => String.ofList (label.map Char.toLower)) =
        List.map Char.toLower := by
      funext label
      exact String.toList_ofList
    rw [htext]
    change ['.'].intercalate _ = _
    rw [← map_intercalate_dot _ rfl, List.intercalate_splitOn, hcase]
  refine except_bind_eq_ok.mpr ⟨_, decodeLabels_map_bytesOf _, ?_⟩
  rw [hjoin, hd]

theorem notMem_of_mem_splitOn {text label : List Char} (h : label ∈ text.splitOn '.') :
    '.' ∉ label := by
  induction text generalizing label with
  | nil =>
      rw [List.splitOn_nil, List.mem_singleton] at h
      rw [h]
      exact List.not_mem_nil
  | cons c text ih =>
      rw [List.splitOn_cons_eq_if_modifyHead] at h
      by_cases hc : c = '.'
      · rw [if_pos (beq_iff_eq.mpr hc)] at h
        rcases List.mem_cons.mp h with rfl | hrest
        · exact List.not_mem_nil
        · exact ih hrest
      · rw [if_neg (by simpa using hc)] at h
        obtain ⟨first, rest, hsplit⟩ := List.exists_cons_of_ne_nil (List.splitOn_ne_nil '.' text)
        rw [hsplit] at h ih
        rcases List.mem_cons.mp h with rfl | hrest
        · exact List.not_mem_cons_of_ne_of_not_mem (Ne.symm hc) (ih List.mem_cons_self)
        · exact ih (List.mem_cons_of_mem _ hrest)

theorem splitOn_map_toLower {text lowered : List Char} (h : text.map Char.toLower = lowered) :
    (text.splitOn '.').map (List.map Char.toLower) = lowered.splitOn '.' := by
  have hjoin : lowered = ['.'].intercalate ((text.splitOn '.').map (List.map Char.toLower)) := by
    rw [← map_intercalate_dot _ rfl, List.intercalate_splitOn, h]
  have hdot : ∀ c : Char, c.toLower = '.' → c = '.' := by
    intro c hc
    have hnat := congrArg Char.toNat hc
    rw [toNat_toLower] at hnat
    apply Char.toNat_inj.mp
    change _ = 0x2e at hnat
    change _ = 0x2e
    split_ifs at hnat <;> omega
  rw [hjoin, List.splitOn_intercalate]
  · intro label hlabel hmem
    obtain ⟨original, horiginal, rfl⟩ := List.mem_map.mp hlabel
    obtain ⟨c, hc, hlow⟩ := List.mem_map.mp hmem
    exact notMem_of_mem_splitOn horiginal (hdot c hlow ▸ hc)
  · simp

/-- A spelling of a domain has labels of the same lengths, which fit in a query. -/
theorem length_textLabels {d recased : String} (hd : Canonical d.toList)
    (hcase : recased.toList.map Char.toLower = d.toList) :
    ∀ label ∈ textLabels recased.toList, 0 < label.length ∧ label.length ≤ 63 := by
  intro label hlabel
  obtain ⟨text, htext, rfl⟩ := List.mem_map.mp hlabel
  have hmem : text.map Char.toLower ∈ d.toList.splitOn '.' := by
    rw [← splitOn_map_toLower hcase]
    exact List.mem_map_of_mem htext
  obtain ⟨hne, hlen⟩ := hd.labels _ hmem
  have hlength : (bytesOf text).length = utf8Len (text.map Char.toLower) := by
    rw [← length_bytesOf, ← lower_bytesOf, List.length_map]
  have hpos : 0 < utf8Len (text.map Char.toLower) := by
    obtain ⟨c, rest, hcons⟩ := List.exists_cons_of_ne_nil hne
    rw [hcons, utf8Len, List.map_cons, List.sum_cons]
    exact Nat.add_pos_left c.utf8Size_pos _
  omega

/-- A domain as a name on the wire. -/
def wireDomain (d : String) : List UInt8 := wireName (textLabels d.toList)

/-- Whose policy the question of a query is for. -/
def policyDecision (cfg : Config) (query : Packet) : Except Error (Option Policy) := do
  let question ← parseQuestion query
  findEnabledDomainPolicy cfg question.domain

/-! ### Injectivity -/

section Injective

variable {labels labels' : List (List UInt8)}

theorem lowerByte_lengthByte {n : ℕ} (h : n ≤ 63) : lowerByte (UInt8.ofNat n) = UInt8.ofNat n := by
  rw [lowerByte, UInt8.toNat_ofNat_of_lt' (show n < 256 by omega), if_neg (by omega)]

theorem map_lower_wireName (hlabels : ∀ label ∈ labels, 0 < label.length ∧ label.length ≤ 63) :
    (wireName labels).map lowerByte = wireName (labels.map (List.map lowerByte)) := by
  induction labels with
  | nil => rfl
  | cons label labels ih =>
      have hlabel := hlabels label List.mem_cons_self
      rw [wireName_cons, List.map_cons, List.map_append, lowerByte_lengthByte hlabel.2,
        ih (fun l hl => hlabels l (List.mem_cons_of_mem _ hl)), List.map_cons, wireName_cons,
        List.length_map]

/-- No name goes on where another one ends. -/
theorem wireName_injOn {back back' : List UInt8}
    (hlabels : ∀ label ∈ labels, 0 < label.length ∧ label.length ≤ 63)
    (hlabels' : ∀ label ∈ labels', 0 < label.length ∧ label.length ≤ 63)
    (h : wireName labels ++ back = wireName labels' ++ back') : labels = labels' := by
  have hzero : ∀ (label : List UInt8) (rest : List (List UInt8)) (back back' : List UInt8),
      (0 < label.length ∧ label.length ≤ 63) →
        wireName (label :: rest) ++ back ≠ wireName [] ++ back' := by
    intro label rest back back' hlabel heq
    rw [wireName_cons] at heq
    exact (lengthByte hlabel.1 hlabel.2).1 (List.cons.inj heq).1
  induction labels generalizing labels' with
  | nil =>
      cases labels' with
      | nil => rfl
      | cons label' rest' => exact absurd h.symm (hzero _ _ _ _ (hlabels' _ List.mem_cons_self))
  | cons label rest ih =>
      cases labels' with
      | nil => exact absurd h (hzero _ _ _ _ (hlabels _ List.mem_cons_self))
      | cons label' rest' =>
          rw [wireName_cons, wireName_cons, List.cons_append, List.cons_append, List.append_assoc,
            List.append_assoc] at h
          obtain ⟨hlen, hrest⟩ := List.cons.inj h
          have hl := hlabels label List.mem_cons_self
          have hl' := hlabels' label' List.mem_cons_self
          have hnat := congrArg UInt8.toNat hlen
          rw [(lengthByte hl.1 hl.2).2.2, (lengthByte hl'.1 hl'.2).2.2] at hnat
          obtain ⟨rfl, htail⟩ := List.append_inj hrest hnat
          rw [ih (fun l hm => hlabels l (List.mem_cons_of_mem _ hm))
            (fun l hm => hlabels' l (List.mem_cons_of_mem _ hm)) htail]

theorem sameButCase_wireName (hlabels : ∀ label ∈ labels, 0 < label.length ∧ label.length ≤ 63)
    (hlabels' : ∀ label ∈ labels', 0 < label.length ∧ label.length ≤ 63) :
    SameButCase (wireName labels) (wireName labels') ↔
      labels.map (List.map lowerByte) = labels'.map (List.map lowerByte) := by
  have hlower : ∀ l : List (List UInt8), (∀ label ∈ l, 0 < label.length ∧ label.length ≤ 63) →
      ∀ label ∈ l.map (List.map lowerByte), 0 < label.length ∧ label.length ≤ 63 := by
    intro l hl label hlabel
    obtain ⟨original, horiginal, rfl⟩ := List.mem_map.mp hlabel
    rw [List.length_map]
    exact hl original horiginal
  rw [SameButCase, map_lower_wireName hlabels, map_lower_wireName hlabels']
  constructor
  · intro h
    exact wireName_injOn (hlower _ hlabels) (hlower _ hlabels') (congrArg (· ++ []) h)
  · exact congrArg wireName

end Injective

/-! ### Spellings of a domain -/

/-- Every spelling of a domain is read as this domain, and in general neither the case of the
letters nor what follows the question has a part in whose policy a query is for. -/
theorem parseQuestion_spelling :
    (∀ (d recased : String) (header trailing : List UInt8) (qdcount qtype qclass : UInt16),
      normalizeDomain d = .ok d → recased.toList.map Char.toLower = d.toList →
      header.length = 12 → readU16 header 4 = .ok qdcount → 1 ≤ qdcount →
      parseQuestion (header ++ (wireDomain recased ++ (bytes16 qtype ++ (bytes16 qclass ++
        trailing)))) = .ok ⟨d, qtype, qclass⟩) ∧
      ∀ (cfg : Config) (labels labels' : List (List UInt8)) (header trailing trailing' : List UInt8)
        (qtype qclass : UInt16),
        (∀ label ∈ labels ++ labels', 0 < label.length ∧ label.length ≤ 63) →
        SameButCase (wireName labels) (wireName labels') → header.length = 12 →
        policyDecision cfg (header ++ (wireName labels ++ (bytes16 qtype ++ (bytes16 qclass ++
          trailing)))) =
        policyDecision cfg (header ++ (wireName labels' ++ (bytes16 qtype ++ (bytes16 qclass ++
          trailing')))) := by
  constructor
  · intro d recased header trailing qdcount qtype qclass hd hcase hheader hcount hpos
    have hlabels := length_textLabels (canonical_of_normalizeDomain hd) hcase
    have hread := parseQuestion_wireName trailing hheader hlabels qtype qclass
    have hsome : qdcount ≠ 0 := by
      rintro rfl
      exact absurd hpos (by decide)
    rw [hcount, queryName_textLabels hd hcase] at hread
    refine hread.trans ?_
    change (refuseIf (qdcount = 0) _ >>= _) = _
    rw [refuseIf, if_neg hsome]
    rfl
  · intro cfg labels labels' header trailing trailing' qtype qclass hboth hcase hheader
    have hlabels := fun label hl => hboth label (List.mem_append_left _ hl)
    have hlabels' := fun label hl => hboth label (List.mem_append_right _ hl)
    have hname : queryName labels = queryName labels' := by
      rw [← queryName_lower labels, (sameButCase_wireName hlabels hlabels').mp hcase,
        queryName_lower]
    have hread := parseQuestion_wireName trailing hheader hlabels qtype qclass
    have hread' := parseQuestion_wireName trailing' hheader hlabels' qtype qclass
    rw [hname, ← hread'] at hread
    have hsame : parseQuestion (header ++ (wireName labels ++ (bytes16 qtype ++ (bytes16 qclass ++
        trailing)))) = parseQuestion (header ++ (wireName labels' ++ (bytes16 qtype ++
        (bytes16 qclass ++ trailing')))) := hread
    rw [policyDecision, policyDecision, hsame]

/-- A header with a question announced, and the labels of a name in two spellings. -/
def askHeader : List UInt8 := [0, 7, 1, 0, 0, 1, 0, 0, 0, 0, 0, 0]

theorem parseQuestion_spelling_example :
    parseQuestion (askHeader ++ (wireDomain "A.eXample" ++ (bytes16 qtypeA ++ (bytes16 qclassIn ++
      [0])))) = .ok ⟨"a.example", qtypeA, qclassIn⟩ ∧
      policyDecision domainConfig (askHeader ++ (wireName [[0x61], [0x62]] ++ (bytes16 qtypeA ++
        (bytes16 qclassIn ++ [])))) =
      policyDecision domainConfig (askHeader ++ (wireName [[0x41], [0x62]] ++ (bytes16 qtypeA ++
        (bytes16 qclassIn ++ [1])))) :=
  ⟨parseQuestion_spelling.1 "a.example" "A.eXample" askHeader [0] 1 qtypeA qclassIn (by decide)
      (by decide) rfl rfl (by decide),
    parseQuestion_spelling.2 domainConfig [[0x61], [0x62]] [[0x41], [0x62]] askHeader [] [1] qtypeA
      qclassIn (by decide) (by decide) rfl⟩

/-! ### Names read back -/

theorem holds_of_readLabels {buf : Packet} {fuel pos next : ℕ} {texts : List String}
    (h : readLabels buf fuel pos = .ok (texts, next)) :
    ∃ labels : List (List UInt8), (∀ label ∈ labels, 0 < label.length ∧ label.length ≤ 63) ∧
      Holds buf pos (wireName labels) ∧ next = pos + (wireName labels).length ∧
      decodeLabels labels = .ok texts := by
  induction fuel generalizing pos texts with
  | zero => simp [readLabels] at h
  | succ fuel ih =>
      cases hb : buf[pos]? with
      | none => simp [readLabels, hb] at h
      | some len =>
          rw [readLabels, hb] at h
          dsimp only at h
          by_cases hzero : len = 0
          · rw [if_pos hzero, Except.ok.injEq, Prod.mk.injEq] at h
            obtain ⟨rfl, rfl⟩ := h
            exact ⟨[], by simp, holds_cons.mpr ⟨hzero ▸ hb, holds_nil⟩, rfl, rfl⟩
          rw [if_neg hzero] at h
          split_ifs at h with hpointer hlong
          obtain ⟨hshort, hfits⟩ := not_or.mp hlong
          obtain ⟨text, htext, h⟩ := except_bind_eq_ok.mp h
          obtain ⟨⟨rest, last⟩, hrest, h⟩ := except_bind_eq_ok.mp h
          rw [Except.ok.injEq, Prod.mk.injEq] at h
          obtain ⟨rfl, rfl⟩ := h
          obtain ⟨labels, hlabels, hholds, rfl, hdecode⟩ := ih hrest
          have hne : len.toNat ≠ 0 := fun hz => hzero (UInt8.toNat_inj.mp hz)
          set label := (buf.drop (pos + 1)).take len.toNat with hlabel
          have hlen : label.length = len.toNat := by
            rw [hlabel, List.length_take, List.length_drop]
            omega
          refine ⟨label :: labels, ?_, ?_, ?_, ?_⟩
          · rw [List.forall_mem_cons]
            exact ⟨by omega, hlabels⟩
          · rw [wireName_cons, holds_cons, holds_append, hlen, UInt8.ofNat_toNat]
            exact ⟨hb, holds_take _ _ _, hholds⟩
          · rw [wireName_cons, List.length_cons, List.length_append, hlen]
            omega
          · exact except_bind_eq_ok.mpr ⟨text, htext, except_bind_eq_ok.mpr ⟨rest, hdecode, rfl⟩⟩

/-- The bytes of letters, digits and hyphens. -/
def NameByte (b : UInt8) : Prop :=
  (0x30 ≤ b.toNat ∧ b.toNat ≤ 0x39) ∨ (0x41 ≤ b.toNat ∧ b.toNat ≤ 0x5a) ∨
    (0x61 ≤ b.toNat ∧ b.toNat ≤ 0x7a) ∨ b.toNat = 0x2d

/-- The name at the position consists of labels of letters, digits and hyphens. -/
def PlainName (buf : Packet) (pos : ℕ) : Prop :=
  ∃ labels : List (List UInt8), Holds buf pos (wireName labels) ∧
    ∀ label ∈ labels, (0 < label.length ∧ label.length ≤ 63) ∧ ∀ b ∈ label, NameByte b

/-- The bytes from one position up to another one. -/
def nameBytes (buf : Packet) (pos next : ℕ) : List UInt8 := (buf.drop pos).take (next - pos)

theorem hostChar_iff {c : Char} : hostChar c = true ↔
    (0x30 ≤ c.toNat ∧ c.toNat ≤ 0x39) ∨ (0x41 ≤ c.toNat ∧ c.toNat ≤ 0x5a) ∨
      (0x61 ≤ c.toNat ∧ c.toNat ≤ 0x7a) ∨ c.toNat = 0x2d ∨ c.toNat = 0x2e := by
  simp only [hostChar, Char.isAlphanum, Char.isAlpha, Char.isUpper, Char.isLower, Char.isDigit,
    Bool.or_eq_true, Bool.and_eq_true, beq_iff_eq, decide_eq_true_eq, UInt32.le_iff_toNat_le,
    ge_iff_le, ← Char.toNat_inj]
  change ((((65 ≤ c.toNat ∧ c.toNat ≤ 90) ∨ (97 ≤ c.toNat ∧ c.toNat ≤ 122)) ∨
    (48 ≤ c.toNat ∧ c.toNat ≤ 57)) ∨ c.toNat = 45) ∨ c.toNat = 46 ↔ _
  omega

/-- The text of a plain label, in small letters. -/
def plainText (label : List UInt8) : List Char :=
  label.map (fun b => Char.ofNat (lowerByte b).toNat)

section Plain

variable {labels : List (List UInt8)} {label : List UInt8} {b : UInt8} {c : Char}

theorem toNat_plainChar (h : NameByte b) :
    (Char.ofNat (lowerByte b).toNat).toNat = (lowerByte b).toNat := by
  have hnat := toNat_lowerByte b
  unfold NameByte at h
  have hvalid : (lowerByte b).toNat.isValidChar := by
    left
    split_ifs at hnat <;> omega
  rw [Char.toNat_ofNat, if_pos hvalid]

theorem plainChar_spec (h : NameByte b) :
    hostChar (Char.ofNat (lowerByte b).toNat) = true ∧
      (Char.ofNat (lowerByte b).toNat).isUpper = false ∧ Char.ofNat (lowerByte b).toNat ≠ '.' := by
  have hchar := toNat_plainChar h
  have hnat := toNat_lowerByte b
  unfold NameByte at h
  refine ⟨?_, ?_, ?_⟩
  · rw [hostChar_iff, hchar]
    split_ifs at hnat <;> omega
  · have hlower : (Char.ofNat (lowerByte b).toNat).toLower = Char.ofNat (lowerByte b).toNat := by
      apply Char.toNat_inj.mp
      rw [toNat_toLower, hchar]
      split_ifs at hnat ⊢ <;> omega
    rw [← hlower]
    exact Char.isUpper_toLower_eq_false _
  · intro hdot
    have hbad := congrArg Char.toNat hdot
    rw [hchar] at hbad
    change _ = 0x2e at hbad
    split_ifs at hnat <;> omega

theorem bytesOf_plainText (h : ∀ b ∈ label, NameByte b) :
    bytesOf (plainText label) = label.map lowerByte := by
  induction label with
  | nil => rfl
  | cons b label ih =>
      rw [List.forall_mem_cons] at h
      have hchar := toNat_plainChar h.1
      have hnat := toNat_lowerByte b
      have hb := h.1
      unfold NameByte at hb
      have hascii : (Char.ofNat (lowerByte b).toNat).toNat < 128 := by
        rw [hchar]
        split_ifs at hnat <;> omega
      rw [plainText, List.map_cons, bytesOf_cons, utf8EncodeChar_ascii hascii, hchar,
        UInt8.ofNat_toNat, List.map_cons]
      exact congrArg _ (ih h.2)

theorem mem_intercalate_of_mem {names : List (List Char)} {name : List Char} (hname : name ∈ names)
    (hc : c ∈ name) : c ∈ ['.'].intercalate names := by
  induction names with
  | nil => cases hname
  | cons first names ih =>
      cases names with
      | nil =>
          obtain rfl := List.mem_singleton.mp hname
          simpa using hc
      | cons next names =>
          rw [List.intercalate_cons_cons, List.mem_append, List.mem_append]
          rcases List.mem_cons.mp hname with rfl | hrest
          · exact Or.inl (Or.inl hc)
          · exact Or.inr (ih hrest)

theorem mem_intercalate_dot {names : List (List Char)} (h : c ∈ ['.'].intercalate names) :
    c = '.' ∨ ∃ name ∈ names, c ∈ name := by
  induction names with
  | nil => cases h
  | cons name names ih =>
      cases names with
      | nil => exact Or.inr ⟨name, List.mem_cons_self, by simpa using h⟩
      | cons next names =>
          rw [List.intercalate_cons_cons, List.mem_append, List.mem_append, List.mem_singleton] at h
          rcases h with (hname | hdot) | hrest
          · exact Or.inr ⟨name, List.mem_cons_self, hname⟩
          · exact Or.inl hdot
          · rcases ih hrest with hdot | ⟨other, hother, hc⟩
            · exact Or.inl hdot
            · exact Or.inr ⟨other, List.mem_cons_of_mem _ hother, hc⟩

/-- A plain name is read as the domain with its labels. -/
theorem textLabels_of_plain {texts : List String} {d : String}
    (hplain : ∀ label ∈ labels, (0 < label.length ∧ label.length ≤ 63) ∧ ∀ b ∈ label, NameByte b)
    (hdecode : decodeLabels labels = .ok texts)
    (hd : normalizeDomain (".".intercalate texts) = .ok d) :
    textLabels d.toList = labels.map (List.map lowerByte) := by
  set names := labels.map plainText with hnames
  have hbytes : labels.map (List.map lowerByte) = names.map bytesOf := by
    rw [hnames, List.map_map]
    exact List.map_congr_left (fun label hl => (bytesOf_plainText (hplain label hl).2).symm)
  have hchars : ∀ name ∈ names, ∀ c ∈ name,
      hostChar c = true ∧ c.isUpper = false ∧ c ≠ '.' := by
    intro name hname c hc
    obtain ⟨label, hlabel, rfl⟩ := List.mem_map.mp hname
    obtain ⟨b, hb, rfl⟩ := List.mem_map.mp hc
    exact plainChar_spec ((hplain label hlabel).2 b hb)
  have hjoin : (".".intercalate texts).toList = ['.'].intercalate names := by
    rw [← decodeLabels_lower, hbytes, decodeLabels_map_bytesOf, Except.ok.injEq] at hdecode
    rw [String.toList_intercalate, ← hdecode, List.map_map]
    change ['.'].intercalate _ = _
    congr 1
    refine (List.map_congr_left (fun name hname => ?_)).trans (List.map_id' names)
    refine String.toList_ofList.trans ?_
    refine (List.map_congr_left (fun c hc => ?_)).trans (List.map_id' name)
    exact Char.toLower_eq_of_not_isUpper (by simp [(hchars name hname c hc).2.1])
  have hne : names ≠ [] := by
    intro hnil
    have hempty : ".".intercalate texts = "" := by
      apply String.toList_inj.mp
      rw [hjoin, hnil]
      rfl
    have hrefused : normalizeDomain "" = .error ["domain cannot be empty"] := by decide
    rw [hempty, hrefused] at hd
    cases hd
  have hsplit : (".".intercalate texts).toList.splitOn '.' = names := by
    rw [hjoin, List.splitOn_intercalate]
    · exact fun name hname hdot => (hchars name hname _ hdot).2.2 rfl
    · exact hne
  have hinside : ∀ c ∈ (".".intercalate texts).toList, hostChar c = true ∧ c.isUpper = false := by
    intro c hc
    rw [hjoin] at hc
    rcases mem_intercalate_dot hc with rfl | ⟨name, hname, hmem⟩
    · decide
    · exact ⟨(hchars name hname c hmem).1, (hchars name hname c hmem).2.1⟩
  have hlabels : [] ∉ (".".intercalate texts).toList.splitOn '.' := by
    rw [hsplit]
    intro hnil
    obtain ⟨label, hlabel, hempty⟩ := List.mem_map.mp hnil
    have hpos := (hplain label hlabel).1.1
    rw [List.map_eq_nil_iff.mp hempty] at hpos
    cases hpos
  have hdomain : d.toList = (".".intercalate texts).toList := by
    rw [(normalizeDomain_eq_ok_iff.mp hd).1]
    exact foldDomain_of_hostChars (fun c hc => (hinside c hc).1) (fun c hc => (hinside c hc).2)
      hlabels
  rw [textLabels, hdomain, hsplit, hbytes]

/-- The labels of a domain are plain, in any spelling. -/
theorem plain_of_textLabels {d : String} (hd : Canonical d.toList)
    (h : labels.map (List.map lowerByte) = textLabels d.toList) :
    ∀ label ∈ labels, ∀ b ∈ label, NameByte b := by
  intro label hlabel b hb
  have hmem : label.map lowerByte ∈ textLabels d.toList := h ▸ List.mem_map_of_mem hlabel
  obtain ⟨text, htext, hbytes⟩ := List.mem_map.mp hmem
  have hlow : lowerByte b ∈ bytesOf text := hbytes ▸ List.mem_map_of_mem hb
  obtain ⟨c, hc, hbc⟩ := List.mem_flatMap.mp hlow
  have hne : c ≠ '.' := fun hdot => notMem_of_mem_splitOn htext (hdot ▸ hc)
  have hin : c ∈ d.toList := by
    have hjoined := mem_intercalate_of_mem htext hc
    rwa [List.intercalate_splitOn] at hjoined
  have hhost := hostChar_iff.mp (hd.hostChars c hin)
  have hdot : c.toNat ≠ 0x2e := fun hn => hne (Char.toNat_inj.mp hn)
  rw [utf8EncodeChar_ascii (by omega), List.mem_singleton] at hbc
  have hnat := congrArg UInt8.toNat hbc
  rw [toNat_lowerByte, UInt8.toNat_ofNat_of_lt' (show c.toNat < 256 by omega)] at hnat
  unfold NameByte
  split_ifs at hnat <;> omega

end Plain

/-- What is behind a name that was read. -/
theorem labels_of_readQname {buf : Packet} {pos next : ℕ} {d : String}
    (h : readQname buf pos = .ok (d, next)) :
    ∃ (labels : List (List UInt8)) (texts : List String),
      (∀ label ∈ labels, 0 < label.length ∧ label.length ≤ 63) ∧ Holds buf pos (wireName labels) ∧
      nameBytes buf pos next = wireName labels ∧ decodeLabels labels = .ok texts ∧
      normalizeDomain (".".intercalate texts) = .ok d := by
  obtain ⟨⟨texts, last⟩, hread, h⟩ := except_bind_eq_ok.mp h
  obtain ⟨name, hname, h⟩ := except_bind_eq_ok.mp h
  rw [Except.ok.injEq, Prod.mk.injEq] at h
  obtain ⟨rfl, rfl⟩ := h
  obtain ⟨labels, hlabels, hholds, rfl, hdecode⟩ := holds_of_readLabels hread
  refine ⟨labels, texts, hlabels, hholds, ?_, hdecode, hname⟩
  rw [nameBytes, Nat.add_sub_cancel_left]
  exact (List.prefix_iff_eq_take.mp hholds).symm

theorem faithful_iff {buf : Packet} {pos next : ℕ} {d : String}
    (h : readQname buf pos = .ok (d, next)) :
    SameButCase (nameBytes buf pos next) (wireDomain d) ↔ PlainName buf pos := by
  obtain ⟨labels, texts, hlabels, hholds, hbytes, hdecode, hd⟩ := labels_of_readQname h
  have hcan := canonical_of_normalizeDomain hd
  have hlower : d.toList.map Char.toLower = d.toList := by
    refine (List.map_congr_left (fun c hc => ?_)).trans (List.map_id' _)
    exact Char.toLower_eq_of_not_isUpper (by simp [hcan.lower c hc])
  have htext : (textLabels d.toList).map (List.map lowerByte) = textLabels d.toList := by
    rw [textLabels, List.map_map]
    conv_rhs => rw [← splitOn_map_toLower hlower, List.map_map]
    exact List.map_congr_left (fun text _ => lower_bytesOf text)
  rw [hbytes, wireDomain, sameButCase_wireName hlabels (length_textLabels hcan hlower), htext]
  constructor
  · intro hsame
    have hplain := plain_of_textLabels hcan hsame
    exact ⟨labels, hholds, fun label hl => ⟨hlabels label hl, hplain label hl⟩⟩
  · rintro ⟨labels', hholds', hplain⟩
    obtain ⟨back, hback⟩ := hholds
    obtain ⟨back', hback'⟩ := hholds'
    obtain rfl := wireName_injOn (fun label hl => (hplain label hl).1) hlabels
      (hback'.trans hback.symm)
    exact (textLabels_of_plain hplain hdecode hd).symm

/-- The name that is read is the name in the query exactly if that is a plain one. Plain names
are told apart, and a query with one is for the policy of its own domain only. -/
theorem names_read_faithfully {buf : Packet} {pos next : ℕ} {d : String}
    (h : readQname buf pos = .ok (d, next)) :
    (SameButCase (nameBytes buf pos next) (wireDomain d) ↔ PlainName buf pos) ∧
    (PlainName buf pos → ∀ (buf' : Packet) (pos' next' : ℕ),
      readQname buf' pos' = .ok (d, next') → PlainName buf' pos' →
      SameButCase (nameBytes buf pos next) (nameBytes buf' pos' next')) ∧
    ∀ (cfg : Config) (policy : Policy), findEnabledDomainPolicy cfg d = .ok (some policy) →
      ((∃ domain name, policy.matchSpec.domain = some domain ∧ normalizeDomain domain = .ok name ∧
        SameButCase (nameBytes buf pos next) (wireDomain name)) ↔ PlainName buf pos) := by
  refine ⟨faithful_iff h, ?_, ?_⟩
  · intro hplain buf' pos' next' h' hplain'
    exact ((faithful_iff h).mpr hplain).trans ((faithful_iff h').mpr hplain').symm
  · intro cfg policy hpolicy
    obtain ⟨_, _, -, -, -, -, hd⟩ := labels_of_readQname h
    have hfound := ((findEnabledDomainPolicy_eq_ok_iff (normalizeDomain_normalized hd)).mp hpolicy).1
    have hname := List.find?_some hfound
    rw [Policy.hasName, Option.any_eq_true] at hname
    obtain ⟨domain, hdomain, hnorm⟩ := hname
    rw [decide_eq_true_eq] at hnorm
    rw [← faithful_iff h]
    constructor
    · rintro ⟨domain', name, hdomain', hname, hsame⟩
      obtain rfl := Option.some.inj (hdomain.symm.trans hdomain')
      rwa [Except.ok.inj (hnorm.symm.trans hname)]
    · exact fun hsame => ⟨domain, d, hdomain, hnorm, hsame⟩

/-- A query for the name with the labels `a` and `example`. -/
def plainQuery : Packet :=
  askHeader ++ (wireDomain "A.eXample" ++ (bytes16 qtypeA ++ bytes16 qclassIn))

/-- A query for the name with the only label `a.example`. -/
def dottedQuery : Packet :=
  askHeader ++ (wireName [bytesOf "a.example".toList] ++ (bytes16 qtypeA ++ bytes16 qclassIn))

theorem names_read_faithfully_queries :
    ¬ PlainName dottedQuery 12 ∧
    SameButCase (nameBytes plainQuery 12 23) (nameBytes plainQuery 12 23) ∧
    ¬ ∃ domain name, (domainPolicy "web" "a.example" "tun0").matchSpec.domain = some domain ∧
      normalizeDomain domain = .ok name ∧
      SameButCase (nameBytes dottedQuery 12 23) (wireDomain name) := by
  have hdotted : readQname dottedQuery 12 = .ok ("a.example", 23) := by decide +kernel
  have hplain : readQname plainQuery 12 = .ok ("a.example", 23) := by decide +kernel
  have hnot : ¬ PlainName dottedQuery 12 := by
    rw [← (names_read_faithfully hdotted).1]
    decide +kernel
  have hname : PlainName plainQuery 12 :=
    (names_read_faithfully hplain).1.mp (by decide +kernel)
  refine ⟨hnot, ?_, ?_⟩
  · exact (names_read_faithfully hplain).2.1 hname plainQuery 12 23 hplain hname
  · rw [(names_read_faithfully hdotted).2.2 domainConfig _ (by decide)]
    exact hnot

/-- A name with a dot in a label is read as the domain of a policy. -/
theorem not_names_read_faithfully : ¬ ∀ (buf : Packet) (pos next : ℕ) (d : String),
    readQname buf pos = .ok (d, next) → SameButCase (nameBytes buf pos next) (wireDomain d) := by
  intro hclaim
  have hsame := hclaim dottedQuery 12 23 "a.example" (by decide +kernel)
  exact absurd hsame (by decide +kernel)

end EveNet
