import EveNet.CacheRuns
import EveNet.DnsSections
import EveNet.WireFormat

/-!
# The readers against the wire format

Each reader of the proxy succeeds exactly where the buffer holds the encoding of what it
reads, and ends where that encoding ends. So the addresses taken from a response are those of
its answers and of no other bytes.
-/

namespace EveNet

open Wire

variable {buf : Packet} {pos next count : ℕ}

/-! ### Numbers and lengths -/

theorem pointerByte_iff (b : UInt8) : b &&& 0xc0 = 0xc0 ↔ 0xc0 ≤ b.toNat := by
  have hall : ∀ n < 256, UInt8.ofNat n &&& 0xc0 = 0xc0 ↔ 0xc0 ≤ n := by decide +kernel
  simpa using hall b.toNat b.toNat_lt

theorem getD_of_getElem? {b : UInt8} (h : buf[pos]? = some b) : buf.getD pos 0 = b := by
  rw [List.getD_eq_getElem?_getD, h, Option.getD_some]

theorem readU16_eq_ok_iff {value : UInt16} :
    readU16 buf pos = .ok value ↔ Holds buf pos (bytes16 value) := by
  constructor
  · intro h
    by_cases hlen : buf.length < pos + 2
    · rw [readU16, if_pos hlen] at h
      cases h
    · rw [readU16_of_le (by omega), Except.ok.injEq, fromBeBytes] at h
      rw [← h, bytes16_ofNat, holds_cons, holds_cons]
      refine ⟨?_, ?_, holds_nil⟩
      · rw [List.getD_eq_getElem _ _ (by omega), List.getElem?_eq_getElem]
      · rw [List.getD_eq_getElem _ _ (by omega), List.getElem?_eq_getElem]
  · intro h
    have hlen := h.length_le (by simp [bytes16])
    rw [bytes16, holds_cons, holds_cons] at h
    rw [readU16_of_le hlen, getD_of_getElem? h.1, getD_of_getElem? h.2.1]
    exact congrArg Except.ok (fromBeBytes_bytes value)

theorem exists_holds_bytes16 (h : pos + 2 ≤ buf.length) : ∃ value, Holds buf pos (bytes16 value) :=
  ⟨_, readU16_eq_ok_iff.mp (readU16_of_le h)⟩

/-! ### Names -/

theorem skipLabels_of_holds (name : Name) {fuel : ℕ} (hfuel : name.labels.length < fuel)
    (h : Holds buf pos name.encode) :
    skipLabels buf fuel pos = .ok (pos + name.encode.length) := by
  obtain ⟨labels, ending⟩ := name
  obtain ⟨fuel, rfl⟩ := Nat.exists_eq_succ_of_ne_zero (Nat.ne_zero_of_lt hfuel)
  induction labels generalizing fuel pos with
  | nil =>
      have hlen := h.length_le (Name.encode_ne_nil _)
      cases ending with
      | root =>
          obtain ⟨hbyte, -⟩ := holds_cons.mp h
          rw [skipLabels, hbyte]
          rfl
      | pointer offset =>
          obtain ⟨hbyte, -⟩ := holds_cons.mp h
          have hoffset := offset.isLt
          have hnat : (UInt8.ofNat (0xc0 + offset / 256)).toNat = 0xc0 + offset / 256 := by
            rw [UInt8.toNat_ofNat']
            omega
          have hzero : UInt8.ofNat (0xc0 + offset / 256) ≠ 0 := by
            intro hz
            rw [hz, UInt8.toNat_zero] at hnat
            omega
          change pos + 2 ≤ buf.length at hlen
          rw [skipLabels, hbyte]
          dsimp only
          rw [if_neg hzero, if_pos ((pointerByte_iff _).mpr (by omega)), if_neg (by omega)]
          rfl
  | cons label labels ih =>
      rw [encode_cons, holds_append] at h
      obtain ⟨hlabel, hrest⟩ := h
      obtain ⟨hbyte, -⟩ := holds_cons.mp hlabel
      have hpos := label.pos
      have hshort := label.short
      obtain ⟨hzero, hplain, hnat⟩ := lengthByte hpos hshort
      obtain ⟨fuel, rfl⟩ := Nat.exists_eq_succ_of_ne_zero (Nat.ne_zero_of_lt
        (Nat.lt_of_succ_lt_succ hfuel))
      have hlen : label.encode.length = 1 + label.bytes.length := by
        rw [Label.encode, List.length_cons, Nat.add_comm]
      rw [hlen, ← Nat.add_assoc] at hrest
      rw [skipLabels, hbyte]
      dsimp only
      rw [if_neg hzero, hplain, if_neg (by decide), hnat, if_neg (by omega),
        ih hrest _ (Nat.lt_of_succ_lt_succ hfuel), encode_cons, List.length_append, hlen]
      congr 1
      omega

/-- A name that can be skipped is a name. -/
theorem holds_of_skipLabels {fuel : ℕ} (h : skipLabels buf fuel pos = .ok next) :
    ∃ name : Name, Holds buf pos name.encode ∧ next = pos + name.encode.length := by
  induction fuel generalizing pos with
  | zero => simp [skipLabels] at h
  | succ fuel ih =>
      cases hb : buf[pos]? with
      | none => simp [skipLabels, hb] at h
      | some len =>
          rw [skipLabels, hb] at h
          dsimp only at h
          by_cases hzero : len = 0
          · rw [if_pos hzero, Except.ok.injEq] at h
            exact ⟨⟨[], .root⟩, holds_cons.mpr ⟨hzero ▸ hb, holds_nil⟩, h.symm⟩
          rw [if_neg hzero] at h
          have hne : len.toNat ≠ 0 := fun hz => hzero (UInt8.toNat_inj.mp hz)
          by_cases hpointer : len &&& 0xc0 = 0xc0
          · rw [if_pos hpointer] at h
            by_cases hcut : buf.length ≤ pos + 1
            · rw [if_pos hcut] at h
              cases h
            rw [if_neg hcut, Except.ok.injEq] at h
            have hhigh := (pointerByte_iff len).mp hpointer
            have hlt := len.toNat_lt
            have hlow := (buf[pos + 1]).toNat_lt
            refine ⟨⟨[], .pointer ⟨(len.toNat - 0xc0) * 256 + (buf[pos + 1]).toNat, by omega⟩⟩,
              ?_, h.symm⟩
            refine holds_cons.mpr ⟨?_, holds_cons.mpr ⟨?_, holds_nil⟩⟩
            · rw [hb]
              congr 1
              apply UInt8.toNat_inj.mp
              rw [UInt8.toNat_ofNat']
              dsimp only
              omega
            · rw [List.getElem?_eq_getElem (by omega)]
              congr 1
              apply UInt8.toNat_inj.mp
              rw [UInt8.toNat_ofNat']
              dsimp only
              omega
          · rw [if_neg hpointer] at h
            by_cases hlong : 63 < len.toNat
            · rw [if_pos hlong] at h
              cases h
            rw [if_neg hlong] at h
            obtain ⟨⟨labels, ending⟩, hname, hnext⟩ := ih h
            have hend := hname.length_le (Name.encode_ne_nil _)
            have hbytes : ((buf.drop (pos + 1)).take len.toNat).length = len.toNat := by
              rw [List.length_take, List.length_drop]
              omega
            refine ⟨⟨⟨(buf.drop (pos + 1)).take len.toNat, by omega, by omega⟩ :: labels, ending⟩,
              ?_, ?_⟩
            · rw [encode_cons, Label.encode, List.cons_append, holds_cons, holds_append]
              dsimp only
              rw [hbytes, UInt8.ofNat_toNat]
              exact ⟨hb, holds_take _ _ _, hname⟩
            · rw [encode_cons, Label.encode, List.length_append, List.length_cons]
              dsimp only
              rw [hbytes, hnext]
              omega

theorem skipName_eq_ok_iff :
    skipName buf pos = .ok next ↔
      ∃ name : Name, Holds buf pos name.encode ∧ next = pos + name.encode.length := by
  constructor
  · exact holds_of_skipLabels
  · rintro ⟨name, hname, rfl⟩
    have hlen := hname.length_le name.encode_ne_nil
    have hlabels := name.length_labels_lt
    exact skipLabels_of_holds name (by omega) hname

/-! ### Sections -/

theorem skipQuestions_eq_ok_iff :
    skipQuestions buf count pos = .ok next ↔
      ∃ questions : List Question, questions.length = count ∧
        Holds buf pos (questions.flatMap Question.encode) ∧
        next = pos + (questions.flatMap Question.encode).length := by
  induction count generalizing pos with
  | zero =>
      rw [skipQuestions, Except.ok.injEq]
      constructor
      · rintro rfl
        exact ⟨[], rfl, holds_nil, rfl⟩
      · rintro ⟨questions, hcount, -, hnext⟩
        rw [List.length_eq_zero_iff.mp hcount] at hnext
        exact hnext.symm
  | succ count ih =>
      simp only [skipQuestions, except_bind_eq_ok, skipName_eq_ok_iff, refuseIf_eq_ok, ih]
      constructor
      · rintro ⟨_, ⟨name, hname, rfl⟩, -, hlen, questions, rfl, hrest, rfl⟩
        set place := pos + name.encode.length with hplace
        obtain ⟨qtype, htype⟩ := exists_holds_bytes16 (show place + 2 ≤ buf.length by omega)
        obtain ⟨qclass, hclass⟩ := exists_holds_bytes16 (show place + 2 + 2 ≤ buf.length by omega)
        refine ⟨⟨name, qtype, qclass⟩ :: questions, rfl, ?_, ?_⟩
        · rw [List.flatMap_cons, Question.encode, holds_append, holds_append, holds_append]
          refine ⟨⟨hname, htype, hclass⟩, ?_⟩
          rw [List.length_append, List.length_append, ← Nat.add_assoc]
          exact hrest
        · simp only [List.flatMap_cons, Question.encode, List.length_append, length_bytes16]
          omega
      · rintro ⟨_ | ⟨question, questions⟩, hcount, hholds, hnext⟩
        · cases hcount
        rw [List.flatMap_cons, Question.encode, holds_append, holds_append] at hholds
        obtain ⟨⟨hname, hfields⟩, hrest⟩ := hholds
        have hlen := hfields.length_le (by simp [bytes16])
        simp only [List.length_append, length_bytes16] at hlen hrest
        refine ⟨_, ⟨question.name, hname, rfl⟩, (), by omega, questions,
          Nat.succ.inj hcount, ?_, ?_⟩
        · rw [Nat.add_assoc]
          exact hrest
        · simp only [List.flatMap_cons, Question.encode, List.length_append, length_bytes16]
            at hnext
          omega

/-- The place of the data of a record that starts at the position. -/
def Wire.Record.place (pos : ℕ) (record : Record) : ResourceRecord :=
  ⟨record.rrType, record.rrClass, pos + record.name.encode.length + 10, record.rdata.length⟩

theorem Wire.Record.place_end (pos : ℕ) (record : Record) :
    (record.place pos).rdata + (record.place pos).rdlen = pos + record.encode.length := by
  simp only [Record.place, Record.encode, List.length_append, Record.length_fixedPart]
  omega

theorem readRecord_eq_ok_iff {found : ResourceRecord} :
    readRecord buf pos = .ok found ↔
      ∃ record : Record, Holds buf pos record.encode ∧ found = record.place pos := by
  simp only [readRecord, except_bind_eq_ok, skipName_eq_ok_iff, refuseIf_eq_ok, readU16_eq_ok_iff,
    Except.ok.injEq]
  constructor
  · rintro ⟨_, ⟨name, hname, rfl⟩, -, hfixed, rrType, htype, rrClass, hclass, rdlen, hrdlen, -,
      hrdata, rfl⟩
    set start := pos + name.encode.length with hstart
    obtain ⟨ttl, httl⟩ := exists_bytes32 buf[start + 4] buf[start + 5] buf[start + 6]
      buf[start + 7]
    have hlt := rdlen.toNat_lt
    have hdata : ((buf.drop (start + 10)).take rdlen.toNat).length = rdlen.toNat := by
      rw [List.length_take, List.length_drop]
      omega
    refine ⟨⟨name, rrType, rrClass, ttl, (buf.drop (start + 10)).take rdlen.toNat, by omega⟩,
      ?_, ?_⟩
    · rw [Record.encode, holds_append, holds_append]
      refine ⟨hname, ?_, holds_take _ _ _⟩
      rw [Record.fixedPart, holds_append, holds_append, holds_append]
      refine ⟨htype, hclass, ?_, ?_⟩
      · dsimp only
        rw [httl]
        simp only [holds_cons, holds_nil, and_true]
        refine ⟨?_, ?_, ?_, ?_⟩ <;> exact List.getElem?_eq_getElem _
      · dsimp only
        rw [hdata, UInt16.ofNat_toNat]
        exact hrdlen
    · rw [Record.place]
      dsimp only
      rw [hdata]
  · rintro ⟨record, hholds, rfl⟩
    rw [Record.encode, holds_append, holds_append] at hholds
    obtain ⟨hname, hfixed, hdata⟩ := hholds
    have hlen := hfixed.length_le (by simp [Record.fixedPart, bytes16])
    have hend : pos + record.name.encode.length + 10 + record.rdata.length ≤ buf.length := by
      by_cases hnil : record.rdata = []
      · rw [hnil, List.length_nil]
        exact hlen
      · exact hdata.length_le hnil
    rw [Record.fixedPart, holds_append, holds_append, holds_append] at hfixed
    have hnat := toNat_ofNat_short record.short
    refine ⟨_, ⟨record.name, hname, rfl⟩, (), not_lt.mpr hlen, _, hfixed.1, _, hfixed.2.1, _,
      hfixed.2.2.2, (), ?_, ?_⟩
    · rw [hnat]
      exact not_lt.mpr hend
    · rw [hnat]
      rfl

/-! ### Addresses -/

/-- An address record of the internet class, with the four bytes of its address. -/
def IsAddress (record : Record) (ip : String) : Prop :=
  record.rrType = qtypeA ∧ record.rrClass = qclassIn ∧
    ∃ a b c d, record.rdata = [a, b, c, d] ∧ ip = dottedQuad a b c d

theorem aRecordIp_eq_some_iff {record : Record} (h : Holds buf pos record.encode) {ip : String} :
    aRecordIp buf (record.place pos) = some ip ↔ IsAddress record ip := by
  rw [Record.encode, holds_append, holds_append] at h
  obtain ⟨-, -, hdata⟩ := h
  rw [Record.length_fixedPart] at hdata
  rw [aRecordIp, IsAddress, Record.place]
  dsimp only
  constructor
  · intro hsome
    split_ifs at hsome with hkind
    obtain ⟨htype, hclass, hlen⟩ := hkind
    obtain ⟨a, b, c, d, hrdata⟩ := List.length_eq_four.mp hlen
    rw [hrdata, holds_cons, holds_cons, holds_cons, holds_cons] at hdata
    obtain ⟨ha, hb, hc, hd, -⟩ := hdata
    rw [getD_of_getElem? ha, getD_of_getElem? hb, getD_of_getElem? hc, getD_of_getElem? hd] at hsome
    exact ⟨htype, hclass, a, b, c, d, hrdata, (Option.some.inj hsome).symm⟩
  · rintro ⟨htype, hclass, a, b, c, d, hrdata, rfl⟩
    rw [hrdata, holds_cons, holds_cons, holds_cons, holds_cons] at hdata
    obtain ⟨ha, hb, hc, hd, -⟩ := hdata
    rw [if_pos ⟨htype, hclass, by rw [hrdata]; rfl⟩, getD_of_getElem? ha, getD_of_getElem? hb,
      getD_of_getElem? hc, getD_of_getElem? hd]

theorem readAnswers_of_holds {records : List Record}
    (h : Holds buf pos (records.flatMap Record.encode)) :
    ∃ ips, readAnswers buf records.length pos = .ok ips ∧
      ∀ ip, ip ∈ ips ↔ ∃ record ∈ records, IsAddress record ip := by
  induction records generalizing pos with
  | nil => exact ⟨[], rfl, by simp⟩
  | cons record records ih =>
      rw [List.flatMap_cons, holds_append] at h
      obtain ⟨hrecord, hrest⟩ := h
      obtain ⟨ips, hips, hmem⟩ := ih hrest
      refine ⟨(aRecordIp buf (record.place pos)).toList ++ ips, ?_, fun ip => ?_⟩
      · rw [List.length_cons, readAnswers, readRecord_eq_ok_iff.mpr ⟨record, hrecord, rfl⟩]
        change (readAnswers buf records.length _ >>= _) = _
        rw [record.place_end pos, hips]
        rfl
      · rw [List.mem_append, Option.mem_toList, aRecordIp_eq_some_iff hrecord, hmem,
          List.exists_mem_cons_iff]

theorem holds_of_readAnswers {ips : List String} (h : readAnswers buf count pos = .ok ips) :
    ∃ records : List Record, records.length = count ∧
      Holds buf pos (records.flatMap Record.encode) := by
  induction count generalizing pos ips with
  | zero => exact ⟨[], rfl, holds_nil⟩
  | succ count ih =>
      obtain ⟨found, hfound, h⟩ := except_bind_eq_ok.mp h
      obtain ⟨rest, hrest, -⟩ := except_bind_eq_ok.mp h
      obtain ⟨record, hrecord, rfl⟩ := readRecord_eq_ok_iff.mp hfound
      obtain ⟨records, rfl, hrecords⟩ := ih hrest
      refine ⟨record :: records, rfl, ?_⟩
      rw [List.flatMap_cons, holds_append]
      exact ⟨hrecord, record.place_end pos ▸ hrecords⟩

/-! ### Responses -/

theorem holds_header (m : Message) (h : Holds buf 0 m.header) :
    readU16 buf 2 = .ok m.flags ∧ readU16 buf 4 = .ok (UInt16.ofNat m.questions.length) ∧
      readU16 buf 6 = .ok (UInt16.ofNat m.answers.length) := by
  simp only [Message.header, holds_append, length_bytes16, ← readU16_eq_ok_iff] at h
  exact ⟨h.2.1, h.2.2.1, h.2.2.2.1⟩

/-- The questions and the answers that the header counts are all in the buffer. -/
def SectionsFit (buf : Packet) : Prop := ∃ (m : Message) (rest : List UInt8), buf = m.encode ++ rest

/-- The proxy takes from a response exactly the addresses in its answers, each once and in
the order of their texts. A response that ends before its answers do gives no addresses. -/
theorem parseARecords_exact :
    (∀ (m : Message) (rest : List UInt8), ∃ records,
      parseARecords (m.encode ++ rest) = .ok records ∧ records.ips.Pairwise (· < ·) ∧
        ∀ ip, ip ∈ records.ips ↔ ∃ record ∈ m.answers, IsAddress record ip) ∧
      ∀ buf, ¬ SectionsFit buf → ∃ e, parseARecords buf = .error e := by
  constructor
  · intro m rest
    have hholds := holds_self m.encode rest
    generalize m.encode ++ rest = buf at hholds ⊢
    rw [Message.encode, holds_append, holds_append] at hholds
    obtain ⟨hheader, hquestions, hanswers⟩ := hholds
    have hlen := hheader.length_le (by simp [Message.header, bytes16])
    rw [Message.length_header] at hlen hquestions hanswers
    obtain ⟨-, hqdcount, hancount⟩ := holds_header m hheader
    obtain ⟨ips, hips, hmem⟩ := readAnswers_of_holds hanswers
    have hskip := skipQuestions_eq_ok_iff.mpr ⟨m.questions, rfl, hquestions, rfl⟩
    refine ⟨⟨uniqueSorted ips⟩, ?_, pairwise_uniqueSorted ips, fun ip => ?_⟩
    · rw [← toNat_ofNat_short m.questions_short] at hskip
      rw [← toNat_ofNat_short m.answers_short] at hips
      simp only [parseARecords, except_bind_eq_ok, refuseIf_eq_ok]
      exact ⟨(), by omega, _, hqdcount, _, hancount, _, hskip, _, hips, rfl⟩
    · rw [mem_uniqueSorted]
      exact hmem ip
  · intro buf hfit
    cases hparse : parseARecords buf with
    | error e => exact ⟨e, rfl⟩
    | ok records =>
        simp only [parseARecords, except_bind_eq_ok, refuseIf_eq_ok, readU16_eq_ok_iff,
          skipQuestions_eq_ok_iff] at hparse
        obtain ⟨-, hlen, qdcount, hqdcount, ancount, hancount, _, ⟨questions, hquestions, hholds,
          rfl⟩, ips, hips, -⟩ := hparse
        obtain ⟨answers, hanswers, hrest⟩ := holds_of_readAnswers hips
        obtain ⟨id, hid⟩ := exists_holds_bytes16 (show 0 + 2 ≤ buf.length by omega)
        obtain ⟨flags, hflags⟩ := exists_holds_bytes16 (show 2 + 2 ≤ buf.length by omega)
        obtain ⟨nscount, hnscount⟩ := exists_holds_bytes16 (show 8 + 2 ≤ buf.length by omega)
        obtain ⟨arcount, harcount⟩ := exists_holds_bytes16 (show 10 + 2 ≤ buf.length by omega)
        have hqlt := qdcount.toNat_lt
        have halt := ancount.toNat_lt
        refine absurd ?_ hfit
        refine ⟨⟨id, flags, nscount, arcount, questions, answers, by omega, by omega⟩, ?_⟩
        apply Holds.eq_append
        rw [Message.encode, holds_append, holds_append, Message.length_header]
        refine ⟨?_, hholds, hrest⟩
        simp only [Message.header, holds_append, length_bytes16, hquestions, hanswers,
          UInt16.ofNat_toNat]
        exact ⟨hid, hflags, hqdcount, hancount, hnscount, harcount⟩

/-- A response with one record, whose address lacks its last byte. -/
def cutRecord : Packet :=
  [0, 7, 0x81, 0x80, 0, 0, 0, 1, 0, 0, 0, 0] ++ [0, 0, 1, 0, 1, 0, 0, 0, 60, 0, 4, 192, 0, 2]

theorem parseARecords_exact_cut : (parseARecords (cutRecord ++ [1])).toOption.map (·.ips) =
    some ["192.0.2.1"] ∧ ∃ e, parseARecords cutRecord = .error e := by
  refine ⟨by decide +kernel, parseARecords_exact.2 cutRecord ?_⟩
  rintro ⟨m, rest, hbuf⟩
  obtain ⟨records, hrecords, -⟩ := parseARecords_exact.1 m rest
  have hrefused : (parseARecords cutRecord).toOption = none := by decide +kernel
  rw [hbuf, hrecords] at hrefused
  cases hrefused

/-! ### The two walkers over a name -/

theorem skipName_of_readQname {domain : String} (h : readQname buf pos = .ok (domain, next)) :
    skipName buf pos = .ok next := by
  obtain ⟨⟨labels, last⟩, hlabels, h⟩ := except_bind_eq_ok.mp h
  obtain ⟨d, -, h⟩ := except_bind_eq_ok.mp h
  rw [Except.ok.injEq, Prod.mk.injEq] at h
  exact h.2 ▸ skipLabels_of_readLabels hlabels

/-- The bytes from the end of the header to a place in the packet. -/
def questionBytes (query : Packet) (last : ℕ) : Packet := (query.drop 12).take (last - 12)

/-- A packet that repeats the bytes of a name and some more behind a header has the name at the
same place. -/
theorem skipName_questionBytes {query header rest : Packet} (hheader : header.length = 12)
    (h : skipName query 12 = .ok next) {last : ℕ} (hlast : next ≤ last) :
    skipName (header ++ (questionBytes query last ++ rest)) 12 = .ok next := by
  obtain ⟨name, hname, hnext⟩ := skipName_eq_ok_iff.mp h
  refine skipName_eq_ok_iff.mpr ⟨name, ?_, hnext⟩
  rw [Holds, ← hheader, List.drop_left]
  have hshort : name.encode <+: questionBytes query last := by
    rw [questionBytes, List.prefix_take_iff]
    exact ⟨hname, by omega⟩
  exact hshort.trans (List.prefix_append _ rest)

/-- Where the proxy's parser ends with a name, the walker over responses ends as well. A response
that repeats the question of a query is read from the byte behind that question. -/
theorem name_walkers_agree :
    (∀ buf pos domain next, readQname buf pos = .ok (domain, next) →
      skipName buf pos = .ok next) ∧
    ∀ (query header rest : Packet) question, parseQuestion query = .ok question →
      header.length = 12 → readU16 header 4 = .ok 1 →
      ∃ next, readQname query 12 = .ok (question.domain, next) ∧ next + 4 ≤ query.length ∧
        parseARecords (header ++ (questionBytes query (next + 4) ++ rest)) = (do
          let ancount ← readU16 header 6
          let ips ← readAnswers (header ++ (questionBytes query (next + 4) ++ rest)) ancount.toNat
            (next + 4)
          .ok ⟨uniqueSorted ips⟩) := by
  refine ⟨fun buf pos domain next h => skipName_of_readQname h, ?_⟩
  intro query header rest question hquestion hheader hqdcount
  obtain ⟨_, next, -, -, hname, hlen, -⟩ := reads_of_parseQuestion hquestion
  refine ⟨next, hname, hlen, ?_⟩
  set response := header ++ (questionBytes query (next + 4) ++ rest) with hresponse
  have hpre : header <+: response := List.prefix_append _ _
  have hskip : skipName response 12 = .ok next :=
    skipName_questionBytes hheader (skipName_of_readQname hname) (Nat.le_add_right next 4)
  have hlonger : next + 4 ≤ response.length := by
    rw [hresponse, questionBytes, List.length_append, List.length_append, List.length_take,
      List.length_drop]
    omega
  have hancount : readU16 response 6 = readU16 header 6 := by
    have hread : readU16 header 6 = .ok _ := readU16_of_le (by omega)
    rw [hread]
    exact Stable.readU16 6 _ _ _ hpre hread
  have hqd : readU16 response 4 = .ok 1 := Stable.readU16 4 _ _ _ hpre hqdcount
  have hheaderLen : ¬ response.length < 12 := by
    have hle := hpre.length_le
    omega
  rw [parseARecords, refuseIf, if_neg hheaderLen, hqd, hancount]
  have hone : skipQuestions response (1 : UInt16).toNat 12 = .ok (next + 4) := by
    change (skipName response 12 >>= _) = _
    rw [hskip]
    change (refuseIf (response.length < next + 4) _ >>= _) = _
    rw [refuseIf, if_neg (by omega)]
    rfl
  cases readU16 header 6 with
  | error e => rfl
  | ok ancount =>
      change (skipQuestions response (1 : UInt16).toNat 12 >>= _) = _
      rw [hone]
      rfl

/-- A query for the addresses of `a`, and a response with one address to it. -/
def shortQuery : Packet := [0, 7, 1, 0, 0, 1, 0, 0, 0, 0, 0, 0, 1, 97, 0, 0, 1, 0, 1]

/-- The response's header counts one question and one answer. -/
def bareHeader : Packet := [0, 7, 0x81, 0x80, 0, 1, 0, 1, 0, 0, 0, 0]

def shortAnswer : Packet := [0xc0, 12, 0, 1, 0, 1, 0, 0, 1, 44, 0, 4, 192, 0, 2, 1]

theorem name_walkers_agree_short :
    ∃ next, readQname shortQuery 12 = .ok ("a", next) ∧ next + 4 ≤ shortQuery.length ∧
      parseARecords (bareHeader ++ (questionBytes shortQuery (next + 4) ++ shortAnswer)) = (do
        let ancount ← readU16 bareHeader 6
        let ips ← readAnswers (bareHeader ++ (questionBytes shortQuery (next + 4) ++ shortAnswer))
          ancount.toNat (next + 4)
        .ok ⟨uniqueSorted ips⟩) := by
  have hquestion : parseQuestion shortQuery = .ok ⟨"a", qtypeA, qclassIn⟩ := by decide +kernel
  exact name_walkers_agree.2 shortQuery bareHeader shortAnswer _ hquestion rfl (by decide)

end EveNet
