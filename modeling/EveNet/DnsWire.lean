import EveNet.DnsCache
import EveNet.Validate

/-!
# DNS packets

Packets are byte lists, read at positions as the proxy reads them: every read is checked
against the end of the packet. The loops over the labels of a name take as many rounds as
there are bytes left, and a loop that uses them up is at the end of the packet.
-/

namespace EveNet

def qtypeA : UInt16 := 1
def qtypeAaaa : UInt16 := 28
def qclassIn : UInt16 := 1
def rcodeRefused : UInt16 := 5
def rcodeServfail : UInt16 := 2

structure DnsQuestion where
  domain : String
  qtype : UInt16
  qclass : UInt16
  deriving DecidableEq

structure ARecordSet where
  ips : List String
  deriving DecidableEq

/-! ### Numbers -/

abbrev Packet := List UInt8

def fromBeBytes (hi lo : UInt8) : UInt16 := UInt16.ofNat (256 * hi.toNat + lo.toNat)

def highByte (value : UInt16) : UInt8 := UInt8.ofNat (value.toNat / 256)

def lowByte (value : UInt16) : UInt8 := UInt8.ofNat value.toNat

def readU16 (buf : Packet) (pos : ℕ) : Except Error UInt16 :=
  if buf.length < pos + 2 then .error ["u16 read out of bounds"]
  else .ok (fromBeBytes (buf.getD pos 0) (buf.getD (pos + 1) 0))

def writeU16 (buf : Packet) (pos : ℕ) (value : UInt16) : Except Error Packet :=
  if buf.length < pos + 2 then .error ["u16 write out of bounds"]
  else .ok ((buf.set pos (highByte value)).set (pos + 1) (lowByte value))

/-! ### Names -/

/-- The bytes that may follow the first byte of a character outside ASCII, as ranges. -/
def continuations (first : UInt8) : Option (List (UInt8 × UInt8)) :=
  if 0xc2 ≤ first ∧ first ≤ 0xdf then some [(0x80, 0xbf)]
  else if first = 0xe0 then some [(0xa0, 0xbf), (0x80, 0xbf)]
  else if first = 0xed then some [(0x80, 0x9f), (0x80, 0xbf)]
  else if 0xe1 ≤ first ∧ first ≤ 0xef then some [(0x80, 0xbf), (0x80, 0xbf)]
  else if first = 0xf0 then some [(0x90, 0xbf), (0x80, 0xbf), (0x80, 0xbf)]
  else if 0xf1 ≤ first ∧ first ≤ 0xf3 then some [(0x80, 0xbf), (0x80, 0xbf), (0x80, 0xbf)]
  else if first = 0xf4 then some [(0x80, 0x8f), (0x80, 0xbf), (0x80, 0xbf)]
  else none

/-- Where the bytes stop being UTF-8, and how many of them are wrong there; none of them is
where they stop short. The last character began at `start`, and `read` of its bytes were seen. -/
def utf8Fault (start read : ℕ) : List (UInt8 × UInt8) → List UInt8 → Option (ℕ × Option ℕ)
  | [], [] => none
  | _ :: _, [] => some (start, none)
  | range :: ranges, b :: bytes =>
    if range.1 ≤ b ∧ b ≤ range.2 then utf8Fault start (read + 1) ranges bytes
    else some (start, some read)
  | [], b :: bytes =>
    if b < 0x80 then utf8Fault (start + read) 1 [] bytes
    else
      match continuations b with
      | none => some (start + read, some 1)
      | some ranges => utf8Fault (start + read) 1 ranges bytes

/-- The text of the standard library's `Utf8Error`. -/
def utf8Error (bytes : List UInt8) : String :=
  match utf8Fault 0 0 [] bytes with
  | some (start, some len) =>
    "invalid utf-8 sequence of " ++ toString len ++ " bytes from index " ++ toString start
  | some (start, none) => "incomplete utf-8 byte sequence from index " ++ toString start
  | none => ""

def decodeLabel (bytes : List UInt8) : Except Error String :=
  match String.fromUTF8? ⟨bytes.toArray⟩ with
  | none => .error ["DNS qname label is not UTF-8", utf8Error bytes]
  | some label => .ok (String.ofList (label.toList.map Char.toLower))

def readLabels (buf : Packet) : (fuel pos : ℕ) → Except Error (List String × ℕ)
  | 0, _ => .error ["DNS qname truncated"]
  | fuel + 1, pos =>
    match buf[pos]? with
    | none => .error ["DNS qname truncated"]
    | some len =>
      if len = 0 then .ok ([], pos + 1)
      else if len &&& 0xc0 ≠ 0 then .error ["compressed qname in question is unsupported"]
      else if 63 < len.toNat ∨ buf.length < pos + 1 + len.toNat then
        .error ["invalid DNS qname label"]
      else do
        let label ← decodeLabel ((buf.drop (pos + 1)).take len.toNat)
        let (labels, pos) ← readLabels buf fuel (pos + 1 + len.toNat)
        .ok (label :: labels, pos)

def readQname (buf : Packet) (pos : ℕ) : Except Error (String × ℕ) := do
  let (labels, pos) ← readLabels buf (buf.length - pos) pos
  let domain ← normalizeDomain (".".intercalate labels)
  .ok (domain, pos)

def skipLabels (buf : Packet) : (fuel pos : ℕ) → Except Error ℕ
  | 0, _ => .error ["DNS name truncated"]
  | fuel + 1, pos =>
    match buf[pos]? with
    | none => .error ["DNS name truncated"]
    | some len =>
      if len = 0 then .ok (pos + 1)
      else if len &&& 0xc0 = 0xc0 then
        if buf.length ≤ pos + 1 then .error ["DNS compressed pointer truncated"]
        else .ok (pos + 2)
      else if 63 < len.toNat then .error ["invalid DNS name label length"]
      else skipLabels buf fuel (pos + 1 + len.toNat)

def skipName (buf : Packet) (pos : ℕ) : Except Error ℕ := skipLabels buf (buf.length - pos) pos

/-! ### Questions and answers -/

def parseQuestion (buf : Packet) : Except Error DnsQuestion := do
  refuseIf (buf.length < 12) "DNS packet too short"
  let qdcount ← readU16 buf 4
  refuseIf (qdcount = 0) "DNS packet has zero questions"
  let (domain, pos) ← readQname buf 12
  refuseIf (buf.length < pos + 4) "DNS question is truncated"
  let qtype ← readU16 buf pos
  let qclass ← readU16 buf (pos + 2)
  .ok ⟨domain, qtype, qclass⟩

def skipQuestions (buf : Packet) : (count pos : ℕ) → Except Error ℕ
  | 0, pos => .ok pos
  | count + 1, pos => do
    let pos ← skipName buf pos
    refuseIf (buf.length < pos + 4) "DNS response question section truncated"
    skipQuestions buf count (pos + 4)

/-- A record of the answer section, with the place of its data. -/
structure ResourceRecord where
  rrType : UInt16
  rrClass : UInt16
  rdata : ℕ
  rdlen : ℕ
  deriving DecidableEq

def readRecord (buf : Packet) (pos : ℕ) : Except Error ResourceRecord := do
  let pos ← skipName buf pos
  refuseIf (buf.length < pos + 10) "DNS answer section truncated"
  let rrType ← readU16 buf pos
  let rrClass ← readU16 buf (pos + 2)
  let rdlen ← readU16 buf (pos + 8)
  refuseIf (buf.length < pos + 10 + rdlen.toNat) "DNS answer rdata truncated"
  .ok ⟨rrType, rrClass, pos + 10, rdlen.toNat⟩

/-- The address in an A record, nothing for another record. -/
def aRecordIp (buf : Packet) (record : ResourceRecord) : Option String :=
  if record.rrType = qtypeA ∧ record.rrClass = qclassIn ∧ record.rdlen = 4 then
    some (dottedQuad (buf.getD record.rdata 0) (buf.getD (record.rdata + 1) 0)
      (buf.getD (record.rdata + 2) 0) (buf.getD (record.rdata + 3) 0))
  else none

def readAnswers (buf : Packet) : (count pos : ℕ) → Except Error (List String)
  | 0, _ => .ok []
  | count + 1, pos => do
    let record ← readRecord buf pos
    let ips ← readAnswers buf count (record.rdata + record.rdlen)
    .ok ((aRecordIp buf record).toList ++ ips)

def parseARecords (buf : Packet) : Except Error ARecordSet := do
  refuseIf (buf.length < 12) "DNS response too short"
  let qdcount ← readU16 buf 4
  let ancount ← readU16 buf 6
  let pos ← skipQuestions buf qdcount.toNat 12
  let ips ← readAnswers buf ancount.toNat pos
  .ok ⟨uniqueSorted ips⟩

/-- QR, the query's RD, RA and the code. -/
def errorFlags (queryFlags rcode : UInt16) : UInt16 :=
  0x8000 ||| (queryFlags &&& 0x0100) ||| 0x0080 ||| (rcode &&& 0x000f)

def buildErrorResponse (query : Packet) (rcode : UInt16) : Except Error Packet := do
  refuseIf (query.length < 12) "cannot build DNS error response from truncated query"
  let queryFlags ← readU16 query 2
  let response ← writeU16 query 2 (errorFlags queryFlags rcode)
  let response ← writeU16 response 6 0
  let response ← writeU16 response 8 0
  writeU16 response 10 0

/-! ### Reading what was written -/

section Numbers

variable {buf : Packet} {pos : ℕ} {value : UInt16}

theorem fromBeBytes_bytes (value : UInt16) :
    fromBeBytes (highByte value) (lowByte value) = value := by
  have hlt : value.toNat < 2 ^ 16 := value.toNat_lt
  rw [fromBeBytes, highByte, lowByte, UInt8.toNat_ofNat', UInt8.toNat_ofNat']
  have hsum : 256 * (value.toNat / 256 % 2 ^ 8) + value.toNat % 2 ^ 8 = value.toNat := by omega
  rw [hsum, UInt16.ofNat_toNat]

theorem readU16_append (front back : Packet) (hi lo : UInt8) :
    readU16 (front ++ hi :: lo :: back) front.length = .ok (fromBeBytes hi lo) := by
  unfold readU16
  rw [if_neg (by simp)]
  simp

theorem readU16_of_le (h : pos + 2 ≤ buf.length) :
    readU16 buf pos = .ok (fromBeBytes (buf.getD pos 0) (buf.getD (pos + 1) 0)) :=
  if_neg (by omega)

theorem writeU16_of_le (h : pos + 2 ≤ buf.length) :
    writeU16 buf pos value = .ok ((buf.set pos (highByte value)).set (pos + 1) (lowByte value)) :=
  if_neg (by omega)

/-- A packet with a number written into it reads back that number there, and at other
places what it read before. -/
theorem writeU16_spec (buf : Packet) (pos : ℕ) (h : pos + 2 ≤ buf.length) (value : UInt16) :
    ∃ out, writeU16 buf pos value = .ok out ∧ out.length = buf.length ∧
      readU16 out pos = .ok value ∧
      ∀ p, p + 2 ≤ pos ∨ pos + 2 ≤ p → readU16 out p = readU16 buf p := by
  refine ⟨_, writeU16_of_le h, by simp, ?_, ?_⟩
  · rw [readU16_of_le (by simpa using h)]
    have hhi : ((buf.set pos (highByte value)).set (pos + 1) (lowByte value)).getD pos 0 =
        highByte value := by
      simp [List.getD, show pos < buf.length by omega]
    have hlo : ((buf.set pos (highByte value)).set (pos + 1) (lowByte value)).getD (pos + 1) 0 =
        lowByte value := by
      simp [List.getD, show pos + 1 < buf.length by omega]
    rw [hhi, hlo, fromBeBytes_bytes]
  · intro p hp
    have h0 : pos ≠ p := by omega
    have h1 : pos + 1 ≠ p := by omega
    have h2 : pos ≠ p + 1 := by omega
    have h3 : pos + 1 ≠ p + 1 := by omega
    simp only [readU16, List.length_set, List.getD, List.getElem?_set, if_neg h0, if_neg h1,
      if_neg h2, if_neg h3]

theorem uint16_and_or_distrib_right (a b c : UInt16) :
    (a ||| b) &&& c = (a &&& c) ||| (b &&& c) :=
  UInt16.toBitVec_inj.mp BitVec.and_or_distrib_right

theorem rcode_errorFlags (queryFlags rcode : UInt16) :
    errorFlags queryFlags rcode &&& 0x000f = rcode &&& 0x000f := by
  have hqr : (0x8000 : UInt16) &&& 0x000f = 0 := rfl
  have hrd : (0x0100 : UInt16) &&& 0x000f = 0 := rfl
  have hra : (0x0080 : UInt16) &&& 0x000f = 0 := rfl
  have hself : (0x000f : UInt16) &&& 0x000f = 0x000f := rfl
  simp only [errorFlags, uint16_and_or_distrib_right, UInt16.and_assoc, hself, hrd, hqr, hra,
    UInt16.and_zero, UInt16.zero_or]

/-- The error response to a complete header: the query with the flags of an error, and with
no records announced behind the question. -/
theorem buildErrorResponse_spec {query : Packet} (h : 12 ≤ query.length) (rcode : UInt16) :
    ∃ reply flags, buildErrorResponse query rcode = .ok reply ∧ reply.length = query.length ∧
      readU16 query 2 = .ok flags ∧ readU16 reply 2 = .ok (errorFlags flags rcode) ∧
      readU16 reply 6 = .ok 0 ∧ readU16 reply 8 = .ok 0 ∧ readU16 reply 10 = .ok 0 ∧
      ∀ p, p = 0 ∨ p = 4 ∨ 12 ≤ p → readU16 reply p = readU16 query p := by
  obtain ⟨flags, hflags⟩ : ∃ flags, readU16 query 2 = .ok flags := ⟨_, readU16_of_le (by omega)⟩
  obtain ⟨r₁, hw₁, hl₁, hself₁, hother₁⟩ :=
    writeU16_spec query 2 (by omega) (errorFlags flags rcode)
  obtain ⟨r₂, hw₂, hl₂, hself₂, hother₂⟩ := writeU16_spec r₁ 6 (by omega) 0
  obtain ⟨r₃, hw₃, hl₃, hself₃, hother₃⟩ := writeU16_spec r₂ 8 (by omega) 0
  obtain ⟨r₄, hw₄, hl₄, hself₄, hother₄⟩ := writeU16_spec r₃ 10 (by omega) 0
  refine ⟨r₄, flags, ?_, by omega, hflags, ?_, ?_, ?_, hself₄, ?_⟩
  · unfold buildErrorResponse
    rw [refuseIf, if_neg (by omega), hflags]
    change (writeU16 query 2 _ >>= _) = _
    rw [hw₁]
    change (writeU16 r₁ 6 0 >>= _) = _
    rw [hw₂]
    change (writeU16 r₂ 8 0 >>= _) = _
    rw [hw₃]
    exact hw₄
  · rw [hother₄ 2 (by omega), hother₃ 2 (by omega), hother₂ 2 (by omega), hself₁]
  · rw [hother₄ 6 (by omega), hother₃ 6 (by omega), hself₂]
  · rw [hother₄ 8 (by omega), hself₃]
  · intro p hp
    rw [hother₄ p (by omega), hother₃ p (by omega), hother₂ p (by omega), hother₁ p (by omega)]

end Numbers

end EveNet
