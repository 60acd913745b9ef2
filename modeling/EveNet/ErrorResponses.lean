import EveNet.WireReaders

/-!
# Error responses as messages

An error response is the query with another header. The header then announces no records, but
those of the query are still behind it, so that the response is a message only if the query
had none. The operation code is not carried over.
-/

namespace EveNet

open Wire

/-! ### Bits of the flags -/

def qrBit : UInt16 := 0x8000
def opcodeBits : UInt16 := 0x7800
def rdBit : UInt16 := 0x0100
def rcodeBits : UInt16 := 0x000f

section Flags

variable (flags rcode : UInt16)

theorem errorFlags_and (mask : UInt16) :
    errorFlags flags rcode &&& mask = (0x8000 &&& mask) ||| (flags &&& (0x0100 &&& mask)) |||
      (0x0080 &&& mask) ||| (rcode &&& (0x000f &&& mask)) := by
  simp only [errorFlags, uint16_and_or_distrib_right, UInt16.and_assoc]

theorem errorFlags_qr : errorFlags flags rcode &&& qrBit = qrBit := by
  rw [errorFlags_and]
  change qrBit ||| (flags &&& 0) ||| 0 ||| (rcode &&& 0) = qrBit
  simp

theorem errorFlags_opcode : errorFlags flags rcode &&& opcodeBits = 0 := by
  rw [errorFlags_and]
  change 0 ||| (flags &&& 0) ||| 0 ||| (rcode &&& 0) = 0
  simp

theorem errorFlags_rd : errorFlags flags rcode &&& rdBit = flags &&& rdBit := by
  rw [errorFlags_and]
  change 0 ||| (flags &&& rdBit) ||| 0 ||| (rcode &&& 0) = flags &&& rdBit
  simp

theorem errorFlags_rcode {rcode : UInt16} (h : rcode < 16) :
    errorFlags flags rcode &&& rcodeBits = rcode := by
  refine (rcode_errorFlags flags rcode).trans ?_
  have hlt : rcode.toNat < 16 := h
  apply UInt16.toNat_inj.mp
  rw [UInt16.toNat_and]
  exact (Nat.and_two_pow_sub_one_eq_mod rcode.toNat 4).trans (Nat.mod_eq_of_lt hlt)

end Flags

/-! ### The bytes of a response -/

theorem writeU16_append (front back : Packet) (hi lo : UInt8) (value : UInt16) :
    writeU16 (front ++ hi :: lo :: back) front.length value =
      .ok (front ++ (bytes16 value ++ back)) := by
  rw [writeU16_of_le (by simp), List.set_append_right _ _ le_rfl,
    List.set_append_right _ _ (Nat.le_add_right _ 1), Nat.sub_self, Nat.add_sub_cancel_left]
  rfl

/-- The header a response has to a query with this header. -/
theorem buildErrorResponse_eq (id flags qdcount ancount nscount arcount rcode : UInt16)
    (body : List UInt8) :
    buildErrorResponse (bytes16 id ++ (bytes16 flags ++ (bytes16 qdcount ++ (bytes16 ancount ++
        (bytes16 nscount ++ bytes16 arcount)))) ++ body) rcode =
      .ok (bytes16 id ++ (bytes16 (errorFlags flags rcode) ++ (bytes16 qdcount ++ (bytes16 0 ++
        (bytes16 0 ++ bytes16 0)))) ++ body) := by
  set query := bytes16 id ++ (bytes16 flags ++ (bytes16 qdcount ++ (bytes16 ancount ++
    (bytes16 nscount ++ bytes16 arcount)))) ++ body with hquery
  have hlen : ¬ query.length < 12 := by
    rw [hquery, List.length_append]
    exact not_lt.mpr (Nat.le_add_right 12 _)
  have hflags : readU16 query 2 = .ok flags := by
    refine (readU16_append (bytes16 id) _ _ _).trans ?_
    exact congrArg Except.ok (fromBeBytes_bytes flags)
  have hwrite₁ := writeU16_append (bytes16 id) (bytes16 qdcount ++ (bytes16 ancount ++
    (bytes16 nscount ++ bytes16 arcount)) ++ body) (highByte flags) (lowByte flags)
    (errorFlags flags rcode)
  have hwrite₂ := writeU16_append (bytes16 id ++ (bytes16 (errorFlags flags rcode) ++
    bytes16 qdcount)) (bytes16 nscount ++ bytes16 arcount ++ body) (highByte ancount)
    (lowByte ancount) 0
  have hwrite₃ := writeU16_append (bytes16 id ++ (bytes16 (errorFlags flags rcode) ++
    (bytes16 qdcount ++ bytes16 0))) (bytes16 arcount ++ body) (highByte nscount)
    (lowByte nscount) 0
  have hwrite₄ := writeU16_append (bytes16 id ++ (bytes16 (errorFlags flags rcode) ++
    (bytes16 qdcount ++ (bytes16 0 ++ bytes16 0)))) body (highByte arcount) (lowByte arcount) 0
  rw [buildErrorResponse, refuseIf, if_neg hlen, hflags]
  refine except_bind_eq_ok.mpr ⟨(), rfl, except_bind_eq_ok.mpr ⟨_, rfl, ?_⟩⟩
  refine except_bind_eq_ok.mpr ⟨_, hwrite₁, except_bind_eq_ok.mpr ⟨_, hwrite₂, ?_⟩⟩
  exact except_bind_eq_ok.mpr ⟨_, hwrite₃, hwrite₄⟩

/-- The response is a message with the identification, operation code, RD bit and questions of
the query, the code, and no records. -/
def AnswersWithError (m : FullMessage) (rcode : UInt16) (response : Packet) : Prop :=
  ∃ r : FullMessage, response = r.bytes ∧ r.id = m.id ∧
    r.flags &&& opcodeBits = m.flags &&& opcodeBits ∧ r.flags &&& rdBit = m.flags &&& rdBit ∧
    r.questions = m.questions ∧ r.flags &&& qrBit = qrBit ∧ r.flags &&& rcodeBits = rcode ∧
    r.answers = [] ∧ r.authority = [] ∧ r.additional = []

/-- The query asks with the operation code zero, and has no records in any section. -/
def PlainQuery (m : FullMessage) : Prop :=
  m.flags &&& opcodeBits = 0 ∧ m.answers = [] ∧ m.authority = [] ∧ m.additional = []

theorem buildErrorResponse_bytes (m : FullMessage) (rcode : UInt16) :
    buildErrorResponse m.bytes rcode =
      .ok (bytes16 m.id ++ (bytes16 (errorFlags m.flags rcode) ++
        (bytes16 (UInt16.ofNat m.questions.length) ++ (bytes16 0 ++ (bytes16 0 ++ bytes16 0)))) ++
        m.body) :=
  buildErrorResponse_eq _ _ _ _ _ _ _ _

theorem plainQuery_of_answersWithError {m : FullMessage} {rcode : UInt16} {response : Packet}
    (hbuild : buildErrorResponse m.bytes rcode = .ok response)
    (h : AnswersWithError m rcode response) : PlainQuery m := by
  obtain ⟨r, hresponse, -, hopcode, -, hquestions, -, -, hanswers, hauthority, hadditional⟩ := h
  rw [buildErrorResponse_bytes, Except.ok.injEq, hresponse, FullMessage.bytes] at hbuild
  obtain ⟨hheader, hbody⟩ := List.append_inj hbuild rfl
  have hflags : errorFlags m.flags rcode = r.flags := by
    rw [Message.header] at hheader
    obtain ⟨-, hrest⟩ := List.append_inj hheader rfl
    exact bytes16_injective (List.append_inj hrest rfl).1
  rw [← hflags, errorFlags_opcode] at hopcode
  have hlen := congrArg List.length hbody
  rw [FullMessage.body, FullMessage.body, hquestions, hanswers, hauthority, hadditional] at hlen
  simp only [List.length_append, List.flatMap_nil, List.length_nil] at hlen
  exact ⟨hopcode.symm, flatMap_encode_eq_nil (by omega), flatMap_encode_eq_nil (by omega),
    flatMap_encode_eq_nil (by omega)⟩

/-- The error response to a message is the error message it should be exactly if the message
has no records and the operation code zero. -/
theorem error_response_iff (m : FullMessage) (rcode : UInt16) (hrcode : rcode < 16) :
    (∃ response, buildErrorResponse m.bytes rcode = .ok response ∧
      AnswersWithError m rcode response) ↔ PlainQuery m := by
  constructor
  · rintro ⟨response, hbuild, hanswers⟩
    exact plainQuery_of_answersWithError hbuild hanswers
  · rintro ⟨hopcode, hanswers, hauthority, hadditional⟩
    let r : FullMessage :=
      { m with
        flags := errorFlags m.flags rcode
        nscount := 0
        arcount := 0
        answers := []
        answers_short := Nat.zero_le _
        authority := []
        additional := []
        nscount_eq := rfl
        arcount_eq := rfl }
    refine ⟨_, buildErrorResponse_bytes m rcode, r, ?_, rfl, ?_, errorFlags_rd _ _, rfl,
      errorFlags_qr _ _, errorFlags_rcode _ hrcode, rfl, rfl, rfl⟩
    · rw [FullMessage.body, hanswers, hauthority, hadditional]
      rfl
    · rw [hopcode]
      exact errorFlags_opcode _ _

/-- A query for the addresses of the name `a`, with some records behind the question. -/
def addressQuery (additional : List Record) (h : additional.length ≤ 65535) : FullMessage where
  id := 7
  flags := 0x0100
  nscount := 0
  arcount := UInt16.ofNat additional.length
  questions := [⟨⟨[⟨[0x61], by decide, by decide⟩], .root⟩, qtypeA, qclassIn⟩]
  answers := []
  questions_short := by decide
  answers_short := by decide
  authority := []
  additional := additional
  nscount_eq := rfl
  arcount_eq := toNat_ofNat_short h

/-- The OPT record with which a client announces the size of its buffer. -/
def optRecord : Record := ⟨⟨[], .root⟩, 41, 1232, 0, [], by decide⟩

theorem error_response_iff_addressQuery :
    (∃ response, buildErrorResponse (addressQuery [] (by decide)).bytes rcodeRefused = .ok response ∧
      AnswersWithError (addressQuery [] (by decide)) rcodeRefused response) ∧
    ¬ ∃ response, buildErrorResponse (addressQuery [optRecord] (by decide)).bytes rcodeRefused =
        .ok response ∧
      AnswersWithError (addressQuery [optRecord] (by decide)) rcodeRefused response := by
  constructor
  · exact (error_response_iff _ rcodeRefused (by decide)).mpr ⟨rfl, rfl, rfl, rfl⟩
  · rw [error_response_iff _ rcodeRefused (by decide)]
    rintro ⟨-, -, -, hadditional⟩
    cases hadditional

/-- The error response to a query with an OPT record is no message. -/
theorem not_error_response_to_every_message : ¬ ∀ (m : FullMessage) (rcode : UInt16), rcode < 16 →
    ∃ response, buildErrorResponse m.bytes rcode = .ok response ∧
      AnswersWithError m rcode response := by
  intro hclaim
  obtain ⟨response, hbuild, hanswers⟩ :=
    hclaim (addressQuery [optRecord] (by decide)) rcodeRefused (by decide)
  obtain ⟨-, -, -, hadditional⟩ := plainQuery_of_answersWithError hbuild hanswers
  cases hadditional

end EveNet
