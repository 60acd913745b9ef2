import Mathlib

/-!
# DNS messages on the wire

Names, questions and records with the bytes that stand for them, and what it means that a
buffer holds these bytes at some place. Nothing here reads a buffer: a reader is right when it
finds exactly what the buffer holds.
-/

namespace EveNet.Wire

/-! ### Bytes at a place -/

/-- The bytes stand in the buffer from the position on. -/
def Holds (buf : List UInt8) (pos : ℕ) (bytes : List UInt8) : Prop := bytes <+: buf.drop pos

section Holds

variable {buf front back bytes more : List UInt8} {pos : ℕ} {b : UInt8}

@[simp] theorem holds_nil : Holds buf pos [] := List.nil_prefix

theorem holds_cons : Holds buf pos (b :: bytes) ↔ buf[pos]? = some b ∧ Holds buf (pos + 1) bytes := by
  have htail : buf.drop (pos + 1) = (buf.drop pos).tail := by rw [List.tail_drop]
  have hhead : buf[pos]? = (buf.drop pos).head? := by rw [List.head?_drop]
  rw [Holds, Holds, htail, hhead]
  cases buf.drop pos with
  | nil => simp
  | cons c rest =>
      rw [List.cons_prefix_cons, List.head?_cons, List.tail_cons, Option.some.injEq]
      exact and_congr_left' eq_comm

theorem holds_append :
    Holds buf pos (bytes ++ more) ↔ Holds buf pos bytes ∧ Holds buf (pos + bytes.length) more := by
  induction bytes generalizing pos with
  | nil => simp
  | cons b bytes ih =>
      rw [List.cons_append, holds_cons, holds_cons, ih, List.length_cons, and_assoc]
      rw [show pos + 1 + bytes.length = pos + (bytes.length + 1) by omega]

theorem Holds.length_le (h : Holds buf pos bytes) (hne : bytes ≠ []) :
    pos + bytes.length ≤ buf.length := by
  have hle := List.IsPrefix.length_le h
  have hpos := List.length_pos_iff.mpr hne
  rw [List.length_drop] at hle
  omega

theorem holds_append_self (front bytes back : List UInt8) :
    Holds (front ++ (bytes ++ back)) front.length bytes := by
  rw [Holds, List.drop_left]
  exact List.prefix_append _ _

theorem holds_self (bytes back : List UInt8) : Holds (bytes ++ back) 0 bytes :=
  holds_append_self [] bytes back

/-- A buffer that holds the bytes at its start begins with them. -/
theorem Holds.eq_append (h : Holds buf 0 bytes) : ∃ back, buf = bytes ++ back := by
  obtain ⟨back, hback⟩ := h
  exact ⟨back, hback.symm⟩

theorem holds_take (buf : List UInt8) (pos n : ℕ) : Holds buf pos ((buf.drop pos).take n) :=
  List.take_prefix _ _

end Holds

/-! ### Numbers -/

/-- Two bytes, the higher one first. -/
def bytes16 (value : UInt16) : List UInt8 :=
  [UInt8.ofNat (value.toNat / 256), UInt8.ofNat value.toNat]

def bytes32 (value : UInt32) : List UInt8 :=
  [UInt8.ofNat (value.toNat / 2 ^ 24), UInt8.ofNat (value.toNat / 2 ^ 16),
    UInt8.ofNat (value.toNat / 2 ^ 8), UInt8.ofNat value.toNat]

@[simp] theorem length_bytes16 (value : UInt16) : (bytes16 value).length = 2 := rfl

@[simp] theorem length_bytes32 (value : UInt32) : (bytes32 value).length = 4 := rfl

theorem bytes16_ofNat (hi lo : UInt8) :
    bytes16 (UInt16.ofNat (256 * hi.toNat + lo.toNat)) = [hi, lo] := by
  have hhi := hi.toNat_lt
  have hlo := lo.toNat_lt
  have hvalue : (UInt16.ofNat (256 * hi.toNat + lo.toNat)).toNat = 256 * hi.toNat + lo.toNat := by
    rw [UInt16.toNat_ofNat']
    omega
  rw [bytes16, hvalue]
  congr 1
  · apply UInt8.toNat_inj.mp
    rw [UInt8.toNat_ofNat']
    omega
  · congr 1
    apply UInt8.toNat_inj.mp
    rw [UInt8.toNat_ofNat']
    omega

theorem bytes16_injective : Function.Injective bytes16 := by
  intro v w h
  have hv := v.toNat_lt
  have hw := w.toNat_lt
  simp only [bytes16, List.cons.injEq, and_true] at h
  have hhi := congrArg UInt8.toNat h.1
  have hlo := congrArg UInt8.toNat h.2
  rw [UInt8.toNat_ofNat', UInt8.toNat_ofNat'] at hhi hlo
  apply UInt16.toNat_inj.mp
  omega

theorem exists_bytes32 (a b c d : UInt8) : ∃ value, bytes32 value = [a, b, c, d] := by
  have ha := a.toNat_lt
  have hb := b.toNat_lt
  have hc := c.toNat_lt
  have hd := d.toNat_lt
  refine ⟨UInt32.ofNat (a.toNat * 2 ^ 24 + b.toNat * 2 ^ 16 + c.toNat * 2 ^ 8 + d.toNat), ?_⟩
  have hvalue : (UInt32.ofNat (a.toNat * 2 ^ 24 + b.toNat * 2 ^ 16 + c.toNat * 2 ^ 8 +
      d.toNat)).toNat = a.toNat * 2 ^ 24 + b.toNat * 2 ^ 16 + c.toNat * 2 ^ 8 + d.toNat := by
    rw [UInt32.toNat_ofNat']
    omega
  have hbyte : ∀ (n : ℕ) (e : UInt8), n % 256 = e.toNat → UInt8.ofNat n = e := by
    intro n e hn
    apply UInt8.toNat_inj.mp
    rw [UInt8.toNat_ofNat']
    exact hn
  rw [bytes32, hvalue]
  rw [hbyte _ a (by omega), hbyte _ b (by omega), hbyte _ c (by omega), hbyte _ d (by omega)]

/-! ### Names -/

structure Label where
  bytes : List UInt8
  pos : 0 < bytes.length
  short : bytes.length ≤ 63

/-- A name ends at the root, or at a pointer to where the rest of it stands. -/
inductive NameEnd
  | root
  | pointer (offset : Fin 0x4000)

structure Name where
  labels : List Label
  ending : NameEnd

def Label.encode (label : Label) : List UInt8 := UInt8.ofNat label.bytes.length :: label.bytes

def NameEnd.encode : NameEnd → List UInt8
  | .root => [0]
  | .pointer offset => [UInt8.ofNat (0xc0 + offset / 256), UInt8.ofNat offset]

def Name.encode (name : Name) : List UInt8 :=
  name.labels.flatMap Label.encode ++ name.ending.encode

theorem NameEnd.encode_ne_nil (ending : NameEnd) : ending.encode ≠ [] := by
  cases ending <;> simp [NameEnd.encode]

theorem Name.encode_ne_nil (name : Name) : name.encode ≠ [] := by
  intro h
  exact name.ending.encode_ne_nil (List.append_eq_nil_iff.mp h).2

theorem encode_cons (label : Label) (labels : List Label) (ending : NameEnd) :
    Name.encode ⟨label :: labels, ending⟩ = label.encode ++ Name.encode ⟨labels, ending⟩ := by
  rw [Name.encode, List.flatMap_cons, List.append_assoc]
  rfl

theorem Name.length_labels_lt (name : Name) : name.labels.length < name.encode.length := by
  obtain ⟨labels, ending⟩ := name
  induction labels with
  | nil => exact List.length_pos_iff.mpr (Name.encode_ne_nil _)
  | cons label labels ih =>
      rw [encode_cons, List.length_append, Label.encode, List.length_cons, List.length_cons]
      dsimp only at ih
      omega

/-! ### Messages -/

structure Question where
  name : Name
  qtype : UInt16
  qclass : UInt16

def Question.encode (question : Question) : List UInt8 :=
  question.name.encode ++ (bytes16 question.qtype ++ bytes16 question.qclass)

structure Record where
  name : Name
  rrType : UInt16
  rrClass : UInt16
  ttl : UInt32
  rdata : List UInt8
  short : rdata.length ≤ 65535

def Record.fixedPart (record : Record) : List UInt8 :=
  bytes16 record.rrType ++ (bytes16 record.rrClass ++ (bytes32 record.ttl ++
    bytes16 (UInt16.ofNat record.rdata.length)))

def Record.encode (record : Record) : List UInt8 :=
  record.name.encode ++ (record.fixedPart ++ record.rdata)

/-- A message up to its answers. Its header may announce records behind them. -/
structure Message where
  id : UInt16
  flags : UInt16
  nscount : UInt16
  arcount : UInt16
  questions : List Question
  answers : List Record
  questions_short : questions.length ≤ 65535
  answers_short : answers.length ≤ 65535

def Message.header (m : Message) : List UInt8 :=
  bytes16 m.id ++ (bytes16 m.flags ++ (bytes16 (UInt16.ofNat m.questions.length) ++
    (bytes16 (UInt16.ofNat m.answers.length) ++ (bytes16 m.nscount ++ bytes16 m.arcount))))

def Message.encode (m : Message) : List UInt8 :=
  m.header ++ (m.questions.flatMap Question.encode ++ m.answers.flatMap Record.encode)

@[simp] theorem Record.length_fixedPart (record : Record) : record.fixedPart.length = 10 := rfl

@[simp] theorem Message.length_header (m : Message) : m.header.length = 12 := rfl

/-- A whole message: its four counts account for all of its bytes. -/
structure FullMessage extends Message where
  authority : List Record
  additional : List Record
  nscount_eq : nscount.toNat = authority.length
  arcount_eq : arcount.toNat = additional.length

/-- What follows the header. -/
def FullMessage.body (m : FullMessage) : List UInt8 :=
  m.questions.flatMap Question.encode ++ (m.answers.flatMap Record.encode ++
    (m.authority.flatMap Record.encode ++ m.additional.flatMap Record.encode))

def FullMessage.bytes (m : FullMessage) : List UInt8 := m.header ++ m.body

/-- Every record takes some bytes. -/
theorem flatMap_encode_eq_nil {records : List Record}
    (h : (records.flatMap Record.encode).length = 0) : records = [] := by
  cases records with
  | nil => rfl
  | cons record records =>
      rw [List.flatMap_cons, Record.encode, List.length_append, List.length_append,
        List.length_append, Record.length_fixedPart] at h
      omega

theorem toNat_ofNat_short {n : ℕ} (h : n ≤ 65535) : (UInt16.ofNat n).toNat = n := by
  rw [UInt16.toNat_ofNat']
  omega

end EveNet.Wire
