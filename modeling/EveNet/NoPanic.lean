import EveNet.DnsProxy
import EveNet.WireReaders

/-!
# The readers with their panics

Rust stops a program that indexes outside of a buffer, or whose position overflows. The
readers and writers of packets are written here once more with these ways to stop, and loops
that go on after their rounds stop as well. They turn out to be the functions of `DnsWire`,
with no such stop, on every buffer a program can have.
-/

namespace EveNet

/-- Why a call ends without a value. -/
inductive Stop where
  | err (e : Error)
  | panicked
  | running
  deriving DecidableEq

abbrev Checked (α : Type) := Except Stop α

/-- A result without a panic. -/
def checked {α : Type} (r : Except Error α) : Checked α := r.mapError .err

theorem ok_of_checked {α : Type} {r : Except Error α} {a : α} (h : checked r = .ok a) :
    r = .ok a := by
  cases r with
  | ok b => exact congrArg Except.ok (Except.ok.inj h)
  | error e => cases h

/-- A byte string as a program holds it, at most `isize::MAX` long. -/
structure Slice where
  bytes : Packet
  fits : bytes.length < 2 ^ 63

/-! ### Where the readers end -/

section Ends

variable {buf out : Packet} {pos next : ℕ}

theorem skipName_end (h : skipName buf pos = .ok next) : pos < next ∧ next ≤ buf.length := by
  obtain ⟨name, hname, rfl⟩ := skipName_eq_ok_iff.mp h
  have hpos := List.length_pos_iff.mpr name.encode_ne_nil
  exact ⟨by omega, hname.length_le name.encode_ne_nil⟩

theorem readQname_end {d : String} (h : readQname buf pos = .ok (d, next)) :
    pos < next ∧ next ≤ buf.length := by
  obtain ⟨⟨labels, last⟩, hread, h⟩ := except_bind_eq_ok.mp h
  obtain ⟨name, -, h⟩ := except_bind_eq_ok.mp h
  rw [Except.ok.injEq, Prod.mk.injEq] at h
  obtain ⟨-, rfl⟩ := h
  exact skipName_end (skipLabels_of_readLabels hread)

theorem skipQuestions_end {count : ℕ} (hpos : pos ≤ buf.length)
    (h : skipQuestions buf count pos = .ok next) : next ≤ buf.length := by
  obtain ⟨questions, -, hholds, rfl⟩ := skipQuestions_eq_ok_iff.mp h
  by_cases hnil : questions.flatMap Wire.Question.encode = []
  · rw [hnil]
    exact hpos
  · exact hholds.length_le hnil

theorem readRecord_end {record : ResourceRecord} (h : readRecord buf pos = .ok record) :
    record.rdata + record.rdlen ≤ buf.length := by
  obtain ⟨found, hfound, rfl⟩ := readRecord_eq_ok_iff.mp h
  rw [found.place_end pos]
  refine hfound.length_le (fun hnil => ?_)
  exact found.name.encode_ne_nil (List.append_eq_nil_iff.mp hnil).1

theorem length_of_writeU16 {value : UInt16} (h : writeU16 buf pos value = .ok out) :
    out.length = buf.length := by
  by_cases hlen : pos + 2 ≤ buf.length
  · rw [writeU16_of_le hlen, Except.ok.injEq] at h
    rw [← h, List.length_set, List.length_set]
  · rw [writeU16, if_pos (by omega)] at h
    cases h

end Ends

namespace Checked

/-! ### Elementary steps -/

/-- Addition of positions. -/
def add (a b : ℕ) : Checked ℕ := if a + b < 2 ^ 64 then .ok (a + b) else .error .panicked

def index (buf : Packet) (i : ℕ) : Checked UInt8 :=
  match buf[i]? with
  | some b => .ok b
  | none => .error .panicked

def store (buf : Packet) (i : ℕ) (b : UInt8) : Checked Packet :=
  if i < buf.length then .ok (buf.set i b) else .error .panicked

def slice (buf : Packet) (start stop : ℕ) : Checked (List UInt8) :=
  if start ≤ stop ∧ stop ≤ buf.length then .ok ((buf.drop start).take (stop - start))
  else .error .panicked

def refuseIf (bad : Prop) [Decidable bad] (message : String) : Checked Unit :=
  checked (EveNet.refuseIf bad message)

/-! ### Numbers -/

def readU16 (buf : Packet) (pos : ℕ) : Checked UInt16 := do
  let stop ← add pos 2
  refuseIf (buf.length < stop) "u16 read out of bounds"
  let hi ← index buf pos
  let next ← add pos 1
  let lo ← index buf next
  .ok (fromBeBytes hi lo)

def writeU16 (buf : Packet) (pos : ℕ) (value : UInt16) : Checked Packet := do
  let stop ← add pos 2
  refuseIf (buf.length < stop) "u16 write out of bounds"
  let buf ← store buf pos (highByte value)
  let next ← add pos 1
  store buf next (lowByte value)

/-! ### Names -/

def readLabels (buf : Packet) : (rounds pos : ℕ) → Checked (List String × ℕ)
  | 0, _ => .error .running
  | rounds + 1, pos => do
    refuseIf (buf.length ≤ pos) "DNS qname truncated"
    let len ← index buf pos
    let pos ← add pos 1
    if len = 0 then .ok ([], pos)
    else do
      refuseIf (len &&& 0xc0 ≠ 0) "compressed qname in question is unsupported"
      refuseIf (63 < len.toNat) "invalid DNS qname label"
      let stop ← add pos len.toNat
      refuseIf (buf.length < stop) "invalid DNS qname label"
      let bytes ← slice buf pos stop
      let label ← checked (decodeLabel bytes)
      let (labels, pos) ← readLabels buf rounds stop
      .ok (label :: labels, pos)

/-- The loop over the labels, with a round for each byte that is left and one more. -/
def readQname (buf : Packet) (pos : ℕ) : Checked (String × ℕ) := do
  let (labels, pos) ← readLabels buf (buf.length - pos + 1) pos
  let domain ← checked (normalizeDomain (".".intercalate labels))
  .ok (domain, pos)

def skipLabels (buf : Packet) : (rounds pos : ℕ) → Checked ℕ
  | 0, _ => .error .running
  | rounds + 1, pos => do
    refuseIf (buf.length ≤ pos) "DNS name truncated"
    let len ← index buf pos
    if len = 0 then add pos 1
    else if len &&& 0xc0 = 0xc0 then do
      let next ← add pos 1
      refuseIf (buf.length ≤ next) "DNS compressed pointer truncated"
      add pos 2
    else do
      refuseIf (63 < len.toNat) "invalid DNS name label length"
      let step ← add 1 len.toNat
      let pos ← add pos step
      skipLabels buf rounds pos

def skipName (buf : Packet) (pos : ℕ) : Checked ℕ := skipLabels buf (buf.length - pos + 1) pos

/-! ### Questions and answers -/

def parseQuestion (buf : Packet) : Checked DnsQuestion := do
  refuseIf (buf.length < 12) "DNS packet too short"
  let qdcount ← readU16 buf 4
  refuseIf (qdcount = 0) "DNS packet has zero questions"
  let (domain, pos) ← readQname buf 12
  let stop ← add pos 4
  refuseIf (buf.length < stop) "DNS question is truncated"
  let qtype ← readU16 buf pos
  let next ← add pos 2
  let qclass ← readU16 buf next
  .ok ⟨domain, qtype, qclass⟩

def skipQuestions (buf : Packet) : (count pos : ℕ) → Checked ℕ
  | 0, pos => .ok pos
  | count + 1, pos => do
    let pos ← skipName buf pos
    let stop ← add pos 4
    refuseIf (buf.length < stop) "DNS response question section truncated"
    skipQuestions buf count stop

def readRecord (buf : Packet) (pos : ℕ) : Checked ResourceRecord := do
  let pos ← skipName buf pos
  let rdata ← add pos 10
  refuseIf (buf.length < rdata) "DNS answer section truncated"
  let rrType ← readU16 buf pos
  let next ← add pos 2
  let rrClass ← readU16 buf next
  let next ← add pos 8
  let rdlen ← readU16 buf next
  let stop ← add rdata rdlen.toNat
  refuseIf (buf.length < stop) "DNS answer rdata truncated"
  .ok ⟨rrType, rrClass, rdata, rdlen.toNat⟩

def aRecordIp (buf : Packet) (record : ResourceRecord) : Checked (Option String) :=
  if record.rrType = qtypeA ∧ record.rrClass = qclassIn ∧ record.rdlen = 4 then do
    let a ← index buf record.rdata
    let next ← add record.rdata 1
    let b ← index buf next
    let next ← add record.rdata 2
    let c ← index buf next
    let next ← add record.rdata 3
    let d ← index buf next
    .ok (some (dottedQuad a b c d))
  else .ok none

def readAnswers (buf : Packet) : (count pos : ℕ) → Checked (List String)
  | 0, _ => .ok []
  | count + 1, pos => do
    let record ← readRecord buf pos
    let ip ← aRecordIp buf record
    let pos ← add record.rdata record.rdlen
    let ips ← readAnswers buf count pos
    .ok (ip.toList ++ ips)

def parseARecords (buf : Packet) : Checked ARecordSet := do
  refuseIf (buf.length < 12) "DNS response too short"
  let qdcount ← readU16 buf 4
  let ancount ← readU16 buf 6
  let pos ← skipQuestions buf qdcount.toNat 12
  let ips ← readAnswers buf ancount.toNat pos
  .ok ⟨uniqueSorted ips⟩

def buildErrorResponse (query : Packet) (rcode : UInt16) : Checked Packet := do
  refuseIf (query.length < 12) "cannot build DNS error response from truncated query"
  let queryFlags ← readU16 query 2
  let response ← writeU16 query 2 (errorFlags queryFlags rcode)
  let response ← writeU16 response 6 0
  let response ← writeU16 response 8 0
  writeU16 response 10 0

/-! ### No step panics -/

section Steps

variable {α β : Type} {buf : Packet} {pos a b : ℕ}

theorem ok_bind (x : α) (g : α → Checked β) : (Except.ok x : Checked α) >>= g = g x := rfl

/-- A call without a panic, followed by calls without one where it succeeds. -/
theorem bind_checked {x : Except Error α} {f : α → Except Error β} {g : α → Checked β}
    (h : ∀ y, x = .ok y → g y = checked (f y)) : checked x >>= g = checked (x >>= f) := by
  cases x with
  | error e => rfl
  | ok y => exact h y rfl

theorem refuseIf_bind {bad : Prop} [Decidable bad] {message : String}
    {f : Except Error β} {g : Checked β} (h : ¬ bad → g = checked f) :
    (refuseIf bad message >>= fun _ => g) =
      checked (EveNet.refuseIf bad message >>= fun _ => f) :=
  bind_checked (fun _ hok => h (refuseIf_eq_ok.mp hok))

theorem add_of_lt (h : a + b < 2 ^ 64) : add a b = .ok (a + b) := if_pos h

theorem index_of_lt (h : pos < buf.length) : index buf pos = .ok (buf.getD pos 0) := by
  rw [index, List.getElem?_eq_getElem h, List.getD_eq_getElem _ _ h]

theorem store_of_lt (h : pos < buf.length) (b : UInt8) : store buf pos b = .ok (buf.set pos b) :=
  if_pos h

theorem slice_of_le (h : a ≤ b) (hb : b ≤ buf.length) :
    slice buf a b = .ok ((buf.drop a).take (b - a)) :=
  if_pos ⟨h, hb⟩

end Steps

section Readers

variable {buf : Packet} {pos next : ℕ} (hbuf : buf.length < 2 ^ 63)

include hbuf

theorem readU16_eq (hpos : pos ≤ buf.length) : readU16 buf pos = checked (EveNet.readU16 buf pos) := by
  rw [readU16, add_of_lt (by omega), ok_bind]
  by_cases hlen : buf.length < pos + 2
  · rw [EveNet.readU16, if_pos hlen, refuseIf, EveNet.refuseIf, if_pos hlen]
    rfl
  · rw [readU16_of_le (by omega), refuseIf, EveNet.refuseIf, if_neg hlen,
      index_of_lt (show pos < buf.length by omega), add_of_lt (show pos + 1 < 2 ^ 64 by omega)]
    change (index buf (pos + 1) >>= _) = _
    rw [index_of_lt (by omega)]
    rfl

theorem writeU16_eq (hpos : pos ≤ buf.length) (value : UInt16) :
    writeU16 buf pos value = checked (EveNet.writeU16 buf pos value) := by
  rw [writeU16, add_of_lt (by omega), ok_bind]
  by_cases hlen : buf.length < pos + 2
  · rw [EveNet.writeU16, if_pos hlen, refuseIf, EveNet.refuseIf, if_pos hlen]
    rfl
  · rw [writeU16_of_le (by omega), refuseIf, EveNet.refuseIf, if_neg hlen,
      store_of_lt (show pos < buf.length by omega), add_of_lt (show pos + 1 < 2 ^ 64 by omega)]
    change store (buf.set pos (highByte value)) (pos + 1) (lowByte value) = _
    rw [store_of_lt (by rw [List.length_set]; omega)]
    rfl

/-- The loop over the labels ends within its rounds, without a panic. -/
theorem readLabels_eq {rounds : ℕ} (hrounds : buf.length - pos ≤ rounds)
    (hpos : pos ≤ buf.length) :
    readLabels buf (rounds + 1) pos = checked (EveNet.readLabels buf rounds pos) := by
  induction rounds generalizing pos with
  | zero =>
      have hend : buf.length ≤ pos := by omega
      rw [readLabels, EveNet.readLabels, refuseIf, EveNet.refuseIf, if_pos hend]
      rfl
  | succ rounds ih =>
      rw [readLabels]
      by_cases hend : buf.length ≤ pos
      · rw [EveNet.readLabels, List.getElem?_eq_none hend, refuseIf, EveNet.refuseIf, if_pos hend]
        rfl
      have hlt : pos < buf.length := not_le.mp hend
      rw [refuseIf, EveNet.refuseIf, if_neg hend, index_of_lt hlt, EveNet.readLabels,
        List.getElem?_eq_getElem hlt, List.getD_eq_getElem _ _ hlt,
        add_of_lt (show pos + 1 < 2 ^ 64 by omega)]
      change (if buf[pos] = 0 then _ else _) = checked (if buf[pos] = 0 then _ else _)
      by_cases hzero : buf[pos] = 0
      · rw [if_pos hzero, if_pos hzero]
        rfl
      rw [if_neg hzero, if_neg hzero]
      by_cases hplain : buf[pos] &&& 0xc0 ≠ 0
      · rw [if_pos hplain, refuseIf, EveNet.refuseIf, if_pos hplain]
        rfl
      rw [if_neg hplain, refuseIf, EveNet.refuseIf, if_neg hplain]
      change (refuseIf (63 < buf[pos].toNat) _ >>= _) = _
      by_cases hlong : 63 < buf[pos].toNat
      · rw [if_pos (Or.inl hlong), refuseIf, EveNet.refuseIf, if_pos hlong]
        rfl
      rw [refuseIf, EveNet.refuseIf, if_neg hlong]
      change (add (pos + 1) buf[pos].toNat >>= _) = _
      rw [add_of_lt (by omega), ok_bind]
      by_cases hcut : buf.length < pos + 1 + buf[pos].toNat
      · rw [if_pos (Or.inr hcut), refuseIf, EveNet.refuseIf, if_pos hcut]
        rfl
      rw [if_neg (not_or.mpr ⟨hlong, hcut⟩), refuseIf, EveNet.refuseIf, if_neg hcut]
      change (slice buf (pos + 1) (pos + 1 + buf[pos].toNat) >>= _) = _
      rw [slice_of_le (Nat.le_add_right _ _) (by omega), ok_bind, Nat.add_sub_cancel_left]
      refine bind_checked (fun label _ => ?_)
      rw [ih (by omega) (by omega)]
      exact bind_checked (fun _ _ => rfl)

theorem readQname_eq (hpos : pos ≤ buf.length) :
    readQname buf pos = checked (EveNet.readQname buf pos) := by
  rw [readQname, readLabels_eq hbuf le_rfl hpos]
  exact bind_checked (fun _ _ => bind_checked (fun _ _ => rfl))

theorem skipLabels_eq {rounds : ℕ} (hrounds : buf.length - pos ≤ rounds) (hpos : pos < 2 ^ 63 + 64) :
    skipLabels buf (rounds + 1) pos = checked (EveNet.skipLabels buf rounds pos) := by
  induction rounds generalizing pos with
  | zero =>
      have hend : buf.length ≤ pos := by omega
      rw [skipLabels, EveNet.skipLabels, refuseIf, EveNet.refuseIf, if_pos hend]
      rfl
  | succ rounds ih =>
      rw [skipLabels]
      by_cases hend : buf.length ≤ pos
      · rw [EveNet.skipLabels, List.getElem?_eq_none hend, refuseIf, EveNet.refuseIf, if_pos hend]
        rfl
      have hlt : pos < buf.length := not_le.mp hend
      rw [refuseIf, EveNet.refuseIf, if_neg hend, index_of_lt hlt, EveNet.skipLabels,
        List.getElem?_eq_getElem hlt, List.getD_eq_getElem _ _ hlt]
      change (if buf[pos] = 0 then _ else _) = checked (if buf[pos] = 0 then _ else _)
      by_cases hzero : buf[pos] = 0
      · rw [if_pos hzero, if_pos hzero, add_of_lt (by omega)]
        rfl
      rw [if_neg hzero, if_neg hzero]
      by_cases hpointer : buf[pos] &&& 0xc0 = 0xc0
      · rw [if_pos hpointer, if_pos hpointer, add_of_lt (by omega), ok_bind]
        by_cases hcut : buf.length ≤ pos + 1
        · rw [if_pos hcut, refuseIf, EveNet.refuseIf, if_pos hcut]
          rfl
        · rw [if_neg hcut, refuseIf, EveNet.refuseIf, if_neg hcut, add_of_lt (by omega)]
          rfl
      rw [if_neg hpointer, if_neg hpointer]
      by_cases hlong : 63 < buf[pos].toNat
      · rw [if_pos hlong, refuseIf, EveNet.refuseIf, if_pos hlong]
        rfl
      rw [if_neg hlong, refuseIf, EveNet.refuseIf, if_neg hlong]
      change (add 1 buf[pos].toNat >>= _) = _
      rw [add_of_lt (by omega), ok_bind, add_of_lt (by omega), ok_bind, ← Nat.add_assoc]
      exact ih (by omega) (by omega)

theorem skipName_eq (hpos : pos ≤ buf.length) :
    skipName buf pos = checked (EveNet.skipName buf pos) :=
  skipLabels_eq hbuf le_rfl (by omega)

theorem parseQuestion_eq : parseQuestion buf = checked (EveNet.parseQuestion buf) := by
  refine refuseIf_bind (fun hlen => ?_)
  rw [readU16_eq hbuf (by omega)]
  refine bind_checked (fun qdcount _ => refuseIf_bind (fun _ => ?_))
  rw [readQname_eq hbuf (by omega)]
  refine bind_checked (fun ⟨domain, next⟩ hname => ?_)
  have hnext := (readQname_end hname).2
  dsimp only
  rw [add_of_lt (by omega), ok_bind]
  refine refuseIf_bind (fun hend => ?_)
  rw [readU16_eq hbuf hnext]
  refine bind_checked (fun qtype _ => ?_)
  rw [add_of_lt (by omega), ok_bind, readU16_eq hbuf (by omega)]
  exact bind_checked (fun _ _ => rfl)

theorem skipQuestions_eq {count : ℕ} (hpos : pos ≤ buf.length) :
    skipQuestions buf count pos = checked (EveNet.skipQuestions buf count pos) := by
  induction count generalizing pos with
  | zero => rfl
  | succ count ih =>
      rw [skipQuestions, skipName_eq hbuf hpos]
      refine bind_checked (fun next hname => ?_)
      have hnext := (skipName_end hname).2
      rw [add_of_lt (by omega), ok_bind]
      exact refuseIf_bind (fun hend => ih (by omega))

theorem readRecord_eq (hpos : pos ≤ buf.length) :
    readRecord buf pos = checked (EveNet.readRecord buf pos) := by
  rw [readRecord, skipName_eq hbuf hpos]
  refine bind_checked (fun next hname => ?_)
  have hnext := (skipName_end hname).2
  rw [add_of_lt (by omega), ok_bind]
  refine refuseIf_bind (fun hend => ?_)
  rw [readU16_eq hbuf hnext]
  refine bind_checked (fun rrType _ => ?_)
  rw [add_of_lt (by omega), ok_bind, readU16_eq hbuf (by omega)]
  refine bind_checked (fun rrClass _ => ?_)
  rw [add_of_lt (by omega), ok_bind, readU16_eq hbuf (by omega)]
  refine bind_checked (fun rdlen _ => ?_)
  have hrdlen := rdlen.toNat_lt
  rw [add_of_lt (by omega), ok_bind]
  exact refuseIf_bind (fun _ => rfl)

theorem aRecordIp_eq {record : ResourceRecord} (hend : record.rdata + record.rdlen ≤ buf.length) :
    aRecordIp buf record = .ok (EveNet.aRecordIp buf record) := by
  rw [aRecordIp, EveNet.aRecordIp]
  by_cases hkind : record.rrType = qtypeA ∧ record.rrClass = qclassIn ∧ record.rdlen = 4
  · have hlen := hkind.2.2
    rw [if_pos hkind, if_pos hkind, index_of_lt (by omega), ok_bind, add_of_lt (by omega), ok_bind,
      index_of_lt (by omega), ok_bind, add_of_lt (by omega), ok_bind, index_of_lt (by omega),
      ok_bind, add_of_lt (by omega), ok_bind, index_of_lt (by omega), ok_bind]
  · rw [if_neg hkind, if_neg hkind]

theorem readAnswers_eq {count : ℕ} (hpos : pos ≤ buf.length) :
    readAnswers buf count pos = checked (EveNet.readAnswers buf count pos) := by
  induction count generalizing pos with
  | zero => rfl
  | succ count ih =>
      rw [readAnswers, readRecord_eq hbuf hpos]
      refine bind_checked (fun record hrecord => ?_)
      have hend := readRecord_end hrecord
      rw [aRecordIp_eq hbuf hend, ok_bind, add_of_lt (by omega), ok_bind, ih hend]
      exact bind_checked (fun _ _ => rfl)

theorem parseARecords_eq : parseARecords buf = checked (EveNet.parseARecords buf) := by
  refine refuseIf_bind (fun hlen => ?_)
  rw [readU16_eq hbuf (by omega)]
  refine bind_checked (fun qdcount _ => ?_)
  rw [readU16_eq hbuf (by omega)]
  refine bind_checked (fun ancount _ => ?_)
  rw [skipQuestions_eq hbuf (by omega)]
  refine bind_checked (fun next hskip => ?_)
  rw [readAnswers_eq hbuf (skipQuestions_end (by omega) hskip)]
  exact bind_checked (fun _ _ => rfl)

theorem buildErrorResponse_eq (rcode : UInt16) :
    buildErrorResponse buf rcode = checked (EveNet.buildErrorResponse buf rcode) := by
  refine refuseIf_bind (fun hlen => ?_)
  rw [readU16_eq hbuf (by omega)]
  refine bind_checked (fun flags _ => ?_)
  rw [writeU16_eq hbuf (by omega)]
  refine bind_checked (fun r₁ h₁ => ?_)
  have hl₁ := length_of_writeU16 h₁
  rw [writeU16_eq (by omega) (by omega)]
  refine bind_checked (fun r₂ h₂ => ?_)
  have hl₂ := length_of_writeU16 h₂
  rw [writeU16_eq (by omega) (by omega)]
  refine bind_checked (fun r₃ h₃ => ?_)
  have hl₃ := length_of_writeU16 h₃
  exact writeU16_eq (by omega) (by omega) _

end Readers

/-! ### The loop of the proxy -/

abbrev Serving := Program proxyInterface Stop

def acceptAnswer (cfg : Config) (writeCache : Bool) (query : Packet) (question : DnsQuestion)
    (isPolicyDomain : Bool) (response : Packet) : Serving Packet :=
  if isPolicyDomain ∧ qtypeIsA question then do
    let records ← Program.ofExcept (parseARecords response)
    if records.ips = [] then
      if hardFailClosed cfg then Program.ofExcept (buildErrorResponse query rcodeRefused)
      else pure response
    else if cfg.dnsInterception.cacheAnswers then do
      let _ ← (upsertLiveIpsFromProxy cfg question.domain records.ips writeCache).right.mapFail
        Stop.err
      pure response
    else pure response
  else pure response

def handleQuery (cfg : Config) (upstreams : List SocketAddr) (writeCache : Bool)
    (query : Packet) : Serving Packet := do
  let question ← Program.ofExcept (parseQuestion query)
  let policy ← Program.ofExcept (checked (findEnabledDomainPolicy cfg question.domain))
  if deniesAaaa cfg question policy.isSome then
    Program.ofExcept (buildErrorResponse query rcodeRefused)
  else do
    match ← ((Program.attempt
        (forwardQueryWithFailover query cfg.dnsInterception.timeoutMs [] upstreams)).left :
          Serving (Except Error Packet)) with
    | .ok response => acceptAnswer cfg writeCache query question policy.isSome response
    | .error err =>
      if policy.isSome ∧ hardFailClosed cfg then
        Program.ofExcept (buildErrorResponse query rcodeRefused)
      else .fail (.err err)

/-- The reply to an error. A panic is no error and is not replied to. -/
def replyTo (query : Packet) : Checked Packet → Checked Packet
  | .ok response => .ok response
  | .error (.err _) =>
    match buildErrorResponse query rcodeServfail with
    | .error (.err _) => .ok query
    | response => response
  | .error stop => .error stop

/-- The loop over the datagrams that come in, with the replies. -/
def serveAll (cfg : Config) (upstreams : List SocketAddr) (writeCache : Bool) :
    List Packet → Serving (List Packet)
  | [] => .pure []
  | datagram :: datagrams => do
    let query := datagram.take bufferSize
    let outcome ← Program.attempt (handleQuery cfg upstreams writeCache query)
    let reply ← Program.ofExcept (replyTo query outcome)
    let replies ← serveAll cfg upstreams writeCache datagrams
    pure (reply :: replies)

section Serving

variable {cfg : Config} {upstreams : List SocketAddr} {writeCache : Bool} {query : Packet}

theorem acceptAnswer_eq {question : DnsQuestion} {isPolicyDomain : Bool} {response : Packet}
    (hquery : query.length < 2 ^ 63) (hresponse : response.length < 2 ^ 63) :
    acceptAnswer cfg writeCache query question isPolicyDomain response =
      (EveNet.acceptAnswer cfg writeCache query question isPolicyDomain response).mapFail .err := by
  rw [acceptAnswer, EveNet.acceptAnswer]
  by_cases hasked : isPolicyDomain = true ∧ qtypeIsA question = true
  · rw [if_pos hasked, if_pos hasked, parseARecords_eq hresponse, Program.bind_eq,
      Program.bind_eq, Program.mapFail_bind, Program.mapFail_ofExcept]
    refine congrArg _ (funext fun records => ?_)
    by_cases hips : records.ips = []
    · rw [if_pos hips, if_pos hips]
      by_cases hclosed : hardFailClosed cfg = true
      · rw [if_pos hclosed, if_pos hclosed, Program.mapFail_ofExcept, buildErrorResponse_eq hquery]
        rfl
      · rw [if_neg hclosed, if_neg hclosed]
        rfl
    · rw [if_neg hips, if_neg hips]
      by_cases hcache : cfg.dnsInterception.cacheAnswers = true
      · rw [if_pos hcache, if_pos hcache]
        rw [Program.bind_eq, Program.bind_eq, Program.mapFail_bind]
        rfl
      · rw [if_neg hcache, if_neg hcache]
        rfl
  · rw [if_neg hasked, if_neg hasked]
    rfl

/-- Handling a query with the panics of Rust is handling it without them. -/
theorem run_handleQuery (env : ProxyEnv) (hquery : query.length < 2 ^ 63) (s : ProxyState) :
    Program.run (proxyHost env) (handleQuery cfg upstreams writeCache query) s =
      (checked (Program.run (proxyHost env)
        (EveNet.handleQuery cfg upstreams writeCache query) s).1,
        (Program.run (proxyHost env) (EveNet.handleQuery cfg upstreams writeCache query) s).2) := by
  rw [handleQuery, parseQuestion_eq hquery]
  cases hquestion : EveNet.parseQuestion query with
  | error e =>
      rw [run_handleQuery_unread hquestion]
      rfl
  | ok question =>
  have hread : Program.run (proxyHost env) (Program.ofExcept (checked (.ok question))) s =
      (.ok question, s) := rfl
  rw [Program.bind_eq, Program.run_bind_ok _ hread]
  cases hpolicy : findEnabledDomainPolicy cfg question.domain with
  | error e =>
      rw [run_handleQuery_unmatched hquestion hpolicy]
      rfl
  | ok policy =>
  have hmatch : Program.run (proxyHost env) (Program.ofExcept (checked (.ok policy))) s =
      (.ok policy, s) := rfl
  rw [run_handleQuery_matched hquestion hpolicy, Program.bind_eq, Program.run_bind_ok _ hmatch]
  by_cases hdenied : deniesAaaa cfg question policy.isSome = true
  · rw [if_pos hdenied, if_pos hdenied, buildErrorResponse_eq hquery, Program.run_ofExcept,
      Program.run_ofExcept]
  rw [if_neg hdenied, if_neg hdenied, Program.bind_eq, Program.run_bind, Program.run_bind,
    Program.run_left, Program.run_left, Program.run_attempt, Program.run_attempt]
  have hforward := run_forwardQueryWithFailover env.udp query cfg.dnsInterception.timeoutMs []
    upstreams s.1
  cases hout : (Program.run (udpHost env.udp) (forwardQueryWithFailover query
      cfg.dnsInterception.timeoutMs [] upstreams) s.1).1 with
  | error err =>
      dsimp only
      by_cases hclosed : policy.isSome = true ∧ hardFailClosed cfg = true
      · rw [if_pos hclosed, if_pos hclosed, buildErrorResponse_eq hquery, Program.run_ofExcept,
          Program.run_ofExcept]
      · rw [if_neg hclosed, if_neg hclosed]
        rfl
  | ok response =>
      have hresponse : response.length < 2 ^ 63 := by
        rw [hout] at hforward
        obtain ⟨answer, -, hanswer⟩ := Option.map_eq_some_iff.mp hforward.symm
        rw [← hanswer, List.length_take, bufferSize]
        omega
      dsimp only
      rw [acceptAnswer_eq hquery hresponse, Program.run_mapFail]
      rfl

theorem replyTo_checked (hquery : query.length < 2 ^ 63) (r : Except Error Packet) :
    replyTo query (checked r) = .ok (EveNet.replyTo query r) := by
  cases r with
  | ok response => rfl
  | error e =>
      simp only [checked, Except.mapError, replyTo]
      rw [buildErrorResponse_eq hquery, EveNet.replyTo]
      cases EveNet.buildErrorResponse query rcodeServfail <;> rfl

/-- Every datagram is replied to. -/
theorem run_serveAll (env : ProxyEnv) (datagrams : List Packet) (s : ProxyState) :
    ∃ replies t, Program.run (proxyHost env) (serveAll cfg upstreams writeCache datagrams) s =
      (.ok replies, t) ∧ replies.length = datagrams.length := by
  induction datagrams generalizing s with
  | nil => exact ⟨[], s, rfl, rfl⟩
  | cons datagram datagrams ih =>
      have hquery : (datagram.take bufferSize).length < 2 ^ 63 := by
        rw [List.length_take, bufferSize]
        omega
      rw [serveAll, Program.bind_eq, Program.run_bind, Program.run_attempt,
        run_handleQuery env hquery]
      dsimp only
      rw [replyTo_checked hquery]
      obtain ⟨replies, t, hrun, hlen⟩ := ih (Program.run (proxyHost env)
        (EveNet.handleQuery cfg upstreams writeCache (datagram.take bufferSize)) s).2
      refine ⟨EveNet.replyTo (datagram.take bufferSize) (Program.run (proxyHost env)
        (EveNet.handleQuery cfg upstreams writeCache (datagram.take bufferSize)) s).1 :: replies,
        t, ?_, congrArg Nat.succ hlen⟩
      exact Program.run_bind_ok _ hrun

end Serving

end Checked

/-- On every byte string, from every position in it, the readers and writers end with the
value or the error that `DnsWire` describes, and never stop in another way. So the loop
replies to whatever datagrams come in and whatever the upstreams answer. -/
theorem no_datagram_panics :
    (∀ (buf : Slice) (pos : ℕ), pos ≤ buf.bytes.length →
      Checked.readU16 buf.bytes pos = checked (readU16 buf.bytes pos) ∧
      (∀ value, Checked.writeU16 buf.bytes pos value = checked (writeU16 buf.bytes pos value)) ∧
      Checked.skipName buf.bytes pos = checked (skipName buf.bytes pos) ∧
      (∀ next, Checked.skipName buf.bytes pos = .ok next → pos < next ∧ next ≤ buf.bytes.length) ∧
      Checked.readQname buf.bytes pos = checked (readQname buf.bytes pos) ∧
      ∀ d next, Checked.readQname buf.bytes pos = .ok (d, next) →
        pos < next ∧ next ≤ buf.bytes.length) ∧
    (∀ buf : Slice, Checked.parseQuestion buf.bytes = checked (parseQuestion buf.bytes) ∧
      Checked.parseARecords buf.bytes = checked (parseARecords buf.bytes) ∧
      ∀ rcode, Checked.buildErrorResponse buf.bytes rcode =
        checked (buildErrorResponse buf.bytes rcode)) ∧
    ∀ (env : ProxyEnv) (cfg : Config) (upstreams : List SocketAddr) (writeCache : Bool)
      (datagrams : List Packet) (s : ProxyState), ∃ replies t,
      Program.run (proxyHost env) (Checked.serveAll cfg upstreams writeCache datagrams) s =
        (.ok replies, t) ∧ replies.length = datagrams.length := by
  refine ⟨fun buf pos hpos => ?_, fun buf => ?_, ?_⟩
  · have hskip := Checked.skipName_eq buf.fits hpos
    have hread := Checked.readQname_eq buf.fits hpos
    refine ⟨Checked.readU16_eq buf.fits hpos, Checked.writeU16_eq buf.fits hpos, hskip, ?_, hread,
      ?_⟩
    · intro next h
      exact skipName_end (ok_of_checked (hskip.symm.trans h))
    · intro d next h
      exact readQname_end (ok_of_checked (hread.symm.trans h))
  · exact ⟨Checked.parseQuestion_eq buf.fits, Checked.parseARecords_eq buf.fits,
      Checked.buildErrorResponse_eq buf.fits⟩
  · intro env cfg upstreams writeCache datagrams s
    exact Checked.run_serveAll env datagrams s

/-- The name with the only label `a`. -/
def oneLabel : Slice := ⟨[1, 0x61, 0], by decide⟩

theorem no_datagram_panics_oneLabel :
    Checked.skipName oneLabel.bytes 0 = .ok 3 ∧ Checked.readQname oneLabel.bytes 0 = .ok ("a", 3) ∧
      Checked.readU16 oneLabel.bytes 2 = .error (.err ["u16 read out of bounds"]) := by
  obtain ⟨-, -, hskip, -, hread, -⟩ := no_datagram_panics.1 oneLabel 0 (by decide)
  obtain ⟨hshort, -⟩ := no_datagram_panics.1 oneLabel 2 (by decide)
  have hskipped : skipName oneLabel.bytes 0 = .ok 3 := by decide +kernel
  have hname : readQname oneLabel.bytes 0 = .ok ("a", 3) := by decide +kernel
  rw [hskip, hread, hshort, hskipped, hname]
  exact ⟨rfl, rfl, rfl⟩

end EveNet
