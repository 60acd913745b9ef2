import EveNet.DnsWire

/-!
# The sections of a packet

What a packet asks for and what it answers, read leniently: as many questions or records as
are complete. A packet that was cut short shows no record that the whole one does not have.
`OneQuestion` is the other direction, a query put together from its parts, and the proxy's
parser is shown to read exactly the name in it.
-/

namespace EveNet

/-! ### Packets cut short -/

/-- What is read from the first part of a packet is also read from the whole packet. -/
def Stable {α : Type} (read : Packet → Except Error α) : Prop :=
  ∀ short buf a, short <+: buf → read short = .ok a → read buf = .ok a

namespace Stable

variable {α β : Type}

theorem ok (a : α) : Stable (fun _ => .ok a) := fun _ _ _ _ h => h

theorem bind {read : Packet → Except Error α} {next : α → Packet → Except Error β}
    (hread : Stable read) (hnext : ∀ a, Stable (next a)) :
    Stable (fun buf => read buf >>= fun a => next a buf) := by
  intro short buf b hpre h
  obtain ⟨a, ha, hb⟩ := except_bind_eq_ok.mp h
  exact except_bind_eq_ok.mpr ⟨a, hread _ _ _ hpre ha, hnext a _ _ _ hpre hb⟩

theorem refuseShort (size : ℕ) (message : String) :
    Stable (fun buf => refuseIf (buf.length < size) message) := by
  intro short buf u hpre h
  have hlen := hpre.length_le
  rw [refuseIf_eq_ok] at h ⊢
  omega

theorem readU16 (pos : ℕ) : Stable (fun buf => EveNet.readU16 buf pos) := by
  intro short buf value hpre h
  dsimp only at h ⊢
  obtain ⟨rest, rfl⟩ := hpre
  by_cases hlen : pos + 2 ≤ short.length
  · rw [readU16_of_le hlen] at h
    rw [readU16_of_le (by simp; omega), ← h]
    simp only [List.getD, List.getElem?_append_left (show pos < short.length by omega),
      List.getElem?_append_left (show pos + 1 < short.length by omega)]
  · rw [EveNet.readU16, if_pos (by omega)] at h
    cases h

/-- The loop over the labels of the whole packet has at least as many rounds. -/
theorem skipLabels {short buf : Packet} {fuel fuel' pos next : ℕ} (hpre : short <+: buf)
    (hfuel : fuel ≤ fuel') (h : EveNet.skipLabels short fuel pos = .ok next) :
    EveNet.skipLabels buf fuel' pos = .ok next := by
  induction fuel generalizing fuel' pos with
  | zero => simp [EveNet.skipLabels] at h
  | succ fuel ih =>
      obtain ⟨fuel', rfl⟩ : ∃ k, fuel' = k + 1 := ⟨fuel' - 1, by omega⟩
      have hlen := hpre.length_le
      cases hb : short[pos]? with
      | none => simp [EveNet.skipLabels, hb] at h
      | some len =>
          simp only [EveNet.skipLabels, hb] at h
          obtain ⟨hpos, hget⟩ := List.getElem?_eq_some_iff.mp hb
          have hbuf : buf[pos]? = some len := hget ▸ List.prefix_iff_getElem?.mp hpre pos hpos
          simp only [EveNet.skipLabels, hbuf]
          split_ifs at h ⊢ with hzero hpointer hcut hcut' hlong
          · exact h
          · omega
          · exact h
          · exact ih (by omega) h

theorem skipName (pos : ℕ) : Stable (fun buf => EveNet.skipName buf pos) := by
  intro short buf next hpre h
  have hlen := hpre.length_le
  exact skipLabels hpre (by omega) h

theorem skipQuestions (count pos : ℕ) :
    Stable (fun buf => EveNet.skipQuestions buf count pos) := by
  induction count generalizing pos with
  | zero => exact ok pos
  | succ count ih =>
      exact bind (skipName pos) (fun next => bind (refuseShort _ _) (fun _ => ih (next + 4)))

theorem readRecord (pos : ℕ) : Stable (fun buf => EveNet.readRecord buf pos) :=
  bind (skipName pos) (fun next => bind (refuseShort _ _) (fun _ =>
    bind (readU16 next) (fun _ => bind (readU16 (next + 2)) (fun _ =>
      bind (readU16 (next + 8)) (fun _ => bind (refuseShort _ _) (fun _ => ok _))))))

end Stable

/-! ### Types of questions and records -/

def questionTypesFrom (buf : Packet) : (count pos : ℕ) → List UInt16
  | 0, _ => []
  | count + 1, pos =>
    match skipName buf pos with
    | .error _ => []
    | .ok next =>
      if buf.length < next + 4 then []
      else fromBeBytes (buf.getD next 0) (buf.getD (next + 1) 0) ::
        questionTypesFrom buf count (next + 4)

/-- The types that the complete questions of a packet ask for. -/
def questionTypes (buf : Packet) : List UInt16 :=
  match readU16 buf 4 with
  | .error _ => []
  | .ok qdcount => questionTypesFrom buf qdcount.toNat 12

def recordTypesFrom (buf : Packet) : (count pos : ℕ) → List UInt16
  | 0, _ => []
  | count + 1, pos =>
    match readRecord buf pos with
    | .error _ => []
    | .ok record => record.rrType :: recordTypesFrom buf count (record.rdata + record.rdlen)

/-- Number of records announced for the answer section, and where it begins. -/
def answerSection (buf : Packet) : Except Error (ℕ × ℕ) := do
  let qdcount ← readU16 buf 4
  let ancount ← readU16 buf 6
  let pos ← skipQuestions buf qdcount.toNat 12
  .ok (ancount.toNat, pos)

/-- The types of the complete records in the answer section of a packet. -/
def answerTypes (buf : Packet) : List UInt16 :=
  match answerSection buf with
  | .error _ => []
  | .ok (count, pos) => recordTypesFrom buf count pos

theorem stable_answerSection : Stable answerSection :=
  Stable.bind (Stable.readU16 4) (fun _ => Stable.bind (Stable.readU16 6) (fun _ =>
    Stable.bind (Stable.skipQuestions _ 12) (fun _ => Stable.ok _)))

theorem recordTypesFrom_isPrefix {short buf : Packet} (hpre : short <+: buf) (count pos : ℕ) :
    recordTypesFrom short count pos <+: recordTypesFrom buf count pos := by
  induction count generalizing pos with
  | zero => exact List.prefix_rfl
  | succ count ih =>
      cases hr : readRecord short pos with
      | error e => simp [recordTypesFrom, hr]
      | ok record =>
          simp only [recordTypesFrom, hr, Stable.readRecord pos _ _ _ hpre hr]
          exact List.cons_prefix_cons.mpr ⟨rfl, ih _⟩

theorem answerTypes_isPrefix {short buf : Packet} (hpre : short <+: buf) :
    answerTypes short <+: answerTypes buf := by
  cases hs : answerSection short with
  | error e => simp [answerTypes, hs]
  | ok found =>
      rw [answerTypes, answerTypes, hs, stable_answerSection _ _ _ hpre hs]
      exact recordTypesFrom_isPrefix hpre _ _

/-- A packet that announces no answers has none. -/
theorem answerTypes_of_no_answers {buf : Packet} (h : readU16 buf 6 = .ok 0) :
    answerTypes buf = [] := by
  cases hs : answerSection buf with
  | error e => simp [answerTypes, hs]
  | ok found =>
      obtain ⟨qdcount, -, hqd⟩ := except_bind_eq_ok.mp hs
      obtain ⟨ancount, han, hqd⟩ := except_bind_eq_ok.mp hqd
      obtain ⟨pos, -, hfound⟩ := except_bind_eq_ok.mp hqd
      have hzero : ancount = 0 := Except.ok.inj (han.symm.trans h)
      rw [answerTypes, hs, ← Except.ok.inj hfound, hzero]
      rfl

/-! ### The first question -/

/-- A name that is read as text ends where it ends when it is skipped. -/
theorem skipLabels_of_readLabels {buf : Packet} {fuel pos next : ℕ} {labels : List String}
    (h : readLabels buf fuel pos = .ok (labels, next)) : skipLabels buf fuel pos = .ok next := by
  induction fuel generalizing pos labels with
  | zero => simp [readLabels] at h
  | succ fuel ih =>
      cases hb : buf[pos]? with
      | none => simp [readLabels, hb] at h
      | some len =>
          simp only [readLabels, hb] at h
          simp only [skipLabels, hb]
          by_cases hzero : len = 0
          · rw [if_pos hzero, Except.ok.injEq, Prod.mk.injEq] at h
            rw [if_pos hzero, h.2]
          · rw [if_neg hzero] at h ⊢
            split_ifs at h with hpointer hlong
            have hplain : len &&& 0xc0 = 0 := not_not.mp hpointer
            have hshort : ¬ 63 < len.toNat := fun hl => hlong (Or.inl hl)
            obtain ⟨label, -, h⟩ := except_bind_eq_ok.mp h
            obtain ⟨⟨rest, last⟩, hrest, h⟩ := except_bind_eq_ok.mp h
            have hlast : last = next := congrArg Prod.snd (Except.ok.inj h)
            rw [hplain, if_neg (by decide), if_neg hshort]
            exact ih (hlast ▸ hrest)

/-- The reads behind a question. -/
theorem reads_of_parseQuestion {buf : Packet} {question : DnsQuestion}
    (h : parseQuestion buf = .ok question) :
    ∃ qdcount next, readU16 buf 4 = .ok qdcount ∧ qdcount ≠ 0 ∧
      readQname buf 12 = .ok (question.domain, next) ∧ next + 4 ≤ buf.length ∧
      readU16 buf next = .ok question.qtype := by
  obtain ⟨_, -, h⟩ := except_bind_eq_ok.mp h
  obtain ⟨qdcount, hcount, h⟩ := except_bind_eq_ok.mp h
  obtain ⟨_, hsome, h⟩ := except_bind_eq_ok.mp h
  obtain ⟨⟨domain, next⟩, hname, h⟩ := except_bind_eq_ok.mp h
  obtain ⟨_, hlen, h⟩ := except_bind_eq_ok.mp h
  obtain ⟨qtype, htype, h⟩ := except_bind_eq_ok.mp h
  obtain ⟨qclass, -, h⟩ := except_bind_eq_ok.mp h
  rw [refuseIf_eq_ok] at hsome hlen
  rw [← Except.ok.inj h]
  exact ⟨qdcount, next, hcount, hsome, hname, not_lt.mp hlen, htype⟩

theorem normalized_of_parseQuestion {buf : Packet} {question : DnsQuestion}
    (h : parseQuestion buf = .ok question) :
    normalizeDomain question.domain = .ok question.domain := by
  obtain ⟨_, next, -, -, hname, -, -⟩ := reads_of_parseQuestion h
  obtain ⟨_, -, hname⟩ := except_bind_eq_ok.mp hname
  obtain ⟨d, hd, hname⟩ := except_bind_eq_ok.mp hname
  rw [Except.ok.injEq, Prod.mk.injEq] at hname
  rw [← hname.1]
  exact normalizeDomain_normalized hd

/-- The question that the proxy reads is one of those the packet asks. -/
theorem qtype_mem_questionTypes {buf : Packet} {question : DnsQuestion}
    (h : parseQuestion buf = .ok question) : question.qtype ∈ questionTypes buf := by
  obtain ⟨qdcount, next, hcount, hsome, hname, hlen, htype⟩ := reads_of_parseQuestion h
  obtain ⟨⟨labels, last⟩, hlabels, hname⟩ := except_bind_eq_ok.mp hname
  obtain ⟨d, -, hname⟩ := except_bind_eq_ok.mp hname
  rw [Except.ok.injEq, Prod.mk.injEq] at hname
  have hskip : skipName buf 12 = .ok next := hname.2 ▸ skipLabels_of_readLabels hlabels
  obtain ⟨count, hsucc⟩ : ∃ count, qdcount.toNat = count + 1 := by
    refine Nat.exists_eq_succ_of_ne_zero (fun hz => hsome ?_)
    exact UInt16.toNat_inj.mp hz
  rw [readU16_of_le (by omega)] at htype
  rw [questionTypes, hcount]
  dsimp only
  rw [hsucc, questionTypesFrom, hskip]
  dsimp only
  rw [if_neg (by omega), Except.ok.inj htype]
  exact List.mem_cons_self

/-! ### A query from its parts -/

def wireName (labels : List (List UInt8)) : List UInt8 :=
  labels.flatMap (fun label => UInt8.ofNat label.length :: label) ++ [0]

/-- The text that the proxy takes a name for, if it takes it at all. -/
def decodeLabels : List (List UInt8) → Except Error (List String)
  | [] => .ok []
  | label :: labels => do
    let text ← decodeLabel label
    let texts ← decodeLabels labels
    .ok (text :: texts)

def queryName (labels : List (List UInt8)) : Except Error String := do
  let texts ← decodeLabels labels
  normalizeDomain (".".intercalate texts)

/-- The bytes of a query with one question. -/
structure OneQuestion where
  idFlags : List UInt8
  counts : List UInt8
  labels : List (List UInt8)
  qtype : UInt16
  qclass : UInt16
  rest : List UInt8
  idFlags_length : idFlags.length = 4
  counts_length : counts.length = 6
  label_length : ∀ label ∈ labels, 0 < label.length ∧ label.length ≤ 63
  name_length : (wireName labels).length ≤ 255

def OneQuestion.datagram (q : OneQuestion) : Packet :=
  q.idFlags ++ [0, 1] ++ q.counts ++ wireName q.labels ++
    [highByte q.qtype, lowByte q.qtype, highByte q.qclass, lowByte q.qclass] ++ q.rest

section Layout

variable {front back : List UInt8} {labels : List (List UInt8)}

theorem wireName_cons (label : List UInt8) (labels : List (List UInt8)) :
    wireName (label :: labels) = UInt8.ofNat label.length :: (label ++ wireName labels) := by
  simp [wireName]

theorem lengthByte {n : ℕ} (hpos : 0 < n) (hle : n ≤ 63) :
    UInt8.ofNat n ≠ 0 ∧ UInt8.ofNat n &&& 0xc0 = 0 ∧ (UInt8.ofNat n).toNat = n := by
  have hall : ∀ n < 64, 0 < n → UInt8.ofNat n ≠ 0 ∧ UInt8.ofNat n &&& 0xc0 = 0 ∧
      (UInt8.ofNat n).toNat = n := by decide
  exact hall n (by omega) hpos

/-- The labels of a name in wire format are read one after the other. -/
theorem readLabels_wireName (front : List UInt8)
    (hlabels : ∀ label ∈ labels, 0 < label.length ∧ label.length ≤ 63) {fuel : ℕ} (hfuel : labels.length < fuel) :
    readLabels (front ++ (wireName labels ++ back)) fuel front.length =
      (decodeLabels labels).map (fun texts =>
        (texts, front.length + (wireName labels).length)) := by
  induction labels generalizing front fuel with
  | nil =>
      obtain ⟨fuel, rfl⟩ := Nat.exists_eq_succ_of_ne_zero (Nat.ne_zero_of_lt hfuel)
      simp [readLabels, wireName, decodeLabels, Except.map]
  | cons label labels ih =>
      obtain ⟨fuel, rfl⟩ := Nat.exists_eq_succ_of_ne_zero (Nat.ne_zero_of_lt hfuel)
      obtain ⟨hpos, hle⟩ := hlabels label (by simp)
      obtain ⟨hzero, hplain, hnat⟩ := lengthByte hpos hle
      have hrest := ih (front ++ UInt8.ofNat label.length :: label)
        (fun l hl => hlabels l (by simp [hl])) (by simpa using hfuel)
      have hbuf : front ++ (wireName (label :: labels) ++ back) =
          front ++ UInt8.ofNat label.length :: label ++ (wireName labels ++ back) := by
        simp [wireName_cons]
      have hlen : (front ++ UInt8.ofNat label.length :: label).length =
          front.length + 1 + label.length := by
        simp only [List.length_append, List.length_cons]
        omega
      rw [hlen] at hrest
      rw [readLabels, hbuf]
      have hfirst : (front ++ UInt8.ofNat label.length :: label ++ (wireName labels ++ back))[
          front.length]? = some (UInt8.ofNat label.length) := by simp
      have hlabel : ((front ++ UInt8.ofNat label.length :: label ++ (wireName labels ++ back)).drop
          (front.length + 1)).take label.length = label := by simp
      rw [hfirst]
      dsimp only
      have hfits : ¬ (63 < label.length ∨ (front ++ UInt8.ofNat label.length :: label ++
          (wireName labels ++ back)).length < front.length + 1 + label.length) := by
        simp only [List.length_append, List.length_cons]
        omega
      rw [if_neg hzero, if_neg (not_not.mpr hplain), hnat, if_neg hfits, hlabel, hrest,
        decodeLabels, wireName_cons]
      cases decodeLabel label with
      | error e => rfl
      | ok text =>
          cases decodeLabels labels with
          | error e => rfl
          | ok texts =>
              change Except.ok (text :: texts, _) = Except.ok (text :: texts, _)
              simp only [List.length_append, List.length_cons]
              congr 2
              omega

theorem length_lt_wireName (labels : List (List UInt8)) :
    labels.length < (wireName labels).length := by
  induction labels with
  | nil => simp [wireName]
  | cons label labels ih =>
      rw [wireName_cons, List.length_cons, List.length_cons, List.length_append]
      omega

theorem readQname_wireName (hlabels : ∀ label ∈ labels, 0 < label.length ∧ label.length ≤ 63) :
    readQname (front ++ (wireName labels ++ back)) front.length =
      (queryName labels).map (fun d => (d, front.length + (wireName labels).length)) := by
  have hwire := length_lt_wireName labels
  have hfuel : labels.length < (front ++ (wireName labels ++ back)).length - front.length := by
    simp only [List.length_append]
    omega
  rw [readQname, readLabels_wireName front hlabels hfuel, queryName]
  cases decodeLabels labels with
  | error e => rfl
  | ok texts => dsimp only [Except.map, bind, Except.bind]

variable (back) in
/-- A question behind a header is read if the header announces one. -/
theorem parseQuestion_wireName {header : List UInt8} (hheader : header.length = 12)
    (hlabels : ∀ label ∈ labels, 0 < label.length ∧ label.length ≤ 63) (qtype qclass : UInt16) :
    parseQuestion (header ++ (wireName labels ++ (highByte qtype :: lowByte qtype ::
        highByte qclass :: lowByte qclass :: back))) = (do
      let qdcount ← readU16 header 4
      refuseIf (qdcount = 0) "DNS packet has zero questions"
      let domain ← queryName labels
      .ok ⟨domain, qtype, qclass⟩) := by
  set buf := header ++ (wireName labels ++ (highByte qtype :: lowByte qtype ::
    highByte qclass :: lowByte qclass :: back)) with hbuf
  have hlen : buf.length = 12 + (wireName labels).length + 4 + back.length := by
    simp only [hbuf, List.length_append, List.length_cons, hheader]
    omega
  have hcount : readU16 buf 4 = readU16 header 4 := by
    rw [readU16_of_le (by omega), readU16_of_le (by omega), hbuf]
    simp only [List.getD, List.getElem?_append_left (show 4 < header.length by omega),
      List.getElem?_append_left (show 4 + 1 < header.length by omega)]
  have hname : readQname buf 12 = (queryName labels).map (fun d =>
      (d, 12 + (wireName labels).length)) := by
    rw [hbuf, ← hheader, readQname_wireName hlabels]
  have htype : readU16 buf (12 + (wireName labels).length) = .ok qtype := by
    rw [hbuf, ← List.append_assoc, ← hheader, ← List.length_append, readU16_append,
      fromBeBytes_bytes]
  have hclass : readU16 buf (12 + (wireName labels).length + 2) = .ok qclass := by
    have hfront : buf = (header ++ wireName labels ++ [highByte qtype, lowByte qtype]) ++
        highByte qclass :: lowByte qclass :: back := by
      simp [hbuf]
    have hpos : 12 + (wireName labels).length + 2 =
        (header ++ wireName labels ++ [highByte qtype, lowByte qtype]).length := by
      simp [hheader, Nat.add_assoc]
    rw [hpos, hfront, readU16_append, fromBeBytes_bytes]
  rw [parseQuestion, refuseIf, if_neg (by omega), hcount, hname]
  change (readU16 header 4 >>= _) = _
  congr 1
  funext qdcount
  congr 1
  funext _
  cases queryName labels with
  | error e => rfl
  | ok d =>
      change (refuseIf (buf.length < 12 + (wireName labels).length + 4) _ >>= _) = _
      rw [refuseIf, if_neg (by omega)]
      change (readU16 buf (12 + (wireName labels).length) >>= _) = _
      rw [htype]
      change (readU16 buf (12 + (wireName labels).length + 2) >>= _) = _
      rw [hclass]
      rfl

end Layout

namespace OneQuestion

variable (q : OneQuestion)

/-- The same query, received into a buffer that may be too short for all of it. -/
theorem take_datagram (size : ℕ) (hsize : 271 ≤ size) :
    ∃ q' : OneQuestion, q'.datagram = q.datagram.take size ∧ q'.labels = q.labels ∧
      q'.qtype = q.qtype ∧ q'.qclass = q.qclass := by
  set front := q.idFlags ++ [0, 1] ++ q.counts ++ wireName q.labels ++
    [highByte q.qtype, lowByte q.qtype, highByte q.qclass, lowByte q.qclass] with hfront
  have hlen : front.length ≤ size := by
    have hname := q.name_length
    simp only [hfront, List.length_append, List.length_cons, List.length_nil, q.idFlags_length,
      q.counts_length]
    omega
  refine ⟨{ q with rest := q.rest.take (size - front.length) }, ?_, rfl, rfl, rfl⟩
  change front ++ _ = (front ++ q.rest).take size
  rw [List.take_append, List.take_of_length_le hlen]

theorem length_datagram : 12 ≤ q.datagram.length := by
  simp only [datagram, List.length_append, List.length_cons, List.length_nil, q.idFlags_length,
    q.counts_length]
  omega

/-- The proxy reads from a query with one question its name as text, its type and its class. -/
theorem parseQuestion_datagram :
    parseQuestion q.datagram =
      (queryName q.labels).map (fun d => ⟨d, q.qtype, q.qclass⟩) := by
  set header := q.idFlags ++ [0, 1] ++ q.counts with hheader
  have hlen : header.length = 12 := by
    simp [hheader, q.idFlags_length, q.counts_length]
  have hbuf : q.datagram = header ++ (wireName q.labels ++ (highByte q.qtype ::
      lowByte q.qtype :: highByte q.qclass :: lowByte q.qclass :: q.rest)) := by
    simp [datagram, hheader]
  have hcount : readU16 header 4 = .ok 1 := by
    rw [hheader, List.append_assoc, ← q.idFlags_length]
    exact readU16_append q.idFlags q.counts 0 1
  rw [hbuf, parseQuestion_wireName _ hlen q.label_length, hcount]
  cases queryName q.labels <;> rfl

end OneQuestion

end EveNet
