import Mathlib.Data.List.Basic
import Mathlib.Data.List.Infix

/-!
# Printed JSON and its brackets

A printed JSON text is looked at as bytes. `Scan` counts the brackets that are open outside of
strings. A piece of text that closes all it opens, and nothing else, is `Nested`; an object
around nested text has a bracket open from its first byte to its last, so that no proper part
of it from the start on is closed.
-/

namespace EveNet.JsonText

/-! ### Open brackets -/

inductive Mode where
  | plain
  | inString
  | escaped
  deriving DecidableEq

structure Scan where
  depth : ℕ
  mode : Mode
  deriving DecidableEq

namespace Scan

def step (s : Scan) (b : UInt8) : Scan :=
  match s.mode with
  | .plain =>
    if b.toNat = 0x22 then { s with mode := .inString }
    else if b.toNat = 0x7b ∨ b.toNat = 0x5b then { s with depth := s.depth + 1 }
    else if b.toNat = 0x7d ∨ b.toNat = 0x5d then { s with depth := s.depth - 1 }
    else s
  | .inString =>
    if b.toNat = 0x22 then { s with mode := .plain }
    else if b.toNat = 0x5c then { s with mode := .escaped }
    else s
  | .escaped => { s with mode := .inString }

def along (s : Scan) (bytes : List UInt8) : Scan := bytes.foldl step s

@[simp] theorem along_nil (s : Scan) : s.along [] = s := rfl

@[simp] theorem along_cons (s : Scan) (b : UInt8) (bytes : List UInt8) :
    s.along (b :: bytes) = (s.step b).along bytes := rfl

theorem along_append (s : Scan) (front back : List UInt8) :
    s.along (front ++ back) = (s.along front).along back := List.foldl_append

end Scan

/-- The bytes from `s` to `t` with a bracket open all the time. -/
inductive Passes : Scan → List UInt8 → Scan → Prop where
  | nil {s : Scan} (hs : 0 < s.depth) : Passes s [] s
  | cons {s t : Scan} {b : UInt8} {bytes : List UInt8} (hs : 0 < s.depth)
      (h : Passes (s.step b) bytes t) : Passes s (b :: bytes) t

namespace Passes

variable {s t u : Scan} {front back bytes : List UInt8}

theorem append (h : Passes s front t) (h' : Passes t back u) : Passes s (front ++ back) u := by
  induction h with
  | nil hs => exact h'
  | cons hs _ ih => exact .cons hs (ih h')

theorem along_eq (h : Passes s bytes t) : s.along bytes = t := by
  induction h with
  | nil hs => rfl
  | cons hs _ ih => exact ih

theorem depth_pos_of_part (h : Passes s bytes t) {p : List UInt8} (hp : p <+: bytes) :
    0 < (s.along p).depth := by
  induction h generalizing p with
  | nil hs =>
      rw [List.prefix_nil.mp hp]
      exact hs
  | cons hs _ ih =>
      rcases List.prefix_cons_iff.mp hp with rfl | ⟨q, rfl, hq⟩
      · exact hs
      · exact ih hq

end Passes

/-- Text that closes what it opens. -/
def Nested (bytes : List UInt8) : Prop :=
  ∀ d, 0 < d → Passes ⟨d, .plain⟩ bytes ⟨d, .plain⟩

theorem nested_nil : Nested [] := fun _ hd => .nil hd

theorem Nested.append {front back : List UInt8} (h : Nested front) (h' : Nested back) :
    Nested (front ++ back) := fun d hd => (h d hd).append (h' d hd)

/-- A byte that is no bracket and no quotation mark. -/
def PlainByte (b : UInt8) : Prop :=
  b.toNat ≠ 0x22 ∧ b.toNat ≠ 0x7b ∧ b.toNat ≠ 0x5b ∧ b.toNat ≠ 0x7d ∧ b.toNat ≠ 0x5d

theorem step_plain {b : UInt8} (hb : PlainByte b) (d : ℕ) :
    (⟨d, .plain⟩ : Scan).step b = ⟨d, .plain⟩ := by
  obtain ⟨h1, h2, h3, h4, h5⟩ := hb
  simp [Scan.step, h1, h2, h3, h4, h5]

theorem nested_plain {bytes : List UInt8} (h : ∀ b ∈ bytes, PlainByte b) : Nested bytes := by
  intro d hd
  induction bytes with
  | nil => exact .nil hd
  | cons b bytes ih =>
      refine .cons hd ?_
      rw [step_plain (h b (by simp))]
      exact ih (fun c hc => h c (by simp [hc]))

/-- Brackets around nested text. -/
theorem Nested.bracket {bytes : List UInt8} (h : Nested bytes) {l r : UInt8}
    (hl : l.toNat = 0x7b ∨ l.toNat = 0x5b) (hr : r.toNat = 0x7d ∨ r.toNat = 0x5d) :
    Nested (l :: bytes ++ [r]) := by
  intro d hd
  have hopen : (⟨d, .plain⟩ : Scan).step l = ⟨d + 1, .plain⟩ := by
    have hl' : l.toNat ≠ 0x22 := by omega
    simp [Scan.step, hl, hl']
  have hclose : (⟨d + 1, .plain⟩ : Scan).step r = ⟨d, .plain⟩ := by
    have hr1 : r.toNat ≠ 0x22 := by omega
    have hr2 : ¬ (r.toNat = 0x7b ∨ r.toNat = 0x5b) := by omega
    simp [Scan.step, hr, hr1, hr2]
  refine .cons hd ?_
  rw [hopen]
  refine (h (d + 1) (by omega)).append (.cons (Nat.succ_pos d) ?_)
  rw [hclose]
  exact .nil hd

/-- Text within a string. -/
def InString (bytes : List UInt8) : Prop :=
  ∀ d, 0 < d → Passes ⟨d, .inString⟩ bytes ⟨d, .inString⟩

theorem InString.append {front back : List UInt8} (h : InString front) (h' : InString back) :
    InString (front ++ back) := fun d hd => (h d hd).append (h' d hd)

theorem InString.flatMap {α : Type} {f : α → List UInt8} {l : List α}
    (h : ∀ a ∈ l, InString (f a)) : InString (l.flatMap f) := by
  induction l with
  | nil => exact fun _ hd => .nil hd
  | cons a l ih =>
      rw [List.flatMap_cons]
      exact (h a (by simp)).append (ih (fun b hb => h b (by simp [hb])))

theorem inString_bytes {bytes : List UInt8}
    (h : ∀ b ∈ bytes, b.toNat ≠ 0x22 ∧ b.toNat ≠ 0x5c) : InString bytes := by
  intro d hd
  induction bytes with
  | nil => exact .nil hd
  | cons b bytes ih =>
      obtain ⟨h1, h2⟩ := h b (by simp)
      have hstep : (⟨d, .inString⟩ : Scan).step b = ⟨d, .inString⟩ := by simp [Scan.step, h1, h2]
      refine .cons hd ?_
      rw [hstep]
      exact ih (fun c hc => h c (by simp [hc]))

/-- An escape sequence: after the backslash one byte can be anything. -/
theorem InString.escape {bytes : List UInt8} (h : InString bytes) (b : UInt8) :
    InString (0x5c :: b :: bytes) :=
  fun d hd => .cons hd (.cons hd (h d hd))

theorem InString.quoted {bytes : List UInt8} (h : InString bytes) :
    Nested (0x22 :: bytes ++ [0x22]) := by
  intro d hd
  exact .cons hd ((h d hd).append (.cons hd (.nil hd)))

/-! ### UTF-8 -/

def bytesOf (text : List Char) : List UInt8 := text.flatMap String.utf8EncodeChar

theorem bytesOf_append (front back : List Char) :
    bytesOf (front ++ back) = bytesOf front ++ bytesOf back := List.flatMap_append

theorem bytesOf_cons (c : Char) (text : List Char) :
    bytesOf (c :: text) = String.utf8EncodeChar c ++ bytesOf text := List.flatMap_cons

/-- An ASCII character is its own byte, the bytes of all others are not ASCII. -/
theorem utf8EncodeChar_cases (c : Char) :
    c.toNat < 128 ∧ String.utf8EncodeChar c = [UInt8.ofNat c.toNat] ∨
      ∀ b ∈ String.utf8EncodeChar c, 128 ≤ b.toNat := by
  change c.val.toNat < 128 ∧ String.utf8EncodeChar c = [UInt8.ofNat c.val.toNat] ∨ _
  unfold String.utf8EncodeChar
  dsimp only
  by_cases h1 : c.val.toNat ≤ 0x7f
  · rw [if_pos h1]
    exact Or.inl ⟨by omega, rfl⟩
  · right
    have hbig : ∀ n, 128 ≤ n → n < 256 → 128 ≤ (UInt8.ofNat n).toNat := by
      intro n hlo hhi
      rw [UInt8.toNat_ofNat_of_lt' hhi]
      exact hlo
    have hv : c.val.toNat < 0x110000 := by
      rcases c.valid with h | ⟨-, h⟩
      · exact h.trans (by omega)
      · exact h
    rw [if_neg h1]
    split_ifs with h2 h3
    · simp only [List.forall_mem_cons]
      exact ⟨hbig _ (by omega) (by omega), hbig _ (by omega) (by omega), by simp⟩
    · simp only [List.forall_mem_cons]
      exact ⟨hbig _ (by omega) (by omega), hbig _ (by omega) (by omega),
        hbig _ (by omega) (by omega), by simp⟩
    · simp only [List.forall_mem_cons]
      exact ⟨hbig _ (by omega) (by omega), hbig _ (by omega) (by omega),
        hbig _ (by omega) (by omega), hbig _ (by omega) (by omega), by simp⟩

theorem forall_bytesOf {P : UInt8 → Prop} {text : List Char} (hbig : ∀ b : UInt8, 128 ≤ b.toNat → P b)
    (hascii : ∀ c ∈ text, ∀ b : UInt8, b.toNat = c.toNat → P b) : ∀ b ∈ bytesOf text, P b := by
  intro b hb
  obtain ⟨c, hc, hbc⟩ := List.mem_flatMap.mp hb
  rcases utf8EncodeChar_cases c with ⟨hlt, henc⟩ | hall
  · rw [henc, List.mem_singleton] at hbc
    refine hascii c hc b ?_
    rw [hbc, UInt8.toNat_ofNat_of_lt' (hlt.trans (by decide))]
  · exact hbig b (hall b hbc)

/-- Characters that are no brackets and no quotation marks. -/
def PlainChar (c : Char) : Prop :=
  c.toNat ≠ 0x22 ∧ c.toNat ≠ 0x7b ∧ c.toNat ≠ 0x5b ∧ c.toNat ≠ 0x7d ∧ c.toNat ≠ 0x5d

instance (c : Char) : Decidable (PlainChar c) := inferInstanceAs (Decidable (_ ∧ _))

theorem nested_text {text : List Char} (h : ∀ c ∈ text, PlainChar c) : Nested (bytesOf text) := by
  refine nested_plain (forall_bytesOf ?_ ?_)
  · exact fun b hb => ⟨by omega, by omega, by omega, by omega, by omega⟩
  · intro c hc b hb
    rw [PlainByte, hb]
    exact h c hc

theorem inString_text {text : List Char} (h : ∀ c ∈ text, c.toNat ≠ 0x22 ∧ c.toNat ≠ 0x5c) :
    InString (bytesOf text) := by
  refine inString_bytes (forall_bytesOf ?_ ?_)
  · exact fun b hb => ⟨by omega, by omega⟩
  · intro c hc b hb
    rw [hb]
    exact h c hc

end EveNet.JsonText
