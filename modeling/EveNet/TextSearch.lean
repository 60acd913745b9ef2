import Mathlib.Data.List.Basic
import Mathlib.Data.List.Infix

/-!
# Searching printed text

A pattern that contains a character occurring only once in a text can be found in at
most one place of it. This turns a substring search into a comparison of the two
sides of that character, and a search for a printed number into a prefix of digits.
-/

namespace EveNet

section Search

variable {α : Type*}

/-- The only occurrence of `c` in the text fixes where the pattern has to lie. -/
theorem infix_iff_of_anchor {c : α} {u v x y : List α} (hx : c ∉ x) (hy : c ∉ y) :
    u ++ c :: v <:+: x ++ c :: y ↔ u <:+ x ∧ v <+: y := by
  constructor
  · rintro ⟨s, t, he⟩
    have hsplit : x ++ c :: y = (s ++ u) ++ c :: (v ++ t) := by simpa using he.symm
    obtain ⟨hleft, -, hright⟩ := (List.append_cons_inj_of_notMem hx hy).mp hsplit
    exact ⟨⟨s, hleft.symm⟩, ⟨t, hright.symm⟩⟩
  · rintro ⟨⟨s, rfl⟩, ⟨t, rfl⟩⟩
    exact ⟨s, t, by simp⟩

theorem not_infix_of_notMem {c : α} {u v l : List α} (hl : c ∉ l) : ¬ u ++ c :: v <:+: l :=
  fun h => hl (h.subset (by simp))

/-- A pattern without the separator ends before it. -/
theorem prefix_append_cons_iff {c : α} {p l r : List α} (hc : c ∉ p) :
    p <+: l ++ c :: r ↔ p <+: l := by
  constructor
  · intro h
    by_contra hn
    have hlen : l.length < p.length := by
      by_contra hle
      exact hn (List.prefix_of_prefix_length_le h (List.prefix_append l _) (by omega))
    have hwhole : l ++ [c] <+: l ++ c :: r := ⟨r, by simp⟩
    have hl : l ++ [c] <+: p := List.prefix_of_prefix_length_le hwhole h (by simp; omega)
    exact hc (hl.subset (by simp))
  · exact fun h => h.trans (List.prefix_append l _)

/-- A pattern without the separator lies on one side of it. -/
theorem infix_append_cons_iff {c : α} {p l r : List α} (hc : c ∉ p)
    (hp : p ≠ []) :
    p <:+: l ++ c :: r ↔ p <:+: l ∨ p <:+: r := by
  induction l with
  | nil =>
      obtain ⟨a, p, rfl⟩ := List.exists_cons_of_ne_nil hp
      rw [List.nil_append, List.infix_cons_iff, List.infix_nil]
      constructor
      · rintro (hbegins | hright)
        · obtain ⟨rfl, -⟩ := List.cons_prefix_cons.mp hbegins
          exact absurd List.mem_cons_self hc
        · exact Or.inr hright
      · rintro (hnil | hright)
        · cases hnil
        · exact Or.inr hright
  | cons a l ih =>
      rw [List.cons_append, List.infix_cons_iff, List.infix_cons_iff, ih, ← List.cons_append,
        prefix_append_cons_iff hc, or_assoc]

theorem infix_intercalate_iff {c : α} {p : List α} {words : List (List α)} (hc : c ∉ p)
    (hp : p ≠ []) :
    p <:+: [c].intercalate words ↔ ∃ word ∈ words, p <:+: word := by
  induction words with
  | nil =>
      refine ⟨fun h => absurd (List.infix_nil.mp h) hp, ?_⟩
      rintro ⟨word, hword, -⟩
      cases hword
  | cons word words ih =>
      cases words with
      | nil => simp
      | cons next words =>
          rw [List.intercalate_cons_cons, List.append_assoc, List.singleton_append,
            infix_append_cons_iff hc hp, ih]
          simp

end Search

/-! ### Numerals -/

section Numerals

theorem digitChar_injOn {d e : ℕ} (hd : d < 16) (he : e < 16)
    (h : Nat.digitChar d = Nat.digitChar e) : d = e := by
  have hall : ∀ i j : Fin 16, Nat.digitChar i = Nat.digitChar j → i = j := by decide
  exact congrArg Fin.val (hall ⟨d, hd⟩ ⟨e, he⟩ h)

theorem toDigits_injective {b : ℕ} (hb : 1 < b) (hb' : b ≤ 16) :
    Function.Injective (Nat.toDigits b) := by
  intro m n h
  induction m using Nat.strong_induction_on generalizing n with
  | _ m ih =>
    rw [Nat.toDigits_eq_if hb, Nat.toDigits_eq_if (n := n) hb] at h
    split_ifs at h with hm hn hn
    · exact digitChar_injOn (by omega) (by omega) (by simpa using h)
    · have hlen := congrArg List.length h
      simp [Nat.toDigits_ne_nil] at hlen
    · have hlen := congrArg List.length h
      simp [Nat.toDigits_ne_nil] at hlen
    · obtain ⟨hdiv, hmod⟩ := List.append_inj' h rfl
      have hq : m / b = n / b := ih _ (Nat.div_lt_self (by omega) hb) hdiv
      have hr : m % b = n % b :=
        digitChar_injOn ((Nat.mod_lt m (by omega)).trans_le hb')
          ((Nat.mod_lt n (by omega)).trans_le hb') (by simpa using hmod)
      rw [← Nat.div_add_mod m b, ← Nat.div_add_mod n b, hq, hr]

/-- The digits of a numeral in a base up to sixteen. -/
def hexDigits : List Char := "0123456789abcdef".toList

theorem digitChar_mem_hexDigits {d : ℕ} (hd : d < 16) : Nat.digitChar d ∈ hexDigits := by
  have hall : ∀ i : Fin 16, Nat.digitChar i ∈ hexDigits := by decide
  exact hall ⟨d, hd⟩

theorem mem_hexDigits_of_mem_toDigits {b n : ℕ} (hb : 1 < b) (hb' : b ≤ 16) {c : Char}
    (hc : c ∈ Nat.toDigits b n) : c ∈ hexDigits := by
  induction n using Nat.strong_induction_on with
  | _ n ih =>
    rw [Nat.toDigits_eq_if hb] at hc
    split_ifs at hc with hn
    · rw [List.mem_singleton.mp hc]
      exact digitChar_mem_hexDigits (by omega)
    · rcases List.mem_append.mp hc with hc | hc
      · exact ih _ (Nat.div_lt_self (by omega) hb) hc
      · rw [List.mem_singleton.mp hc]
        exact digitChar_mem_hexDigits ((Nat.mod_lt n (by omega)).trans_le hb')

theorem notMem_toDigits {b n : ℕ} (hb : 1 < b) (hb' : b ≤ 16) {c : Char}
    (hc : c ∉ hexDigits) : c ∉ Nat.toDigits b n :=
  fun hmem => hc (mem_hexDigits_of_mem_toDigits hb hb' hmem)

/-- A number in base sixteen does not begin with a zero. -/
theorem head?_toDigits_ne_zero {n : ℕ} (hn : 0 < n) : (Nat.toDigits 16 n).head? ≠ some '0' := by
  induction n using Nat.strong_induction_on with
  | _ n ih =>
    rw [Nat.toDigits_eq_if (by decide)]
    split_ifs with hsmall
    · intro hzero
      have hdigit : Nat.digitChar n = Nat.digitChar 0 := Option.some.inj hzero
      have hnone := digitChar_injOn hsmall (by decide) hdigit
      omega
    · rw [List.head?_append_of_ne_nil _ Nat.toDigits_ne_nil]
      exact ih _ (Nat.div_lt_self hn (by decide)) (by omega)

end Numerals

/-! ### Lines -/

section Lines

/-- Drop the carriage return that stands before a line feed. -/
def stripCr (line : List Char) : List Char :=
  if line.getLast? = some '\r' then line.dropLast else line

/-- The lines of a text; `acc` holds the current line so far, last character first. -/
def linesFrom (acc : List Char) : List Char → List (List Char)
  | [] => if acc = [] then [] else [acc.reverse]
  | c :: cs => if c = '\n' then stripCr acc.reverse :: linesFrom [] cs else linesFrom (c :: acc) cs

def lines (text : List Char) : List (List Char) := linesFrom [] text

theorem mem_stripCr {c : Char} (hc : c ≠ '\r') {line : List Char} (h : c ∈ line) :
    c ∈ stripCr line := by
  unfold stripCr
  split_ifs with hlast
  · rw [← List.dropLast_append_getLast? _ hlast, List.mem_append, List.mem_singleton] at h
    exact h.resolve_right hc
  · exact h

/-- What stands in a text stands in one of its lines. -/
theorem exists_line_of_mem {c : Char} (acc : List Char) (hfeed : c ≠ '\n') (hreturn : c ≠ '\r')
    {text : List Char} (h : c ∈ acc ∨ c ∈ text) : ∃ line ∈ linesFrom acc text, c ∈ line := by
  induction text generalizing acc with
  | nil =>
      have hacc : c ∈ acc := h.resolve_right List.not_mem_nil
      rw [linesFrom, if_neg (List.ne_nil_of_mem hacc)]
      exact ⟨_, List.mem_singleton_self _, List.mem_reverse.mpr hacc⟩
  | cons d text ih =>
      rw [linesFrom]
      by_cases hd : d = '\n'
      · rw [if_pos hd]
        rcases h with hacc | htext
        · exact ⟨_, List.mem_cons_self, mem_stripCr hreturn (List.mem_reverse.mpr hacc)⟩
        · have hrest : c ∈ text := by
            rcases List.mem_cons.mp htext with rfl | hrest
            · exact absurd hd hfeed
            · exact hrest
          obtain ⟨line, hline, hmem⟩ := ih [] (Or.inr hrest)
          exact ⟨line, List.mem_cons_of_mem _ hline, hmem⟩
      · rw [if_neg hd]
        apply ih
        rw [List.mem_cons] at h
        rw [List.mem_cons]
        tauto

/-- A line that survives printing: one feed, at its end, and no return before it. -/
def PlainLine (line : List Char) : Prop := '\n' ∉ line ∧ line.getLast? ≠ some '\r'

theorem linesFrom_append_feed {acc line rest : List Char} (hline : '\n' ∉ line) :
    linesFrom acc (line ++ '\n' :: rest) = stripCr (acc.reverse ++ line) :: linesFrom [] rest := by
  induction line generalizing acc with
  | nil => simp [linesFrom]
  | cons c line ih =>
      have hc : c ≠ '\n' := fun he => hline (by simp [he])
      have htail : '\n' ∉ line := fun hm => hline (List.mem_cons_of_mem _ hm)
      simp [linesFrom, hc, ih htail]

/-- Printed line by line, a text has exactly the lines that were printed. -/
theorem lines_flatMap_feed {ls : List (List Char)} (hls : ∀ l ∈ ls, PlainLine l) :
    lines (ls.flatMap (fun l => l ++ ['\n'])) = ls := by
  unfold lines
  induction ls with
  | nil => rfl
  | cons l ls ih =>
      obtain ⟨hfeed, hcr⟩ := hls l (by simp)
      rw [List.flatMap_cons, List.append_assoc, List.singleton_append,
        linesFrom_append_feed hfeed, ih (fun l' hl' => hls l' (by simp [hl']))]
      simp [stripCr, hcr]

end Lines

end EveNet
