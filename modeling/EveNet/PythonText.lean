import EveNet.DomainName

/-!
# Text as the Python parts of the scripts see it

`str.strip` and `str.split` without arguments. Python counts four control characters as white
space that the property `White_Space` leaves out.
-/

namespace EveNet.Python

def isSpace (c : Char) : Bool := isWhitespace c || (0x1c ≤ c.toNat && c.toNat ≤ 0x1f)

def strip (s : List Char) : List Char := (s.dropWhile isSpace).rdropWhile isSpace

/-- `str.lower`. -/
def lower (s : List Char) : List Char := s.flatMap toLowercase

/-- The words of a text, the first of which has begun with `word`. -/
def wordsFrom (word : List Char) : List Char → List (List Char)
  | [] => if word = [] then [] else [word]
  | c :: cs =>
    if isSpace c then (if word = [] then [] else [word]) ++ wordsFrom [] cs
    else wordsFrom (word ++ [c]) cs

/-- `str.split`. -/
def split (s : List Char) : List (List Char) := wordsFrom [] s

theorem wordsFrom_append {word w : List Char} (hw : ∀ c ∈ w, isSpace c = false)
    (rest : List Char) : wordsFrom word (w ++ rest) = wordsFrom (word ++ w) rest := by
  induction w generalizing word with
  | nil => rw [List.nil_append, List.append_nil]
  | cons c w ih =>
      rw [List.cons_append, wordsFrom, if_neg (by simp [hw c List.mem_cons_self]),
        ih (fun d hd => hw d (List.mem_cons_of_mem c hd)), List.append_assoc, List.singleton_append]

theorem split_space {c : Char} (hc : isSpace c = true) (s : List Char) :
    split (c :: s) = split s := by
  rw [split, wordsFrom, if_pos hc, if_pos rfl, List.nil_append, split]

theorem wordsFrom_spaces {spaces : List Char} (h : ∀ c ∈ spaces, isSpace c = true)
    (word : List Char) : wordsFrom word spaces = if word = [] then [] else [word] := by
  induction spaces generalizing word with
  | nil => rfl
  | cons c spaces ih =>
      rw [wordsFrom, if_pos (h c List.mem_cons_self),
        ih (fun d hd => h d (List.mem_cons_of_mem c hd)), if_pos rfl, List.append_nil]

theorem wordsFrom_append_spaces {spaces : List Char} (h : ∀ c ∈ spaces, isSpace c = true)
    (word s : List Char) : wordsFrom word (s ++ spaces) = wordsFrom word s := by
  induction s generalizing word with
  | nil => exact wordsFrom_spaces h word
  | cons c s ih => rw [List.cons_append, wordsFrom, wordsFrom, ih, ih]

theorem split_rdropWhile (s : List Char) : split (s.rdropWhile isSpace) = split s := by
  have hback : wordsFrom [] (s.rdropWhile isSpace ++ s.rtakeWhile isSpace) =
      wordsFrom [] (s.rdropWhile isSpace) :=
    wordsFrom_append_spaces (fun c hc => List.mem_rtakeWhile_imp hc) [] _
  rw [List.rdropWhile_append_rtakeWhile] at hback
  exact hback.symm

/-- Space around a text makes no words. -/
theorem split_strip (s : List Char) : split (strip s) = split s := by
  rw [strip, split_rdropWhile]
  induction s with
  | nil => rfl
  | cons c s ih =>
      by_cases hc : isSpace c = true
      · rw [List.dropWhile_cons_of_pos hc, ih, split_space hc]
      · rw [List.dropWhile_cons_of_neg hc]

/-- Words with a space before each are read back. -/
theorem split_join {words : List (List Char)}
    (hwords : ∀ w ∈ words, w ≠ [] ∧ ∀ c ∈ w, isSpace c = false) :
    split (words.flatMap (' ' :: ·)) = words := by
  induction words with
  | nil => rfl
  | cons w words ih =>
      have hrest := ih (fun v hv => hwords v (List.mem_cons_of_mem w hv))
      obtain ⟨hne, hw⟩ := hwords w List.mem_cons_self
      rw [List.flatMap_cons, List.cons_append, split_space (by decide), split,
        wordsFrom_append hw, List.nil_append]
      cases words with
      | nil => rw [List.flatMap_nil, wordsFrom, if_neg hne]
      | cons v words =>
          rw [List.flatMap_cons, List.cons_append, wordsFrom, if_pos (by decide), if_neg hne,
            List.singleton_append]
          rw [List.flatMap_cons, List.cons_append, split_space (by decide)] at hrest
          exact congrArg (w :: ·) hrest

/-! ### Text without white space in it -/

theorem isSpace_of_hostChar {c : Char} (hc : hostChar c = true) : isSpace c = false := by
  have hlow := (toNat_of_hostChar hc).1
  simp only [isSpace, isWhitespace_of_hostChar hc, Bool.false_or, Bool.and_eq_false_iff,
    decide_eq_false_iff_not]
  omega

/-- Space around a text that has none is stripped. -/
theorem strip_around {front word back : List Char} (hfront : ∀ c ∈ front, isSpace c = true)
    (hword : ∀ c ∈ word, isSpace c = false) (hback : ∀ c ∈ back, isSpace c = true) :
    strip (front ++ (word ++ back)) = word := by
  have hdrop : (word ++ back).dropWhile isSpace = word ++ back ∨ word = [] := by
    cases word with
    | nil => exact Or.inr rfl
    | cons c word => exact Or.inl (List.dropWhile_cons_of_neg (by simp [hword c]))
  have hend : (word ++ back).rdropWhile isSpace = word := by
    rw [List.rdropWhile, List.reverse_append, List.dropWhile_append_of_pos (by simpa using hback)]
    change word.rdropWhile isSpace = word
    exact List.rdropWhile_eq_self_iff.mpr fun hne => by simp [hword _ (List.getLast_mem hne)]
  rw [strip, List.dropWhile_append_of_pos hfront]
  rcases hdrop with hdrop | rfl
  · rw [hdrop, hend]
  · rw [List.nil_append, List.dropWhile_eq_nil_iff.mpr hback]
    rfl

/-- Where nothing but space is trimmed off, `strip` does the same. -/
theorem strip_eq_trim {s : List Char} (h : ∀ c ∈ trim s, isSpace c = false) :
    strip s = trim s := by
  have hspace : ∀ c, isWhitespace c = true → isSpace c = true := fun c hc => by simp [isSpace, hc]
  have hsplit : s = s.takeWhile isWhitespace ++
      (trim s ++ (s.dropWhile isWhitespace).rtakeWhile isWhitespace) := by
    rw [trim, List.rdropWhile_append_rtakeWhile, List.takeWhile_append_dropWhile]
  conv_lhs => rw [hsplit]
  exact strip_around (fun c hc => hspace c (List.mem_takeWhile_imp hc)) h
    (fun c hc => hspace c (List.mem_rtakeWhile_imp hc))

/-- What is left after `strip` is not blank. -/
theorem trimmedEmpty_strip {s : List Char} (h : strip s ≠ []) : trim (strip s) ≠ [] := by
  have hlast := List.rdropWhile_last_not isSpace _ h
  rw [Bool.not_eq_true] at hlast
  refine trim_ne_nil (c := (strip s).getLast h) ?_ (List.getLast_mem h)
  exact (Bool.or_eq_false_iff.mp hlast).1

end EveNet.Python
