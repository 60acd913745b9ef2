import Mathlib.Data.List.Sort
import Mathlib.Order.Lattice

/-!
# Lists of records

A table kept as a list, where the first record with a key is the one that counts.
`upsert` writes a record in the place of the one with its key, and `sortBy` sorts by
key without changing which record counts. `grow` is another way to fill a list: it
appends a record only if no record in the list covers it already.
-/

namespace EveNet.KeyedList

variable {α κ : Type*} [DecidableEq κ] (key : α → κ)

def upsert (a : α) : List α → List α
  | [] => [a]
  | b :: bs => if key b = key a then a :: bs else b :: upsert a bs

/-- The first record with the key. -/
def lookup (k : κ) (l : List α) : Option α := l.find? (fun a => decide (key a = k))

@[simp] theorem lookup_nil (k : κ) : lookup key k [] = none := rfl

theorem lookup_cons (k : κ) (a : α) (l : List α) :
    lookup key k (a :: l) = if key a = k then some a else lookup key k l := by
  by_cases h : key a = k <;> simp [lookup, h]

theorem key_of_lookup {k : κ} {l : List α} {a : α} (h : lookup key k l = some a) : key a = k := by
  simpa using List.find?_some h

theorem mem_of_lookup {k : κ} {l : List α} {a : α} (h : lookup key k l = some a) : a ∈ l :=
  List.mem_of_find?_eq_some h

theorem lookup_of_mem {l : List α} {a : α} (hkeys : (l.map key).Nodup) (ha : a ∈ l) :
    lookup key (key a) l = some a := by
  induction l with
  | nil => cases ha
  | cons b bs ih =>
      rw [List.map_cons, List.nodup_cons] at hkeys
      rw [lookup_cons]
      rcases List.mem_cons.mp ha with rfl | ha
      · rw [if_pos rfl]
      · have hne : key b ≠ key a := fun he => hkeys.1 (he ▸ List.mem_map_of_mem ha)
        rw [if_neg hne, ih hkeys.2 ha]

/-- The record counts from the moment it is written; other keys are not touched. -/
theorem lookup_upsert (k : κ) (a : α) (l : List α) :
    lookup key k (upsert key a l) = if key a = k then some a else lookup key k l := by
  induction l with
  | nil => exact lookup_cons key k a []
  | cons b bs ih =>
      by_cases hb : key b = key a
      · rw [upsert, if_pos hb, lookup_cons, lookup_cons, hb]
        split_ifs <;> rfl
      · rw [upsert, if_neg hb, lookup_cons, lookup_cons, ih]
        by_cases hk : key b = k
        · rw [if_pos hk, if_pos hk, if_neg (fun ha => hb (hk.trans ha.symm))]
        · rw [if_neg hk, if_neg hk]

/-- Writing the record that counts again changes nothing. -/
theorem upsert_of_lookup {a : α} {l : List α} (h : lookup key (key a) l = some a) :
    upsert key a l = l := by
  induction l with
  | nil => cases h
  | cons b bs ih =>
      rw [lookup_cons] at h
      by_cases hb : key b = key a
      · rw [if_pos hb, Option.some.injEq] at h
        rw [upsert, if_pos hb, h]
      · rw [if_neg hb] at h
        rw [upsert, if_neg hb, ih h]

theorem upsert_append {a : α} {l : List α} (h : key a ∉ l.map key) (back : List α) :
    upsert key a (l ++ back) = l ++ upsert key a back := by
  induction l with
  | nil => rfl
  | cons b bs ih =>
      rw [List.map_cons, List.mem_cons, not_or] at h
      rw [List.cons_append, upsert, if_neg (fun he => h.1 he.symm), ih h.2, List.cons_append]

/-- A record with a new key goes to the end. -/
theorem upsert_fresh {a : α} {l : List α} (h : key a ∉ l.map key) : upsert key a l = l ++ [a] := by
  have hback := upsert_append key h []
  rwa [List.append_nil] at hback

theorem lookup_map (f : α → α) (hf : ∀ a, key (f a) = key a) (k : κ) (l : List α) :
    lookup key k (l.map f) = (lookup key k l).map f := by
  induction l with
  | nil => rfl
  | cons a l ih =>
      rw [List.map_cons, lookup_cons, lookup_cons, hf, ih]
      split_ifs <;> rfl

theorem mem_upsert_self (a : α) (l : List α) : a ∈ upsert key a l := by
  induction l with
  | nil => simp [upsert]
  | cons b bs ih =>
      unfold upsert
      split_ifs
      · simp
      · exact List.mem_cons_of_mem _ ih

theorem mem_of_mem_upsert {a b : α} {l : List α} (h : b ∈ upsert key a l) : b = a ∨ b ∈ l := by
  induction l with
  | nil => exact Or.inl (List.mem_singleton.mp h)
  | cons c cs ih =>
      unfold upsert at h
      split_ifs at h
      · rcases List.mem_cons.mp h with rfl | h
        · exact Or.inl rfl
        · exact Or.inr (List.mem_cons_of_mem _ h)
      · rcases List.mem_cons.mp h with rfl | h
        · exact Or.inr List.mem_cons_self
        · exact (ih h).imp_right (List.mem_cons_of_mem _)

theorem lookup_filter {p : α → Bool} {k : κ} (hp : ∀ a, key a = k → p a = true) (l : List α) :
    lookup key k (l.filter p) = lookup key k l := by
  induction l with
  | nil => rfl
  | cons a l ih =>
      by_cases hk : key a = k
      · rw [List.filter_cons_of_pos (hp a hk), lookup_cons, lookup_cons, if_pos hk, if_pos hk]
      · rw [lookup_cons, if_neg hk, List.filter_cons]
        split_ifs
        · rw [lookup_cons, if_neg hk, ih]
        · exact ih

theorem map_key_upsert {a : α} {l : List α} (h : key a ∈ l.map key) :
    (upsert key a l).map key = l.map key := by
  induction l with
  | nil => cases h
  | cons b bs ih =>
      by_cases hb : key b = key a
      · rw [upsert, if_pos hb, List.map_cons, List.map_cons, hb]
      · have hbs : key a ∈ bs.map key := (List.mem_cons.mp h).resolve_left (fun he => hb he.symm)
        rw [upsert, if_neg hb, List.map_cons, List.map_cons, ih hbs]

/-- A list with one record a key stays one. -/
theorem nodup_upsert {a : α} {l : List α} (h : (l.map key).Nodup) :
    ((upsert key a l).map key).Nodup := by
  by_cases hmem : key a ∈ l.map key
  · rwa [map_key_upsert key hmem]
  · rw [upsert_fresh key hmem, List.map_append]
    exact h.append (List.nodup_singleton _) (by simpa using hmem)

/-- The record and all others, in some order. -/
theorem perm_upsert {a : α} {l : List α} (h : (l.map key).Nodup) :
    (upsert key a l).Perm (a :: l.filter (fun b => ¬ key b = key a)) := by
  induction l with
  | nil => exact .refl _
  | cons b bs ih =>
      rw [List.map_cons, List.nodup_cons] at h
      by_cases hb : key b = key a
      · have hrest : bs.filter (fun b => ¬ key b = key a) = bs := by
          refine List.filter_eq_self.mpr fun c hc => decide_eq_true fun he => h.1 ?_
          rw [hb, ← he]
          exact List.mem_map_of_mem hc
        rw [upsert, if_pos hb, List.filter_cons_of_neg (by simp [hb]), hrest]
      · rw [upsert, if_neg hb, List.filter_cons_of_pos (by simp [hb])]
        exact ((ih h.2).cons b).trans (.swap a b _)

section Lasts

/-- One record for each key: the last one that has it, in the place of the first. -/
def lasts (l : List α) : List α := l.foldl (fun done a => upsert key a done) []

theorem nodup_foldl_upsert (l : List α) {done : List α} (h : (done.map key).Nodup) :
    ((l.foldl (fun done a => upsert key a done) done).map key).Nodup := by
  induction l generalizing done with
  | nil => exact h
  | cons a l ih => exact ih (nodup_upsert key h)

theorem nodup_lasts (l : List α) : ((lasts key l).map key).Nodup :=
  nodup_foldl_upsert key l List.nodup_nil

theorem foldl_upsert_of_nodup {l done : List α} (h : ((done ++ l).map key).Nodup) :
    l.foldl (fun done a => upsert key a done) done = done ++ l := by
  induction l generalizing done with
  | nil => rw [List.append_nil, List.foldl_nil]
  | cons a l ih =>
      rw [List.append_cons] at h
      have hfresh : key a ∉ done.map key := by
        have hdone : ((done ++ [a]).map key).Nodup :=
          h.sublist ((List.sublist_append_left _ _).map key)
        rw [List.map_append, List.nodup_append] at hdone
        exact fun hmem => hdone.2.2 _ hmem _ List.mem_cons_self rfl
      rw [List.foldl_cons, upsert_fresh key hfresh, ih h, ← List.append_cons]

theorem lasts_of_nodup {l : List α} (h : (l.map key).Nodup) : lasts key l = l :=
  foldl_upsert_of_nodup key h

/-- Which records count depends on the keys only. -/
theorem lasts_map {β : Type*} {key' : β → κ} {f : α → β} (hf : ∀ a, key' (f a) = key a)
    (l : List α) : lasts key' (l.map f) = (lasts key l).map f := by
  have hupsert : ∀ (a : α) (done : List α),
      upsert key' (f a) (done.map f) = (upsert key a done).map f := by
    intro a done
    induction done with
    | nil => rfl
    | cons b bs ih =>
        rw [List.map_cons, upsert, upsert, hf, hf, ih]
        split_ifs <;> rfl
  have hfold : ∀ done : List α, (l.map f).foldl (fun done a => upsert key' a done) (done.map f) =
      (l.foldl (fun done a => upsert key a done) done).map f := by
    induction l with
    | nil => exact fun done => rfl
    | cons a l ih => exact fun done => by rw [List.map_cons, List.foldl_cons, hupsert, ih]; rfl
  exact hfold []

theorem mem_of_mem_lasts {l : List α} {a : α} (h : a ∈ lasts key l) : a ∈ l := by
  have hfold : ∀ done : List α, a ∈ l.foldl (fun done a => upsert key a done) done →
      a ∈ done ∨ a ∈ l := by
    clear h
    induction l with
    | nil => exact fun done h => Or.inl h
    | cons b l ih =>
        intro done h
        rcases ih _ h with h | h
        · rcases mem_of_mem_upsert key h with rfl | h
          · exact Or.inr List.mem_cons_self
          · exact Or.inl h
        · exact Or.inr (List.mem_cons_of_mem _ h)
  exact (hfold [] h).resolve_left List.not_mem_nil

theorem lookup_append (k : κ) (front back : List α) :
    lookup key k (front ++ back) = (lookup key k front).or (lookup key k back) :=
  List.find?_append

theorem lookup_eq_none {k : κ} {l : List α} (h : k ∉ l.map key) : lookup key k l = none := by
  refine List.find?_eq_none.mpr fun a ha => ?_
  rw [decide_eq_true_eq]
  exact fun hk => h (hk ▸ List.mem_map_of_mem ha)

/-- A key that one record only has leads to this record from both ends. -/
theorem lookup_reverse {k : κ} {l : List α} (h : (l.map key).count k ≤ 1) :
    lookup key k l.reverse = lookup key k l := by
  induction l with
  | nil => rfl
  | cons a l ih =>
      rw [List.map_cons, List.count_cons] at h
      rw [List.reverse_cons, lookup_append, lookup_cons, lookup_cons]
      by_cases hk : key a = k
      · have hrest : (l.map key).count k = 0 := by
          rw [if_pos (beq_iff_eq.mpr hk)] at h
          omega
        rw [ih (by omega), lookup_eq_none key (List.count_eq_zero.mp hrest), if_pos hk, if_pos hk]
        rfl
      · rw [ih (by omega), if_neg hk, if_neg hk, lookup_nil, Option.or_none]

theorem lookup_foldl_upsert (k : κ) (l done : List α) :
    lookup key k (l.foldl (fun done a => upsert key a done) done) =
      (lookup key k l.reverse).or (lookup key k done) := by
  induction l generalizing done with
  | nil => rfl
  | cons a l ih =>
      rw [List.foldl_cons, ih, lookup_upsert, List.reverse_cons, lookup_append, lookup_cons,
        lookup_nil, Option.or_assoc]
      split_ifs <;> rfl

theorem lookup_lasts {k : κ} {l : List α} (h : (l.map key).count k ≤ 1) :
    lookup key k (lasts key l) = lookup key k l := by
  rw [lasts, lookup_foldl_upsert, lookup_reverse key h, lookup_nil, Option.or_none]

/-- Two records with different keys, of which the first has its place already. -/
theorem upsert_comm {a c : α} {l : List α} (hne : key a ≠ key c) (h : key a ∈ l.map key) :
    upsert key c (upsert key a l) = upsert key a (upsert key c l) := by
  induction l with
  | nil => cases h
  | cons b bs ih =>
      by_cases hba : key b = key a
      · rw [upsert, if_pos hba, upsert, if_neg hne, upsert, if_neg (hba ▸ hne), upsert, if_pos hba]
      · have hbs : key a ∈ bs.map key := (List.mem_cons.mp h).resolve_left (fun he => hba he.symm)
        by_cases hbc : key b = key c
        · rw [upsert, if_neg hba, upsert, if_pos hbc, upsert, if_pos hbc, upsert,
            if_neg (fun he => hne he.symm)]
        · rw [upsert, if_neg hba, upsert, if_neg hbc, ih hbs, upsert, if_neg hbc, upsert,
            if_neg hba]

theorem foldl_upsert_comm {a : α} {l done : List α} (hl : key a ∉ l.map key)
    (h : key a ∈ done.map key) :
    l.foldl (fun done c => upsert key c done) (upsert key a done) =
      upsert key a (l.foldl (fun done c => upsert key c done) done) := by
  induction l generalizing done with
  | nil => rfl
  | cons c l ih =>
      rw [List.map_cons, List.mem_cons, not_or] at hl
      have hmem : key a ∈ (upsert key c done).map key := by
        by_cases hc : key c ∈ done.map key
        · rwa [map_key_upsert key hc]
        · rw [upsert_fresh key hc, List.map_append]
          exact List.mem_append_left _ h
      rw [List.foldl_cons, upsert_comm key hl.1 h, ih hl.2 hmem, List.foldl_cons]

/-- To write a record whose key is there at most once, before or after. -/
theorem lasts_upsert {a : α} {l : List α} (h : (l.map key).count (key a) ≤ 1) :
    lasts key (upsert key a l) = upsert key a (lasts key l) := by
  have hfold : ∀ done : List α, key a ∉ done.map key →
      (upsert key a l).foldl (fun done c => upsert key c done) done =
        upsert key a (l.foldl (fun done c => upsert key c done) done) := by
    induction l with
    | nil => exact fun done _ => rfl
    | cons b bs ih =>
        intro done hdone
        rw [List.map_cons, List.count_cons] at h
        by_cases hb : key b = key a
        · have hbs : key a ∉ bs.map key := by
            rw [if_pos (beq_iff_eq.mpr hb)] at h
            exact List.count_eq_zero.mp (by omega)
          -- The record takes the other one's place, at once or at the end.
          have hplace : upsert key a done = upsert key a (upsert key b done) := by
            have hfresh : key b ∉ done.map key := hb ▸ hdone
            rw [upsert_fresh key hfresh, upsert_fresh key hdone, upsert_append key hdone, upsert,
              if_pos hb]
          have hmem : key a ∈ (upsert key b done).map key := by
            rw [← hb]
            exact List.mem_map_of_mem (mem_upsert_self key b done)
          rw [upsert, if_pos hb, List.foldl_cons, List.foldl_cons, hplace,
            foldl_upsert_comm key hbs hmem]
        · have hdone' : key a ∉ (upsert key b done).map key := by
            intro hmem
            obtain ⟨c, hc, hkey⟩ := List.mem_map.mp hmem
            rcases mem_of_mem_upsert key hc with rfl | hc
            · exact hb hkey
            · exact hdone (hkey ▸ List.mem_map_of_mem hc)
          rw [if_neg (fun he => hb (beq_iff_eq.mp he)), Nat.add_zero] at h
          rw [upsert, if_neg hb, List.foldl_cons, ih h _ hdone', List.foldl_cons]
  exact hfold [] List.not_mem_nil

end Lasts

section Sorting

variable [LinearOrder κ]

/-- Stable sort by key. -/
def sortBy (l : List α) : List α := l.insertionSort (fun a b => key a ≤ key b)

theorem lookup_orderedInsert (k : κ) (a : α) (l : List α) :
    lookup key k (l.orderedInsert (fun a b => key a ≤ key b) a) = lookup key k (a :: l) := by
  induction l with
  | nil => rfl
  | cons b bs ih =>
      by_cases hab : key a ≤ key b
      · rw [List.orderedInsert, if_pos hab]
      · have hne : key b ≠ key a := fun he => hab he.ge
        rw [List.orderedInsert, if_neg hab, lookup_cons, ih, lookup_cons, lookup_cons, lookup_cons]
        by_cases hk : key b = k
        · rw [if_pos hk, if_pos hk, if_neg (fun ha => hne (hk.trans ha.symm))]
        · rw [if_neg hk, if_neg hk]

/-- Sorting keeps the first record of every key. -/
@[simp] theorem lookup_sortBy (k : κ) (l : List α) :
    lookup key k (sortBy key l) = lookup key k l := by
  induction l with
  | nil => rfl
  | cons a l ih =>
      rw [sortBy, List.insertionSort_cons, lookup_orderedInsert, lookup_cons, lookup_cons]
      exact congrArg _ ih

omit [DecidableEq κ] in
@[simp] theorem mem_sortBy {a : α} {l : List α} : a ∈ sortBy key l ↔ a ∈ l :=
  List.mem_insertionSort _

omit [DecidableEq κ] in
theorem sortBy_map {β : Type*} {key' : β → κ} {f : α → β} (hf : ∀ a, key' (f a) = key a)
    (l : List α) : sortBy key' (l.map f) = (sortBy key l).map f := by
  refine (List.map_insertionSort _ _ _ _ fun a _ b _ => ?_).symm
  rw [hf, hf]

/-- The records lie in the order of their keys, with one record a key. -/
def Ordered (l : List α) : Prop := l.Pairwise (fun a b => key a < key b)

omit [DecidableEq κ] in
theorem Ordered.nodup {l : List α} (h : Ordered key l) : (l.map key).Nodup :=
  (List.pairwise_map.mpr h).imp (fun hlt => hlt.ne)

omit [DecidableEq κ] in
theorem ordered_sortBy {l : List α} (h : (l.map key).Nodup) : Ordered key (sortBy key l) := by
  have hsorted : (sortBy key l).Pairwise (fun a b => key a ≤ key b) :=
    List.pairwise_insertionSort _ _
  have hdistinct : (sortBy key l).Pairwise (fun a b => key a ≠ key b) := by
    apply List.pairwise_map.mp
    exact ((List.perm_insertionSort _ l).map key).nodup_iff.mpr h
  exact (hsorted.and hdistinct).imp (fun hab => lt_of_le_of_ne hab.1 hab.2)

omit [DecidableEq κ] in
theorem sortBy_of_ordered {l : List α} (h : Ordered key l) : sortBy key l = l :=
  List.Pairwise.insertionSort_eq (h.imp le_of_lt)

/-- An ordered list is known from the records that its keys lead to. -/
theorem eq_of_lookup_eq {l l' : List α} (h : Ordered key l) (h' : Ordered key l')
    (hsame : ∀ k, lookup key k l = lookup key k l') : l = l' := by
  have hmem : ∀ a, a ∈ l ↔ a ∈ l' := by
    intro a
    constructor
    · intro ha
      apply mem_of_lookup key (k := key a)
      rw [← hsame, lookup_of_mem key h.nodup ha]
    · intro ha
      apply mem_of_lookup key (k := key a)
      rw [hsame, lookup_of_mem key h'.nodup ha]
  have hperm : l.Perm l' :=
    (List.perm_ext_iff_of_nodup (h.nodup.of_map key) (h'.nodup.of_map key)).mpr hmem
  exact hperm.eq_of_pairwise (fun a b _ _ hab hba => absurd hab hba.asymm) h h'

end Sorting

end EveNet.KeyedList

namespace EveNet.CoveredList

variable {α : Type*} (covers : α → α → Prop) [DecidableRel covers]

def grow (l : List α) (a : α) : List α := if ∃ b ∈ l, covers b a then l else l ++ [a]

theorem mem_grow_of_mem {l : List α} {a b : α} (h : b ∈ l) : b ∈ grow covers l a := by
  unfold grow
  split_ifs
  · exact h
  · exact List.mem_append_left _ h

theorem mem_or_eq_of_mem_grow {l : List α} {a b : α} (h : b ∈ grow covers l a) :
    b ∈ l ∨ b = a := by
  unfold grow at h
  split_ifs at h
  · exact Or.inl h
  · simpa using h

theorem mem_foldl_grow_of_mem {l as : List α} {b : α} (h : b ∈ l) :
    b ∈ as.foldl (grow covers) l := by
  induction as generalizing l with
  | nil => exact h
  | cons a as ih => exact ih (mem_grow_of_mem covers h)

theorem mem_of_mem_foldl_grow {l as : List α} {b : α} (h : b ∈ as.foldl (grow covers) l) :
    b ∈ l ∨ b ∈ as := by
  induction as generalizing l with
  | nil => exact Or.inl h
  | cons a as ih =>
      rcases ih h with h | h
      · rcases mem_or_eq_of_mem_grow covers h with h | rfl
        · exact Or.inl h
        · exact Or.inr List.mem_cons_self
      · exact Or.inr (List.mem_cons_of_mem _ h)

/-- Whether a record is left out or appended, the list covers what the record covers. -/
theorem covered_grow_iff [IsTrans α covers] {l : List α} {a c : α} :
    (∃ b ∈ grow covers l a, covers b c) ↔ (∃ b ∈ l, covers b c) ∨ covers a c := by
  unfold grow
  split_ifs with hcovered
  · obtain ⟨b, hb, hba⟩ := hcovered
    constructor
    · exact Or.inl
    · rintro (h | hac)
      · exact h
      · exact ⟨b, hb, IsTrans.trans b a c hba hac⟩
  · simp [or_and_right, exists_or]

theorem covered_foldl_grow_iff [IsTrans α covers] {l as : List α} {c : α} :
    (∃ b ∈ as.foldl (grow covers) l, covers b c) ↔
      (∃ b ∈ l, covers b c) ∨ ∃ a ∈ as, covers a c := by
  induction as generalizing l with
  | nil => simp
  | cons a as ih => rw [List.foldl_cons, ih, covered_grow_iff, List.exists_mem_cons_iff, or_assoc]

theorem prefix_foldl_grow (l as : List α) : l <+: as.foldl (grow covers) l := by
  induction as generalizing l with
  | nil => exact List.prefix_rfl
  | cons a as ih =>
      refine List.IsPrefix.trans ?_ (ih (grow covers l a))
      unfold grow
      split_ifs
      · exact List.prefix_rfl
      · exact List.prefix_append l [a]

/-- Every record is then in the list or covered by it. -/
theorem mem_or_covered_foldl_grow {l as : List α} {a : α} (h : a ∈ as) :
    a ∈ as.foldl (grow covers) l ∨ ∃ b ∈ as.foldl (grow covers) l, covers b a := by
  induction as generalizing l with
  | nil => cases h
  | cons b as ih =>
      rw [List.foldl_cons]
      rcases List.mem_cons.mp h with rfl | h
      · by_cases hcovered : ∃ c ∈ l, covers c a
        · obtain ⟨c, hc, hca⟩ := hcovered
          exact Or.inr ⟨c, mem_foldl_grow_of_mem covers (mem_grow_of_mem covers hc), hca⟩
        · have hgrown : a ∈ grow covers l a := by
            rw [grow, if_neg hcovered]
            exact List.mem_append_right _ List.mem_cons_self
          exact Or.inl (mem_foldl_grow_of_mem covers hgrown)
      · exact ih h

/-- Nothing is appended exactly when every record is covered already. -/
theorem foldl_grow_eq_iff {l as : List α} :
    as.foldl (grow covers) l = l ↔ ∀ a ∈ as, ∃ b ∈ l, covers b a := by
  induction as with
  | nil => simp
  | cons a as ih =>
      rw [List.foldl_cons, List.forall_mem_cons]
      by_cases hcovered : ∃ b ∈ l, covers b a
      · rw [grow, if_pos hcovered, ih, and_iff_right hcovered]
      · rw [grow, if_neg hcovered]
        constructor
        · intro hsame
          have hlen := (prefix_foldl_grow covers (l ++ [a]) as).length_le
          rw [hsame, List.length_append, List.length_singleton] at hlen
          omega
        · exact fun h => absurd h.1 hcovered

/-- A record with property `p` is in the grown list exactly when it was there at first, or
nothing at first and nothing earlier covers the one record that brings it. -/
theorem exists_foldl_grow_iff [IsTrans α covers] {p : α → Prop} {l pre post : List α} {a : α}
    (hself : p a) (hpre : ∀ b ∈ pre, ¬ p b)
    (hpost : ∀ b ∈ post, ¬ p b) :
    (∃ c ∈ (pre ++ a :: post).foldl (grow covers) l, p c) ↔
      (∃ c ∈ l, p c) ∨ (¬ ∃ b ∈ l, covers b a) ∧ ∀ b ∈ pre, ¬ covers b a := by
  rw [List.foldl_append, List.foldl_cons]
  constructor
  · rintro ⟨c, hc, hpc⟩
    rcases mem_of_mem_foldl_grow covers hc with hc | hc
    · by_cases hcovered : ∃ b ∈ pre.foldl (grow covers) l, covers b a
      · rw [grow, if_pos hcovered] at hc
        rcases mem_of_mem_foldl_grow covers hc with hc | hc
        · exact Or.inl ⟨c, hc, hpc⟩
        · exact absurd hpc (hpre c hc)
      · rw [covered_foldl_grow_iff, not_or] at hcovered
        exact Or.inr ⟨hcovered.1, fun b hb hba => hcovered.2 ⟨b, hb, hba⟩⟩
    · exact absurd hpc (hpost c hc)
  · rintro (⟨c, hc, hpc⟩ | ⟨hl, hpre'⟩)
    · exact ⟨c, mem_foldl_grow_of_mem covers
        (mem_grow_of_mem covers (mem_foldl_grow_of_mem covers hc)), hpc⟩
    · refine ⟨a, mem_foldl_grow_of_mem covers ?_, hself⟩
      have hcovered : ¬ ∃ b ∈ pre.foldl (grow covers) l, covers b a := by
        rw [covered_foldl_grow_iff]
        rintro (h | ⟨b, hb, hba⟩)
        · exact hl h
        · exact hpre' b hb hba
      rw [grow, if_neg hcovered]
      simp

end EveNet.CoveredList
