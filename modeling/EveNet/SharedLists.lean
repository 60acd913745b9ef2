import Mathlib.Data.List.DropRight
import Mathlib.Data.List.Basic

/-!
# Lists rebuilt by several writers

Writers share a list. Each of them clears it and then adds its own elements, one after the
other, and nothing keeps two of them apart. The last element with a property is then still the
one that one of the writers would have left on its own, and the list holds everything that the
last writer to clear it has added.
-/

namespace EveNet

/-! ### The last element with a property -/

section LastWith

variable {β : Type} (q : β → Bool) {l suffix : List β} {b : β}

def lastWith (l : List β) : Option β := (l.filter q).getLast?

theorem lastWith_eq_none : lastWith q l = none ↔ ∀ b ∈ l, q b = false := by
  rw [lastWith, List.getLast?_eq_none_iff, List.filter_eq_nil_iff]
  simp

theorem lastWith_eq_some : lastWith q l = some b ↔
    ∃ before after, l = before ++ b :: after ∧ q b = true ∧ ∀ c ∈ after, q c = false := by
  constructor
  · intro h
    obtain ⟨init, hinit⟩ := List.getLast?_eq_some_iff.mp h
    obtain ⟨left, right, rfl, -, hright⟩ := List.filter_eq_append_iff.mp hinit
    obtain ⟨gap, after, rfl, hgap, hb, hafter⟩ := List.filter_eq_cons_iff.mp hright
    refine ⟨left ++ gap, after, by simp, hb, fun c hc => ?_⟩
    simpa using List.filter_eq_nil_iff.mp hafter c hc
  · rintro ⟨before, after, rfl, hb, hafter⟩
    have hnil : after.filter q = [] := List.filter_eq_nil_iff.mpr (by simpa using hafter)
    rw [lastWith, List.filter_append, List.filter_cons_of_pos hb, hnil, List.getLast?_concat]

/-- Where the end of a list has an element with the property, nothing before it counts. -/
theorem lastWith_of_suffix (hsuffix : suffix <:+ l) (h : lastWith q suffix = some b) :
    lastWith q l = some b := by
  obtain ⟨before, after, rfl, hb, hafter⟩ := (lastWith_eq_some q).mp h
  obtain ⟨start, rfl⟩ := hsuffix
  exact (lastWith_eq_some q).mpr ⟨start ++ before, after, by simp, hb, hafter⟩

theorem lastWith_append (l l' : List β) :
    lastWith q (l ++ l') = (lastWith q l').or (lastWith q l) := by
  rw [lastWith, List.filter_append, List.getLast?_append]
  rfl

/-- Where every element with the property overwrites a value, the last one decides. -/
theorem foldl_overwrite {γ : Type} (f : β → γ) (l : List β) (c : γ) :
    l.foldl (fun c b => if q b then f b else c) c = ((lastWith q l).map f).getD c := by
  induction l using List.reverseRecOn with
  | nil => rfl
  | append_singleton l b ih =>
      rw [List.foldl_append, ih, lastWith_append]
      by_cases hb : q b = true
      · simp [lastWith, hb]
      · simp [lastWith, hb]

end LastWith

/-! ### Writes -/

inductive ListWrite (β : Type) where
  | clear
  | add (b : β)

namespace ListWrite

variable {ι β : Type}

def apply (l : List β) : ListWrite β → List β
  | .clear => []
  | .add b => l ++ [b]

def replay (l : List β) (writes : List (ListWrite β)) : List β := writes.foldl apply l

/-- The writes of one who makes this list from nothing. -/
def rebuild (l : List β) : List (ListWrite β) := .clear :: l.map .add

def isAdd : ListWrite β → Bool
  | .clear => false
  | .add _ => true

theorem replay_adds (l added : List β) : replay l (added.map .add) = l ++ added := by
  induction added generalizing l with
  | nil => simp [replay]
  | cons b added ih =>
      change replay (l ++ [b]) (added.map .add) = _
      rw [ih, List.append_assoc, List.singleton_append]

theorem replay_append (l : List β) (writes writes' : List (ListWrite β)) :
    replay l (writes ++ writes') = replay (replay l writes) writes' := List.foldl_append

/-- What is in the list was there before or has been added. -/
theorem mem_of_mem_replay {b : β} {l : List β} {writes : List (ListWrite β)}
    (h : b ∈ replay l writes) : b ∈ l ∨ .add b ∈ writes := by
  induction writes generalizing l with
  | nil => exact Or.inl h
  | cons w writes ih =>
      rcases ih h with hb | hb
      · cases w with
        | clear => cases hb
        | add c =>
            rcases List.mem_append.mp hb with hb | hb
            · exact Or.inl hb
            · rw [List.mem_singleton.mp hb]
              exact Or.inr List.mem_cons_self
      · exact Or.inr (List.mem_cons_of_mem _ hb)

theorem add_injective : Function.Injective (add : β → ListWrite β) := fun _ _ h => by
  cases h
  rfl

/-- Writes without a clear, behind which some of a rebuilding ends, are the end of what it adds. -/
theorem suffix_of_rebuild {l added : List β} {before : List (ListWrite β)}
    (h : rebuild l = before ++ added.map .add) : added <:+ l := by
  cases before with
  | nil =>
      cases added with
      | nil => exact List.nil_suffix
      | cons b added => cases (List.cons.inj h).1
  | cons w before =>
      obtain ⟨-, hrest⟩ := List.cons.inj h
      obtain ⟨start, rest, hl, -, hadded⟩ := List.map_eq_append_iff.mp hrest
      rw [hl, List.map_injective_iff.mpr add_injective hadded]
      exact List.suffix_append _ _

/-- After its own clear a rebuilding adds all of its list. -/
theorem eq_of_rebuild {l added : List β} {before : List (ListWrite β)}
    (h : rebuild l = (before ++ [.clear]) ++ added.map .add) : added = l := by
  cases before with
  | nil => exact (List.map_injective_iff.mpr add_injective (List.cons.inj h).2).symm
  | cons w before =>
      obtain ⟨-, hrest⟩ := List.cons.inj h
      have hclear : (.clear : ListWrite β) ∈ l.map .add := by
        rw [hrest]
        simp
      obtain ⟨b, -, hb⟩ := List.mem_map.mp hclear
      cases hb

/-! ### Several writers -/

section Writers

variable [DecidableEq ι] {writes : List (ι × ListWrite β)} {rebuilt : ι → Option (List β)}

/-- The writes of one writer. -/
def writesOf (i : ι) (writes : List (ι × ListWrite β)) : List (ListWrite β) :=
  (writes.filter (fun w => w.1 = i)).map Prod.snd

/-- Each writer rebuilds a list of its own, or writes nothing. -/
def Rebuilds (rebuilt : ι → Option (List β)) (writes : List (ι × ListWrite β)) : Prop :=
  ∀ i, writesOf i writes = (rebuilt i).elim [] rebuild

theorem writesOf_append (i : ι) (writes writes' : List (ι × ListWrite β)) :
    writesOf i (writes ++ writes') = writesOf i writes ++ writesOf i writes' := by
  rw [writesOf, List.filter_append, List.map_append, writesOf, writesOf]

theorem writesOf_adds (i : ι) (added : List (ι × β)) :
    writesOf i (added.map (fun t => (t.1, .add t.2))) =
      ((added.filter (fun t => t.1 = i)).map Prod.snd).map .add := by
  rw [writesOf, List.filter_map, List.map_map, List.map_map]
  rfl

omit [DecidableEq ι] in
/-- The writes up to the last clear, and what has been added since. -/
theorem exists_last_clear (hclear : ∃ i, (i, .clear) ∈ writes) :
    ∃ (before : List (ι × ListWrite β)) (i : ι) (added : List (ι × β)), writes =
      (before ++ [(i, .clear)]) ++ added.map (fun t => (t.1, .add t.2)) := by
  set p : ι × ListWrite β → Bool := fun w => w.2.isAdd with hp
  obtain ⟨i, hi⟩ := hclear
  have hne : writes.rdropWhile p ≠ [] := by
    intro hnil
    have hadd := List.rdropWhile_eq_nil_iff.mp hnil _ hi
    cases hadd
  have hadds : ∃ added : List (ι × β),
      writes.rtakeWhile p = added.map (fun t => (t.1, .add t.2)) := by
    have hall : ∀ w ∈ writes.rtakeWhile p, p w = true := fun w hw => List.mem_rtakeWhile_imp hw
    generalize writes.rtakeWhile p = rest at hall
    induction rest with
    | nil => exact ⟨[], rfl⟩
    | cons w rest ih =>
        obtain ⟨added, hadded⟩ := ih fun v hv => hall v (List.mem_cons_of_mem _ hv)
        have hw := hall w List.mem_cons_self
        obtain ⟨j, c | b⟩ := w
        · cases hw
        · exact ⟨(j, b) :: added, by rw [hadded]; rfl⟩
  obtain ⟨added, hadded⟩ := hadds
  have hlast := List.rdropWhile_last_not p writes hne
  have hsplit := List.dropLast_append_getLast hne
  generalize (writes.rdropWhile p).getLast hne = w at hlast hsplit
  obtain ⟨j, c | b⟩ := w
  · refine ⟨(writes.rdropWhile p).dropLast, j, added, ?_⟩
    rw [hsplit, ← hadded, List.rdropWhile_append_rtakeWhile]
  · exact absurd rfl hlast

/-- What several rebuildings leave: behind the last clear, the whole list of the one who made
it, and of everybody else the end of his list. -/
theorem exists_added (hwrites : Rebuilds rebuilt writes) (hsome : ∃ i, (rebuilt i).isSome) :
    ∃ added : List (ι × β), (∀ l, replay l (writes.map Prod.snd) = added.map Prod.snd) ∧
      (∀ t ∈ added, (rebuilt t.1).isSome) ∧
      (∀ i, ∀ l ∈ rebuilt i, (added.filter (fun t => t.1 = i)).map Prod.snd <:+ l) ∧
      ∃ i l, rebuilt i = some l ∧ (added.filter (fun t => t.1 = i)).map Prod.snd = l := by
  have hclear : ∃ i, (i, .clear) ∈ writes := by
    obtain ⟨i, hi⟩ := hsome
    obtain ⟨l, hl⟩ := Option.isSome_iff_exists.mp hi
    have hmine := hwrites i
    rw [hl] at hmine
    have hmem : (.clear : ListWrite β) ∈ writesOf i writes := by
      rw [hmine]
      exact List.mem_cons_self
    obtain ⟨⟨j, w⟩, hw, rfl⟩ := List.mem_map.mp hmem
    obtain ⟨hin, htag⟩ := List.mem_filter.mp hw
    exact ⟨j, hin⟩
  obtain ⟨before, i, added, rfl⟩ := exists_last_clear hclear
  have hmine : ∀ j, (rebuilt j).elim [] rebuild =
      writesOf j (before ++ [(i, .clear)]) ++
        ((added.filter (fun t => t.1 = j)).map Prod.snd).map .add := by
    intro j
    rw [← hwrites j, writesOf_append, writesOf_adds]
  refine ⟨added, fun l => ?_, fun t ht => ?_, fun j l hl => ?_, ?_⟩
  · have hadds : (added.map (fun t => (t.1, ListWrite.add t.2))).map Prod.snd =
        (added.map Prod.snd).map .add := by
      rw [List.map_map, List.map_map]
      rfl
    rw [List.map_append, List.map_append, replay_append, replay_append, hadds, replay_adds]
    rfl
  · cases hnone : rebuilt t.1 with
    | some l => rfl
    | none =>
        have hnil := hmine t.1
        rw [hnone] at hnil
        have hempty := (List.append_eq_nil_iff.mp hnil.symm).2
        have hmem : t ∈ added.filter (fun u => u.1 = t.1) := List.mem_filter.mpr ⟨ht, by simp⟩
        simp only [List.map_eq_nil_iff] at hempty
        rw [hempty] at hmem
        cases hmem
  · have hj := hmine j
    rw [Option.mem_def.mp hl] at hj
    exact suffix_of_rebuild hj
  · have hi := hmine i
    rw [writesOf_append] at hi
    have hown : writesOf i [((i, .clear) : ι × ListWrite β)] = [.clear] := by
      simp [writesOf]
    rw [hown] at hi
    cases hrebuilt : rebuilt i with
    | none =>
        rw [hrebuilt] at hi
        cases (List.append_eq_nil_iff.mp (List.append_eq_nil_iff.mp hi.symm).1).2
    | some l =>
        rw [hrebuilt] at hi
        exact ⟨i, l, hrebuilt, eq_of_rebuild hi⟩

/-- For every property, the last element with it is the one that one of the writers alone would
have left. -/
theorem lastWith_replay (hwrites : Rebuilds rebuilt writes) (hsome : ∃ i, (rebuilt i).isSome)
    (start : List β) (q : β → Bool) :
    ∃ i l, rebuilt i = some l ∧
      lastWith q (replay start (writes.map Prod.snd)) = lastWith q l := by
  obtain ⟨added, hreplay, hactive, hends, i, l, hl, hwhole⟩ := exists_added hwrites hsome
  rw [hreplay]
  cases hlast : lastWith q (added.map Prod.snd) with
  | none =>
      refine ⟨i, l, hl, ((lastWith_eq_none q).mpr fun b hb => ?_).symm⟩
      rw [← hwhole] at hb
      obtain ⟨t, ht, rfl⟩ := List.mem_map.mp hb
      exact (lastWith_eq_none q).mp hlast _ (List.mem_map_of_mem (List.mem_of_mem_filter ht))
  | some b =>
      obtain ⟨before, after, hsplit, hb, hafter⟩ := (lastWith_eq_some q).mp hlast
      obtain ⟨left, right, rfl, rfl, hright⟩ := List.map_eq_append_iff.mp hsplit
      obtain ⟨t, rest, rfl, rfl, rfl⟩ := List.map_eq_cons_iff.mp hright
      obtain ⟨l', hl'⟩ := Option.isSome_iff_exists.mp (hactive t (by simp))
      refine ⟨t.1, l', hl', (lastWith_of_suffix q (hends t.1 l' hl') ?_).symm⟩
      -- among the elements of its own writer it is the last one, too
      rw [List.filter_append, List.filter_cons_of_pos (by simp), List.map_append, List.map_cons]
      refine (lastWith_eq_some q).mpr ⟨_, _, rfl, hb, fun c hc => ?_⟩
      obtain ⟨u, hu, rfl⟩ := List.mem_map.mp hc
      exact hafter _ (List.mem_map_of_mem (List.mem_of_mem_filter hu))

end Writers

end ListWrite

end EveNet
