import Mathlib

/-!
# Rules asked in the order of their priorities

A new rule is put behind the rules with its own priority and those that come before it. A
question goes to one rule after the other until one of them answers. So a rule that was added
later takes part only in the questions it answers, and there all earlier rules up to its own
priority are asked first.
-/

namespace EveNet.PriorityRules

variable {ρ κ δ : Type*} [LinearOrder κ] (priority : ρ → κ)

def insert (rule : ρ) : List ρ → List ρ
  | [] => [rule]
  | a :: l => if priority a ≤ priority rule then a :: insert rule l else rule :: a :: l

/-- The order in which rules are asked that were added one after the other. -/
def ordered (rules : List ρ) : List ρ := rules.foldl (fun l rule => insert priority rule l) []

/-- The first answer. -/
def ask (answer : ρ → Option δ) (rules : List ρ) : Option δ :=
  (ordered priority rules).findSome? answer

/-- The rules with at most this priority. -/
def upTo (c : κ) (rules : List ρ) : List ρ := rules.filter (fun rule => priority rule ≤ c)

theorem ordered_concat (rules : List ρ) (rule : ρ) :
    ordered priority (rules ++ [rule]) = insert priority rule (ordered priority rules) := by
  rw [ordered, List.foldl_append]
  rfl

theorem mem_insert {rule r : ρ} {l : List ρ} : r ∈ insert priority rule l ↔ r = rule ∨ r ∈ l := by
  induction l with
  | nil => simp [insert]
  | cons a l ih =>
      rw [insert]
      split_ifs
      · rw [List.mem_cons, ih, List.mem_cons, or_left_comm]
      · rw [List.mem_cons]

/-- In the order in which they are asked. -/
abbrev Sorted (l : List ρ) : Prop := l.Pairwise (fun a b => priority a ≤ priority b)

theorem sorted_insert (rule : ρ) {l : List ρ} (h : Sorted priority l) :
    Sorted priority (insert priority rule l) := by
  induction l with
  | nil => exact List.pairwise_singleton _ _
  | cons a l ih =>
      obtain ⟨ha, hl⟩ := List.pairwise_cons.mp h
      rw [insert]
      split_ifs with hle
      · refine List.pairwise_cons.mpr ⟨fun b hb => ?_, ih hl⟩
        rcases (mem_insert priority).mp hb with rfl | hb
        · exact hle
        · exact ha b hb
      · refine List.pairwise_cons.mpr ⟨fun b hb => ?_, h⟩
        rcases List.mem_cons.mp hb with rfl | hb
        · exact (lt_of_not_ge hle).le
        · exact (lt_of_not_ge hle).le.trans (ha b hb)

theorem sorted_ordered (rules : List ρ) : Sorted priority (ordered priority rules) := by
  induction rules using List.reverseRecOn with
  | nil => exact List.Pairwise.nil
  | append_singleton rules rule ih =>
      rw [ordered_concat]
      exact sorted_insert priority rule ih

theorem upTo_cons_of_le {c : κ} {a : ρ} (l : List ρ) (h : priority a ≤ c) :
    upTo priority c (a :: l) = a :: upTo priority c l :=
  List.filter_cons_of_pos (decide_eq_true h)

theorem upTo_cons_of_not_le {c : κ} {a : ρ} (l : List ρ) (h : ¬ priority a ≤ c) :
    upTo priority c (a :: l) = upTo priority c l :=
  List.filter_cons_of_neg (by simpa using h)

theorem upTo_append (c : κ) (l l' : List ρ) :
    upTo priority c (l ++ l') = upTo priority c l ++ upTo priority c l' := List.filter_append ..

/-- Behind a rule above the bound there is none below it. -/
theorem upTo_eq_nil {c : κ} {a : ρ} {l : List ρ} (h : Sorted priority (a :: l))
    (hc : c < priority a) : upTo priority c (a :: l) = [] := by
  apply List.filter_eq_nil_iff.mpr
  intro b hb
  rw [decide_eq_true_eq, not_le]
  rcases List.mem_cons.mp hb with rfl | hb
  · exact hc
  · exact hc.trans_le ((List.pairwise_cons.mp h).1 b hb)

theorem upTo_insert (c : κ) (rule : ρ) {l : List ρ} (h : Sorted priority l) :
    upTo priority c (insert priority rule l) =
      if priority rule ≤ c then insert priority rule (upTo priority c l) else upTo priority c l := by
  induction l with
  | nil =>
      by_cases hc : priority rule ≤ c
      · rw [if_pos hc, insert, upTo_cons_of_le priority _ hc]
        rfl
      · rw [if_neg hc, insert, upTo_cons_of_not_le priority _ hc]
  | cons a l ih =>
      have hrest := ih (List.pairwise_cons.mp h).2
      rw [insert]
      by_cases hle : priority a ≤ priority rule
      · rw [if_pos hle]
        by_cases hc : priority rule ≤ c
        · have ha : priority a ≤ c := hle.trans hc
          rw [if_pos hc] at hrest ⊢
          rw [upTo_cons_of_le priority _ ha, upTo_cons_of_le priority _ ha, hrest, insert,
            if_pos hle]
        · rw [if_neg hc] at hrest ⊢
          unfold upTo at hrest ⊢
          rw [List.filter_cons, List.filter_cons, hrest]
      · rw [if_neg hle]
        by_cases hc : priority rule ≤ c
        · rw [if_pos hc, upTo_cons_of_le priority _ hc]
          by_cases ha : priority a ≤ c
          · rw [upTo_cons_of_le priority _ ha, insert, if_neg hle]
          · rw [upTo_eq_nil priority h (lt_of_not_ge ha)]
            rfl
        · rw [if_neg hc, upTo_cons_of_not_le priority _ hc]

theorem upTo_ordered (c : κ) (rules : List ρ) :
    upTo priority c (ordered priority rules) = ordered priority (upTo priority c rules) := by
  induction rules using List.reverseRecOn with
  | nil => rfl
  | append_singleton rules rule ih =>
      rw [ordered_concat, upTo_insert priority c rule (sorted_ordered priority rules), ih]
      rw [upTo_append]
      by_cases hc : priority rule ≤ c
      · rw [if_pos hc, upTo_cons_of_le priority _ hc]
        exact (ordered_concat priority _ rule).symm
      · rw [if_neg hc, upTo_cons_of_not_le priority _ hc]
        exact congrArg (ordered priority) (List.append_nil _).symm

/-! ### Answers -/

variable {answer : ρ → Option δ} {rules own before after : List ρ} {rule : ρ} {d : δ}

theorem findSome_insert_none (h : answer rule = none) (l : List ρ) :
    (insert priority rule l).findSome? answer = l.findSome? answer := by
  induction l with
  | nil => simp [insert, h]
  | cons a l ih =>
      rw [insert]
      split_ifs
      · rw [List.findSome?_cons, List.findSome?_cons, ih]
      · rw [List.findSome?_cons, h]

/-- A rule that answers is asked behind all the rules up to its priority. -/
theorem findSome_insert_some (h : answer rule = some d) {l : List ρ} (hl : Sorted priority l) :
    (insert priority rule l).findSome? answer =
      ((upTo priority (priority rule) l).findSome? answer).or (some d) := by
  induction l with
  | nil => simp [insert, upTo, h]
  | cons a l ih =>
      rw [insert]
      by_cases hle : priority a ≤ priority rule
      · rw [if_pos hle, List.findSome?_cons, ih (List.pairwise_cons.mp hl).2,
          upTo_cons_of_le priority _ hle, List.findSome?_cons]
        cases answer a with
        | none => rfl
        | some b => rfl
      · rw [if_neg hle, upTo_eq_nil priority hl (lt_of_not_ge hle), List.findSome?_cons, h]
        rfl

/-- Rules without an answer may as well not be there. -/
theorem ask_append_of_none (h : ∀ r ∈ own, answer r = none) :
    ask priority answer (rules ++ own) = ask priority answer rules := by
  induction own using List.reverseRecOn with
  | nil => rw [List.append_nil]
  | append_singleton own rule ih =>
      rw [← List.append_assoc, ask, ordered_concat, findSome_insert_none priority (h rule (by simp))]
      exact ih fun r hr => h r (List.mem_append_left _ hr)

/-- Where only one of the later rules answers, all the earlier ones up to its priority are
asked before it. -/
theorem ask_append_of_some (hrule : answer rule = some d) (hbefore : ∀ r ∈ before, answer r = none)
    (hafter : ∀ r ∈ after, answer r = none) :
    ask priority answer (rules ++ (before ++ rule :: after)) =
      (ask priority answer (upTo priority (priority rule) rules)).or (some d) := by
  have hsplit : rules ++ (before ++ rule :: after) = ((rules ++ before) ++ [rule]) ++ after := by
    simp
  have hsilent : ∀ r ∈ upTo priority (priority rule) before, answer r = none :=
    fun r hr => hbefore r ((List.mem_filter.mp hr).1)
  rw [hsplit, ask_append_of_none priority hafter, ask, ordered_concat,
    findSome_insert_some priority hrule (sorted_ordered priority _), upTo_ordered, ← ask, upTo_append,
    ask_append_of_none priority hsilent]

theorem ask_congr {answer' : ρ → Option δ} (h : ∀ r ∈ rules, answer r = answer' r) :
    ask priority answer rules = ask priority answer' rules := by
  have hmem : ∀ r ∈ ordered priority rules, r ∈ rules := by
    clear h
    induction rules using List.reverseRecOn with
    | nil => exact fun r hr => hr
    | append_singleton rules rule ih =>
        intro r hr
        rw [ordered_concat, mem_insert] at hr
        rcases hr with rfl | hr
        · simp
        · exact List.mem_append_left _ (ih r hr)
  unfold ask
  generalize ordered priority rules = l at hmem
  induction l with
  | nil => rfl
  | cons a l ih =>
      rw [List.findSome?_cons, List.findSome?_cons, h a (hmem a List.mem_cons_self),
        ih fun r hr => hmem r (List.mem_cons_of_mem _ hr)]

end EveNet.PriorityRules
