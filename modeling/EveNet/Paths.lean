import EveNet.Interleaving

/-!
# Paths through programs

What one program of an interleaving exchanges with the surroundings is a path through it, from
its start to what is left of it. `Yields` says what the exchanges of every completed path leave
in a log, for answers of a certain kind, and has a rule for each way of building a program.
-/

namespace EveNet.Program

variable {I J : Interface} {ε δ α β γ σ ι : Type}

/-- A call with the answer it was given. -/
abbrev Exchange (I : Interface) : Type := (c : I.Call) × I.Answer c

/-- The exchanges lead from a program to what is then left of it. -/
inductive Path : Program I ε α → List (Exchange I) → Program I ε α → Prop where
  | nil (p : Program I ε α) : Path p [] p
  | cons {c : I.Call} {r : I.Answer c} {next : I.Answer c → Program I ε α}
      {xs : List (Exchange I)} {q : Program I ε α} (h : Path (next r) xs q) :
      Path (.call c next) (⟨c, r⟩ :: xs) q

/-- The program returns on answers of this kind. -/
def CanReturn (A : Exchange I → Prop) (p : Program I ε α) (a : α) : Prop :=
  ∃ xs, (∀ e ∈ xs, A e) ∧ Path p xs (.pure a)

theorem CanReturn.mono {A A' : Exchange I → Prop} {p : Program I ε α} {a : α}
    (h : CanReturn A p a) (hA : ∀ e, A e → A' e) : CanReturn A' p a := by
  obtain ⟨xs, hxs, hpath⟩ := h
  exact ⟨xs, fun e he => hA e (hxs e he), hpath⟩

theorem path_pure {a : α} {xs : List (Exchange I)} {q : Program I ε α}
    (h : Path (.pure a) xs q) : xs = [] ∧ q = .pure a := by
  cases h
  exact ⟨rfl, rfl⟩

theorem path_fail {e : ε} {xs : List (Exchange I)} {q : Program I ε α}
    (h : Path (.fail e) xs q) : xs = [] ∧ q = .fail e := by
  cases h
  exact ⟨rfl, rfl⟩

/-- A path through a sequence ends in its first part or comes past what that part returns. -/
theorem path_bind_cases {p : Program I ε α} {f : α → Program I ε β} {xs : List (Exchange I)}
    {q : Program I ε β} (h : Path (p.bind f) xs q) :
    (∃ p', Path p xs p' ∧ q = p'.bind f) ∨
      ∃ a ys zs, xs = ys ++ zs ∧ Path p ys (.pure a) ∧ Path (f a) zs q := by
  induction p generalizing xs with
  | pure a => exact Or.inr ⟨a, [], xs, rfl, .nil _, h⟩
  | fail e =>
      obtain ⟨rfl, rfl⟩ := path_fail h
      exact Or.inl ⟨.fail e, .nil _, rfl⟩
  | call c next ih =>
      cases h with
      | nil => exact Or.inl ⟨.call c next, .nil _, rfl⟩
      | @cons _ r _ xs _ h =>
          rcases ih r h with ⟨p', hp, rfl⟩ | ⟨a, ys, zs, rfl, hp, hf⟩
          · exact Or.inl ⟨p', .cons hp, rfl⟩
          · exact Or.inr ⟨a, ⟨c, r⟩ :: ys, zs, rfl, .cons hp, hf⟩

theorem path_bind {p : Program I ε α} {f : α → Program I ε β} {xs : List (Exchange I)} {b : β}
    (h : Path (p.bind f) xs (.pure b)) :
    ∃ a ys zs, xs = ys ++ zs ∧ Path p ys (.pure a) ∧ Path (f a) zs (.pure b) := by
  rcases path_bind_cases h with ⟨p', hp, hb⟩ | hpast
  · cases p' with
    | pure a => exact ⟨a, xs, [], (List.append_nil xs).symm, hp, hb ▸ .nil _⟩
    | fail e => cases hb
    | call c next => cases hb
  · exact hpast

/-- A call with its answer, among the calls of two interfaces. -/
def Exchange.inl (e : Exchange I) : Exchange (I.sum J) := ⟨.inl e.1, e.2⟩

def Exchange.inr (e : Exchange J) : Exchange (I.sum J) := ⟨.inr e.1, e.2⟩

theorem path_left {p : Program I ε α} {xs : List (Exchange (I.sum J))}
    {q : Program (I.sum J) ε α} (h : Path p.left xs q) :
    ∃ (ys : List (Exchange I)) (p' : Program I ε α),
      xs = ys.map Exchange.inl ∧ q = p'.left ∧ Path p ys p' := by
  induction p generalizing xs with
  | pure b =>
      obtain ⟨rfl, rfl⟩ := path_pure h
      exact ⟨[], .pure b, rfl, rfl, .nil _⟩
  | fail e =>
      obtain ⟨rfl, rfl⟩ := path_fail h
      exact ⟨[], .fail e, rfl, rfl, .nil _⟩
  | call c next ih =>
      cases h with
      | nil => exact ⟨[], .call c next, rfl, rfl, .nil _⟩
      | @cons _ r _ xs _ h =>
          obtain ⟨ys, p', rfl, rfl, hp⟩ := ih r h
          exact ⟨⟨c, r⟩ :: ys, p', rfl, rfl, .cons hp⟩

theorem path_right {p : Program J ε α} {xs : List (Exchange (I.sum J))}
    {q : Program (I.sum J) ε α} (h : Path p.right xs q) :
    ∃ (ys : List (Exchange J)) (p' : Program J ε α),
      xs = ys.map Exchange.inr ∧ q = p'.right ∧ Path p ys p' := by
  induction p generalizing xs with
  | pure b =>
      obtain ⟨rfl, rfl⟩ := path_pure h
      exact ⟨[], .pure b, rfl, rfl, .nil _⟩
  | fail e =>
      obtain ⟨rfl, rfl⟩ := path_fail h
      exact ⟨[], .fail e, rfl, rfl, .nil _⟩
  | call c next ih =>
      cases h with
      | nil => exact ⟨[], .call c next, rfl, rfl, .nil _⟩
      | @cons _ r _ xs _ h =>
          obtain ⟨ys, p', rfl, rfl, hp⟩ := ih r h
          exact ⟨⟨c, r⟩ :: ys, p', rfl, rfl, .cons hp⟩

theorem left_eq_pure {p : Program I ε α} {a : α}
    (h : (.pure a : Program (I.sum J) ε α) = p.left) : p = .pure a := by
  cases p with
  | pure b =>
      cases h
      rfl
  | fail e => cases h
  | call c next => cases h

theorem right_eq_pure {p : Program J ε α} {a : α}
    (h : (.pure a : Program (I.sum J) ε α) = p.right) : p = .pure a := by
  cases p with
  | pure b =>
      cases h
      rfl
  | fail e => cases h
  | call c next => cases h

/-- What every call of the program satisfies, the calls along a path do. -/
theorem calls_of_path {P : I.Call → Prop} {p q : Program I ε α} (hp : p.Calls P)
    {xs : List (Exchange I)} (h : Path p xs q) : ∀ e ∈ xs, P e.1 := by
  induction h with
  | nil p => exact fun e he => absurd he List.not_mem_nil
  | cons h ih =>
      cases hp with
      | call hc hnext =>
          intro e he
          rcases List.mem_cons.mp he with rfl | he
          · exact hc
          · exact ih (hnext _) e he

/-- Where the answers tell only what the state shows and nothing changes what it shows, a path
is the run. -/
theorem run_of_path {h : Handler I σ} {obs : σ → γ} {P : I.Call → Prop}
    (htells : ∀ c, P c → ∀ s t, obs s = obs t → (h c s).1 = (h c t).1)
    (hkeep : ∀ c, P c → ∀ s, obs (h c s).2 = obs s) {p : Program I ε α} (hp : p.Calls P) {s : σ}
    {xs : List (Exchange I)} (hgiven : ∀ e ∈ xs, ∃ t, obs t = obs s ∧ e.2 = (h e.1 t).1) {a : α}
    (hpath : Path p xs (.pure a)) : (run h p s).1 = .ok a := by
  induction hp generalizing s xs with
  | pure b =>
      cases (path_pure hpath).2
      rfl
  | fail e => cases (path_fail hpath).2
  | @call c next hc _ ih =>
      cases hpath with
      | @cons _ r _ xs _ hrest =>
          obtain ⟨t, ht, hr⟩ := hgiven _ List.mem_cons_self
          have hsame : r = (h c s).1 := hr.trans (htells c hc t s ht)
          subst hsame
          rw [run_call]
          refine ih _ (fun e he => ?_) hrest
          obtain ⟨u, hu, hanswer⟩ := hgiven e (List.mem_cons_of_mem _ he)
          exact ⟨u, hu.trans (hkeep c hc s).symm, hanswer⟩

/-! ### What completed paths log -/

/-- On answers of this kind, every completed path returns a value and logs a list with `Φ`. -/
def Yields (A : Exchange I → Prop) (log : Exchange I → List β) (p : Program I ε α)
    (Φ : α → List β → Prop) : Prop :=
  ∀ xs a, (∀ e ∈ xs, A e) → Path p xs (.pure a) → Φ a (xs.flatMap log)

namespace Yields

variable {A : Exchange I → Prop} {log : Exchange I → List β} {p : Program I ε α}
  {Φ Ψ : α → List β → Prop}

theorem pure {a : α} (h : Φ a []) : Yields A log (.pure a : Program I ε α) Φ := by
  intro xs b _ hpath
  obtain ⟨rfl, hb⟩ := path_pure hpath
  cases hb
  exact h

theorem fail {e : ε} : Yields A log (.fail e : Program I ε α) Φ :=
  fun _ _ _ hpath => by cases (path_fail hpath).2

theorem mono (hp : Yields A log p Ψ) (h : ∀ a l, Ψ a l → Φ a l) : Yields A log p Φ :=
  fun xs a hA hpath => h a _ (hp xs a hA hpath)

theorem call {c : I.Call} {next : I.Answer c → Program I ε α}
    (h : ∀ r, A ⟨c, r⟩ → Yields A log (next r) (fun a l => Φ a (log ⟨c, r⟩ ++ l))) :
    Yields A log (.call c next) Φ := by
  intro xs a hA hpath
  cases hpath with
  | @cons _ r _ xs _ hrest =>
      rw [List.flatMap_cons]
      exact h r (hA _ List.mem_cons_self) xs a (fun e he => hA e (List.mem_cons_of_mem _ he)) hrest

theorem bind {f : α → Program I ε γ} {Φ : γ → List β → Prop} (hp : Yields A log p Ψ)
    (hf : ∀ a l, Ψ a l → Yields A log (f a) (fun b l' => Φ b (l ++ l'))) :
    Yields A log (p.bind f) Φ := by
  intro xs b hA hpath
  obtain ⟨a, ys, zs, rfl, hfirst, hrest⟩ := path_bind hpath
  rw [List.flatMap_append]
  exact hf a _ (hp ys a (fun e he => hA e (List.mem_append_left _ he)) hfirst) zs b
    (fun e he => hA e (List.mem_append_right _ he)) hrest

theorem and (hp : Yields A log p Φ) (hp' : Yields A log p Ψ) :
    Yields A log p (fun a l => Φ a l ∧ Ψ a l) :=
  fun xs a hA hpath => ⟨hp xs a hA hpath, hp' xs a hA hpath⟩

/-- What a path returns, the program can return. -/
theorem canReturn : Yields A log p (fun a _ => CanReturn A p a) :=
  fun xs _ hA hpath => ⟨xs, hA, hpath⟩

theorem silent {P : I.Call → Prop} (hP : ∀ c, P c → ∀ r, log ⟨c, r⟩ = []) (hp : p.Calls P) :
    Yields A log p (fun _ l => l = []) := by
  induction hp with
  | pure a => exact pure rfl
  | fail e => exact fail
  | call hc _ ih =>
      refine call fun r _ => (ih r).mono fun _ l hl => ?_
      rw [hP _ hc r, hl]
      rfl

theorem forEach {f : γ → Program I ε Unit} {out : γ → List β} {as : List γ}
    (hf : ∀ a ∈ as, Yields A log (f a) (fun _ l => l = out a)) :
    Yields A log (Program.forEach f as) (fun _ l => l = as.flatMap out) := by
  induction as with
  | nil => exact pure rfl
  | cons a as ih =>
      rw [forEach_cons, List.flatMap_cons]
      refine bind (hf a List.mem_cons_self) fun _ l hl => ?_
      refine (ih fun b hb => hf b (List.mem_cons_of_mem _ hb)).mono fun _ l' hl' => ?_
      rw [hl, hl']

/-- Each part may choose what it logs. -/
theorem forEach_chosen {f : γ → Program I ε Unit} {R : γ → δ → Prop} {out : γ → δ → List β}
    {as : List γ} (hf : ∀ a ∈ as, Yields A log (f a) (fun _ l => ∃ d, R a d ∧ l = out a d)) :
    Yields A log (Program.forEach f as) (fun _ l => ∃ chosen : List (γ × δ),
      chosen.map Prod.fst = as ∧ (∀ r ∈ chosen, R r.1 r.2) ∧
        l = chosen.flatMap (fun r => out r.1 r.2)) := by
  induction as with
  | nil => exact pure ⟨[], rfl, by simp, rfl⟩
  | cons a as ih =>
      rw [forEach_cons]
      refine bind (hf a List.mem_cons_self) fun _ l hl => ?_
      obtain ⟨d, hd, rfl⟩ := hl
      refine (ih fun b hb => hf b (List.mem_cons_of_mem _ hb)).mono fun _ l' hl' => ?_
      obtain ⟨chosen, hfst, hR, rfl⟩ := hl'
      refine ⟨(a, d) :: chosen, by rw [List.map_cons, hfst], fun r hr => ?_, rfl⟩
      rcases List.mem_cons.mp hr with rfl | hr
      · exact hd
      · exact hR r hr

theorem left {A : Exchange (I.sum J) → Prop} {log : Exchange (I.sum J) → List β}
    (hp : Yields (fun e => A (Exchange.inl e)) (fun e => log (Exchange.inl e)) p Φ) :
    Yields A log (p.left : Program (I.sum J) ε α) Φ := by
  intro xs a hA hpath
  obtain ⟨ys, p', rfl, hpure, hleft⟩ := path_left hpath
  rw [left_eq_pure hpure] at hleft
  rw [List.flatMap_map]
  exact hp ys a (fun e he => hA _ (List.mem_map_of_mem he)) hleft

theorem right {A : Exchange (I.sum J) → Prop} {log : Exchange (I.sum J) → List β}
    {p : Program J ε α}
    (hp : Yields (fun e => A (Exchange.inr e)) (fun e => log (Exchange.inr e)) p Φ) :
    Yields A log (p.right : Program (I.sum J) ε α) Φ := by
  intro xs a hA hpath
  obtain ⟨ys, p', rfl, hpure, hright⟩ := path_right hpath
  rw [right_eq_pure hpure] at hright
  rw [List.flatMap_map]
  exact hp ys a (fun e he => hA _ (List.mem_map_of_mem he)) hright

end Yields

/-! ### What paths log so far -/

/-- On answers of this kind, everything that a path logs has the property, however far the path
has come. -/
def Emits (A : Exchange I → Prop) (log : Exchange I → List β) (p : Program I ε α)
    (P : β → Prop) : Prop :=
  ∀ xs q, (∀ e ∈ xs, A e) → Path p xs q → ∀ b ∈ xs.flatMap log, P b

namespace Emits

variable {A : Exchange I → Prop} {log : Exchange I → List β} {p : Program I ε α} {P Q : β → Prop}
  {Φ : α → List β → Prop}

theorem pure (a : α) : Emits A log (.pure a : Program I ε α) P := by
  intro xs q _ hpath
  rw [(path_pure hpath).1]
  exact fun b hb => absurd hb List.not_mem_nil

theorem fail (e : ε) : Emits A log (.fail e : Program I ε α) P := by
  intro xs q _ hpath
  rw [(path_fail hpath).1]
  exact fun b hb => absurd hb List.not_mem_nil

theorem mono (hp : Emits A log p Q) (h : ∀ b, Q b → P b) : Emits A log p P :=
  fun xs q hA hpath b hb => h b (hp xs q hA hpath b hb)

theorem call {c : I.Call} {next : I.Answer c → Program I ε α}
    (hc : ∀ r, A ⟨c, r⟩ → ∀ b ∈ log ⟨c, r⟩, P b)
    (hnext : ∀ r, A ⟨c, r⟩ → Emits A log (next r) P) : Emits A log (.call c next) P := by
  intro xs q hA hpath b hb
  cases hpath with
  | nil => exact absurd hb List.not_mem_nil
  | @cons _ r _ xs _ hrest =>
      have hr := hA _ List.mem_cons_self
      rw [List.flatMap_cons, List.mem_append] at hb
      rcases hb with hb | hb
      · exact hc r hr b hb
      · exact hnext r hr xs q (fun e he => hA e (List.mem_cons_of_mem _ he)) hrest b hb

/-- The second part only has to be as wanted after what the first part can return. -/
theorem bind {f : α → Program I ε γ} (hp : Emits A log p P) (hreturn : Yields A log p Φ)
    (hf : ∀ a l, Φ a l → Emits A log (f a) P) : Emits A log (p.bind f) P := by
  intro xs q hA hpath b hb
  rcases path_bind_cases hpath with ⟨p', hfirst, -⟩ | ⟨a, ys, zs, rfl, hfirst, hrest⟩
  · exact hp xs p' hA hfirst b hb
  · rw [List.flatMap_append, List.mem_append] at hb
    have hAfirst : ∀ e ∈ ys, A e := fun e he => hA e (List.mem_append_left _ he)
    rcases hb with hb | hb
    · exact hp ys _ hAfirst hfirst b hb
    · exact hf a _ (hreturn ys a hAfirst hfirst) zs q
        (fun e he => hA e (List.mem_append_right _ he)) hrest b hb

theorem forEach {f : γ → Program I ε Unit} {as : List γ}
    (hf : ∀ a ∈ as, Emits A log (f a) P) : Emits A log (Program.forEach f as) P := by
  induction as with
  | nil => exact pure ()
  | cons a as ih =>
      rw [forEach_cons]
      exact bind (Φ := fun _ _ => True) (hf a List.mem_cons_self) (fun _ _ _ _ => trivial)
        fun _ _ _ => ih fun b hb => hf b (List.mem_cons_of_mem _ hb)

theorem silent {R : I.Call → Prop} (hR : ∀ c, R c → ∀ r, log ⟨c, r⟩ = []) (hp : p.Calls R) :
    Emits A log p P := by
  intro xs q _ hpath b hb
  obtain ⟨e, he, hb⟩ := List.mem_flatMap.mp hb
  rw [hR e.1 (calls_of_path hp hpath e he) e.2] at hb
  cases hb

theorem left {A : Exchange (I.sum J) → Prop} {log : Exchange (I.sum J) → List β}
    (hp : Emits (fun e => A (Exchange.inl e)) (fun e => log (Exchange.inl e)) p P) :
    Emits A log (p.left : Program (I.sum J) ε α) P := by
  intro xs q hA hpath
  obtain ⟨ys, p', rfl, -, hleft⟩ := path_left hpath
  rw [List.flatMap_map]
  exact hp ys p' (fun e he => hA _ (List.mem_map_of_mem he)) hleft

end Emits

/-! ### Paths in an interleaving -/

section Interleaved

variable [DecidableEq ι] (h : Handler I σ)

/-- The exchanges of one of the programs. -/
def exchangesOf (i : ι) (events : List (Event I ι)) : List (Exchange I) :=
  (events.filter (fun e => e.who = i)).map (fun e => ⟨e.call, e.answer⟩)

theorem path_trace (i : ι) (schedule : List ι) (x : Pool I ε α σ ι) :
    Path (x.1 i) (exchangesOf i (trace h schedule x)) ((interleave h schedule x).1 i) := by
  induction schedule generalizing x with
  | nil => exact .nil _
  | cons j schedule ih =>
      have hrest := ih (advance h j x)
      rw [trace, interleave]
      cases hp : x.1 j with
      | pure a =>
          simp only [eventOf, advance, hp, Option.toList_none, List.nil_append] at hrest ⊢
          exact hrest
      | fail e =>
          simp only [eventOf, advance, hp, Option.toList_none, List.nil_append] at hrest ⊢
          exact hrest
      | call c next =>
          simp only [eventOf, advance, hp, Option.toList_some, List.singleton_append,
            exchangesOf, List.filter_cons] at hrest ⊢
          by_cases hij : j = i
          · subst hij
            rw [Function.update_self] at hrest
            simp only [decide_true, if_true, List.map_cons, hp]
            exact .cons hrest
          · rw [Function.update_of_ne (Ne.symm hij)] at hrest
            simp only [decide_eq_true_eq, hij, if_false]
            exact hrest

/-- Every answer of the trace was given in a state with the invariant. -/
theorem given_trace {Q : σ → Prop} (hkeep : ∀ c s, Q s → Q (h c s).2) {schedule : List ι}
    {x : Pool I ε α σ ι} (hx : Q x.2) :
    ∀ e ∈ trace h schedule x, ∃ s, Q s ∧ e.answer = (h e.call s).1 := by
  induction schedule generalizing x with
  | nil => exact fun e he => absurd he List.not_mem_nil
  | cons i schedule ih =>
      intro e he
      rw [trace] at he
      cases hp : x.1 i with
      | pure a =>
          simp only [eventOf, advance, hp, Option.toList_none, List.nil_append] at he
          exact ih hx e he
      | fail e' =>
          simp only [eventOf, advance, hp, Option.toList_none, List.nil_append] at he
          exact ih hx e he
      | call c next =>
          simp only [eventOf, advance, hp, Option.toList_some, List.singleton_append,
            List.mem_cons] at he
          rcases he with rfl | he
          · exact ⟨x.2, hx, rfl⟩
          · exact ih (hkeep c x.2 hx) e he

/-- What the exchanges log, each entry with the program that caused it. -/
def taggedLog (log : Exchange I → List β) (events : List (Event I ι)) : List (ι × β) :=
  events.flatMap (fun e => (log ⟨e.call, e.answer⟩).map (fun b => (e.who, b)))

theorem taggedLog_of (log : Exchange I → List β) (i : ι) (events : List (Event I ι)) :
    ((taggedLog log events).filter (fun w => w.1 = i)).map Prod.snd =
      (exchangesOf i events).flatMap log := by
  induction events with
  | nil => rfl
  | cons e events ih =>
      rw [taggedLog, List.flatMap_cons, List.filter_append, List.map_append, exchangesOf,
        List.filter_cons]
      rw [taggedLog, exchangesOf] at ih
      rw [ih]
      by_cases he : e.who = i
      · simp [he, List.filter_map, Function.comp_def]
      · simp [he, List.filter_map, Function.comp_def]

omit [DecidableEq ι] in
theorem taggedLog_snd (log : Exchange I → List β) (events : List (Event I ι)) :
    (taggedLog log events).map Prod.snd =
      events.flatMap (fun e => log ⟨e.call, e.answer⟩) := by
  rw [taggedLog, List.map_flatMap]
  simp [Function.comp_def]

/-- What each call writes to an observed value, the trace writes in its order. -/
theorem observed_interleave (obs : σ → γ) {write : γ → β → γ} {log : Exchange I → List β}
    (heffect : ∀ c s, obs (h c s).2 = (log ⟨c, (h c s).1⟩).foldl write (obs s))
    (schedule : List ι) (x : Pool I ε α σ ι) :
    obs (interleave h schedule x).2 =
      ((taggedLog log (trace h schedule x)).map Prod.snd).foldl write (obs x.2) := by
  rw [taggedLog_snd]
  induction schedule generalizing x with
  | nil => rfl
  | cons i schedule ih =>
      rw [trace, interleave, ih]
      cases hp : x.1 i with
      | pure a => simp only [eventOf, advance, hp, Option.toList_none, List.nil_append]
      | fail e => simp only [eventOf, advance, hp, Option.toList_none, List.nil_append]
      | call c next =>
          simp only [eventOf, advance, hp, Option.toList_some, List.singleton_append,
            List.flatMap_cons, List.foldl_append, heffect]

end Interleaved

end EveNet.Program
