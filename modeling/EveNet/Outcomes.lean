import EveNet.CallProgram

/-!
# Postconditions of programs

A program ends in a value or in a failure. `Ends` says what holds of the surroundings in
either case, and the rules say it of a program in terms of its parts.
-/

namespace EveNet.Program

variable {I : Interface} {ε δ α β σ : Type} (h : Handler I σ)

/-- The run from `s` ends in a value and a state with `Q`, or in a failure and a state with `E`. -/
def Ends (p : Program I ε α) (s : σ) (Q : α → σ → Prop) (E : ε → σ → Prop) : Prop :=
  match Program.run h p s with
  | (.ok a, t) => Q a t
  | (.error e, t) => E e t

variable {h} {Q Q' : α → σ → Prop} {R : β → σ → Prop} {E E' : ε → σ → Prop} {s : σ}

theorem ends_call {c : I.Call} {next : I.Answer c → Program I ε α} :
    Ends h (.call c next) s Q E ↔ Ends h (next (h c s).1) (h c s).2 Q E := Iff.rfl

theorem ends_bind {p : Program I ε α} {f : α → Program I ε β} :
    Ends h (p.bind f) s R E ↔ Ends h p s (fun a t => Ends h (f a) t R E) E := by
  unfold Ends
  rw [run_bind]
  rcases run h p s with ⟨e | a, t⟩
  · rfl
  · rfl

theorem Ends.mono {p : Program I ε α} (hp : Ends h p s Q E) (hQ : ∀ a t, Q a t → Q' a t)
    (hE : ∀ e t, E e t → E' e t) : Ends h p s Q' E' := by
  unfold Ends at hp ⊢
  rcases hrun : run h p s with ⟨e | a, t⟩
  · rw [hrun] at hp
    exact hE e t hp
  · rw [hrun] at hp
    exact hQ a t hp

theorem Ends.bind {p : Program I ε α} {f : α → Program I ε β} (hp : Ends h p s Q E)
    (hf : ∀ a t, Q a t → Ends h (f a) t R E) : Ends h (p.bind f) s R E :=
  ends_bind.mpr (hp.mono hf (fun _ _ he => he))

theorem Ends.ok {p : Program I ε α} {a : α} {t : σ} (hp : Ends h p s Q E)
    (hrun : run h p s = (.ok a, t)) : Q a t := by
  unfold Ends at hp
  rwa [hrun] at hp

theorem Ends.error {p : Program I ε α} {e : ε} {t : σ} (hp : Ends h p s Q E)
    (hrun : run h p s = (.error e, t)) : E e t := by
  unfold Ends at hp
  rwa [hrun] at hp

theorem Ends.and {p : Program I ε α} (hp : Ends h p s Q E) (hp' : Ends h p s Q' E') :
    Ends h p s (fun a t => Q a t ∧ Q' a t) (fun e t => E e t ∧ E' e t) := by
  unfold Ends at hp hp' ⊢
  rcases hrun : run h p s with ⟨e | a, t⟩
  · rw [hrun] at hp hp'
    exact ⟨hp, hp'⟩
  · rw [hrun] at hp hp'
    exact ⟨hp, hp'⟩

theorem Calls.mono {P P' : I.Call → Prop} {p : Program I ε α} (hp : p.Calls P)
    (h : ∀ c, P c → P' c) : p.Calls P' := by
  induction hp with
  | pure a => exact .pure a
  | fail e => exact .fail e
  | call hc _ ih => exact .call (h _ hc) ih

/-- What every call of the program keeps holds at the end, whichever it is. -/
theorem ends_of_calls {P : I.Call → Prop} {Inv : σ → Prop} {p : Program I ε α}
    (hkeep : ∀ c, P c → ∀ s, Inv s → Inv (h c s).2) (hp : p.Calls P) (hs : Inv s) :
    Ends h p s (fun _ => Inv) (fun _ => Inv) := by
  have hend := run_invariant h hkeep hp hs
  unfold Ends
  rcases hrun : run h p s with ⟨e | a, t⟩
  · rwa [hrun] at hend
  · rwa [hrun] at hend

/-! ### The calls made -/

section Made

variable (h : Handler I σ)

theorem mem_made_of_calls {P : I.Call → Prop} {p : Program I ε α} (hp : p.Calls P) (s : σ) :
    ∀ c ∈ made h p s, P c := by
  induction hp generalizing s with
  | pure a => exact fun c hc => absurd hc List.not_mem_nil
  | fail e => exact fun c hc => absurd hc List.not_mem_nil
  | call hc _ ih =>
      intro d hd
      rcases List.mem_cons.mp hd with rfl | hd
      · exact hc
      · exact ih _ _ d hd

/-- The rest of a sequence makes no calls when the first part fails. -/
theorem made_bind_error {p : Program I ε α} {f : α → Program I ε β} {s t : σ} {e : ε}
    (hp : run h p s = (.error e, t)) : made h (p.bind f) s = made h p s := by
  induction p generalizing s with
  | pure a => cases hp
  | fail e => rfl
  | call c next ih => exact congrArg (c :: ·) (ih _ hp)

theorem made_bind_ok {p : Program I ε α} {f : α → Program I ε β} {s t : σ} {a : α}
    (hp : run h p s = (.ok a, t)) : made h (p.bind f) s = made h p s ++ made h (f a) t := by
  induction p generalizing s with
  | pure b =>
      cases hp
      rfl
  | fail e => cases hp
  | call c next ih => exact congrArg (c :: ·) (ih _ hp)

theorem made_attempt (p : Program I ε α) (s : σ) :
    made h (p.attempt : Program I δ (Except ε α)) s = made h p s := by
  induction p generalizing s with
  | pure a => rfl
  | fail e => rfl
  | call c next ih => exact congrArg (c :: ·) (ih _ _)

/-- The surroundings, with a record of the calls so far. -/
def noting : Handler I (σ × List I.Call) :=
  fun c s => ((h c s.1).1, (h c s.1).2, s.2 ++ [c])

theorem run_noting (p : Program I ε α) (s : σ) (noted : List I.Call) :
    run (noting h) p (s, noted) =
      ((run h p s).1, (run h p s).2, noted ++ made h p s) := by
  induction p generalizing s noted with
  | pure a => simp [made]
  | fail e => simp [made]
  | call c next ih =>
      rw [run_call, run_call, made, List.append_cons]
      exact ih _ _ _

variable {h}

/-- The record does not change what holds of the surroundings. -/
theorem Ends.noting {p : Program I ε α} {s : σ × List I.Call} (hp : Ends h p s.1 Q E) :
    Ends (noting h) p s (fun a t => Q a t.1) (fun e t => E e t.1) := by
  unfold Ends at hp ⊢
  rw [show s = (s.1, s.2) from rfl, run_noting]
  rcases hrun : run h p s.1 with ⟨e | a, t⟩
  · rwa [hrun] at hp
  · rwa [hrun] at hp

variable (h)

variable {J : Interface} {τ : Type} (k : Handler J τ)

theorem made_left (p : Program I ε α) (s : σ × τ) :
    made (h.both k) p.left s = (made h p s.1).map .inl := by
  induction p generalizing s with
  | pure a => rfl
  | fail e => rfl
  | call c next ih => exact congrArg (.inl c :: ·) (ih _ _)

theorem made_right (p : Program J ε α) (s : σ × τ) :
    made (h.both k) p.right s = (made k p s.2).map .inr := by
  induction p generalizing s with
  | pure a => rfl
  | fail e => rfl
  | call c next ih => exact congrArg (.inr c :: ·) (ih _ _)

end Made

/-! ### Failures -/

/-- Whatever the surroundings answer, the program fails only with an error of `E`. -/
inductive Fails (E : ε → Prop) : Program I ε α → Prop where
  | pure (a : α) : Fails E (.pure a)
  | fail {e : ε} (he : E e) : Fails E (.fail e)
  | call {c : I.Call} {next : I.Answer c → Program I ε α} (hnext : ∀ r, Fails E (next r)) :
      Fails E (.call c next)

namespace Fails

variable {E : ε → Prop} {p : Program I ε α}

theorem bind {f : α → Program I ε β} (hp : p.Fails E) (hf : ∀ a, (f a).Fails E) :
    (p.bind f).Fails E := by
  induction hp with
  | pure a => exact hf a
  | fail he => exact .fail he
  | call _ ih => exact .call ih

theorem ite {b : Prop} [Decidable b] {q : Program I ε α} (hp : b → p.Fails E)
    (hq : ¬ b → q.Fails E) : (if b then p else q).Fails E := by
  by_cases h : b
  · rw [if_pos h]
    exact hp h
  · rw [if_neg h]
    exact hq h

theorem forEach {f : β → Program I ε Unit} {l : List β} (hf : ∀ b ∈ l, (f b).Fails E) :
    (Program.forEach f l).Fails E := by
  induction l with
  | nil => exact .pure ()
  | cons b l ih =>
      exact bind (hf b List.mem_cons_self)
        (fun _ => ih (fun c hc => hf c (List.mem_cons_of_mem _ hc)))

theorem attempt (p : Program I ε α) {E : δ → Prop} :
    (p.attempt : Program I δ (Except ε α)).Fails E := by
  induction p with
  | pure a => exact .pure _
  | fail e => exact .pure _
  | call c next ih => exact .call ih

theorem ofExcept {r : Except ε α} (hr : ∀ e, r = .error e → E e) :
    (Program.ofExcept r : Program I ε α).Fails E := by
  cases r with
  | ok a => exact .pure a
  | error e => exact .fail (hr e rfl)

theorem left {J : Interface} (hp : p.Fails E) : (p.left : Program (I.sum J) ε α).Fails E := by
  induction hp with
  | pure a => exact .pure a
  | fail he => exact .fail he
  | call _ ih => exact .call ih

theorem right {J : Interface} (hp : p.Fails E) : (p.right : Program (J.sum I) ε α).Fails E := by
  induction hp with
  | pure a => exact .pure a
  | fail he => exact .fail he
  | call _ ih => exact .call ih

theorem error {t : σ} {e : ε} (hp : p.Fails E) (hrun : run h p s = (.error e, t)) : E e := by
  induction hp generalizing s with
  | pure a => cases hrun
  | fail he =>
      cases hrun
      exact he
  | call _ ih => exact ih _ hrun

end Fails

end EveNet.Program
