import Mathlib.Data.List.Basic

/-!
# Programs that call on their surroundings

A program is a tree of calls: it returns a value, fails, or asks its surroundings
for an answer and continues with whatever it is told. A handler answers the calls
from a state of its own. `run` is the complete execution against a handler, and
`visited` lists every state the surroundings pass through, one before each call and
one at the end, so that a statement about `visited` speaks of every point at which
the execution can be interrupted.
-/

namespace EveNet

/-- The calls a program may make, each with the type of its answers. -/
structure Interface where
  Call : Type
  Answer : Call → Type

inductive Program (I : Interface) (ε α : Type) where
  | pure (a : α)
  | fail (e : ε)
  | call (c : I.Call) (next : I.Answer c → Program I ε α)

/-- Answers to the calls of `I`, given from a state of type `σ`. -/
abbrev Handler (I : Interface) (σ : Type) : Type := (c : I.Call) → σ → I.Answer c × σ

namespace Program

variable {I J : Interface} {ε δ α β σ τ : Type}

def bind : Program I ε α → (α → Program I ε β) → Program I ε β
  | .pure a, f => f a
  | .fail e, _ => .fail e
  | .call c next, f => .call c (fun r => (next r).bind f)

instance : Monad (Program I ε) where
  pure := Program.pure
  bind := Program.bind

/-- Ask the surroundings and return the answer. -/
def ask (c : I.Call) : Program I ε (I.Answer c) := .call c .pure

/-- A pure fallible value as a program without calls. -/
def ofExcept : Except ε α → Program I ε α
  | .ok a => .pure a
  | .error e => .fail e

/-- Turn a failure into a value, so that the caller can go on after it. -/
def attempt : Program I ε α → Program I δ (Except ε α)
  | .pure a => .pure (.ok a)
  | .fail e => .pure (.error e)
  | .call c next => .call c (fun r => (next r).attempt)

def mapFail (f : ε → δ) : Program I ε α → Program I δ α
  | .pure a => .pure a
  | .fail e => .fail (f e)
  | .call c next => .call c (fun r => (next r).mapFail f)

def forEach (f : α → Program I ε Unit) : List α → Program I ε Unit
  | [] => .pure ()
  | a :: as => (f a).bind (fun _ => forEach f as)

/-- The program with each of its calls answered by a program over other surroundings. -/
def translate (f : (c : I.Call) → Program J ε (I.Answer c)) : Program I ε α → Program J ε α
  | .pure a => .pure a
  | .fail e => .fail e
  | .call c next => (f c).bind (fun r => (next r).translate f)

def run (h : Handler I σ) : Program I ε α → σ → Except ε α × σ
  | .pure a, s => (.ok a, s)
  | .fail e, s => (.error e, s)
  | .call c next, s => run h (next (h c s).1) (h c s).2

/-- Every state of the surroundings during an execution, in order. -/
def visited (h : Handler I σ) : Program I ε α → σ → List σ
  | .pure _, s => [s]
  | .fail _, s => [s]
  | .call c next, s => s :: visited h (next (h c s).1) (h c s).2

/-- The calls made during an execution, in order. -/
def made (h : Handler I σ) : Program I ε α → σ → List I.Call
  | .pure _, _ => []
  | .fail _, _ => []
  | .call c next, s => c :: made h (next (h c s).1) (h c s).2

/-- Every call the program can make, on any answers, satisfies `P`. -/
inductive Calls (P : I.Call → Prop) : Program I ε α → Prop where
  | pure (a : α) : Calls P (.pure a)
  | fail (e : ε) : Calls P (.fail e)
  | call {c : I.Call} {next : I.Answer c → Program I ε α} (hc : P c)
      (hnext : ∀ r, Calls P (next r)) : Calls P (.call c next)

variable (h : Handler I σ)

@[simp] theorem pure_eq (a : α) : (Pure.pure a : Program I ε α) = .pure a := rfl

@[simp] theorem bind_eq (p : Program I ε α) (f : α → Program I ε β) : p >>= f = p.bind f := rfl

@[simp] theorem bind_pure_left (a : α) (f : α → Program I ε β) :
    (Program.pure a).bind f = f a := rfl

@[simp] theorem bind_fail (e : ε) (f : α → Program I ε β) :
    (Program.fail e : Program I ε α).bind f = .fail e := rfl

@[simp] theorem bind_call (c : I.Call) (next : I.Answer c → Program I ε α)
    (f : α → Program I ε β) :
    (Program.call c next).bind f = .call c (fun r => (next r).bind f) := rfl

theorem bind_assoc {γ : Type} (p : Program I ε α) (f : α → Program I ε β)
    (g : β → Program I ε γ) : (p.bind f).bind g = p.bind (fun a => (f a).bind g) := by
  induction p with
  | pure a => rfl
  | fail e => rfl
  | call c next ih =>
      simp only [bind]
      congr 1
      funext r
      exact ih r

@[simp] theorem run_pure (a : α) (s : σ) :
    run h (.pure a : Program I ε α) s = (.ok a, s) := rfl

@[simp] theorem run_fail (e : ε) (s : σ) :
    run h (.fail e : Program I ε α) s = (.error e, s) := rfl

@[simp] theorem run_call (c : I.Call) (next : I.Answer c → Program I ε α) (s : σ) :
    run h (.call c next) s = run h (next (h c s).1) (h c s).2 := rfl

@[simp] theorem run_ask (c : I.Call) (s : σ) :
    run h (ask c : Program I ε (I.Answer c)) s = (.ok (h c s).1, (h c s).2) := rfl

theorem run_bind (p : Program I ε α) (f : α → Program I ε β) (s : σ) :
    run h (p.bind f) s =
      match run h p s with
      | (.ok a, s') => run h (f a) s'
      | (.error e, s') => (.error e, s') := by
  induction p generalizing s with
  | pure a => rfl
  | fail e => rfl
  | call c next ih => exact ih _ _

theorem run_bind_ok {p : Program I ε α} {f : α → Program I ε β} {s s' : σ} {a : α}
    (hp : run h p s = (.ok a, s')) : run h (p.bind f) s = run h (f a) s' := by
  rw [run_bind, hp]

theorem run_bind_error {p : Program I ε α} {f : α → Program I ε β} {s s' : σ} {e : ε}
    (hp : run h p s = (.error e, s')) : run h (p.bind f) s = (.error e, s') := by
  rw [run_bind, hp]

/-- What is returned in the end can be anything. -/
theorem run_bind_pure_state (p : Program I ε α) (f : α → β) (s : σ) :
    (run h (p.bind (fun a => .pure (f a))) s).2 = (run h p s).2 := by
  rw [run_bind]
  rcases run h p s with ⟨e | a, t⟩
  · rfl
  · rfl

/-- A sequence that returns has a first part that returned. -/
theorem run_bind_eq_ok {p : Program I ε α} {f : α → Program I ε β} {s t : σ} {b : β}
    (hr : run h (p.bind f) s = (.ok b, t)) :
    ∃ a s', run h p s = (.ok a, s') ∧ run h (f a) s' = (.ok b, t) := by
  rw [run_bind] at hr
  cases hp : run h p s with
  | mk r s' =>
      cases r with
      | error e => simp [hp] at hr
      | ok a => exact ⟨a, s', rfl, by simpa [hp] using hr⟩

@[simp] theorem run_ofExcept (r : Except ε α) (s : σ) :
    run h (ofExcept r) s = (r, s) := by
  cases r <;> rfl

@[simp] theorem run_attempt (p : Program I ε α) (s : σ) :
    run h (p.attempt : Program I δ (Except ε α)) s = (.ok (run h p s).1, (run h p s).2) := by
  induction p generalizing s with
  | pure a => rfl
  | fail e => rfl
  | call c next ih => exact ih _ _

@[simp] theorem run_mapFail (f : ε → δ) (p : Program I ε α) (s : σ) :
    run h (p.mapFail f) s = ((run h p s).1.mapError f, (run h p s).2) := by
  induction p generalizing s with
  | pure a => rfl
  | fail e => rfl
  | call c next ih => exact ih _ _

theorem mapFail_bind (f : ε → δ) (p : Program I ε α) (g : α → Program I ε β) :
    (p.bind g).mapFail f = (p.mapFail f).bind (fun a => (g a).mapFail f) := by
  induction p with
  | pure a => rfl
  | fail e => rfl
  | call c next ih => exact congrArg (Program.call c) (funext ih)

theorem mapFail_ofExcept (f : ε → δ) (r : Except ε α) :
    (ofExcept r : Program I ε α).mapFail f = ofExcept (r.mapError f) := by
  cases r <;> rfl

@[simp] theorem forEach_nil (f : α → Program I ε Unit) : forEach f [] = .pure () := rfl

@[simp] theorem forEach_cons (f : α → Program I ε Unit) (a : α) (as : List α) :
    forEach f (a :: as) = (f a).bind (fun _ => forEach f as) := rfl

theorem forEach_append (f : α → Program I ε Unit) (as bs : List α) :
    forEach f (as ++ bs) = (forEach f as).bind (fun _ => forEach f bs) := by
  induction as with
  | nil => rfl
  | cons a as ih => rw [List.cons_append, forEach_cons, forEach_cons, ih, bind_assoc]

theorem forEach_map {γ : Type} (f : α → Program I ε Unit) (g : γ → α) (as : List γ) :
    forEach f (as.map g) = forEach (fun a => f (g a)) as := by
  induction as with
  | nil => rfl
  | cons a as ih => rw [List.map_cons, forEach_cons, forEach_cons, ih]

/-! ### States passed through -/

theorem start_mem_visited (p : Program I ε α) (s : σ) : s ∈ visited h p s := by
  cases p <;> simp [visited]

theorem run_mem_visited (p : Program I ε α) (s : σ) : (run h p s).2 ∈ visited h p s := by
  induction p generalizing s with
  | pure a => simp [visited]
  | fail e => simp [visited]
  | call c next ih => exact List.mem_cons_of_mem _ (ih _ _)

/-- The states of a sequence are those of its first part and, when that part
returned, those of the rest from where it ended. -/
theorem mem_visited_bind {p : Program I ε α} {f : α → Program I ε β} {s x : σ} :
    x ∈ visited h (p.bind f) s ↔
      x ∈ visited h p s ∨ ∃ a s', run h p s = (.ok a, s') ∧ x ∈ visited h (f a) s' := by
  induction p generalizing s with
  | pure a =>
      constructor
      · exact fun hx => Or.inr ⟨a, s, rfl, hx⟩
      · rintro (hx | ⟨b, s', hb, hx⟩)
        · rw [List.mem_singleton.mp hx]
          exact start_mem_visited h _ _
        · simp only [run_pure, Prod.mk.injEq, Except.ok.injEq] at hb
          obtain ⟨rfl, rfl⟩ := hb
          exact hx
  | fail e => simp [visited]
  | call c next ih =>
      simp only [bind, visited, List.mem_cons, ih, run_call, or_assoc]

@[simp] theorem visited_attempt (p : Program I ε α) (s : σ) :
    visited h (p.attempt : Program I δ (Except ε α)) s = visited h p s := by
  induction p generalizing s with
  | pure a => rfl
  | fail e => rfl
  | call c next ih => simp only [attempt, visited, ih]

/-! ### What a program's calls can change -/

namespace Calls

variable {P : I.Call → Prop} {p : Program I ε α}

theorem bind {f : α → Program I ε β} (hp : p.Calls P) (hf : ∀ a, (f a).Calls P) :
    (p.bind f).Calls P := by
  induction hp with
  | pure a => exact hf a
  | fail e => exact .fail e
  | call hc _ ih => exact .call hc ih

theorem forEach {f : α → Program I ε Unit} {as : List α} (hf : ∀ a ∈ as, (f a).Calls P) :
    (Program.forEach f as).Calls P := by
  induction as with
  | nil => exact .pure ()
  | cons a as ih => exact bind (hf a (by simp)) (fun _ => ih (fun b hb => hf b (by simp [hb])))

theorem ite {b : Prop} [Decidable b] {q : Program I ε α} (hp : p.Calls P) (hq : q.Calls P) :
    (if b then p else q).Calls P := by
  split_ifs
  · exact hp
  · exact hq

theorem ofExcept (r : Except ε α) : (Program.ofExcept r : Program I ε α).Calls P := by
  cases r with
  | ok a => exact .pure a
  | error e => exact .fail e

theorem attempt (hp : p.Calls P) : (p.attempt : Program I δ (Except ε α)).Calls P := by
  induction hp with
  | pure a => exact .pure _
  | fail e => exact .pure _
  | call hc _ ih => exact .call hc ih

theorem ask {c : I.Call} (hc : P c) : (ask c : Program I ε (I.Answer c)).Calls P :=
  .call hc (fun r => .pure r)

theorem translate {R : J.Call → Prop} {f : (c : I.Call) → Program J ε (I.Answer c)}
    (hf : ∀ c, P c → (f c).Calls R) (hp : p.Calls P) : (p.translate f).Calls R := by
  induction hp with
  | pure a => exact .pure a
  | fail e => exact .fail e
  | call hc _ ih => exact bind (hf _ hc) ih

theorem any (p : Program I ε α) : p.Calls (fun _ => True) := by
  induction p with
  | pure a => exact .pure a
  | fail e => exact .fail e
  | call c next ih => exact .call trivial ih

end Calls

/-- An invariant that the program's calls keep holds at every state passed through. -/
theorem visited_invariant {P : I.Call → Prop} {Q : σ → Prop}
    (hkeep : ∀ c, P c → ∀ s, Q s → Q (h c s).2) {p : Program I ε α} (hp : p.Calls P)
    {s : σ} (hs : Q s) : ∀ x ∈ visited h p s, Q x := by
  induction hp generalizing s with
  | pure a => simpa [visited] using hs
  | fail e => simpa [visited] using hs
  | @call c next hc _ ih =>
      intro x hx
      rcases List.mem_cons.mp hx with rfl | hx
      · exact hs
      · exact ih _ (hkeep c hc s hs) x hx

theorem run_invariant {P : I.Call → Prop} {Q : σ → Prop}
    (hkeep : ∀ c, P c → ∀ s, Q s → Q (h c s).2) {p : Program I ε α} (hp : p.Calls P)
    {s : σ} (hs : Q s) : Q (run h p s).2 :=
  visited_invariant h hkeep hp hs _ (run_mem_visited h p s)

/-- What no call of the program changes is the same at the end. -/
theorem run_frame {P : I.Call → Prop} (obs : σ → β)
    (hkeep : ∀ c, P c → ∀ s, obs (h c s).2 = obs s) {p : Program I ε α} (hp : p.Calls P)
    (s : σ) : obs (run h p s).2 = obs s :=
  run_invariant h (Q := fun x => obs x = obs s)
    (fun c hc x hx => (hkeep c hc x).trans hx) hp rfl

theorem visited_frame {P : I.Call → Prop} (obs : σ → β)
    (hkeep : ∀ c, P c → ∀ s, obs (h c s).2 = obs s) {p : Program I ε α} (hp : p.Calls P)
    (s : σ) : ∀ x ∈ visited h p s, obs x = obs s :=
  visited_invariant h (Q := fun x => obs x = obs s)
    (fun c hc x hx => (hkeep c hc x).trans hx) hp rfl

/-- What no call at all changes is the same after every program. -/
theorem run_const (obs : σ → β) (hkeep : ∀ c s, obs (h c s).2 = obs s) (p : Program I ε α)
    (s : σ) : obs (run h p s).2 = obs s :=
  run_frame h obs (fun c _ s => hkeep c s) (Calls.any p) s

/-! ### Invariants of every state passed through -/

/-- From a state with the property, the program passes only through states with it. -/
def Keeps (Q : σ → Prop) (p : Program I ε α) : Prop := ∀ s, Q s → ∀ x ∈ visited h p s, Q x

namespace Keeps

variable {Q : σ → Prop} {p : Program I ε α}

theorem of_calls {P : I.Call → Prop} (hkeep : ∀ c, P c → ∀ s, Q s → Q (h c s).2)
    (hp : p.Calls P) : Keeps h Q p :=
  fun _ hs => visited_invariant h hkeep hp hs

theorem run (hp : Keeps h Q p) {s : σ} (hs : Q s) : Q (Program.run h p s).2 :=
  hp s hs _ (run_mem_visited h p s)

theorem pure (a : α) : Keeps h Q (.pure a : Program I ε α) :=
  fun _ hs _ hx => List.mem_singleton.mp hx ▸ hs

theorem fail (e : ε) : Keeps h Q (.fail e : Program I ε α) :=
  fun _ hs _ hx => List.mem_singleton.mp hx ▸ hs

/-- The rest only has to keep the property after what the first part can return. -/
theorem bind {f : α → Program I ε β} (hp : Keeps h Q p)
    (hf : ∀ a, (∃ s t, Q s ∧ Program.run h p s = (.ok a, t)) → Keeps h Q (f a)) :
    Keeps h Q (p.bind f) := by
  intro s hs x hx
  rcases (mem_visited_bind h).mp hx with hx | ⟨a, t, ht, hx⟩
  · exact hp s hs x hx
  · have hmid : Q t := by
      have hend := hp.run h hs
      rwa [ht] at hend
    exact hf a ⟨s, t, hs, ht⟩ t hmid x hx

theorem forEach {f : β → Program I ε Unit} {as : List β} (hf : ∀ a ∈ as, Keeps h Q (f a)) :
    Keeps h Q (Program.forEach f as) := by
  induction as with
  | nil => exact Keeps.pure h ()
  | cons a as ih =>
      rw [forEach_cons]
      exact Keeps.bind h (hf a (by simp)) (fun _ _ => ih (fun b hb => hf b (by simp [hb])))

theorem attempt (hp : Keeps h Q p) : Keeps h Q (p.attempt : Program I δ (Except ε α)) := by
  intro s hs x hx
  rw [visited_attempt] at hx
  exact hp s hs x hx

end Keeps

/-! ### Programs that append -/

/-- From `s` the program appends `out` to the observed list: never more than a part of
it has been appended, and all of it when the program returns. -/
structure Appends (obs : σ → List β) (p : Program I ε α) (s : σ) (out : List β) : Prop where
  part : ∀ x ∈ visited h p s, ∃ done, done <+: out ∧ obs x = obs s ++ done
  whole : ∀ a t, run h p s = (.ok a, t) → obs t = obs s ++ out

namespace Appends

variable {obs : σ → List β} {s : σ}

theorem pure (a : α) : Appends h obs (.pure a : Program I ε α) s [] where
  part x hx := ⟨[], List.prefix_rfl, by simp [List.mem_singleton.mp hx]⟩
  whole b t ht := by
    rw [run_pure, Prod.mk.injEq] at ht
    simp [ht.2]

theorem fail (e : ε) (out : List β) : Appends h obs (.fail e : Program I ε α) s out where
  part x hx := ⟨[], List.nil_prefix, by simp [List.mem_singleton.mp hx]⟩
  whole b t ht := by simp at ht

theorem of_frame {p : Program I ε α} (hp : ∀ x ∈ visited h p s, obs x = obs s) :
    Appends h obs p s [] where
  part x hx := ⟨[], List.prefix_rfl, by simp [hp x hx]⟩
  whole a t ht := by
    have := hp _ (run_mem_visited h p s)
    rw [ht] at this
    simp [this]

theorem bind {γ : Type} {p : Program I ε α} {f : α → Program I ε γ} {out rest : List β}
    (hp : Appends h obs p s out)
    (hf : ∀ a t, run h p s = (.ok a, t) → Appends h obs (f a) t rest) :
    Appends h obs (p.bind f) s (out ++ rest) where
  part x hx := by
    rcases (mem_visited_bind h).mp hx with hx | ⟨a, t, ht, hx⟩
    · obtain ⟨done, hdone, hobs⟩ := hp.part x hx
      exact ⟨done, hdone.trans (List.prefix_append _ _), hobs⟩
    · obtain ⟨done, hdone, hobs⟩ := (hf a t ht).part x hx
      refine ⟨out ++ done, (List.prefix_append_right_inj out).mpr hdone, ?_⟩
      rw [hobs, hp.whole a t ht, List.append_assoc]
  whole b u hu := by
    obtain ⟨a, t, ht, hrest⟩ := run_bind_eq_ok h hu
    rw [(hf a t ht).whole b u hrest, hp.whole a t ht, List.append_assoc]

theorem after {γ : Type} {p : Program I ε α} {f : α → Program I ε γ} {out : List β}
    (hp : Appends h obs p s [])
    (hf : ∀ a t, run h p s = (.ok a, t) → Appends h obs (f a) t out) :
    Appends h obs (p.bind f) s out :=
  bind h hp hf

theorem forEach {γ : Type} {f : γ → Program I ε Unit} {out : γ → List β} {l : List γ}
    (hf : ∀ c ∈ l, ∀ t, Appends h obs (f c) t (out c)) :
    Appends h obs (Program.forEach f l) s (l.flatMap out) := by
  induction l generalizing s with
  | nil => exact pure h ()
  | cons c l ih =>
      rw [forEach_cons, List.flatMap_cons]
      exact bind h (hf c (by simp) s) (fun _ _ _ => ih (fun d hd => hf d (by simp [hd])))

end Appends

/-- From `s` the program exchanges the observed list for `new`: at any time the list is the
one it started from or a part of the new one, and it is the new one when the program returns. -/
structure Replaces (obs : σ → List β) (p : Program I ε α) (s : σ) (new : List β) : Prop where
  part : ∀ x ∈ visited h p s, obs x = obs s ∨ obs x <+: new
  whole : ∀ a t, run h p s = (.ok a, t) → obs t = new

namespace Replaces

variable {obs : σ → List β} {s : σ} {γ : Type} {p : Program I ε α} {f : α → Program I ε γ}
  {new : List β}

theorem after (hp : Appends h obs p s [])
    (hf : ∀ a t, run h p s = (.ok a, t) → Replaces h obs (f a) t new) :
    Replaces h obs (p.bind f) s new where
  part x hx := by
    rcases (mem_visited_bind h).mp hx with hx | ⟨a, t, ht, hx⟩
    · obtain ⟨done, hdone, hobs⟩ := hp.part x hx
      rw [List.prefix_nil.mp hdone, List.append_nil] at hobs
      exact Or.inl hobs
    · have hst : obs t = obs s := by simpa using hp.whole a t ht
      exact hst ▸ (hf a t ht).part x hx
  whole b u hu := by
    obtain ⟨a, t, ht, hrest⟩ := run_bind_eq_ok h hu
    exact (hf a t ht).whole b u hrest

theorem then_append (hp : Replaces h obs p s [])
    (hf : ∀ a t, run h p s = (.ok a, t) → Appends h obs (f a) t new) :
    Replaces h obs (p.bind f) s new where
  part x hx := by
    rcases (mem_visited_bind h).mp hx with hx | ⟨a, t, ht, hx⟩
    · refine (hp.part x hx).imp_right (fun hnil => ?_)
      rw [List.prefix_nil.mp hnil]
      exact List.nil_prefix
    · obtain ⟨done, hdone, hobs⟩ := (hf a t ht).part x hx
      rw [hobs, hp.whole a t ht]
      exact Or.inr hdone
  whole b u hu := by
    obtain ⟨a, t, ht, hrest⟩ := run_bind_eq_ok h hu
    rw [(hf a t ht).whole b u hrest, hp.whole a t ht, List.nil_append]

end Replaces

end Program

/-! ### Two interfaces side by side -/

/-- The calls of both interfaces. -/
def Interface.sum (I J : Interface) : Interface where
  Call := I.Call ⊕ J.Call
  Answer := Sum.elim I.Answer J.Answer

namespace Program

variable {I J : Interface} {ε δ α β σ τ : Type}

def left : Program I ε α → Program (I.sum J) ε α
  | .pure a => .pure a
  | .fail e => .fail e
  | .call c next => .call (I := I.sum J) (.inl c) (fun r => (next r).left)

def right : Program J ε α → Program (I.sum J) ε α
  | .pure a => .pure a
  | .fail e => .fail e
  | .call c next => .call (I := I.sum J) (.inr c) (fun r => (next r).right)

end Program

/-- Each handler answers its own calls from its own half of the state. -/
def Handler.both {I J : Interface} {σ τ : Type} (h : Handler I σ) (k : Handler J τ) :
    Handler (I.sum J) (σ × τ)
  | .inl c, s => ((h c s.1).1, ((h c s.1).2, s.2))
  | .inr c, s => ((k c s.2).1, (s.1, (k c s.2).2))

namespace Program

variable {I J : Interface} {ε δ α β σ τ : Type} (h : Handler I σ) (k : Handler J τ)

@[simp] theorem run_left (p : Program I ε α) (s : σ × τ) :
    run (h.both k) p.left s = ((run h p s.1).1, ((run h p s.1).2, s.2)) := by
  induction p generalizing s with
  | pure a => rfl
  | fail e => rfl
  | call c next ih => exact ih _ _

@[simp] theorem run_right (p : Program J ε α) (s : σ × τ) :
    run (h.both k) p.right s = ((run k p s.2).1, (s.1, (run k p s.2).2)) := by
  induction p generalizing s with
  | pure a => rfl
  | fail e => rfl
  | call c next ih => exact ih _ _

@[simp] theorem visited_left (p : Program I ε α) (s : σ × τ) :
    visited (h.both k) p.left s = (visited h p s.1).map (fun x => (x, s.2)) := by
  induction p generalizing s with
  | pure a => rfl
  | fail e => rfl
  | call c next ih =>
      simp only [visited, List.map_cons]
      exact congrArg _ (ih _ _)

@[simp] theorem visited_right (p : Program J ε α) (s : σ × τ) :
    visited (h.both k) p.right s = (visited k p s.2).map (fun x => (s.1, x)) := by
  induction p generalizing s with
  | pure a => rfl
  | fail e => rfl
  | call c next ih =>
      simp only [visited, List.map_cons]
      exact congrArg _ (ih _ _)

theorem Appends.left {obs : σ → List β} {p : Program I ε α} {s : σ × τ} {out : List β}
    (hp : Appends h obs p s.1 out) :
    Appends (h.both k) (fun x => obs x.1) (p.left : Program (I.sum J) ε α) s out where
  part x hx := by
    obtain ⟨y, hy, rfl⟩ := List.mem_map.mp (visited_left h k p s ▸ hx)
    exact hp.part y hy
  whole a t ht := by
    rw [run_left, Prod.mk.injEq] at ht
    obtain ⟨hr, rfl⟩ := ht
    exact hp.whole a _ (Prod.ext hr rfl)

theorem Keeps.left {Q : σ → Prop} {p : Program I ε α} (hp : Keeps h Q p) :
    Keeps (h.both k) (fun x => Q x.1) (p.left : Program (I.sum J) ε α) := by
  intro s hs x hx
  rw [visited_left] at hx
  obtain ⟨y, hy, rfl⟩ := List.mem_map.mp hx
  exact hp s.1 hs y hy

theorem Keeps.right {Q : σ → Prop} (p : Program J ε α) :
    Keeps (h.both k) (fun x => Q x.1) (p.right : Program (I.sum J) ε α) := by
  intro s hs x hx
  rw [visited_right] at hx
  obtain ⟨y, -, rfl⟩ := List.mem_map.mp hx
  exact hs

theorem Calls.left {P : I.Call → Prop} {R : (I.sum J).Call → Prop}
    (hR : ∀ c : I.Call, P c → R (.inl c)) {p : Program I ε α} (hp : p.Calls P) :
    (p.left : Program (I.sum J) ε α).Calls R := by
  induction hp with
  | pure a => exact .pure a
  | fail e => exact .fail e
  | call hc _ ih => exact .call (hR _ hc) ih

theorem Calls.right {P : J.Call → Prop} {R : (I.sum J).Call → Prop}
    (hR : ∀ c : J.Call, P c → R (.inr c)) {p : Program J ε α} (hp : p.Calls P) :
    (p.right : Program (I.sum J) ε α).Calls R := by
  induction hp with
  | pure a => exact .pure a
  | fail e => exact .fail e
  | call hc _ ih => exact .call (hR _ hc) ih

theorem Replaces.left {obs : σ → List β} {p : Program I ε α} {s : σ × τ} {new : List β}
    (hp : Replaces h obs p s.1 new) :
    Replaces (h.both k) (fun x => obs x.1) (p.left : Program (I.sum J) ε α) s new where
  part x hx := by
    obtain ⟨y, hy, rfl⟩ := List.mem_map.mp (visited_left h k p s ▸ hx)
    exact hp.part y hy
  whole a t ht := by
    rw [run_left, Prod.mk.injEq] at ht
    obtain ⟨hr, rfl⟩ := ht
    exact hp.whole a _ (Prod.ext hr rfl)

theorem Appends.right {obs : σ → List β} (p : Program J ε α) (s : σ × τ) :
    Appends (h.both k) (fun x => obs x.1) (p.right : Program (I.sum J) ε α) s [] := by
  apply Appends.of_frame
  intro x hx
  obtain ⟨y, -, rfl⟩ := List.mem_map.mp (visited_right h k p s ▸ hx)
  rfl

end Program

end EveNet
