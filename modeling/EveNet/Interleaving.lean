import EveNet.CallProgram

/-!
# Interleaved programs

Several programs share one state of the surroundings. A schedule names, step after step,
the program whose next call is answered; a program that has ended ignores its turn. The
trace lists the calls with their answers. A monitor reads the trace and may refuse it,
and an invariant that every step accepted by the monitor keeps holds at the end of every
accepted schedule.
-/

namespace EveNet.Program

variable {I : Interface} {ε α σ ι : Type} (h : Handler I σ)

/-- Programs under way, and the state they share. -/
abbrev Pool (I : Interface) (ε α σ ι : Type) : Type := (ι → Program I ε α) × σ

/-- What a program has come to, `none` while it still has a call to make. -/
def outcome : Program I ε α → Option (Except ε α)
  | .pure a => some (.ok a)
  | .fail e => some (.error e)
  | .call _ _ => none

theorem outcome_eq_ok {p : Program I ε α} {a : α} : p.outcome = some (.ok a) ↔ p = .pure a := by
  cases p <;> simp [outcome]

/-- A call of one program with the answer it was given. -/
structure Event (I : Interface) (ι : Type) where
  who : ι
  call : I.Call
  answer : I.Answer call

def advance [DecidableEq ι] (i : ι) (x : Pool I ε α σ ι) : Pool I ε α σ ι :=
  match x.1 i with
  | .call c next => (Function.update x.1 i (next (h c x.2).1), (h c x.2).2)
  | .pure _ => x
  | .fail _ => x

def eventOf (i : ι) (x : Pool I ε α σ ι) : Option (Event I ι) :=
  match x.1 i with
  | .call c _ => some ⟨i, c, (h c x.2).1⟩
  | .pure _ => none
  | .fail _ => none

def interleave [DecidableEq ι] : List ι → Pool I ε α σ ι → Pool I ε α σ ι
  | [], x => x
  | i :: schedule, x => interleave schedule (advance h i x)

def trace [DecidableEq ι] : List ι → Pool I ε α σ ι → List (Event I ι)
  | [], _ => []
  | i :: schedule, x => (eventOf h i x).toList ++ trace schedule (advance h i x)

/-- What a monitor remembers after a trace, `none` once it has refused an event. -/
def monitored {γ : Type} (monitor : γ → Event I ι → Option γ) : γ → List (Event I ι) → Option γ
  | g, [] => some g
  | g, e :: events => (monitor g e).bind (fun g' => monitored monitor g' events)

theorem monitored_append {γ : Type} (monitor : γ → Event I ι → Option γ) (g : γ)
    (before after : List (Event I ι)) :
    monitored monitor g (before ++ after) =
      (monitored monitor g before).bind (fun g' => monitored monitor g' after) := by
  induction before generalizing g with
  | nil => rfl
  | cons e before ih =>
      simp only [List.cons_append, monitored, ih]
      cases monitor g e <;> rfl

/-- An invariant of the memory of a monitor, the programs and the shared state, kept by every
call that the monitor accepts, holds after every schedule that it accepts. -/
theorem interleave_invariant [DecidableEq ι] {γ : Type} {monitor : γ → Event I ι → Option γ}
    {Q : γ → Pool I ε α σ ι → Prop}
    (hstep : ∀ g g' x i c next, x.1 i = .call c next → monitor g ⟨i, c, (h c x.2).1⟩ = some g' →
      Q g x → Q g' (Function.update x.1 i (next (h c x.2).1), (h c x.2).2))
    {schedule : List ι} {x : Pool I ε α σ ι} {g g' : γ}
    (haccepted : monitored monitor g (trace h schedule x) = some g') (hx : Q g x) :
    Q g' (interleave h schedule x) := by
  induction schedule generalizing x g with
  | nil =>
      rw [← Option.some.inj haccepted]
      exact hx
  | cons i schedule ih =>
      rw [trace, monitored_append] at haccepted
      rw [interleave]
      cases hp : x.1 i with
      | pure a =>
          simp only [eventOf, advance, hp] at haccepted ⊢
          exact ih haccepted hx
      | fail e =>
          simp only [eventOf, advance, hp] at haccepted ⊢
          exact ih haccepted hx
      | call c next =>
          simp only [eventOf, advance, hp] at haccepted ⊢
          obtain ⟨g₁, hfirst, hrest⟩ := Option.bind_eq_some_iff.mp haccepted
          obtain ⟨g₂, hmonitor, hnil⟩ := Option.bind_eq_some_iff.mp hfirst
          rw [← Option.some.inj hnil] at hrest
          exact ih hrest (hstep g g₂ x i c next hp hmonitor hx)

end EveNet.Program
