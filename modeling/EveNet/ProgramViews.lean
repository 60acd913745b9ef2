import EveNet.CallProgram

/-!
# Programs over a part of the state

A translated program has each of its calls answered by a program over other surroundings. Where
the state of the translated program's own surroundings is a view of the other state, and each
call is answered as it would be there, the program runs as it does over its own surroundings,
and what it keeps of them is kept of the view.
-/

namespace EveNet.Program

variable {I J : Interface} {ε α σ τ : Type}

/-- The calls are answered over `k` as `h` answers them in the state that is in view. -/
structure Embeds (h : Handler I σ) (k : Handler J τ) (view : τ → σ)
    (f : (c : I.Call) → Program J ε (I.Answer c)) : Prop where
  answer : ∀ c t, (Program.run k (f c) t).1 = .ok (h c (view t)).1
  after : ∀ c t, view (Program.run k (f c) t).2 = (h c (view t)).2
  during : ∀ c t, ∀ x ∈ visited k (f c) t, view x = view t ∨ view x = (h c (view t)).2

namespace Embeds

variable {h : Handler I σ} {k : Handler J τ} {view : τ → σ}
  {f : (c : I.Call) → Program J ε (I.Answer c)} (hf : Embeds h k view f)

include hf

theorem run_call (c : I.Call) (t : τ) :
    ∃ t', Program.run k (f c) t = (.ok (h c (view t)).1, t') ∧ view t' = (h c (view t)).2 :=
  ⟨_, Prod.ext (hf.answer c t) rfl, hf.after c t⟩

/-- The translated program returns what the program returns, and its end looks the same. -/
theorem run_translate (p : Program I ε α) (t : τ) :
    ∃ t', Program.run k (p.translate f) t = ((Program.run h p (view t)).1, t') ∧
      view t' = (Program.run h p (view t)).2 := by
  induction p generalizing t with
  | pure a => exact ⟨t, rfl, rfl⟩
  | fail e => exact ⟨t, rfl, rfl⟩
  | call c next ih =>
      obtain ⟨mid, hcall, hmid⟩ := hf.run_call c t
      obtain ⟨t', hrun, ht'⟩ := ih (h c (view t)).1 mid
      rw [hmid] at hrun ht'
      refine ⟨t', ?_, ht'⟩
      change Program.run k ((f c).bind _) t = _
      rw [run_bind_ok _ hcall]
      exact hrun

/-- All that is in view on the way is passed through by the program itself. -/
theorem visited_translate (p : Program I ε α) (t : τ) :
    ∀ x ∈ visited k (p.translate f) t, view x ∈ visited h p (view t) := by
  induction p generalizing t with
  | pure a => exact fun x hx => by rw [List.mem_singleton.mp hx]; exact List.mem_singleton_self _
  | fail e => exact fun x hx => by rw [List.mem_singleton.mp hx]; exact List.mem_singleton_self _
  | call c next ih =>
      intro x hx
      obtain ⟨mid, hcall, hmid⟩ := hf.run_call c t
      have hstart := start_mem_visited h (next (h c (view t)).1) (h c (view t)).2
      rcases (mem_visited_bind k).mp hx with hx | ⟨a, t', hrun, hx⟩
      · rcases hf.during c t x hx with hsame | hafter
        · exact hsame ▸ List.mem_cons_self
        · exact List.mem_cons_of_mem _ (hafter ▸ hstart)
      · rw [hcall, Prod.mk.injEq, Except.ok.injEq] at hrun
        obtain ⟨rfl, rfl⟩ := hrun
        have hview := ih _ _ x hx
        rw [hmid] at hview
        exact List.mem_cons_of_mem _ hview

theorem keeps {Q : σ → Prop} {p : Program I ε α} (hp : Keeps h Q p) :
    Keeps k (fun t => Q (view t)) (p.translate f) :=
  fun t ht x hx => hp (view t) ht _ (hf.visited_translate p t x hx)

end Embeds

/-- What two invariants hold of holds at every state together. -/
theorem Keeps.and {h : Handler I σ} {Q R : σ → Prop} {p : Program I ε α} (hQ : Keeps h Q p)
    (hR : Keeps h R p) : Keeps h (fun s => Q s ∧ R s) p :=
  fun s hs x hx => ⟨hQ s hs.1 x hx, hR s hs.2 x hx⟩

end EveNet.Program
