import Mathlib.Data.Option.Basic

/-!
# Machines that answer

A step takes an input to the next state and an answer, or refuses the input.
Two machines are interchangeable for a client when they answer every list of
inputs alike. For deterministic machines a function from the states of one to
the states of the other is enough: it has to commute with every step taken in
a state that meets an invariant of the first machine.
-/

namespace Mealy

variable {σ ρ α ω : Type*}

/-- The state after a list of inputs and the answers to them; `none` once an
input is refused. -/
def run (step : σ → α → Option (σ × ω)) : σ → List α → Option (σ × List ω)
  | s, [] => some (s, [])
  | s, a :: as =>
      (step s a).bind fun r => (run step r.1 as).map fun t => (t.1, r.2 :: t.2)

def outputs (step : σ → α → Option (σ × ω)) (s : σ) (as : List α) :
    Option (List ω) :=
  (run step s as).map Prod.snd

variable {step : σ → α → Option (σ × ω)}

theorem run_cons_eq_some {s s' : σ} {a : α} {as : List α} {os : List ω} :
    run step s (a :: as) = some (s', os) ↔
      ∃ t o os', step s a = some (t, o) ∧ run step t as = some (s', os') ∧
        os = o :: os' := by
  simp only [run, Option.bind_eq_some_iff, Option.map_eq_some_iff, Prod.exists,
    Prod.mk.injEq]
  constructor
  · rintro ⟨t, o, ht, s'', os', hrun, rfl, rfl⟩
    exact ⟨t, o, os', ht, hrun, rfl⟩
  · rintro ⟨t, o, os', ht, hrun, rfl⟩
    exact ⟨t, o, ht, s', os', hrun, rfl, rfl⟩

theorem run_invariant {I : σ → Prop}
    (hinv : ∀ s a s' o, I s → step s a = some (s', o) → I s') {as : List α} :
    ∀ {s s' : σ} {os : List ω}, I s → run step s as = some (s', os) → I s' := by
  induction as with
  | nil =>
      intro s s' os hs h
      cases h
      exact hs
  | cons a as ih =>
      intro s s' os hs h
      obtain ⟨t, o, os', ht, hrest, -⟩ := run_cons_eq_some.mp h
      exact ih (hinv s a t o hs ht) hrest

section Refinement

variable {step' : ρ → α → Option (ρ × ω)} {f : σ → ρ} {I : σ → Prop}

theorem run_eq
    (hstep : ∀ s a, I s →
      step' (f s) a = (step s a).map fun r => (f r.1, r.2))
    (hinv : ∀ s a s' o, I s → step s a = some (s', o) → I s')
    (as : List α) :
    ∀ s, I s → run step' (f s) as =
      (run step s as).map fun r => (f r.1, r.2) := by
  induction as with
  | nil => exact fun _ _ => rfl
  | cons a as ih =>
      intro s hs
      rw [run, run, hstep s a hs]
      cases hr : step s a with
      | none => rfl
      | some r =>
          simp only [Option.map_some, Option.bind_some]
          rw [ih r.1 (hinv s a r.1 r.2 hs hr), Option.map_map, Option.map_map]
          rfl

theorem outputs_eq
    (hstep : ∀ s a, I s →
      step' (f s) a = (step s a).map fun r => (f r.1, r.2))
    (hinv : ∀ s a s' o, I s → step s a = some (s', o) → I s')
    (as : List α) {s : σ} (hs : I s) :
    outputs step s as = outputs step' (f s) as := by
  unfold outputs
  rw [run_eq hstep hinv as s hs, Option.map_map]
  rfl

end Refinement

end Mealy
