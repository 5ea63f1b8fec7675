import Mathlib.Data.List.Basic

/-!
# Histories

A history is a list of observations, newest first, as a machine grows it by
consing. `observed` reads a list off it, oldest first. `Each` says of every
observation something about what came before it; an invariant of that form is
checked only where an observation is made.
-/

namespace History

variable {ω α : Type*}

/-- What `f` reads off each observation, oldest first. -/
def observed (f : ω → List α) (log : List ω) : List α :=
  (log.reverse.map f).flatten

@[simp] theorem observed_nil (f : ω → List α) : observed f [] = [] := rfl

@[simp] theorem observed_cons (f : ω → List α) (o : ω) (log : List ω) :
    observed f (o :: log) = observed f log ++ f o := by
  simp [observed]

theorem mem_observed {f : ω → List α} {log : List ω} {x : α} :
    x ∈ observed f log ↔ ∃ o ∈ log, x ∈ f o := by
  simp [observed]

/-- Every observation stands in the relation `P` to what came before it. -/
def Each (P : List ω → ω → Prop) : List ω → Prop
  | [] => True
  | o :: log => P log o ∧ Each P log

@[simp] theorem each_nil {P : List ω → ω → Prop} : Each P [] := trivial

@[simp] theorem each_cons {P : List ω → ω → Prop} {o : ω} {log : List ω} :
    Each P (o :: log) ↔ P log o ∧ Each P log := Iff.rfl

theorem Each.imp {P Q : List ω → ω → Prop} {log : List ω} (h : Each P log)
    (hPQ : ∀ o ∈ log, ∀ earlier, P earlier o → Q earlier o) : Each Q log := by
  induction log with
  | nil => trivial
  | cons o log ih =>
      rw [List.forall_mem_cons] at hPQ
      exact ⟨hPQ.1 log h.1, ih h.2 hPQ.2⟩

end History
