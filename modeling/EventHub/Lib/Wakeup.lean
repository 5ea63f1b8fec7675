import Mathlib.Data.Set.Basic
import EventHub.Lib.Lts

/-!
# Waiting on a generation counter

A waiter reads a counter, looks for items one by one, and goes to sleep until
the counter has moved on from what it read. Whoever makes an item available
notifies afterwards, which moves the counter. Between the two an item is owed a
notification.

No wake-up is lost if the counter is read before the waiter looks: as long as
the counter stays where it was, whatever the waiter has looked for and not
found is still not there, but for items that are owed their notification. The
argument needs to know nothing of the waiter except for what it has looked for
since it last read the counter, and it holds of each waiter by itself when
there are several.
-/

/-- A waiter among others. `watch` is the value that it has read and the items
that it has looked for since. -/
structure Watcher (σ θ : Type*) where
  watch : σ → Option (Nat × Set θ)
  generation : σ → Nat
  item : σ → θ → Prop
  /-- A notification of the item is still to come. -/
  owed : σ → θ → Prop

namespace Watcher

variable {σ α θ : Type*} {v : Watcher σ θ} {s s' : σ}

/-- The counter is read, or other items are looked for: there is none of them
but what has been there before, or is owed a notification. -/
def Looks (v : Watcher σ θ) (s s' : σ) : Prop :=
  ∀ g X, v.watch s' = some (g, X) →
    g = v.generation s' ∧ X = ∅ ∨
    ∃ X₀, v.watch s = some (g, X₀) ∧
      ∀ x ∈ X, v.item s' x → x ∈ X₀ ∧ v.item s x ∨ v.owed s' x

theorem Looks.of_none (h : v.watch s' = none) : v.Looks s s' := by
  intro g X hwatch
  rw [h] at hwatch
  cases hwatch

theorem Looks.of_read (h : v.watch s' = some (v.generation s', ∅)) :
    v.Looks s s' := by
  intro g X hwatch
  rw [h] at hwatch
  cases hwatch
  exact .inl ⟨rfl, rfl⟩

theorem Looks.of_empty {g : Nat} {X₀ : Set θ} (h : v.watch s = some (g, X₀))
    (h' : v.watch s' = some (g, ∅)) : v.Looks s s' := by
  intro g' X hwatch
  rw [h'] at hwatch
  cases hwatch
  exact .inr ⟨X₀, h, fun x hx => absurd hx (Set.notMem_empty x)⟩

/-- Nothing has come to be there. -/
theorem Looks.of_same {g : Nat} {X X₀ : Set θ} (h : v.watch s = some (g, X₀))
    (h' : v.watch s' = some (g, X))
    (hX : ∀ x ∈ X, v.item s' x → x ∈ X₀ ∧ v.item s x) : v.Looks s s' := by
  intro g' X' hwatch
  rw [h'] at hwatch
  cases hwatch
  exact .inr ⟨X₀, h, fun x hx hitem => .inl (hX x hx hitem)⟩

/-- Nothing has been looked for. -/
theorem Looks.of_kept (h : v.watch s' = v.watch s)
    (hX : ∀ g X, v.watch s = some (g, X) → ∀ x ∈ X, v.item s' x →
      v.item s x ∨ v.owed s' x) : v.Looks s s' := by
  intro g X hwatch
  rw [h] at hwatch
  exact .inr ⟨X, hwatch, fun x hx hitem =>
    (hX g X hwatch x hx hitem).imp_left fun hitem => ⟨hx, hitem⟩⟩

/-- What a waiter relies on, and what it does. -/
structure Attends (v : Watcher σ θ) (step : σ → α → Option σ) (inv : σ → Prop) :
    Prop where
  grows : ∀ s a s', inv s → step s a = some s' → v.generation s ≤ v.generation s'
  /-- A debt is paid by a notification. -/
  paid : ∀ s a s' g X x, inv s → step s a = some s' → v.watch s = some (g, X) →
    x ∈ X → v.owed s x → v.owed s' x ∨ v.generation s < v.generation s'
  looks : ∀ s a s', inv s → step s a = some s' → v.Looks s s'

/-- Nothing that the waiter has looked for is there, but for what is owed,
unless the counter has moved. -/
def NoneMissed (v : Watcher σ θ) (s : σ) : Prop :=
  ∀ g X, v.watch s = some (g, X) → g ≤ v.generation s ∧
    (v.generation s = g → ∀ x ∈ X, v.item s x → v.owed s x)

theorem NoneMissed.of_idle (h : v.watch s = none) : v.NoneMissed s := by
  intro g X hwatch
  rw [h] at hwatch
  cases hwatch

theorem Attends.noneMissed_step {step : σ → α → Option σ} {inv : σ → Prop}
    (h : v.Attends step inv) {a : α} (hinv : inv s) (hstep : step s a = some s')
    (hs : v.NoneMissed s) : v.NoneMissed s' := by
  intro g X hwatch
  rcases h.looks s a s' hinv hstep g X hwatch with ⟨rfl, rfl⟩ | ⟨X₀, hwatch₀, hlooks⟩
  · exact ⟨Nat.le_refl _, fun _ x hx => absurd hx (Set.notMem_empty x)⟩
  · obtain ⟨hle, hnone⟩ := hs g X₀ hwatch₀
    have hgrows := h.grows s a s' hinv hstep
    refine ⟨hle.trans hgrows, fun hgen x hx hitem => ?_⟩
    -- the counter has not moved in this step either
    have hsame : v.generation s = g := by omega
    rcases hlooks x hx hitem with ⟨hx₀, hitem₀⟩ | howed
    · rcases h.paid s a s' g X₀ x hinv hstep hwatch₀ hx₀ (hnone hsame x hx₀ hitem₀) with
        howed | hmoved
      · exact howed
      · omega
    · exact howed

/-- Over a whole run, with what the waiter relies on. -/
theorem Attends.noneMissed_run {step : σ → α → Option σ} {inv : σ → Prop}
    (h : v.Attends step inv)
    (hinv : ∀ s a s', inv s → step s a = some s' → inv s') {as : List α}
    (hs : inv s) (hnone : v.NoneMissed s) (hrun : Lts.run step s as = some s') :
    inv s' ∧ v.NoneMissed s' := by
  have hstep : ∀ s a s', inv s ∧ v.NoneMissed s → step s a = some s' →
      inv s' ∧ v.NoneMissed s' := fun s a s' hs hstep =>
    ⟨hinv s a s' hs.1 hstep, h.noneMissed_step hs.1 hstep hs.2⟩
  exact Lts.run_invariant hstep ⟨hs, hnone⟩ hrun

end Watcher
