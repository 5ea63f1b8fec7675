import Mathlib.Data.Option.Basic
import Mathlib.Data.List.Basic

/-!
# Deterministic transition systems and their runs

A system takes an action or refuses it. Everything a scheduler, a client or
another thread may choose is in the action, so the step itself is a partial
function and a run is a fold that stops at the first refusal. An invariant is
then an ordinary induction over the list of actions, stated here once.

Two forms are needed. The plain one asks every step to keep the invariant. The
conditional one asks it only of steps that meet a side condition on the state
before the step and the action taken; `RunMeets` says that a run never leaves
that condition.
-/

namespace Lts

variable {σ α : Type*}

/-- Taking the actions one after another; `none` as soon as one is refused. -/
def run (step : σ → α → Option σ) : σ → List α → Option σ
  | s, [] => some s
  | s, a :: as => (step s a).bind fun s' => run step s' as

/-- Some list of actions leads from `init` to `s`. -/
def Reachable (step : σ → α → Option σ) (init s : σ) : Prop :=
  ∃ as, run step init as = some s

/-- Every action of the run is taken in a state that meets `C`. -/
def RunMeets (step : σ → α → Option σ) (C : σ → α → Prop) : σ → List α → Prop
  | _, [] => True
  | s, a :: as => C s a ∧ ∀ s', step s a = some s' → RunMeets step C s' as

/-- `RunMeets` as a test, for a condition that is one. -/
def checks (step : σ → α → Option σ) (C : σ → α → Bool) : σ → List α → Bool
  | _, [] => true
  | s, a :: as => C s a && (step s a).all fun s' => checks step C s' as

/-- The run is in `m` before one of its actions or at its end. -/
def Visits (step : σ → α → Option σ) : σ → List α → σ → Prop
  | s, [], m => m = s
  | s, a :: as, m => m = s ∨ ∃ s', step s a = some s' ∧ Visits step s' as m

/-- How many actions of the run are taken in a state and of a kind that `C`
counts. -/
def tally (step : σ → α → Option σ) (C : σ → α → Bool) : σ → List α → Nat
  | _, [] => 0
  | s, a :: as =>
      match step s a with
      | some s' => (C s a).toNat + tally step C s' as
      | none => 0

variable {step : σ → α → Option σ}

@[simp] theorem run_nil (s : σ) : run step s [] = some s := rfl

theorem run_cons_eq_some {s s' : σ} {a : α} {as : List α} :
    run step s (a :: as) = some s' ↔
      ∃ t, step s a = some t ∧ run step t as = some s' := by
  simp only [run, Option.bind_eq_some_iff]

theorem run_one {s s' : σ} {a : α} (h : step s a = some s') :
    run step s [a] = some s' :=
  run_cons_eq_some.mpr ⟨s', h, rfl⟩

theorem run_append {s t : σ} {as bs : List α} (h : run step s as = some t) :
    run step s (as ++ bs) = run step t bs := by
  induction as generalizing s with
  | nil =>
      rw [run_nil, Option.some.injEq] at h
      rw [h, List.nil_append]
  | cons a as ih =>
      obtain ⟨m, hm, hrest⟩ := run_cons_eq_some.mp h
      rw [List.cons_append, run, hm, Option.bind_some]
      exact ih hrest

theorem Reachable.refl (s : σ) : Reachable step s s := ⟨[], rfl⟩

theorem Reachable.trans_run {init s t : σ} {as : List α}
    (h : Reachable step init s) (hrun : run step s as = some t) :
    Reachable step init t := by
  obtain ⟨bs, hbs⟩ := h
  exact ⟨bs ++ as, by rw [run_append hbs]; exact hrun⟩

/-- A run that is not refused ends in a state, and that state is reachable. -/
theorem exists_run {P : σ → Prop} {init : σ} {as : List α}
    (hsome : (run step init as).isSome)
    (h : ∀ s, Reachable step init s → P s) :
    ∃ s, run step init as = some s ∧ P s := by
  obtain ⟨s, hs⟩ := Option.isSome_iff_exists.mp hsome
  exact ⟨s, hs, h s ⟨as, hs⟩⟩

/-- A run on fixed actions, by evaluation. -/
theorem exists_run_of_decide {P : σ → Prop} [DecidablePred P] {init : σ}
    {as : List α} (h : (run step init as).any (fun s => decide (P s)) = true) :
    ∃ s, run step init as = some s ∧ P s := by
  cases hrun : run step init as with
  | none =>
      rw [hrun] at h
      cases h
  | some s =>
      rw [hrun] at h
      exact ⟨s, rfl, of_decide_eq_true h⟩

theorem Visits.self {s : σ} {as : List α} : Visits step s as s := by
  cases as with
  | nil => exact rfl
  | cons a as => exact .inl rfl

theorem Visits.last {as : List α} : ∀ {s s' : σ}, run step s as = some s' →
    Visits step s as s' := by
  induction as with
  | nil =>
      intro s s' hrun
      exact (Option.some.inj hrun).symm
  | cons a as ih =>
      intro s s' hrun
      obtain ⟨t, ht, hrest⟩ := run_cons_eq_some.mp hrun
      exact .inr ⟨t, ht, ih hrest⟩

/-- A visit cuts the run in two. -/
theorem Visits.cut {as : List α} : ∀ {s m s' : σ}, Visits step s as m →
    run step s as = some s' →
    ∃ bs cs, run step s bs = some m ∧ run step m cs = some s' := by
  induction as with
  | nil =>
      intro s m s' hm hrun
      rw [show m = s from hm]
      exact ⟨[], [], rfl, hrun⟩
  | cons a as ih =>
      intro s m s' hm hrun
      rcases hm with rfl | ⟨t, ht, hm⟩
      · exact ⟨[], a :: as, rfl, hrun⟩
      · obtain ⟨t', ht', hrest⟩ := run_cons_eq_some.mp hrun
        obtain rfl : t = t' := Option.some.inj (ht.symm.trans ht')
        obtain ⟨bs, cs, hbs, hcs⟩ := ih hm hrest
        exact ⟨a :: bs, cs, run_cons_eq_some.mpr ⟨t, ht, hbs⟩, hcs⟩

/-! ## The induction rules -/

theorem run_invariant {P : σ → Prop}
    (hstep : ∀ s a s', P s → step s a = some s' → P s') :
    ∀ {as : List α} {s s' : σ}, P s → run step s as = some s' → P s' := by
  intro as
  induction as with
  | nil =>
      intro s s' hs h
      rw [run_nil, Option.some.injEq] at h
      exact h ▸ hs
  | cons a as ih =>
      intro s s' hs h
      obtain ⟨t, ht, hrest⟩ := run_cons_eq_some.mp h
      exact ih (hstep s a t hs ht) hrest

theorem Reachable.invariant {P : σ → Prop} {init s : σ}
    (h : Reachable step init s) (hinit : P init)
    (hstep : ∀ s a s', P s → step s a = some s' → P s') : P s := by
  obtain ⟨as, hrun⟩ := h
  exact run_invariant hstep hinit hrun

theorem run_invariant_of_meets {P : σ → Prop} {C : σ → α → Prop}
    (hstep : ∀ s a s', P s → C s a → step s a = some s' → P s') :
    ∀ {as : List α} {s s' : σ}, P s → RunMeets step C s as →
      run step s as = some s' → P s' := by
  intro as
  induction as with
  | nil =>
      intro s s' hs _ h
      rw [run_nil, Option.some.injEq] at h
      exact h ▸ hs
  | cons a as ih =>
      intro s s' hs hc h
      obtain ⟨t, ht, hrest⟩ := run_cons_eq_some.mp h
      exact ih (hstep s a t hs hc.1 ht) (hc.2 t ht) hrest

/-- What is counted uses up what is left of it. -/
theorem tally_le_of_meets {P : σ → Prop} {C : σ → α → Prop} {D : σ → α → Bool}
    (left : σ → Nat)
    (hstep : ∀ s a s', P s → C s a → step s a = some s' →
      P s' ∧ left s' + (D s a).toNat ≤ left s) :
    ∀ {as : List α} {s : σ}, P s → RunMeets step C s as →
      tally step D s as ≤ left s := by
  intro as
  induction as with
  | nil => exact fun _ _ => Nat.zero_le _
  | cons a as ih =>
      intro s hs hc
      unfold tally
      split
      · next s' ht =>
          obtain ⟨hs', hle⟩ := hstep s a s' hs hc.1 ht
          have hrest := ih hs' (hc.2 s' ht)
          omega
      · exact Nat.zero_le _

theorem Visits.invariant_of_meets {P : σ → Prop} {C : σ → α → Prop} {m : σ}
    (hstep : ∀ s a s', P s → C s a → step s a = some s' → P s') :
    ∀ {as : List α} {s : σ}, P s → RunMeets step C s as →
      Visits step s as m → P m := by
  intro as
  induction as with
  | nil => exact fun hs _ hm => (show m = _ from hm) ▸ hs
  | cons a as ih =>
      intro s hs hc hm
      rcases hm with rfl | ⟨t, ht, hm⟩
      · exact hs
      · exact ih (hstep s a t hs hc.1 ht) (hc.2 t ht) hm

theorem RunMeets.of_checks {C : σ → α → Prop} [∀ s a, Decidable (C s a)]
    {s : σ} {as : List α}
    (h : checks step (fun s a => decide (C s a)) s as = true) :
    RunMeets step C s as := by
  induction as generalizing s with
  | nil => trivial
  | cons a as ih =>
      rw [checks, Bool.and_eq_true, decide_eq_true_eq] at h
      refine ⟨h.1, fun s' hs' => ih ?_⟩
      rw [hs'] at h
      exact h.2

theorem RunMeets.and {C D : σ → α → Prop} {as : List α} :
    ∀ {s : σ}, RunMeets step C s as → RunMeets step D s as →
      RunMeets step (fun s a => C s a ∧ D s a) s as := by
  induction as with
  | nil => exact fun _ _ => trivial
  | cons a as ih =>
      exact fun h h' =>
        ⟨⟨h.1, h'.1⟩, fun s' hs' => ih (h.2 s' hs') (h'.2 s' hs')⟩

/-- A condition on the actions alone. -/
theorem RunMeets.of_mem {C : α → Prop} {s : σ} {as : List α}
    (h : ∀ a ∈ as, C a) : RunMeets step (fun _ a => C a) s as := by
  induction as generalizing s with
  | nil => trivial
  | cons a as ih =>
      rw [List.forall_mem_cons] at h
      exact ⟨h.1, fun _ _ => ih h.2⟩

/-- Two conditions that agree in every state of an invariant are met by the same
runs. -/
theorem RunMeets.congr {C D : σ → α → Prop} {P : σ → Prop}
    (hstep : ∀ s a s', P s → step s a = some s' → P s')
    (h : ∀ s a, P s → (C s a ↔ D s a)) :
    ∀ {as : List α} {s : σ}, P s → (RunMeets step C s as ↔ RunMeets step D s as) := by
  intro as
  induction as with
  | nil => exact fun _ => Iff.rfl
  | cons a as ih =>
      intro s hs
      exact and_congr (h s a hs) (forall₂_congr fun s' hs' => ih (hstep s a s' hs hs'))

/-- The condition at the end of a run. -/
theorem RunMeets.last {C : σ → α → Prop} {s' : σ} {a : α} :
    ∀ {as : List α} {s : σ}, RunMeets step C s (as ++ [a]) →
      run step s as = some s' → C s' a := by
  intro as
  induction as with
  | nil =>
      intro s h hrun
      rw [run_nil, Option.some.injEq] at hrun
      exact hrun ▸ h.1
  | cons b as ih =>
      intro s h hrun
      obtain ⟨t, ht, hrest⟩ := run_cons_eq_some.mp hrun
      exact ih (h.2 t ht) hrest

/-- A condition that every step of every run meets may be assumed. -/
theorem RunMeets.of_forall {C : σ → α → Prop} {P : σ → Prop}
    (hC : ∀ s a s', P s → step s a = some s' → C s a ∧ P s') :
    ∀ {as : List α} {s s' : σ}, P s → run step s as = some s' →
      RunMeets step C s as := by
  intro as
  induction as with
  | nil => intro s s' _ _; trivial
  | cons a as ih =>
      intro s s' hs h
      obtain ⟨t, ht, hrest⟩ := run_cons_eq_some.mp h
      refine ⟨(hC s a t hs ht).1, fun t' ht' => ?_⟩
      rw [ht, Option.some.injEq] at ht'
      exact ht' ▸ ih (hC s a t hs ht).2 hrest

end Lts
