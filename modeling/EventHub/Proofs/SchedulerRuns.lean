import EventHub.Proofs.SchedulerOrigin

/-!
# Runs of a manager are runs of the eager scheduler

Step by step a manager that several threads use follows the scheduler of
`Spec/SchedulerStep.lean`; here the steps are put together. The heap with its
dead entries, the states of the ids and the two halves of a `cancel` are not
seen from outside, whatever the order in which the threads take their steps.
-/

namespace EventHub

variable {τ : Type}

/-- A run of the scheduler, with all that it logs, newest first. -/
inductive Scheduler.Runs :
    Scheduler τ → List (TaskAction τ) → List TaskObs → Scheduler τ → Prop
  | nil (r : Scheduler τ) : Runs r [] [] r
  | cons {r r' r'' : Scheduler τ} {a : TaskAction τ} {acts : List (TaskAction τ)}
      {obs log : List TaskObs} (hstep : Scheduler.Step r a obs r')
      (hrest : Runs r' acts log r'') : Runs r (a :: acts) (log ++ obs) r''

namespace TaskSystem

variable {s s' : TaskSystem τ}

theorem Reachable.run_runs {acts : List (TaskAction τ)} :
    ∀ {s : TaskSystem τ}, s.Reachable → Lts.run step s acts = some s' →
      ∃ log, s'.log = log ++ s.log ∧
        Scheduler.Runs s.scheduler acts log s'.scheduler := by
  induction acts with
  | nil =>
      intro s _ hrun
      cases hrun
      exact ⟨[], rfl, .nil _⟩
  | cons a acts ih =>
      intro s hs hrun
      obtain ⟨t, ht, hrest⟩ := Lts.run_cons_eq_some.mp hrun
      obtain ⟨obs, hobs, hstep⟩ := hs.follows ht
      obtain ⟨log, hlog, hruns⟩ := ih (hs.trans_run (Lts.run_one ht)) hrest
      refine ⟨log ++ obs, ?_, .cons hstep hruns⟩
      rw [hlog, hobs, List.append_assoc]

/-- Every run of a new manager, whoever takes the steps, is a run of a new
scheduler with the same log. -/
theorem run_refinesScheduler {acts : List (TaskAction τ)}
    (hrun : Lts.run step {} acts = some s) :
    Scheduler.Runs ({} : TaskSystem τ).scheduler acts s.log s.scheduler := by
  obtain ⟨log, hlog, hruns⟩ := Reachable.run_runs (Lts.Reachable.refl _) hrun
  have hsame : s.log = log := hlog.trans (List.append_nil log)
  rwa [hsame]

/-- A `cancel` that loses against the start of its task. -/
def lostCancel : List (TaskAction Unit) :=
  [.post (some ()) {}, .processBegin 0 7, .cancelLoad 1, .processStart,
    .cancelExchange]

theorem run_refinesScheduler_lost : ∃ s,
    Lts.run step {} lostCancel = some s ∧ .cancelReturned 1 false ∈ s.log ∧
      Scheduler.Runs ({} : TaskSystem Unit).scheduler lostCancel s.log s.scheduler := by
  obtain ⟨s, hrun, hlost⟩ : ∃ s,
      Lts.run step {} lostCancel = some s ∧ .cancelReturned 1 false ∈ s.log :=
    Lts.exists_run_of_decide (by decide +kernel)
  exact ⟨s, hrun, hlost, run_refinesScheduler hrun⟩

end TaskSystem

end EventHub
