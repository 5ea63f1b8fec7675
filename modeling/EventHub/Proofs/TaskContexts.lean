import EventHub.Task.Context
import EventHub.Proofs.TaskOutcome

/-!
# Copied contexts

A context does nothing while its id is not being executed. It knows no more of
the execution it was made for than the id, so a copy comes to life again with
the next execution of the same task: the next cycle of a series, or the run a
reschedule has led to.
-/

namespace EventHub

variable {τ : Type} {id : Nat} {log obs : List TaskObs}

/-- The observations that say that the callback of `id` started or ended. -/
def TaskObs.executes (id : Nat) (o : TaskObs) : Bool :=
  o = .started id || o = .returned id || o = .threw id

theorem ends_append (h : ∀ o ∈ obs, o.executes id = false)
    (log : List TaskObs) : ends id (obs ++ log) = ends id log := by
  have hnot : ∀ o : TaskObs, o.executes id → o ∉ obs := by
    intro o ho hmem
    rw [h o hmem] at ho
    cases ho
  unfold ends
  rw [List.count_append, List.count_append,
    List.count_eq_zero.mpr (hnot _ (by simp [TaskObs.executes])),
    List.count_eq_zero.mpr (hnot (.threw id) (by simp [TaskObs.executes])),
    Nat.zero_add, Nat.zero_add]

/-! ## Starts and ends -/

namespace Scheduler

variable {r r' : Scheduler τ} {a : TaskAction τ}

/-- One while the callback of `id` is on the stack. -/
def runs (r : Scheduler τ) (id : Nat) : Nat :=
  (r.current.toList.map fun run => run.entry.id).count id

/-- Every execution but the one that is running has ended. -/
def Counted (r : Scheduler τ) (log : List TaskObs) : Prop :=
  ∀ id, starts id log = ends id log + r.runs id

theorem Counted.quiet (h : r.Counted log) (hruns : r'.runs = r.runs)
    (hquiet : ∀ id, ∀ o ∈ obs, o.executes id = false) :
    r'.Counted (obs ++ log) := by
  intro id
  have hstart : .started id ∉ obs := by
    intro hmem
    have hexec := hquiet id _ hmem
    simp [TaskObs.executes] at hexec
  rw [starts_append hstart, ends_append (hquiet id), hruns]
  exact h id

theorem Counted.note (h : r.Counted log) (hruns : r'.runs = r.runs)
    {o : TaskObs} (hquiet : ∀ id, o.executes id = false) :
    r'.Counted (o :: log) := by
  show r'.Counted ([o] ++ log)
  refine h.quiet hruns fun id _ ho => ?_
  rw [List.mem_singleton.mp ho]
  exact hquiet id

theorem Counted.submitted (h : r.Counted log) (hcurrent : r'.current = r.current)
    (ids : List Nat) : r'.Counted (TaskSystem.submittedObs ids ++ log) := by
  refine h.quiet (by unfold runs; rw [hcurrent]) fun id o ho => ?_
  obtain ⟨j, -, -, rfl⟩ := TaskSystem.mem_submittedObs.mp ho
  rfl

theorem Counted.started (h : r.Counted log) (hcurrent : r.current = none)
    {run : RunningTask τ} (hcurrent' : r'.current = some run) :
    r'.Counted (.started run.entry.id :: log) := by
  intro id
  have hcount := h id
  simp only [runs, hcurrent] at hcount
  by_cases hid : run.entry.id = id
  · simp_all [starts, ends, runs]
  · simp_all [starts, ends, runs]

theorem Counted.finished (h : r.Counted log) {run : RunningTask τ}
    (hcurrent : r.current = some run) (hcurrent' : r'.current = none) :
    r'.Counted (.returned run.entry.id :: log) ∧
      r'.Counted (.threw run.entry.id :: log) := by
  refine ⟨fun id => ?_, fun id => ?_⟩
  all_goals
    have hcount := h id
    simp only [runs, hcurrent] at hcount
    by_cases hid : run.entry.id = id
    · simp_all [starts, ends, runs]
      try omega
    · simp_all [starts, ends, runs]

theorem Counted.step (h : r.Counted log) (hstep : Step r a obs r') :
    r'.Counted (obs ++ log) := by
  have hrunning : ∀ {id : Nat} {run : RunningTask τ}, r.running id = some run →
      ∀ run' : RunningTask τ, run'.entry = run.entry →
        ({ r with current := some run' } : Scheduler τ).runs = r.runs := by
    intro id run hrun run' hentry
    obtain ⟨hcurrent, -, -⟩ := running_eq_some.mp hrun
    unfold runs
    simp [hcurrent, hentry]
  cases hstep
  case post task options => exact h.submitted (Added.post r task options).current _
  case postAt now due task options =>
    exact h.submitted (Added.postAt r now due task options).current _
  case postEveryAfter =>
    exact h.submitted (Beside.postEveryAfter r _ _ _ _ _ _).current _
  case postBatch tasks options =>
    exact h.submitted (Added.postBatch options tasks r).current _
  case cancelMissed id _ => exact h.note rfl fun _ => rfl
  case cancelLost id _ => exact h.note rfl fun _ => rfl
  case cancelled id hwon =>
    refine h.note ?_ fun _ => rfl
    rcases r.cancel_result id with ⟨-, hres⟩ | ⟨run, hrun, hres⟩ | hres <;> rw [hres]
    · rfl
    · exact hrunning hrun _ rfl
  case contextCancel id =>
    refine h.note ?_ fun _ => rfl
    unfold Scheduler.contextCancel
    cases hrun : r.running id with
    | some run => exact hrunning hrun _ rfl
    | none => rfl
  case contextReschedule id due =>
    refine h.note ?_ fun _ => rfl
    unfold Scheduler.contextReschedule
    split
    · rfl
    · cases hrun : r.running id with
      | some run => exact hrunning hrun _ rfl
      | none => rfl
  case clear ids _ =>
    refine h.quiet rfl fun id o ho => ?_
    rw [List.mem_reverse, List.mem_map] at ho
    obtain ⟨j, -, rfl⟩ := ho
    rfl
  case start first batch hcurrent _ =>
    have hstarted : (r.start first batch).current = some { entry := first } := rfl
    exact h.started hcurrent hstarted
  case beginNothing => exact h.note rfl fun _ => rfl
  case ended => exact h.note rfl fun _ => rfl
  case returned hcurrent => exact (h.finished hcurrent rfl).1
  case threw hcurrent => exact (h.finished hcurrent rfl).2
  case escaped => exact h.note rfl fun _ => rfl
  all_goals exact h

end Scheduler

namespace TaskSystem

open TaskManager

variable {s s' : TaskSystem τ}

theorem Reachable.counted (hs : s.Reachable) : s.scheduler.Counted s.log :=
  hs.invariant_follows (fun r log => r.Counted log) (fun _ => rfl)
    fun _ _ _ _ _ hP h => hP.step h

theorem runs_scheduler (s : TaskSystem τ) (id : Nat) :
    s.scheduler.runs id = copies s.phase.current.toList id := by
  simp only [scheduler, scheduler_current, Scheduler.runs]
  cases s.phase.current with
  | none => rfl
  | some entry => by_cases h : entry.id = id <;> simp [h, runningTask]

theorem Reachable.executing_iff (hs : s.Reachable) (id : Nat) :
    s.mgr.stateOf id = .executing ↔
      starts id s.log ≠ ends id s.log ∧ withdrawn id s.log = false := by
  have hinv : s.mgr.Inv s.phase.current s.phase.unrun s.phase.owed := hs.inv
  have hacc := hinv.accounted id
  have hcount := hs.counted id
  have hwithdrawn := (hs.logged id).withdrawn
  rw [runs_scheduler] at hcount
  rw [← Bool.not_eq_true, hwithdrawn]
  show _ ↔ _ ∧ ¬ s.mgr.stateOf id = .cancelled
  cases hst : s.mgr.stateOf id <;> rw [hst] at hacc <;> simp only [Accounted] at hacc
  case executing => exact ⟨fun _ => ⟨by omega, by rintro ⟨⟩⟩, fun _ => rfl⟩
  case cancelled => exact ⟨by rintro ⟨⟩, fun h => absurd rfl h.2⟩
  all_goals exact ⟨by rintro ⟨⟩, fun h => absurd (by omega) h.1⟩

theorem Reachable.apply_eq_iff (hs : s.Reachable) (id : Nat)
    (call : ContextCall) : call.apply s.mgr id = (s.mgr, false) ↔
      s.mgr.stateOf id ≠ .executing ∨ call ≠ .cancel ∧ s.mgr.closed := by
  have hinv : s.mgr.Inv s.phase.current s.phase.unrun s.phase.owed := hs.inv
  have hexec : s.mgr.stateOf id = .executing → id ≠ 0 ∧ id ∈ s.mgr.index := by
    intro hst
    have hacc := hinv.accounted id
    rw [hst] at hacc
    exact ⟨hinv.ne_zero (by rw [hst]; decide), hacc.1⟩
  have hreschedule : ∀ due, s.mgr.rescheduleFromContext id due = (s.mgr, false) ↔
      s.mgr.stateOf id ≠ .executing ∨ s.mgr.closed := by
    intro due
    unfold rescheduleFromContext
    by_cases hst : s.mgr.stateOf id = .executing
    · obtain ⟨hne, hmem⟩ := hexec hst
      simp [hst, hne, hmem]
    · simp [hst]
  cases call with
  | cancel =>
      simp only [ContextCall.apply, cancelFromContext]
      by_cases hst : s.mgr.stateOf id = .executing
      · obtain ⟨hne, hmem⟩ := hexec hst
        simp [hst, hne, hmem]
      · simp [hst]
  | rescheduleAt due => simpa [ContextCall.apply] using hreschedule due
  | rescheduleAfter now delay =>
      simpa [ContextCall.apply] using hreschedule (timeAfter now delay)

/-- One call on a copied context. -/
theorem Reachable.inert_iff (hs : s.Reachable) (a : ContextAction τ) :
    s.Inert a ↔ s.Unclaimed a := by
  cases a with
  | other a => exact Iff.rfl
  | copied c call =>
      refine imp_congr_right fun _ => ?_
      rw [hs.apply_eq_iff, ne_eq, hs.executing_iff, not_and_or, not_not,
        Bool.not_eq_false, or_assoc]

theorem Reachable.stepContext {a : ContextAction τ} (hs : s.Reachable)
    (h : s.stepContext a = some s') : s'.Reachable := by
  cases a with
  | other a => exact hs.trans_run (Lts.run_one h)
  | copied c call =>
      simp only [TaskSystem.stepContext] at h
      split at h
      · exact hs.trans_run (Lts.run_one h)
      · cases h

theorem copied_inert_iff (acts : List (ContextAction τ)) :
    Lts.RunMeets stepContext Inert {} acts ↔
      Lts.RunMeets stepContext Unclaimed {} acts :=
  Lts.RunMeets.congr (P := Reachable) (fun _ _ _ hs h => hs.stepContext h)
    (fun _ a hs => hs.inert_iff a) (Lts.Reachable.refl _)

/-- The context of the first cycle of a series, kept, stops the series when it
is asked to during the second. -/
theorem copied_cancels_later_cycle : ¬ ∀ acts : List (ContextAction Unit),
    Lts.RunMeets stepContext Inert {} acts := by
  intro h
  let run : List (ContextAction Unit) :=
    [.postEveryAfter 0 0 0 5 (some ()) {}, .processBegin 0 7, .processStart,
      .processSettle, .callbackReturned 1 1, .processEnd, .processBegin 6 7,
      .processStart, .processSettle].map .other
  obtain ⟨s, hs, hexpired, hres⟩ : ∃ s : TaskSystem Unit,
      Lts.run TaskSystem.stepContext {} run = some s ∧
      s.Expired { id := 1, execution := 1 } ∧
      (s.mgr.cancelFromContext 1).2 = true :=
    Lts.exists_run_of_decide (by decide)
  have hinert := (h (run ++ [.copied { id := 1, execution := 1 } .cancel])).last hs
  have hfalse : s.mgr.cancelFromContext 1 = (s.mgr, false) := hinert hexpired
  rw [hfalse] at hres
  cases hres

end TaskSystem

end EventHub
