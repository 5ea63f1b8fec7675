import EventHub.Task.System

/-!
# What the log of a manager says about one task

Everything here is read off the log alone, newest observation first, without
looking at the manager.
-/

namespace EventHub

/-- The observation after which the callback of `id` must not start: `cancel`
or the task's own context returned true, or `clear_pending` counted it. -/
def TaskObs.withdraws (id : Nat) : TaskObs → Bool
  | .cancelReturned j result | .contextCancelReturned j result =>
      j = id && result
  | .cleared j => j = id
  | _ => false

def withdrawn (id : Nat) (log : List TaskObs) : Bool :=
  log.any (TaskObs.withdraws id)

/-- How often the callback of `id` has started. -/
def starts (id : Nat) (log : List TaskObs) : Nat :=
  log.count (.started id)

/-- How often the callback of `id` has ended. -/
def ends (id : Nat) (log : List TaskObs) : Nat :=
  log.count (.returned id) + log.count (.threw id)

/-- A reschedule of `id` was accepted since its callback last started. -/
def acceptedReschedule (id : Nat) : List TaskObs → Bool
  | [] => false
  | .started j :: log => j ≠ id && acceptedReschedule id log
  | .rescheduleReturned j _ result :: log =>
      j = id && result || acceptedReschedule id log
  | _ :: log => acceptedReschedule id log

/-- The executions of `id` that returned normally with an accepted
reschedule. -/
def rescheduledRuns (id : Nat) : List TaskObs → Nat
  | [] => 0
  | .returned j :: log =>
      rescheduledRuns id log +
        if j = id && acceptedReschedule id log then 1 else 0
  | _ :: log => rescheduledRuns id log

/-- The callback of `id` has ended at least once, and either way. -/
def ended (id : Nat) (log : List TaskObs) : Bool :=
  log.any fun o => o = .returned id || o = .threw id

/-- What was observed since the callback of `id` last started. -/
def sinceStart (id : Nat) (log : List TaskObs) : List TaskObs :=
  log.takeWhile (· ≠ .started id)

/-- The observation is an accepted reschedule of `id`. -/
def TaskObs.reschedules (id : Nat) : TaskObs → Bool
  | .rescheduleReturned j _ result => j = id && result
  | _ => false

/-- The observation cancels the task, reschedules it, or reports that its
callback threw. -/
def TaskObs.disturbs (id : Nat) (o : TaskObs) : Bool :=
  o.withdraws id || o.reschedules id || o = .threw id

/-- The deadline of the reschedule of `id` that was accepted last. -/
def lastReschedule (id : Nat) : List TaskObs → Option Int
  | [] => none
  | .rescheduleReturned j due result :: log =>
      if j = id && result then some due else lastReschedule id log
  | _ :: log => lastReschedule id log

variable {id : Nat}

theorem starts_append {obs : List TaskObs} (h : .started id ∉ obs)
    (log : List TaskObs) : starts id (obs ++ log) = starts id log := by
  unfold starts
  rw [List.count_append, List.count_eq_zero.mpr h, Nat.zero_add]

theorem acceptedReschedule_append {obs log : List TaskObs}
    (h : .started id ∉ obs) (hacc : acceptedReschedule id log) :
    acceptedReschedule id (obs ++ log) := by
  induction obs with
  | nil => exact hacc
  | cons o obs ih =>
      rw [List.mem_cons, not_or] at h
      have hrest := ih h.2
      cases o
      case started j =>
        have hj : j ≠ id := fun heq => h.1 (by rw [heq])
        simp [acceptedReschedule, hj, hrest]
      all_goals simp [acceptedReschedule, hrest]

theorem rescheduledRuns_append (id : Nat) (obs log : List TaskObs) :
    rescheduledRuns id log ≤ rescheduledRuns id (obs ++ log) := by
  induction obs with
  | nil => exact Nat.le_refl _
  | cons o obs ih =>
      cases o
      case returned j =>
        simp only [List.cons_append, rescheduledRuns]
        omega
      all_goals exact ih

end EventHub
