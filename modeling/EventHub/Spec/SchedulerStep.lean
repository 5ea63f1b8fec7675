import EventHub.Spec.Scheduler

/-!
# The eager scheduler beside other threads

What the steps of `Task/System.lean` do to the eager scheduler, with what each
of them adds to the log. A `cancel` that has lost the race against a start
changes nothing, and only for a task that does not wait; everything else that goes on around `process()` is one of the
operations of the scheduler. Nothing is said of the phase of the consumer
beyond what the batch and the running task show of it.
-/

namespace EventHub

namespace Scheduler

variable {τ : Type}

/-- The waiting tasks that are in no batch. -/
def queued (r : Scheduler τ) : List (Entry τ) := r.ready ++ r.delayed

def clear (r : Scheduler τ) : Scheduler τ :=
  { r with queue := fun _ => [], delayed := [] }

/-- The rest of the batch goes back to the fronts of the lists. -/
def restore (r : Scheduler τ) : Scheduler τ :=
  { r with
    queue := fun priority =>
      (r.batch.filter fun entry => entry.priority = priority) ++
        r.queue priority
    batch := [] }

/-- The next task of the batch starts. -/
def start (r : Scheduler τ) (entry : Entry τ) (batch : List (Entry τ)) :
    Scheduler τ :=
  { r with batch := batch, current := some { entry := entry } }

/-- The callback has returned and no other has started yet. -/
def conclude (r : Scheduler τ) (now now' : Int) (run : RunningTask τ) :
    Scheduler τ :=
  { r.finish now now' run with current := none, processed := r.processed + 1 }

open TaskSystem (submittedObs)

inductive Step (r : Scheduler τ) :
    TaskAction τ → List TaskObs → Scheduler τ → Prop
  | post (task : Option τ) (options : TaskOptions) :
      Step r (.post task options) (submittedObs [(r.post task options).2])
        (r.post task options).1
  | postAt (now due : Int) (task : Option τ) (options : TaskOptions) :
      Step r (.postAt now due task options)
        (submittedObs [(r.postAt now due task options).2])
        (r.postAt now due task options).1
  | postEveryAfter (now now' initialDelay interval : Int) (task : Option τ)
      (options : PeriodicTaskOptions) :
      Step r (.postEveryAfter now now' initialDelay interval task options)
        (submittedObs
          [(r.postEveryAfter now now' initialDelay interval task options).2])
        (r.postEveryAfter now now' initialDelay interval task options).1
  | postBatch (tasks : List (Option τ)) (options : TaskOptions) :
      Step r (.postBatch tasks options)
        (submittedObs (r.postBatch options tasks).2)
        (r.postBatch options tasks).1
  | close : Step r .close [] { r with closed := true }
  | cancelLoaded (id : Nat) : Step r (.cancelLoad id) [] r
  | cancelMissed (id : Nat) (h : (r.cancel id).2 = false) :
      Step r (.cancelLoad id) [.cancelReturned id false] r
  | cancelled (id : Nat) (h : (r.cancel id).2 = true) :
      Step r .cancelExchange [.cancelReturned id true] (r.cancel id).1
  | cancelLost (id : Nat) (h : r.waits id = false) :
      Step r .cancelExchange [.cancelReturned id false] r
  | contextCancel (id : Nat) :
      Step r (.contextCancel id)
        [.contextCancelReturned id (r.contextCancel id).2]
        (r.contextCancel id).1
  | contextReschedule (id : Nat) (due : Int) :
      Step r (.contextReschedule id due)
        [.rescheduleReturned id due (r.contextReschedule id due).2]
        (r.contextReschedule id due).1
  | clear (ids : List Nat)
      (h : ∀ id, id ∈ ids ↔ ∃ entry ∈ r.queued, entry.id = id) :
      Step r .clearPending (ids.map .cleared).reverse r.clear
  | nextDeadline : Step r .nextDeadline [] r
  | beginNothing (now : Int) :
      Step r (.processBegin now 0) [.processReturned 0] r
  | begin (now : Int) {maxTasks : Nat} (hmax : maxTasks ≠ 0)
      (hcurrent : r.current = none) (hbatch : r.batch = []) :
      Step r (.processBegin now maxTasks) []
        { (r.promote now).take maxTasks with processed := 0 }
  | skip : Step r .processStart [] r
  | start {entry : Entry τ} {batch : List (Entry τ)}
      (hcurrent : r.current = none) (hbatch : r.batch = entry :: batch) :
      Step r .processStart [.started entry.id] (r.start entry batch)
  | settle : Step r .processSettle [] r
  | returned (now now' : Int) {run : RunningTask τ}
      (hcurrent : r.current = some run) :
      Step r (.callbackReturned now now') [.returned run.entry.id]
        (r.conclude now now' run)
  | threw {run : RunningTask τ} (hcurrent : r.current = some run) :
      Step r .callbackThrew [.threw run.entry.id] { r with current := none }
  | handled :
      Step r .exceptionHandled [] { r with processed := r.processed + 1 }
  | escaped (hcurrent : r.current = none) :
      Step r .exceptionEscaped [.processThrew] r.restore
  | ended (hcurrent : r.current = none) (hbatch : r.batch = []) :
      Step r .processEnd [.processReturned r.processed] r

end Scheduler

end EventHub
