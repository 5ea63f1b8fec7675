import EventHub.Task.System

/-!
# One thread using a manager

The calls a single thread makes, one after another, with `process()` cut at
its callbacks: a call of `process` runs until the first callback starts or the
call returns, and `callbackReturned` continues it. Every call gets one reply,
its return value, or the id of the callback that starts.
-/

namespace EventHub

inductive Call (τ : Type)
  | post (task : Option τ) (options : TaskOptions)
  | postAt (now due : Int) (task : Option τ) (options : TaskOptions)
  | postEveryAfter (now now' : Int) (initialDelay interval : Int)
      (task : Option τ) (options : PeriodicTaskOptions)
  | postBatch (tasks : List (Option τ)) (options : TaskOptions)
  | close
  | cancel (id : Nat)
  | contextCancel (id : Nat)
  | contextIsCancelled (id : Nat)
  | contextReschedule (id : Nat) (due : Int)
  | nextDeadline
  | process (now : Int) (maxTasks : Nat)
  | callbackReturned (now now' : Int)

inductive Reply
  | done
  | ids (ids : List Nat)
  | flag (result : Bool)
  | deadline (due : Option Int)
  | started (id : Nat)
  | returned (count : Nat)
  deriving DecidableEq, Repr

namespace TaskSystem

variable {τ : Type}

/-- `process()` from the head of its loop to the next callback or its end. -/
def advance : List (Entry τ) → TaskSystem τ → TaskSystem τ × Reply
  | [], s =>
      ({ s with phase := .idle, log := .processReturned s.processed :: s.log },
        .returned s.processed)
  | entry :: unrun, s =>
      match s.mgr.start entry with
      | some mgr =>
          ({ s with mgr := mgr.settleStart entry,
                    phase := .running entry unrun,
                    log := .started entry.id :: s.log }, .started entry.id)
      | none => advance unrun { s with phase := .scanning unrun }

/-- One call of the thread. `process` is refused inside a callback, and there
is no callback to return from outside of one. -/
def serve (s : TaskSystem τ) : Call τ → Option (TaskSystem τ × Reply)
  | .post task options =>
      let (mgr, id) := s.mgr.post task options
      some (s.submit (mgr, [id]), .ids [id])
  | .postAt now due task options =>
      let (mgr, id) := s.mgr.postAt now due task options
      some (s.submit (mgr, [id]), .ids [id])
  | .postEveryAfter now now' initialDelay interval task options =>
      let (mgr, id) :=
        s.mgr.postEveryAfter now now' initialDelay interval task options
      some (s.submit (mgr, [id]), .ids [id])
  | .postBatch tasks options =>
      let (mgr, ids) := s.mgr.postBatch tasks options
      some (s.submit (mgr, ids), .ids ids)
  | .close => some ({ s with mgr := s.mgr.close.1 }, .done)
  | .cancel id =>
      let (mgr, result) := s.mgr.cancel id
      some ({ s with mgr := mgr, log := .cancelReturned id result :: s.log },
        .flag result)
  | .contextCancel id =>
      let (mgr, result) := s.mgr.cancelFromContext id
      some ({ s with mgr := mgr,
                     log := .contextCancelReturned id result :: s.log },
        .flag result)
  | .contextIsCancelled id => some (s, .flag (s.mgr.isCancelledForContext id))
  | .contextReschedule id due =>
      let (mgr, result) := s.mgr.rescheduleFromContext id due
      some ({ s with mgr := mgr,
                     log := .rescheduleReturned id due result :: s.log },
        .flag result)
  | .nextDeadline =>
      let (mgr, due) := s.mgr.nextDeadline
      some ({ s with mgr := mgr }, .deadline due)
  | .process now maxTasks =>
      match s.phase with
      | .idle =>
          if maxTasks = 0 then
            some ({ s with log := .processReturned 0 :: s.log }, .returned 0)
          else
            let (batch, mgr) := s.mgr.beginProcess now maxTasks
            some (advance batch
              { s with mgr := mgr, phase := .scanning batch, processed := 0 })
      | _ => none
  | .callbackReturned now now' =>
      match s.phase with
      | .running entry unrun =>
          some (advance unrun
            { s with mgr := s.mgr.finishAfterSuccess now now' entry,
                     phase := .scanning unrun,
                     processed := s.processed + 1,
                     log := .returned entry.id :: s.log })
      | _ => none

end TaskSystem

end EventHub
