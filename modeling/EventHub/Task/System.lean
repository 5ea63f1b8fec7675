import EventHub.Lib.Lts
import EventHub.Task.Manager

/-!
# `TaskManager` under one consumer and any number of producers

The critical sections of `Task/Manager.lean` interleaved. A critical section is
one step, enabled while `m_mutex` is free, with one exception: `cancel` loads
the state and exchanges it in two steps, because `process()` performs its start
transition outside the mutex and can fall between them. No other section has
an access that a step outside the mutex could change. Enqueuing touches a
control nobody has yet, the context operations act on `executing` only, which
the consumer leaves under the mutex, and the rest belongs to the consumer.

The consumer is a program counter: at the head of the loop of `process()`,
between a start transition and the decrement that follows it, inside a
callback, or reporting an exception. Callbacks and exception handlers are not
modelled as code: while one runs, every operation open to a producer is
enabled, and when it ends it may have returned or thrown. That covers every
callback and every handler policy. `clearPending` and `close` are enabled
everywhere for the same reason. What is left out is a `process()` inside a
`process()`: the source has no guard against a callback that processes its own
manager, and that no callback does so is an assumption on the program.

`log` is a history variable, newest first: what the calls returned and which
callbacks started.
-/

namespace EventHub

/-- What an observer of the manager sees. -/
inductive TaskObs
  /-- A submission was accepted under this id. -/
  | submitted (id : Nat)
  /-- `cancel(id)` returned. -/
  | cancelReturned (id : Nat) (result : Bool)
  /-- `cancel()` on a context of `id` returned. -/
  | contextCancelReturned (id : Nat) (result : Bool)
  /-- `reschedule_at(due)` on a context of `id` returned. -/
  | rescheduleReturned (id : Nat) (due : Int) (result : Bool)
  /-- `clear_pending()` counted the task. -/
  | cleared (id : Nat)
  /-- The start transition of `process()`: the callback starts. -/
  | started (id : Nat)
  /-- The callback returned normally. -/
  | returned (id : Nat)
  /-- The callback threw. -/
  | threw (id : Nat)
  | processReturned (count : Nat)
  | processThrew
  deriving DecidableEq, Repr

/-- Where the consumer is in `process()`; `unrun` is the batch from the loop
index on. -/
inductive Phase (τ : Type)
  | idle
  | scanning (unrun : List (Entry τ))
  | starting (entry : Entry τ) (unrun : List (Entry τ))
  | running (entry : Entry τ) (unrun : List (Entry τ))
  | reporting (unrun : List (Entry τ))
  deriving DecidableEq, Repr

namespace Phase

variable {τ : Type}

/-- The part of the current batch that has not been looked at. -/
def unrun : Phase τ → List (Entry τ)
  | .idle => []
  | .scanning unrun | .starting _ unrun | .running _ unrun
  | .reporting unrun => unrun

/-- The entry whose start transition was won and which is not finished. -/
def current : Phase τ → Option (Entry τ)
  | .starting entry _ | .running entry _ => some entry
  | _ => none

/-- The current batch as far as it is not finished with. -/
def batch (p : Phase τ) : List (Entry τ) := p.current.toList ++ p.unrun

/-- One while a one-shot task is started and still counted as pending. -/
def owed : Phase τ → Int
  | .starting entry _ => if entry.periodic then 0 else 1
  | _ => 0

end Phase

structure TaskSystem (τ : Type) where
  mgr : TaskManager τ := {}
  /-- A `cancel` that holds `m_mutex`: its id and the state it has loaded. -/
  cancelling : Option (Nat × State) := none
  phase : Phase τ := .idle
  processed : Nat := 0
  log : List TaskObs := []

inductive TaskAction (τ : Type)
  | post (task : Option τ) (options : TaskOptions)
  | postAt (now due : Int) (task : Option τ) (options : TaskOptions)
  | postEveryAfter (now now' : Int) (initialDelay interval : Int)
      (task : Option τ) (options : PeriodicTaskOptions)
  | postBatch (tasks : List (Option τ)) (options : TaskOptions)
  | close
  | cancelLoad (id : Nat)
  | cancelExchange
  | contextCancel (id : Nat)
  | contextReschedule (id : Nat) (due : Int)
  | clearPending
  | nextDeadline
  | processBegin (now : Int) (maxTasks : Nat)
  | processStart
  | processSettle
  | callbackReturned (now now' : Int)
  | callbackThrew
  | exceptionHandled
  | exceptionEscaped
  | processEnd

/-- The calls of the manager that are one critical section and belong to no
call of `process()`. -/
def TaskAction.produces {τ : Type} : TaskAction τ → Bool
  | .post .. | .postAt .. | .postEveryAfter .. | .postBatch .. | .close
  | .contextCancel _ | .contextReschedule .. | .clearPending
  | .nextDeadline => true
  | _ => false

namespace TaskSystem

variable {τ : Type}

/-- The accepted ids of a submission, newest first. -/
def submittedObs (ids : List Nat) : List TaskObs :=
  ((ids.filter (· ≠ 0)).map .submitted).reverse

/-- The manager and the ids after a submission. -/
def submit (s : TaskSystem τ) (r : TaskManager τ × List Nat) :
    TaskSystem τ :=
  { s with mgr := r.1, log := submittedObs r.2 ++ s.log }

/-- Steps of the consumer that `process()` takes outside the mutex. -/
def stepFree (s : TaskSystem τ) : TaskAction τ → Option (TaskSystem τ)
  | .processStart =>
      match s.phase with
      | .scanning (entry :: unrun) =>
          match s.mgr.start entry with
          | some mgr =>
              some { s with mgr := mgr, phase := .starting entry unrun,
                            log := .started entry.id :: s.log }
          | none => some { s with phase := .scanning unrun }
      | _ => none
  | .processSettle =>
      match s.phase with
      | .starting entry unrun =>
          some { s with mgr := s.mgr.settleStart entry,
                        phase := .running entry unrun }
      | _ => none
  | .exceptionHandled =>
      match s.phase with
      | .reporting unrun =>
          some { s with phase := .scanning unrun, processed := s.processed + 1 }
      | _ => none
  | .processEnd =>
      match s.phase with
      | .scanning [] =>
          some { s with phase := .idle,
                        log := .processReturned s.processed :: s.log }
      | _ => none
  | _ => none

/-- The second half of `cancel`, under the mutex its first half took. -/
def stepExchange (s : TaskSystem τ) : Option (TaskSystem τ) :=
  match s.cancelling with
  | some (id, loaded) =>
      let (mgr, result) := s.mgr.cancelLoaded id loaded
      some { s with mgr := mgr, cancelling := none,
                    log := .cancelReturned id result :: s.log }
  | none => none

/-- The critical sections. -/
def stepLocked (s : TaskSystem τ) : TaskAction τ → Option (TaskSystem τ)
  | .post task options =>
      let (mgr, id) := s.mgr.post task options
      some (s.submit (mgr, [id]))
  | .postAt now due task options =>
      let (mgr, id) := s.mgr.postAt now due task options
      some (s.submit (mgr, [id]))
  | .postEveryAfter now now' initialDelay interval task options =>
      let (mgr, id) :=
        s.mgr.postEveryAfter now now' initialDelay interval task options
      some (s.submit (mgr, [id]))
  | .postBatch tasks options => some (s.submit (s.mgr.postBatch tasks options))
  | .close => some { s with mgr := s.mgr.close.1 }
  | .cancelLoad id =>
      if id ≠ 0 ∧ id ∈ s.mgr.index then
        some { s with cancelling := some (id, s.mgr.stateOf id) }
      else some { s with log := .cancelReturned id false :: s.log }
  | .contextCancel id =>
      let (mgr, result) := s.mgr.cancelFromContext id
      some { s with mgr := mgr, log := .contextCancelReturned id result :: s.log }
  | .contextReschedule id due =>
      let (mgr, result) := s.mgr.rescheduleFromContext id due
      some { s with mgr := mgr,
                    log := .rescheduleReturned id due result :: s.log }
  | .clearPending =>
      let (mgr, dropped) := s.mgr.clearPending
      some { s with mgr := mgr, log := (dropped.map .cleared).reverse ++ s.log }
  | .nextDeadline => some { s with mgr := s.mgr.nextDeadline.1 }
  | .processBegin now maxTasks =>
      -- not nested in another call, by assumption
      match s.phase with
      | .idle =>
          if maxTasks = 0 then
            some { s with log := .processReturned 0 :: s.log }
          else
            let (batch, mgr) := s.mgr.beginProcess now maxTasks
            some { s with mgr := mgr, phase := .scanning batch, processed := 0 }
      | _ => none
  | .callbackReturned now now' =>
      match s.phase with
      | .running entry unrun =>
          some { s with mgr := s.mgr.finishAfterSuccess now now' entry,
                        phase := .scanning unrun,
                        processed := s.processed + 1,
                        log := .returned entry.id :: s.log }
      | _ => none
  | .callbackThrew =>
      match s.phase with
      | .running entry unrun =>
          some { s with mgr := s.mgr.finishAfterException entry,
                        phase := .reporting unrun,
                        log := .threw entry.id :: s.log }
      | _ => none
  | .exceptionEscaped =>
      match s.phase with
      | .reporting unrun =>
          some { s with mgr := s.mgr.restoreUnrun unrun, phase := .idle,
                        log := .processThrew :: s.log }
      | _ => none
  | _ => none

/-- One step of any thread. -/
def step (s : TaskSystem τ) (a : TaskAction τ) : Option (TaskSystem τ) :=
  match a with
  | .processStart | .processSettle | .exceptionHandled | .processEnd =>
      s.stepFree a
  | .cancelExchange => s.stepExchange
  | _ => if s.cancelling.isNone then s.stepLocked a else none

/-- The states of a manager under any program and any interleaving. -/
def Reachable (s : TaskSystem τ) : Prop := Lts.Reachable step {} s

end TaskSystem

end EventHub
