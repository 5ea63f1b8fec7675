import EventHub.Hub.Types

/-!
# `ModuleHub` as a passive source

`process()`, `has_pending()` and `next_deadline()` with everything they call.
A result of `none` is an exception. `clock` gives the readings of one call of
`process()`; the two queries read the clock once or not at all.
-/

namespace EventHub

variable {σ τ ε : Type}

namespace ModuleHub

/-! ## The bus -/

/-- One record in the loop of `EventBus::dispatch`. -/
def dispatchRecord (env : HubProgram σ τ ε) (clock : HubReading τ ε → Int)
    (ev : Event ε) (record : CallbackRecord) (hub : ModuleHub σ τ ε) :
    ModuleHub σ τ ε × Option Nat :=
  if record.hasGuard && !(record.guard.any (env.locks hub)) then (hub, some 0)
  else
    match hub.call env clock (.handler record ev) with
    | (hub, some n) => (hub, some n)
    | (hub, none) =>
        if hub.bus.exceptionHandler then hub.call env clock .busExceptionHandler
        else (hub, none)

def dispatchRecords (env : HubProgram σ τ ε) (clock : HubReading τ ε → Int)
    (ev : Event ε) :
    List CallbackRecord → ModuleHub σ τ ε → ModuleHub σ τ ε × Option Nat
  | [], hub => (hub, some 0)
  | record :: records, hub =>
      match hub.dispatchRecord env clock ev record with
      | (hub, some _) => dispatchRecords env clock ev records hub
      | (hub, none) => (hub, none)

/-- `EventBus::dispatch`, over a copy of the records. -/
def dispatch (env : HubProgram σ τ ε) (clock : HubReading τ ε → Int)
    (ev : Event ε) (hub : ModuleHub σ τ ε) : ModuleHub σ τ ε × Option Nat :=
  dispatchRecords env clock ev (hub.bus.callbacks ev.type) hub

/-- The loop of `EventBus::process`. -/
def drain (env : HubProgram σ τ ε) (clock : HubReading τ ε → Int) :
    List (QueuedEvent ε) → Nat → ModuleHub σ τ ε →
      ModuleHub σ τ ε × Option Nat
  | [], processed, hub => (hub, some processed)
  | queued :: rest, processed, hub =>
      match hub.dispatch env clock queued.event with
      | (hub, some _) => drain env clock rest (processed + 1) hub
      | (hub, none) =>
          (hub.setBus
            { hub.bus with
              queue := World.restoreUnprocessedEvents hub.bus.queue rest }, none)

/-- `EventAwaiter::cancel`. -/
def cancelAwaiter (a : Nat) (cause : Cause) (w : World ε) : World ε :=
  if w.isActive a then (w.deactivate a cause).release a else w

/-- The deadline of the awaiter has passed. -/
def timedOut (w : World ε) (a : Nat) (now : Int) : Bool :=
  (w.awaiters a).deadline.any fun due => (due : Int) ≤ now

/-- `EventAwaiter::poll_timeout`, which lets no exception out. -/
def pollTimeout (env : HubProgram σ τ ε) (clock : HubReading τ ε → Int)
    (hub : ModuleHub σ τ ε) (a : Nat) : ModuleHub σ τ ε :=
  if !hub.bus.isActive a then hub
  else if hub.bus.tokenCancelled a then
    hub.setBus (cancelAwaiter a (.cancel .token) hub.bus)
  else if timedOut hub.bus a (clock (.poll a)) then
    let awaiter := hub.bus.awaiters a
    let bus := hub.bus.setAwaiter a { awaiter with onTimeout := false }
    let hub := hub.setBus (cancelAwaiter a .timeout bus)
    if awaiter.onTimeout then
      match hub.call env clock (.onTimeout a) with
      | (hub, some _) => hub
      | (hub, none) =>
          if hub.bus.exceptionHandler then
            (hub.call env clock .busExceptionHandler).1
          else hub
    else hub
  else hub

/-- `EventBus::poll_awaiters`. -/
def pollAwaiters (env : HubProgram σ τ ε) (clock : HubReading τ ε → Int)
    (hub : ModuleHub σ τ ε) : ModuleHub σ τ ε :=
  let bus := hub.bus.pruneRegistered
  bus.registered.foldl (pollTimeout env clock) (hub.setBus bus)

/-- `EventBus::process`. -/
def processBus (env : HubProgram σ τ ε) (clock : HubReading τ ε → Int)
    (hub : ModuleHub σ τ ε) : ModuleHub σ τ ε × Option Nat :=
  match drain env clock hub.bus.queue 0
      (hub.setBus { hub.bus with queue := [] }) with
  | (hub, some processed) => (hub.pollAwaiters env clock, some processed)
  | (hub, none) => (hub, none)

/-! ## The tasks of a module -/

/-- The loop of `TaskManager::process` over its batch. -/
def runBatch (env : HubProgram σ τ ε) (clock : HubReading τ ε → Int)
    (k : Nat) : List (Entry τ) → Nat → ModuleHub σ τ ε →
      ModuleHub σ τ ε × Option Nat
  | [], processed, hub => (hub, some processed)
  | entry :: rest, processed, hub =>
      match (hub.modules k).tasks.start entry with
      | none => runBatch env clock k rest processed hub
      | some tasks =>
          match (hub.setTasks k (tasks.settleStart entry)).call env clock
              (.task k entry) with
          | (hub, some _) =>
              runBatch env clock k rest (processed + 1)
                (hub.setTasks k ((hub.modules k).tasks.finishAfterSuccess
                  (clock (.planned k entry.id)) (clock (.enqueued k entry.id))
                  entry))
          | (hub, none) =>
              let hub := hub.setTasks k
                ((hub.modules k).tasks.finishAfterException entry)
              if (hub.modules k).exceptionHandler then
                match hub.call env clock (.taskExceptionHandler k) with
                | (hub, some _) =>
                    runBatch env clock k rest (processed + 1) hub
                | (hub, none) =>
                    (hub.setTasks k ((hub.modules k).tasks.restoreUnrun rest),
                      none)
              else
                (hub.setTasks k ((hub.modules k).tasks.restoreUnrun rest), none)

/-- `TaskManager::process` of module `k`. -/
def processTasks (env : HubProgram σ τ ε) (clock : HubReading τ ε → Int)
    (k maxTasks : Nat) (hub : ModuleHub σ τ ε) :
    ModuleHub σ τ ε × Option Nat :=
  if maxTasks = 0 then (hub, some 0)
  else
    let (batch, tasks) :=
      (hub.modules k).tasks.beginProcess (clock (.promoted k)) maxTasks
    runBatch env clock k batch 0 (hub.setTasks k tasks)

/-! ## `process()` -/

/-- `Module::rethrow_worker_exception`. -/
def rethrowWorkerException (k : Nat) (hub : ModuleHub σ τ ε) :
    ModuleHub σ τ ε × Option Nat :=
  if (hub.modules k).workerException then
    (hub.setModule k { hub.modules k with workerException := false }, none)
  else (hub, some 0)

/-- The body of the first loop of `process()`. -/
def processInline (env : HubProgram σ τ ε) (clock : HubReading τ ε → Int)
    (k : Nat) (hub : ModuleHub σ τ ε) : ModuleHub σ τ ε × Option Nat :=
  match hub.rethrowWorkerException k with
  | (hub, none) => (hub, none)
  | (hub, some _) =>
      if !(hub.modules k).isInline || !(hub.modules k).live then (hub, some 0)
      else
        hub.processTasks env clock k (hub.modules k).options.maxTasksPerProcess

/-- `Module::process`. -/
def processModule (env : HubProgram σ τ ε) (clock : HubReading τ ε → Int)
    (k : Nat) (hub : ModuleHub σ τ ε) : ModuleHub σ τ ε × Option Nat :=
  match hub.rethrowWorkerException k with
  | (hub, none) => (hub, none)
  | (hub, some _) =>
      if !(hub.modules k).live then (hub, some 0)
      else hub.call env clock (.onProcess k)

/-- A loop over modules that adds up the work done and stops at the first
exception. -/
def forModules (body : Nat → ModuleHub σ τ ε → ModuleHub σ τ ε × Option Nat) :
    List Nat → Nat → ModuleHub σ τ ε → ModuleHub σ τ ε × Option Nat
  | [], workDone, hub => (hub, some workDone)
  | k :: ks, workDone, hub =>
      match body k hub with
      | (hub, some n) => forModules body ks (workDone + n) hub
      | (hub, none) => (hub, none)

/-- `ModuleHub::process`. -/
def process (env : HubProgram σ τ ε) (clock : HubReading τ ε → Int)
    (hub : ModuleHub σ τ ε) : ModuleHub σ τ ε × Option Nat :=
  match hub.processBus env clock with
  | (hub, none) => (hub, none)
  | (hub, some workDone) =>
      match forModules (processInline env clock) (List.range hub.moduleCount)
          workDone hub with
      | (hub, none) => (hub, none)
      | (hub, some workDone) =>
          forModules (processModule env clock) (List.range hub.moduleCount)
            workDone hub

/-! ## The queries -/

/-- What `has_pending()` asks the task manager of an inline module; the
deadline is looked up only when nothing is ready. -/
def tasksPending (now : Int) (k : Nat) (hub : ModuleHub σ τ ε) :
    ModuleHub σ τ ε × Bool :=
  if !(hub.modules k).isInline then (hub, false)
  else if (hub.modules k).tasks.hasReady then (hub, true)
  else
    let (tasks, deadline) := (hub.modules k).tasks.nextDeadline
    (hub.setTasks k tasks, deadline.any (· ≤ now))

/-- The loop of `has_pending()`. -/
def modulesPending (env : HubProgram σ τ ε) (now : Int) :
    List Nat → ModuleHub σ τ ε → ModuleHub σ τ ε × Bool
  | [], hub => (hub, false)
  | k :: ks, hub =>
      if !(hub.modules k).live then modulesPending env now ks hub
      else
        match hub.tasksPending now k with
        | (hub, true) => (hub, true)
        | (hub, false) =>
            if (env.deadlineHint k hub.program).any (· ≤ now) then (hub, true)
            else modulesPending env now ks hub

/-- `ModuleHub::has_pending`; it prunes the delayed tasks it looks at. -/
def hasPending (env : HubProgram σ τ ε) (now : Int) (hub : ModuleHub σ τ ε) :
    ModuleHub σ τ ε × Bool :=
  if !hub.bus.queue.isEmpty then (hub, true)
  else modulesPending env now (List.range hub.moduleCount) hub

/-- `ModuleHub::update_best_deadline`. -/
def updateBestDeadline (best candidate : Option Int) : Option Int :=
  match candidate with
  | none => best
  | some due =>
      match best with
      | none => some due
      | some earliest => if due < earliest then some due else best

/-- The loop of `next_deadline()`. -/
def modulesDeadline (env : HubProgram σ τ ε) :
    List Nat → Option Int → ModuleHub σ τ ε → ModuleHub σ τ ε × Option Int
  | [], best, hub => (hub, best)
  | k :: ks, best, hub =>
      if !(hub.modules k).live then modulesDeadline env ks best hub
      else if (hub.modules k).isInline then
        let (tasks, deadline) := (hub.modules k).tasks.nextDeadline
        let hub := hub.setTasks k tasks
        modulesDeadline env ks
          (updateBestDeadline (updateBestDeadline best deadline)
            (env.deadlineHint k hub.program)) hub
      else
        modulesDeadline env ks
          (updateBestDeadline best (env.deadlineHint k hub.program)) hub

/-- `ModuleHub::next_deadline`. -/
def nextDeadline (env : HubProgram σ τ ε) (hub : ModuleHub σ τ ε) :
    ModuleHub σ τ ε × Option Int :=
  modulesDeadline env (List.range hub.moduleCount) none hub

end ModuleHub

end EventHub
