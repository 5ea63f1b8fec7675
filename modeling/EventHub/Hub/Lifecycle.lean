import EventHub.Hub.Process

/-!
# The lifecycle of a hub and its modules

`Module::initialize`, `start_worker` and `shutdown`, and the functions of
`ModuleHub` that call them for every module. Two things are left to the
program: whether a thread can be constructed, and what the hooks do. A worker
is joined by a thread that is not the worker, and joining waits until it has
gone.

`run()` is followed pass by pass. A pass carries its clock readings and what
other threads do while the loop works or waits. That they run out stands for a
stop request of some other thread, so that a list of any length is a run.
-/

namespace EventHub

variable {σ τ ε : Type}

/-- One iteration of `run_loop()`. -/
structure LoopPass (σ τ ε : Type) where
  clock : HubReading τ ε → Int
  /-- The reading of `has_pending()`. -/
  now : Int
  others : ModuleHub σ τ ε → ModuleHub σ τ ε := id

namespace ModuleHub

/-! ## One module -/

/-- `Module::initialize`. -/
def initializeModule (env : HubProgram σ τ ε) (clock : HubReading τ ε → Int)
    (k : Nat) (hub : ModuleHub σ τ ε) : ModuleHub σ τ ε × Option Nat :=
  if (hub.modules k).initialized then (hub, some 0)
  else if (hub.modules k).stopping || (hub.modules k).stopped then (hub, none)
  else
    match hub.call env clock (.onInitialize k) with
    | (hub, some _) =>
        (hub.setModule k { hub.modules k with initialized := true }, some 0)
    | (hub, none) => (hub, none)

/-- `Module::start_worker`. -/
def startWorker (env : HubProgram σ τ ε) (k : Nat) (hub : ModuleHub σ τ ε) :
    ModuleHub σ τ ε × Option Nat :=
  if (hub.modules k).options.execution ≠ .privateThread then (hub, some 0)
  else if (hub.modules k).worker then (hub, some 0)
  else
    let hub := hub.setModule k
      { hub.modules k with workerException := false,
                           workerStopRequested := false }
    if env.spawns hub k then
      (hub.setModule k { hub.modules k with worker := true }, some 0)
    else (hub, none)

/-- `Module::request_worker_stop`. -/
def requestWorkerStop (hub : ModuleHub σ τ ε) (k : Nat) : ModuleHub σ τ ε :=
  hub.setModule k { hub.modules k with workerStopRequested := true }

/-- `Module::join_worker_noexcept`. -/
def joinWorker (hub : ModuleHub σ τ ε) (k : Nat) : ModuleHub σ τ ε :=
  hub.setModule k { hub.modules k with worker := false }

/-- `EventEndpoint::close`. -/
def closeEndpoint (e : Nat) (w : World ε) : World ε :=
  let awaiters := (w.endpoints e).awaiters
  let w := w.setEndpoint e { closed := true, awaiters := [] }
  (awaiters.foldl (fun w a => cancelAwaiter a (.cancel .close) w)
    w).unsubscribeAll (.endpoint e)

/-- What `Module::shutdown` does after the hook. -/
def finishShutdown (hub : ModuleHub σ τ ε) (k : Nat) : ModuleHub σ τ ε :=
  let hub := hub.setTasks k (hub.modules k).tasks.close.1.clearPending.1
  let hub := hub.setBus (closeEndpoint (hub.modules k).endpoint hub.bus)
  hub.setModule k
    { hub.modules k with initialized := false, stopped := true,
                         stopping := false }

/-- `Module::shutdown`; an exception of the hook goes no further. -/
def shutdownModule (env : HubProgram σ τ ε) (clock : HubReading τ ε → Int)
    (hub : ModuleHub σ τ ε) (k : Nat) : ModuleHub σ τ ε :=
  if (hub.modules k).stopped || (hub.modules k).stopping then hub
  else
    let hub := hub.setModule k { hub.modules k with stopping := true }
    let hub := (hub.requestWorkerStop k).joinWorker k
    let hub :=
      if (hub.modules k).initialized then
        (hub.call env clock (.onShutdown k)).1
      else hub
    hub.finishShutdown k

/-! ## All modules -/

/-- The numbers of the modules in reverse order of registration. -/
def reversed (hub : ModuleHub σ τ ε) : List Nat :=
  (List.range hub.moduleCount).reverse

/-- Stops and joins the workers, then shuts down the modules in reverse
order: the handler of `initialize()` and the body of `shutdown()`. -/
def shutdownModules (env : HubProgram σ τ ε) (clock : HubReading τ ε → Int)
    (hub : ModuleHub σ τ ε) : ModuleHub σ τ ε :=
  let hub := (List.range hub.moduleCount).foldl requestWorkerStop hub
  let hub := (List.range hub.moduleCount).foldl joinWorker hub
  hub.reversed.foldl (shutdownModule env clock) hub

/-- `ModuleHub::initialize`. -/
def initializeHub (env : HubProgram σ τ ε) (clock : HubReading τ ε → Int)
    (hub : ModuleHub σ τ ε) : ModuleHub σ τ ε × Option Nat :=
  if hub.initialized then (hub, some 0)
  else
    match forModules (initializeModule env clock) (List.range hub.moduleCount)
        0 hub with
    | (hub, none) => (hub.shutdownModules env clock, none)
    | (hub, some _) =>
        match forModules (startWorker env) (List.range hub.moduleCount) 0
            hub with
        | (hub, none) => (hub.shutdownModules env clock, none)
        | (hub, some _) => ({ hub with initialized := true }, some 0)

/-- `ModuleHub::request_stop`, without the notifications. -/
def requestStop (hub : ModuleHub σ τ ε) : ModuleHub σ τ ε :=
  (List.range hub.moduleCount).foldl requestWorkerStop
    { hub with stopRequested := true }

/-- `ModuleHub::shutdown`. -/
def shutdown (env : HubProgram σ τ ε) (clock : HubReading τ ε → Int)
    (hub : ModuleHub σ τ ε) : ModuleHub σ τ ε :=
  let hub := hub.requestStop.shutdownModules env clock
  { hub with bus := { hub.bus with queue := [] }, initialized := false }

/-- `ModuleHub::run_loop`. -/
def runLoop (env : HubProgram σ τ ε) :
    List (LoopPass σ τ ε) → ModuleHub σ τ ε → ModuleHub σ τ ε × Option Nat
  | [], hub => ({ hub with stopRequested := true }, some 0)
  | pass :: passes, hub =>
      if hub.stopRequested then (hub, some 0)
      else
        match hub.process env pass.clock with
        | (hub, none) => (hub, none)
        | (hub, some workDone) =>
            if workDone ≠ 0 then runLoop env passes (pass.others hub)
            else if hub.stopRequested then (hub, some 0)
            else
              let (hub, pending) := hub.hasPending env pass.now
              if pending then runLoop env passes (pass.others hub)
              else runLoop env passes (pass.others (hub.nextDeadline env).1)

/-- `ModuleHub::run`. -/
def run (env : HubProgram σ τ ε) (clock : HubReading τ ε → Int)
    (passes : List (LoopPass σ τ ε)) (hub : ModuleHub σ τ ε) :
    ModuleHub σ τ ε × Option Nat :=
  if hub.running then (hub, none)
  else
    match initializeHub env clock
        { hub with running := true, stopRequested := false } with
    | (hub, none) => ({ hub.shutdown env clock with running := false }, none)
    | (hub, some _) =>
        match hub.runLoop env passes with
        | (hub, none) =>
            ({ hub.shutdown env clock with running := false }, none)
        | (hub, some _) =>
            ({ hub.shutdown env clock with running := false }, some 0)

end ModuleHub

/-! ## The life of a hub -/

/-- What the owner of a hub calls, and what other threads do in between. -/
inductive HubOp (σ τ ε : Type)
  | initializeHub (clock : HubReading τ ε → Int)
  | process (clock : HubReading τ ε → Int)
  | shutdown (clock : HubReading τ ε → Int)
  | run (clock : HubReading τ ε → Int) (passes : List (LoopPass σ τ ε))
  | others (change : ModuleHub σ τ ε → ModuleHub σ τ ε)

namespace ModuleHub

def apply (env : HubProgram σ τ ε) (hub : ModuleHub σ τ ε) :
    HubOp σ τ ε → ModuleHub σ τ ε
  | .initializeHub clock => (hub.initializeHub env clock).1
  | .process clock => (hub.process env clock).1
  | .shutdown clock => hub.shutdown env clock
  | .run clock passes => (hub.run env clock passes).1
  | .others change => change hub

/-- The calls one after another; whoever makes them catches what they throw. -/
def live (env : HubProgram σ τ ε) (ops : List (HubOp σ τ ε))
    (hub : ModuleHub σ τ ε) : ModuleHub σ τ ε :=
  ops.foldl (apply env) hub

/-- `~ModuleHub`, up to the destruction of the members. -/
def destroy (env : HubProgram σ τ ε) (clock : HubReading τ ε → Int)
    (hub : ModuleHub σ τ ε) : ModuleHub σ τ ε :=
  hub.requestStop.shutdown env clock

end ModuleHub

end EventHub
