import EventHub.Hub.Types
import EventHub.Loop.Sources

/-!
# `ModuleHub::run_loop` and the workers of private modules

The hub and every private module have a notifier of their own. What the hub
looks for is spread over its modules: the bus, the tasks of those that are
processed inline, the hints of all, and the exceptions that workers have left.
A worker looks for the tasks of its module. Each of these loops is a program
counter; the threads of the program, and those of the loops while they run code
of the program, may do to the sources what they like.

The hub has been wired and initialized, and its notifier is not replaced while
it runs. A module may be shut down meanwhile, of which all that the hub notices
is that the module is no longer live; a module becomes live, and a hint changes,
only in code that runs on the hub's thread.
-/

namespace EventHub

/-- The threads that have a loop to run. -/
inductive HubRole (κ : Type)
  | hub
  | worker (k : κ)
  | other

inductive HubFlag (κ : Type)
  /-- `m_stop_requested`. -/
  | stop
  /-- `m_worker_stop_requested` of the module. -/
  | workerStop (k : κ)
  /-- `m_worker_exception` of the module is set. -/
  | workerException (k : κ)
  deriving DecidableEq, Repr

inductive HubNotifier (κ : Type)
  /-- `m_local_notifier`. -/
  | hub
  /-- `m_worker_notifier` of the module. -/
  | worker (k : κ)
  /-- Whatever the program uses for a manual module. -/
  | other (k : κ)
  deriving DecidableEq, Repr

structure HubSetup (ι κ : Type) where
  thread : ι
  worker : κ → ι
  /-- Who processes the tasks of a manual module. -/
  manual : κ → ι
  role : ι → HubRole κ
  role_thread : role thread = .hub
  role_worker : ∀ k, role (worker k) = .worker k
  modules : List κ
  options : κ → ModuleOptions := fun _ => defaultOptions

namespace HubSetup

variable {ι κ : Type}

def execution (setup : HubSetup ι κ) (k : κ) : ModuleExecutionMode :=
  (setup.options k).execution

/-- `wire_sources_notifier`, `wire_module_notifier` and `start_worker`. -/
def wiring (setup : HubSetup ι κ) :
    Wiring ι Unit κ (HubFlag κ) (HubNotifier κ) where
  bus _ := .hub
  tasks k :=
    match setup.execution k with
    | .inlineInHub => .hub
    | .privateThread => .worker k
    | .manual => .other k
  flag
    | .stop | .workerException _ => .hub
    | .workerStop k => .worker k
  dispatcher _ := setup.thread
  consumer k :=
    match setup.execution k with
    | .inlineInHub => setup.thread
    | .privateThread => setup.worker k
    | .manual => setup.manual k
  owner
    | .workerStop k => some (setup.worker k)
    | .stop | .workerException _ => none

end HubSetup

/-! ## The hub -/

/-- A call of `wait_for`. -/
structure TimedWait where
  /-- The reading of the clock before it. -/
  now : Int
  duration : Int
  deriving DecidableEq, Repr

namespace TimedWait

/-- `wait_for(generation, *deadline - now)`. -/
def upTo (now deadline : Int) : TimedWait where
  now := now
  duration := deadline - now

/-- When the time is up. -/
def deadline (wait : TimedWait) : Int := wait.now + wait.duration

@[simp] theorem deadline_upTo (now deadline : Int) :
    (upTo now deadline).deadline = deadline := by
  show now + (deadline - now) = deadline
  omega

end TimedWait

/-- Where the hub's thread is in `run_loop`. -/
inductive HubLoopPc (κ : Type)
  | head
  | capture
  /-- `m_bus.process()`. -/
  | bus (g : Nat)
  | inBus (g : Nat)
  /-- The first loop of `process()`, at `rethrow_worker_exception()`. -/
  | modules (g : Nat) (rest : List κ) (workDone : Nat)
  | moduleLive (g : Nat) (k : κ) (rest : List κ) (workDone : Nat)
  | inTasks (g : Nat) (k : κ) (rest : List κ) (workDone : Nat)
  /-- The second loop, at `rethrow_worker_exception()` of `Module::process`. -/
  | hooks (g : Nat) (rest : List κ) (workDone : Nat)
  | hookLive (g : Nat) (k : κ) (rest : List κ) (workDone : Nat)
  | onProcess (g : Nat) (k : κ) (rest : List κ) (workDone : Nat)
  | recheck (g : Nat)
  /-- `has_pending()`. -/
  | pendingBus (g : Nat)
  | pendingClock (g : Nat)
  | pending (g : Nat) (now : Int) (rest : List κ)
  | pendingReady (g : Nat) (now : Int) (k : κ) (rest : List κ)
  | pendingTasks (g : Nat) (now : Int) (k : κ) (rest : List κ)
  | pendingHint (g : Nat) (now : Int) (k : κ) (rest : List κ)
  /-- `next_deadline()`. -/
  | deadline (g : Nat) (rest : List κ) (best : Option Int)
  | deadlineTasks (g : Nat) (k : κ) (rest : List κ) (best : Option Int)
  | deadlineHint (g : Nat) (k : κ) (rest : List κ) (best : Option Int)
  | clock (g : Nat) (deadline : Int)
  /-- In `wait` or `wait_for`. -/
  | waiting (g : Nat) (wait : Option TimedWait)
  | returned
  | threw
  deriving DecidableEq, Repr

/-- Code of the program may run on the thread. -/
def HubLoopPc.runsCode {κ : Type} : HubLoopPc κ → Bool
  | .inBus _ | .inTasks .. | .onProcess .. | .returned | .threw => true
  | _ => false

/-- `update_best_deadline`. -/
def earlierDeadline (best : Option Int) : Option Int → Option Int
  | none => best
  | some candidate =>
      match best with
      | none => some candidate
      | some best => some (if candidate < best then candidate else best)

/-! ## A worker -/

/-- Where the thread of a private module is in `run_worker_loop`. -/
inductive WorkerPc
  | head
  | capture
  | process (g : Nat)
  | inTasks (g : Nat)
  | recheck (g : Nat)
  | ready (g : Nat)
  | deadline (g : Nat)
  | clock (g : Nat) (deadline : Int)
  | waiting (g : Nat) (wait : Option TimedWait)
  /-- In the handler of an exception, at `store_worker_exception`. -/
  | storing
  | stopping
  | notifying
  | exited
  deriving DecidableEq, Repr

def WorkerPc.runsCode : WorkerPc → Bool
  | .inTasks _ => true
  | _ => false

structure HubLoop (ι κ τ ε : Type) where
  sources : Sources ι Unit κ (HubFlag κ) (HubNotifier κ) τ ε
  /-- `is_initialized() && !is_stopping() && !is_stopped()`. -/
  live : κ → Bool
  /-- `deadline_hint()`. -/
  hint : κ → Option Int := fun _ => none
  pc : HubLoopPc κ := .head
  workers : κ → WorkerPc

inductive HubLoopAction (ι κ τ ε : Type)
  | source (a : SourceAction ι Unit κ (HubFlag κ) (HubNotifier κ) τ ε)
  /-- The hub goes on; `now` is what its clock shows, if it reads it. -/
  | advance (now : Int)
  | onProcessReturned (count : Nat)
  | onProcessThrew
  | wake
  | worker (k : κ) (now : Int)
  | wakeWorker (k : κ)
  /-- `shutdown()` of a module begins. -/
  | stopping (t : ι) (k : κ)
  | initialized (k : κ)
  | hint (k : κ) (due : Option Int)

namespace HubLoop

variable {ι κ τ ε : Type} [DecidableEq ι] [DecidableEq κ]

/-- Thread `t` may run code of the program. -/
def mayAct (setup : HubSetup ι κ) (loop : HubLoop ι κ τ ε) (t : ι) : Bool :=
  match setup.role t with
  | .hub => loop.pc.runsCode
  | .worker k => (loop.workers k).runsCode
  | .other => true

/-- Where the hub is after a step on the sources. -/
def afterSource (setup : HubSetup ι κ)
    (old new : Sources ι Unit κ (HubFlag κ) (HubNotifier κ) τ ε)
    (a : SourceAction ι Unit κ (HubFlag κ) (HubNotifier κ) τ ε) :
    HubLoopPc κ → HubLoopPc κ
  | .inBus g =>
      match Sources.busCall () setup.thread old new a with
      | .underWay => .inBus g
      | .returned n => .modules g setup.modules n
      | .threw => .threw
  | .inTasks g k rest workDone =>
      match Sources.taskCall k old a with
      | .underWay => .inTasks g k rest workDone
      | .returned n => .modules g rest (workDone + n)
      | .threw => .threw
  | pc => pc

/-- Where the worker of module `k` is. -/
def workerAfterSource (k : κ)
    (old : Sources ι Unit κ (HubFlag κ) (HubNotifier κ) τ ε)
    (a : SourceAction ι Unit κ (HubFlag κ) (HubNotifier κ) τ ε) :
    WorkerPc → WorkerPc
  | .inTasks g =>
      match Sources.taskCall k old a with
      | .underWay => .inTasks g
      | .returned n => if n ≠ 0 then .head else .recheck g
      | .threw => .storing
  | pc => pc

variable [Fintype ι] [RequestTraits ε]

/-- A step of the hub on its sources. -/
def stepHub (setup : HubSetup ι κ) (loop : HubLoop ι κ τ ε)
    (a : SourceAction ι Unit κ (HubFlag κ) (HubNotifier κ) τ ε)
    (pc : HubLoopPc κ) : Option (HubLoop ι κ τ ε) :=
  (loop.sources.step setup.wiring a).map fun sources => { loop with sources, pc }

/-- A step of `run_loop` that is not one of the program. -/
def advance (setup : HubSetup ι κ) (loop : HubLoop ι κ τ ε) (now : Int) :
    Option (HubLoop ι κ τ ε) :=
  let sources := loop.sources
  let goto (pc : HubLoopPc κ) : Option (HubLoop ι κ τ ε) := some { loop with pc }
  match loop.pc with
  | .head => if sources.flags .stop then goto .returned else goto .capture
  | .capture => goto (.bus (sources.generation .hub))
  | .bus g =>
      match (sources.buses ()).frames setup.thread with
      | [.user .main] =>
          loop.stepHub setup (.bus () (.call setup.thread .process)) (.inBus g)
      | _ => none
  | .modules g [] workDone => goto (.hooks g setup.modules workDone)
  | .modules g (k :: rest) workDone =>
      if sources.flags (.workerException k) then
        loop.stepHub setup (.lower setup.thread (.workerException k)) .threw
      else goto (.moduleLive g k rest workDone)
  | .moduleLive g k rest workDone =>
      if setup.execution k = .inlineInHub ∧ loop.live k = true then
        loop.stepHub setup
          (.task setup.thread k
            (.processBegin now (setup.options k).maxTasksPerProcess))
          (.inTasks g k rest workDone)
      else goto (.modules g rest workDone)
  | .hooks g [] workDone =>
      if workDone ≠ 0 then goto .head else goto (.recheck g)
  | .hooks g (k :: rest) workDone =>
      if sources.flags (.workerException k) then
        loop.stepHub setup (.lower setup.thread (.workerException k)) .threw
      else goto (.hookLive g k rest workDone)
  | .hookLive g k rest workDone =>
      if loop.live k then goto (.onProcess g k rest workDone)
      else goto (.hooks g rest workDone)
  | .recheck g =>
      if sources.flags .stop then goto .returned else goto (.pendingBus g)
  | .pendingBus g =>
      if (sources.buses ()).world.queue = [] then goto (.pendingClock g)
      else goto .head
  | .pendingClock g => goto (.pending g now setup.modules)
  | .pending g _ [] => goto (.deadline g setup.modules none)
  | .pending g clock (k :: rest) =>
      if loop.live k then
        if setup.execution k = .inlineInHub then
          goto (.pendingReady g clock k rest)
        else goto (.pendingHint g clock k rest)
      else goto (.pending g clock rest)
  | .pendingReady g clock k rest =>
      if (sources.managers k).mgr.hasReady then goto .head
      else goto (.pendingTasks g clock k rest)
  | .pendingTasks g clock k rest =>
      loop.stepHub setup (.task setup.thread k .nextDeadline)
        (if (sources.managers k).mgr.nextDeadline.2.any (· ≤ clock) then .head
        else .pendingHint g clock k rest)
  | .pendingHint g clock k rest =>
      if (loop.hint k).any (· ≤ clock) then goto .head
      else goto (.pending g clock rest)
  | .deadline g [] none => goto (.waiting g none)
  | .deadline g [] (some deadline) => goto (.clock g deadline)
  | .deadline g (k :: rest) best =>
      if loop.live k then
        if setup.execution k = .inlineInHub then
          goto (.deadlineTasks g k rest best)
        else goto (.deadlineHint g k rest best)
      else goto (.deadline g rest best)
  | .deadlineTasks g k rest best =>
      loop.stepHub setup (.task setup.thread k .nextDeadline)
        (.deadlineHint g k rest
          (earlierDeadline best (sources.managers k).mgr.nextDeadline.2))
  | .deadlineHint g k rest best =>
      goto (.deadline g rest (earlierDeadline best (loop.hint k)))
  | .clock g deadline =>
      if deadline ≤ now then goto .head
      else goto (.waiting g (some (.upTo now deadline)))
  | _ => none

/-- The worker of module `k` goes to another point. -/
def setWorker (loop : HubLoop ι κ τ ε) (k : κ) (pc : WorkerPc) :
    HubLoop ι κ τ ε :=
  { loop with workers := Function.update loop.workers k pc }

def stepWorker (setup : HubSetup ι κ) (loop : HubLoop ι κ τ ε) (k : κ)
    (a : SourceAction ι Unit κ (HubFlag κ) (HubNotifier κ) τ ε)
    (pc : WorkerPc) : Option (HubLoop ι κ τ ε) :=
  (loop.sources.step setup.wiring a).map fun sources =>
    { loop with sources }.setWorker k pc

/-- A step of `run_worker_loop` of module `k`. -/
def advanceWorker (setup : HubSetup ι κ) (loop : HubLoop ι κ τ ε) (k : κ)
    (now : Int) : Option (HubLoop ι κ τ ε) :=
  let sources := loop.sources
  let goto (pc : WorkerPc) : Option (HubLoop ι κ τ ε) :=
    some (loop.setWorker k pc)
  match loop.workers k with
  | .head =>
      if sources.flags (.workerStop k) then goto .exited else goto .capture
  | .capture => goto (.process (sources.generation (.worker k)))
  | .process g =>
      loop.stepWorker setup k
        (.task (setup.worker k) k
          (.processBegin now (setup.options k).maxTasksPerProcess))
        (.inTasks g)
  | .recheck g =>
      if sources.flags (.workerStop k) then goto .exited else goto (.ready g)
  | .ready g =>
      if (sources.managers k).mgr.hasReady then goto .head
      else goto (.deadline g)
  | .deadline g =>
      loop.stepWorker setup k (.task (setup.worker k) k .nextDeadline)
        (match (sources.managers k).mgr.nextDeadline.2 with
        | none => .waiting g none
        | some deadline => .clock g deadline)
  | .clock g deadline =>
      if deadline ≤ now then goto .head
      else goto (.waiting g (some (.upTo now deadline)))
  | .storing =>
      loop.stepWorker setup k (.raise (setup.worker k) (.workerException k))
        .stopping
  | .stopping =>
      loop.stepWorker setup k (.mark (setup.worker k) (.workerStop k)) .notifying
  | .notifying => loop.stepWorker setup k (.notify (setup.worker k)) .exited
  | _ => none

def step (setup : HubSetup ι κ) (loop : HubLoop ι κ τ ε) :
    HubLoopAction ι κ τ ε → Option (HubLoop ι κ τ ε)
  | .source a =>
      if a.actor.all (loop.mayAct setup) then
        (loop.sources.step setup.wiring a).map fun sources =>
          { loop with
            sources
            pc := afterSource setup loop.sources sources a loop.pc
            workers := fun k => workerAfterSource k loop.sources a (loop.workers k) }
      else none
  | .advance now => loop.advance setup now
  | .onProcessReturned count =>
      match loop.pc with
      | .onProcess g _ rest workDone =>
          if (loop.sources.owing setup.thread).isSome then none
          else some { loop with pc := .hooks g rest (workDone + count) }
      | _ => none
  | .onProcessThrew =>
      match loop.pc with
      | .onProcess .. => some { loop with pc := .threw }
      | _ => none
  | .wake =>
      match loop.pc with
      | .waiting g wait =>
          if loop.sources.generation .hub ≠ g ∨ wait.isSome then
            some { loop with pc := .head }
          else none
      | _ => none
  | .worker k now => loop.advanceWorker setup k now
  | .wakeWorker k =>
      match loop.workers k with
      | .waiting g wait =>
          if loop.sources.generation (.worker k) ≠ g ∨ wait.isSome then
            some (loop.setWorker k .head)
          else none
      | _ => none
  | .stopping t k =>
      if loop.mayAct setup t then
        some { loop with live := Function.update loop.live k false }
      else none
  | .initialized k =>
      if loop.pc.runsCode then
        some { loop with live := Function.update loop.live k true }
      else none
  | .hint k due =>
      if loop.pc.runsCode then
        some { loop with hint := Function.update loop.hint k due }
      else none

end HubLoop

end EventHub
