import EventHub.Bus.Types
import EventHub.Task.Manager

/-!
# The hub, its modules and the code they call

The data of `module.hpp` and `module_hub.hpp`. A hub is used by one thread at a
time, the consumer of everything in it, so its functions are functions on the
whole state, and code of the program that they call (handlers, tasks, hooks) is
a function of a `HubProgram`. Such a function may do anything to the hub and
may throw. What producers and private workers do between two calls of the hub
is a change of the state between them.

The bus is the `World` of the bus model. The modules are numbered in the order
of their registration.
-/

namespace EventHub

inductive ModuleExecutionMode
  | inlineInHub
  | privateThread
  | manual
  deriving DecidableEq, Repr

/-- `ModuleOptions` after `normalize_options`, which leaves no quota of zero. -/
structure ModuleOptions where
  execution : ModuleExecutionMode := .inlineInHub
  maxTasksPerProcess : Nat := 64
  quota_pos : 0 < maxTasksPerProcess
  deriving Repr

def defaultOptions : ModuleOptions := { quota_pos := by decide }

/-- `Module::normalize_options`. -/
def normalizeOptions (execution : ModuleExecutionMode)
    (maxTasksPerProcess : Nat) : ModuleOptions :=
  if h : maxTasksPerProcess = 0 then
    { execution := execution, maxTasksPerProcess := 1, quota_pos := Nat.one_pos }
  else
    { execution := execution, maxTasksPerProcess := maxTasksPerProcess,
      quota_pos := Nat.pos_of_ne_zero h }

/-- The members of `Module`. -/
structure HubModule (τ : Type) where
  options : ModuleOptions := defaultOptions
  tasks : TaskManager τ := {}
  /-- The exception handler of the task manager is set. -/
  exceptionHandler : Bool := false
  initialized : Bool := false
  stopping : Bool := false
  stopped : Bool := false
  /-- `m_worker` is joinable. -/
  worker : Bool := false
  workerStopRequested : Bool := false
  /-- `m_worker_exception` is set. -/
  workerException : Bool := false
  /-- The endpoint of the `EventNode`. -/
  endpoint : Nat := 0

namespace HubModule

variable {τ : Type}

/-- `!is_initialized() || is_stopping() || is_stopped()`, negated. -/
def live (m : HubModule τ) : Bool := m.initialized && !m.stopping && !m.stopped

/-- Its tasks are the hub's to process. -/
def isInline (m : HubModule τ) : Bool := m.options.execution = .inlineInHub

end HubModule

/-- The code of the program that the hub calls. -/
inductive HubCode (τ ε : Type)
  /-- The callback stored in a record of the bus. -/
  | handler (record : CallbackRecord) (ev : Event ε)
  | onTimeout (a : Nat)
  | busExceptionHandler
  | task (k : Nat) (entry : Entry τ)
  | taskExceptionHandler (k : Nat)
  | onInitialize (k : Nat)
  | onProcess (k : Nat)
  | onShutdown (k : Nat)

/-- A call of the program's code begins, or ends by returning or throwing. -/
inductive HubNotice (τ ε : Type)
  | began (c : HubCode τ ε)
  | ended (c : HubCode τ ε) (returned : Bool)

def HubNotice.code {τ ε : Type} : HubNotice τ ε → HubCode τ ε
  | .began c | .ended c _ => c

/-- Where `process()` reads the clock, or code of the program may. -/
inductive HubReading (τ ε : Type)
  | poll (a : Nat)
  /-- The reading under which due tasks are promoted. -/
  | promoted (k : Nat)
  /-- The two readings after a callback. -/
  | planned (k id : Nat)
  | enqueued (k id : Nat)
  /-- When a call of the program's code begins. -/
  | began (c : HubCode τ ε)

/-- `program` is all the state the program has of its own; `log` is a history
variable, newest first. -/
structure ModuleHub (σ τ ε : Type) where
  program : σ
  bus : World ε := {}
  modules : Nat → HubModule τ := fun _ => {}
  moduleCount : Nat := 0
  initialized : Bool := false
  stopRequested : Bool := false
  running : Bool := false
  log : List (HubNotice τ ε) := []

/-- The program around a hub. -/
structure HubProgram (σ τ ε : Type) where
  /-- What a call does, begun at this time; `none` when it throws. Only the
  number that `on_process` returns is used. -/
  run : HubCode τ ε → Int → ModuleHub σ τ ε → ModuleHub σ τ ε × Option Nat
  /-- `std::thread` can be constructed for a module. -/
  spawns : ModuleHub σ τ ε → Nat → Bool
  /-- `guard.lock()` succeeds. -/
  locks : ModuleHub σ τ ε → Guard → Bool
  /-- `next_deadline_hint()` of a module. -/
  deadlineHint : Nat → σ → Option Int

namespace ModuleHub

variable {σ τ ε : Type}

def setModule (hub : ModuleHub σ τ ε) (k : Nat) (m : HubModule τ) :
    ModuleHub σ τ ε :=
  { hub with modules := Function.update hub.modules k m }

def setTasks (hub : ModuleHub σ τ ε) (k : Nat) (tasks : TaskManager τ) :
    ModuleHub σ τ ε :=
  hub.setModule k { hub.modules k with tasks := tasks }

def setBus (hub : ModuleHub σ τ ε) (bus : World ε) : ModuleHub σ τ ε :=
  { hub with bus := bus }

/-- A call of the program's code. It cannot take back what has been logged. -/
def call (env : HubProgram σ τ ε) (clock : HubReading τ ε → Int)
    (c : HubCode τ ε) (hub : ModuleHub σ τ ε) :
    ModuleHub σ τ ε × Option Nat :=
  let r := env.run c (clock (.began c)) { hub with log := [] }
  ({ r.1 with
      log := .ended c r.2.isSome :: (r.1.log ++ .began c :: hub.log) }, r.2)

@[simp] theorem setModule_self (hub : ModuleHub σ τ ε) (k : Nat)
    (m : HubModule τ) : (hub.setModule k m).modules k = m :=
  Function.update_self ..

theorem setModule_of_ne {j k : Nat} (hub : ModuleHub σ τ ε) (m : HubModule τ)
    (h : j ≠ k) : (hub.setModule k m).modules j = hub.modules j :=
  Function.update_of_ne h ..

@[simp] theorem setTasks_self (hub : ModuleHub σ τ ε) (k : Nat)
    (tasks : TaskManager τ) :
    (hub.setTasks k tasks).modules k = { hub.modules k with tasks := tasks } :=
  hub.setModule_self k _

theorem setTasks_of_ne {j k : Nat} (hub : ModuleHub σ τ ε)
    (tasks : TaskManager τ) (h : j ≠ k) :
    (hub.setTasks k tasks).modules j = hub.modules j :=
  hub.setModule_of_ne _ h

@[simp] theorem live_setTasks (hub : ModuleHub σ τ ε) (j k : Nat)
    (tasks : TaskManager τ) :
    ((hub.setTasks k tasks).modules j).live = (hub.modules j).live := by
  by_cases h : j = k
  · rw [h, setTasks_self]
    rfl
  · rw [setTasks_of_ne hub tasks h]

@[simp] theorem options_setTasks (hub : ModuleHub σ τ ε) (j k : Nat)
    (tasks : TaskManager τ) :
    ((hub.setTasks k tasks).modules j).options = (hub.modules j).options := by
  by_cases h : j = k
  · rw [h, setTasks_self]
  · rw [setTasks_of_ne hub tasks h]

end ModuleHub

end EventHub
