import Mathlib.Tactic.Simps.Basic
import EventHub.Task.System

/-!
# The data of `CalendarScheduler`

A rule is known by its id, and `State` is what the source keeps for it behind a
`shared_ptr`; `tasks` of the core, as far as it is a set of rules, is
`registered`. The callback, the next-time provider, the clock and the observer
of a rule are code of the program, so of the options only those are kept that
the scheduler itself reads, and whether a clock and an observer were given.
UTC times are integers (milliseconds); ids do not wrap.

The callable of a task has no part in what the manager does, so the manager
runs on tasks without one, and `job` says which tasks are occurrences of a
rule.
-/

namespace EventHub

inductive CalendarMissedRunPolicy
  | skip
  | runOnceImmediately
  deriving DecidableEq, Repr

inductive CalendarOverlapPolicy
  | skip
  | queueOneAfterCurrent
  deriving DecidableEq, Repr

inductive CalendarObserverEvent
  | created
  | scheduled
  | due
  | beforeCallback
  | afterCallback
  | missed
  | cancelled
  deriving DecidableEq, Repr

/-- `CalendarTaskOptions`, with the defaults of the source. -/
structure CalendarTaskOptions where
  priority : TaskPriority := .normal
  missedPolicy : CalendarMissedRunPolicy := .skip
  overlapPolicy : CalendarOverlapPolicy := .skip
  nowProvider : Bool := false
  lastDueUtcMs : Option Int := none
  observer : Bool := false
  deriving DecidableEq, Repr

/-- `CalendarObserverInfo` without the id of the rule. -/
structure CalendarObserverInfo where
  scheduledTaskId : Nat
  plannedUtcMs : Int
  observedUtcMs : Int
  event : CalendarObserverEvent
  runCount : Nat
  deriving DecidableEq, Repr

/-- `calendar_scheduler_detail::State`. -/
structure CalendarState where
  options : CalendarTaskOptions := {}
  scheduledTaskId : Nat := 0
  plannedUtcMs : Int := 0
  runCount : Nat := 0
  cancelled : Bool := false
  /-- A history variable: the newest task of the rule. -/
  posted : Nat := 0
  deriving DecidableEq, Repr

/-- What `schedule_one` queues a task for. -/
structure Occurrence where
  rule : Nat
  plannedUtcMs : Int
  deriving DecidableEq, Repr

inductive CalendarObs
  /-- The observer of rule `r` is called; `run` is the task whose `run_due` it
  is, if it is one. -/
  | emitted (r : Nat) (run : Option Nat) (info : CalendarObserverInfo)
  /-- The next-time provider of rule `r` is called. It is given
  `previous_planned` if `run` is the task that ran. -/
  | asked (r : Nat) (run : Option Nat) (after observed : Int)
  /-- `run_due` of task `i` found the rule and took its occurrence. -/
  | consumed (r i : Nat) (planned : Int) (taskId : Nat)
  | callbackStarted (r : Nat)
  /-- `cancel(r)` returned. -/
  | cancelReturned (r : Nat) (result : Bool)
  /-- `cancel_all()` or the destructor returned; these rules were registered
  when it was called or when it took them. -/
  | cancelAllReturned (rules : Finset Nat)
  | addReturned (r : Nat)
  deriving DecidableEq

/-- The core, its manager, and what was observed. -/
structure CalendarWorld where
  tasks : TaskSystem Unit := {}
  job : Nat → Option Occurrence := fun _ => none
  /-- A history variable: the delay that a task was queued with. -/
  delays : Nat → Int := fun _ => 0
  states : Nat → CalendarState := fun _ => {}
  registered : Finset Nat := ∅
  nextId : Nat := 1
  closed : Bool := false
  /-- Newest first. -/
  log : List CalendarObs := []

namespace CalendarWorld

@[simps -fullyApplied]
def note (w : CalendarWorld) (o : CalendarObs) : CalendarWorld :=
  { w with log := o :: w.log }

@[simps -fullyApplied tasks job registered nextId closed log]
def setState (w : CalendarWorld) (r : Nat) (x : CalendarState) :
    CalendarWorld :=
  { w with states := Function.update w.states r x }

@[simp] theorem setState_self {w : CalendarWorld} {r : Nat}
    {x : CalendarState} : (w.setState r x).states r = x :=
  Function.update_self ..

theorem setState_of_ne {w : CalendarWorld} {r q : Nat} {x : CalendarState}
    (h : q ≠ r) : (w.setState r x).states q = w.states q :=
  Function.update_of_ne h ..

/-- The test that the sections of `schedule_one` and `run_due` make. -/
def gone (w : CalendarWorld) (r : Nat) : Bool :=
  r ∉ w.registered || (w.states r).cancelled || w.closed

/-- `emit`. -/
@[simps -fullyApplied tasks job states registered nextId closed]
def emit (w : CalendarWorld) (r : Nat) (run : Option Nat)
    (info : CalendarObserverInfo) : CalendarWorld :=
  { w with
    log :=
      if (w.states r).options.observer then .emitted r run info :: w.log
      else w.log }

/-- The new rule of `add_rule`. -/
@[simps! -fullyApplied tasks job registered nextId closed log]
def register (w : CalendarWorld) (options : CalendarTaskOptions) :
    CalendarWorld :=
  { w.setState w.nextId { options := options } with
    registered := insert w.nextId w.registered
    nextId := w.nextId + 1 }

/-- The task `i` was queued for the planned time. -/
@[simps! -fullyApplied tasks registered nextId closed log]
def occupy (w : CalendarWorld) (r : Nat) (planned delay : Int) (i : Nat) :
    CalendarWorld :=
  { w.setState r { w.states r with posted := i } with
    job := Function.update w.job i
      (some { rule := r, plannedUtcMs := planned })
    delays := Function.update w.delays i delay }

/-- `schedule_one` publishes the task. -/
@[simps! -fullyApplied tasks job registered nextId closed log]
def publish (w : CalendarWorld) (r : Nat) (planned : Int) (i : Nat) :
    CalendarWorld :=
  w.setState r
    { w.states r with scheduledTaskId := i, plannedUtcMs := planned }

/-- `run_due` takes the occurrence. -/
@[simps! -fullyApplied tasks job registered nextId closed log]
def consume (w : CalendarWorld) (r i : Nat) : CalendarWorld :=
  let x := w.states r
  (w.setState r { x with scheduledTaskId := 0 }).note
    (.consumed r i x.plannedUtcMs x.scheduledTaskId)

/-- `mark_completed`. -/
@[simps! -fullyApplied tasks job registered nextId closed log]
def markCompleted (w : CalendarWorld) (r : Nat) : CalendarWorld :=
  { w.setState r { w.states r with cancelled := true } with
    registered := w.registered.erase r }

/-- The section of `cancel_all_on_core`. -/
@[simps -fullyApplied tasks job registered nextId closed log]
def takeAll (w : CalendarWorld) (close : Bool) : CalendarWorld :=
  { w with
    closed := w.closed || close
    states := fun r =>
      if r ∈ w.registered then { w.states r with cancelled := true }
      else w.states r
    registered := ∅ }

/-! ## The state of a rule after an operation -/

section States

variable {w : CalendarWorld} {r q i : Nat} {planned delay : Int}

/-- What the new state agrees on with the old one. -/
theorem setState_congr {β : Type} (g : CalendarState → β) {x : CalendarState}
    (h : g x = g (w.states r)) (q : Nat) :
    g ((w.setState r x).states q) = g (w.states q) := by
  by_cases hq : q = r
  · rw [hq, setState_self, h]
  · rw [setState_of_ne hq]

@[simp] theorem register_states_self {options : CalendarTaskOptions} :
    (w.register options).states w.nextId = { options := options } :=
  setState_self

theorem register_states_of_ne {options : CalendarTaskOptions}
    (h : q ≠ w.nextId) : (w.register options).states q = w.states q :=
  setState_of_ne h

@[simp] theorem occupy_states_self :
    (w.occupy r planned delay i).states r = { w.states r with posted := i } :=
  setState_self

theorem occupy_states_of_ne (h : q ≠ r) :
    (w.occupy r planned delay i).states q = w.states q :=
  setState_of_ne h

@[simp] theorem publish_states_self :
    (w.publish r planned i).states r =
      { w.states r with scheduledTaskId := i, plannedUtcMs := planned } :=
  setState_self

theorem publish_states_of_ne (h : q ≠ r) :
    (w.publish r planned i).states q = w.states q :=
  setState_of_ne h

@[simp] theorem consume_states_self :
    (w.consume r i).states r = { w.states r with scheduledTaskId := 0 } :=
  setState_self

theorem consume_states_of_ne (h : q ≠ r) :
    (w.consume r i).states q = w.states q :=
  setState_of_ne h

@[simp] theorem markCompleted_states_self :
    (w.markCompleted r).states r = { w.states r with cancelled := true } :=
  setState_self

theorem markCompleted_states_of_ne (h : q ≠ r) :
    (w.markCompleted r).states q = w.states q :=
  setState_of_ne h

theorem takeAll_states_of_mem {close : Bool} (h : q ∈ w.registered) :
    (w.takeAll close).states q = { w.states q with cancelled := true } :=
  if_pos h

theorem takeAll_states_of_not_mem {close : Bool} (h : q ∉ w.registered) :
    (w.takeAll close).states q = w.states q :=
  if_neg h

theorem occupy_congr {β : Type} (g : CalendarState → β)
    (h : ∀ x : CalendarState, g { x with posted := i } = g x) (q : Nat) :
    g ((w.occupy r planned delay i).states q) = g (w.states q) :=
  setState_congr g (h _) q

theorem publish_congr {β : Type} (g : CalendarState → β)
    (h : ∀ x : CalendarState,
      g { x with scheduledTaskId := i, plannedUtcMs := planned } = g x)
    (q : Nat) : g ((w.publish r planned i).states q) = g (w.states q) :=
  setState_congr g (h _) q

theorem consume_congr {β : Type} (g : CalendarState → β)
    (h : ∀ x : CalendarState, g { x with scheduledTaskId := 0 } = g x)
    (q : Nat) : g ((w.consume r i).states q) = g (w.states q) :=
  setState_congr g (h _) q

theorem markCompleted_congr {β : Type} (g : CalendarState → β)
    (h : ∀ x : CalendarState, g { x with cancelled := true } = g x) (q : Nat) :
    g ((w.markCompleted r).states q) = g (w.states q) :=
  setState_congr g (h _) q

theorem takeAll_congr {β : Type} (g : CalendarState → β) {close : Bool}
    (h : ∀ x : CalendarState, g { x with cancelled := true } = g x) (q : Nat) :
    g ((w.takeAll close).states q) = g (w.states q) := by
  by_cases hq : q ∈ w.registered
  · rw [takeAll_states_of_mem hq, h]
  · rw [takeAll_states_of_not_mem hq]

end States

end CalendarWorld

end EventHub
