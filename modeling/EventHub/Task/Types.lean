import Mathlib.Data.Finset.Basic
import Mathlib.Logic.Function.Basic

/-!
# Tasks, entries and controls

The data of `task.hpp` and of the private part of `TaskManager`. Time points
and durations of the steady clock are integers (nanoseconds). A `TaskId` is a
natural, zero being reserved for rejected submissions, and so is a sequence
number: the 2^64 wrap of the two counters is out of reach. The callable a `Task` stores is the type parameter `τ`, and an empty
`Task` is `none` at the interface.

A `Control` is what the source shares between the index and the entries by
`shared_ptr`. There is exactly one per id, so the id serves as the pointer and
`TaskManager.control` as the heap it points into.
-/

namespace EventHub

inductive TaskPriority
  | high
  | normal
  | low
  deriving DecidableEq, Repr

inductive PeriodicSchedule
  | fixedDelay
  | fixedRate
  deriving DecidableEq, Repr

/-- `TaskOptions`, with the default of the source. -/
structure TaskOptions where
  priority : TaskPriority := .normal
  deriving DecidableEq, Repr

/-- `PeriodicTaskOptions`, with the defaults of the source. -/
structure PeriodicTaskOptions where
  priority : TaskPriority := .normal
  schedule : PeriodicSchedule := .fixedDelay
  deriving DecidableEq, Repr

/-- `TaskManager::State`. -/
inductive State
  | queuedReady
  | queuedDelayed
  | readySnapshot
  | executing
  | cancelled
  | completed
  deriving DecidableEq, Repr

/-- `TaskManager::Control`. A default control is `completed`, as in the
source; ids that were never handed out read as that. -/
structure Control where
  id : Nat := 0
  periodic : Bool := false
  rescheduleRequested : Bool := false
  rescheduleDue : Int := 0
  state : State := .completed
  deriving DecidableEq, Repr

/-- `TaskManager::Entry`; its `control` pointer is `id`. -/
structure Entry (τ : Type) where
  id : Nat := 0
  seq : Nat := 0
  priority : TaskPriority := .normal
  due : Int := 0
  periodic : Bool := false
  interval : Int := 0
  periodicSchedule : PeriodicSchedule := .fixedDelay
  plannedDue : Int := 0
  task : τ
  deriving DecidableEq, Repr

/-- `TaskManager::DelayedSooner`: the heap comparator, true when `lhs` is to
be popped after `rhs`. -/
def delayedSooner {τ : Type} (lhs rhs : Entry τ) : Bool :=
  if lhs.due ≠ rhs.due then decide (rhs.due < lhs.due)
  else decide (rhs.seq < lhs.seq)

/-- The members of `TaskManager`. `ready` is the array of three deques, read
by priority rather than by `priority_index`; the counters are integers, so
that a decrement too many would show as a negative count. -/
structure TaskManager (τ : Type) where
  ready : TaskPriority → List (Entry τ) := fun _ => []
  delayedHeap : List (Entry τ) := []
  index : Finset Nat := ∅
  control : Nat → Control := fun _ => {}
  readyCount : Int := 0
  pendingCount : Int := 0
  nextId : Nat := 1
  nextSeq : Nat := 1
  closed : Bool := false

end EventHub
