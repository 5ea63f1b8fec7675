import Mathlib.Data.List.Sort
import Mathlib.Tactic.Simps.Basic
import EventHub.Lib.Overflow
import EventHub.Task.Types

/-!
# `TaskManager`: the critical sections

Every function below is one function of `task_manager.hpp`, or the part of one
that runs under `m_mutex`, as a function on the members. A clock reading is an
argument, one per call of `Clock::now()` in the source. What happens outside
the mutex (the start transition of `process()` and the decrement after it) is
here too, as its own function; `Task/System.lean` puts the pieces in order.

`m_delayed_heap` is kept in the order in which `std::pop_heap` would hand the
entries out. The standard fixes nothing else about the layout, the key
`(due, seq)` is unique, and the only walk over the whole vector,
`clear_pending`, does not depend on the order.
-/

namespace EventHub

variable {τ : Type}

/-- `lhs` leaves the heap no later than `rhs`. -/
def Entry.popsBefore (lhs rhs : Entry τ) : Prop := delayedSooner lhs rhs = false

instance : DecidableRel (Entry.popsBefore (τ := τ)) :=
  fun lhs rhs => inferInstanceAs (Decidable (delayedSooner lhs rhs = false))

/-- `push_back` followed by `std::push_heap`. -/
def pushHeap (heap : List (Entry τ)) (entry : Entry τ) : List (Entry τ) :=
  heap.orderedInsert Entry.popsBefore entry

namespace TaskManager

def stateOf (m : TaskManager τ) (id : Nat) : State := (m.control id).state

/-- A store to, or a won exchange on, `control->state`. -/
@[simps -fullyApplied ready delayedHeap index readyCount pendingCount nextId
  nextSeq closed]
def setState (m : TaskManager τ) (id : Nat) (state : State) : TaskManager τ :=
  { m with
    control := Function.update m.control id { m.control id with state := state } }

/-- `control->reschedule_requested = false`. -/
@[simps -fullyApplied ready delayedHeap index readyCount pendingCount nextId
  nextSeq closed]
def dropReschedule (m : TaskManager τ) (id : Nat) : TaskManager τ :=
  { m with
    control := Function.update m.control id
      { m.control id with rescheduleRequested := false } }

/-- `control->reschedule_requested = true` and the deadline with it. -/
@[simps -fullyApplied ready delayedHeap index readyCount pendingCount nextId
  nextSeq closed]
def requestReschedule (m : TaskManager τ) (id : Nat) (due : Int) :
    TaskManager τ :=
  { m with
    control := Function.update m.control id
      { m.control id with rescheduleRequested := true, rescheduleDue := due } }

@[simps -fullyApplied]
def incrementReadyCount (m : TaskManager τ) : TaskManager τ :=
  { m with readyCount := m.readyCount + 1 }

@[simps -fullyApplied]
def decrementReadyCount (m : TaskManager τ) : TaskManager τ :=
  { m with readyCount := m.readyCount - 1 }

@[simps -fullyApplied]
def incrementPendingCount (m : TaskManager τ) : TaskManager τ :=
  { m with pendingCount := m.pendingCount + 1 }

@[simps -fullyApplied]
def decrementPendingCount (m : TaskManager τ) : TaskManager τ :=
  { m with pendingCount := m.pendingCount - 1 }

@[simps -fullyApplied]
def eraseIndex (m : TaskManager τ) (id : Nat) : TaskManager τ :=
  { m with index := m.index.erase id }

@[simps -fullyApplied]
def setQueue (m : TaskManager τ) (priority : TaskPriority)
    (queue : List (Entry τ)) : TaskManager τ :=
  { m with ready := Function.update m.ready priority queue }

@[simps -fullyApplied]
def setDelayed (m : TaskManager τ) (heap : List (Entry τ)) : TaskManager τ :=
  { m with delayedHeap := heap }

/-- The counter after `next_seq()`, which returns the old `nextSeq`. -/
@[simps -fullyApplied]
def advanceSeq (m : TaskManager τ) : TaskManager τ :=
  { m with nextSeq := m.nextSeq + 1 }

@[simp]
def pushBackReady (m : TaskManager τ) (entry : Entry τ) : TaskManager τ :=
  m.setQueue entry.priority (m.ready entry.priority ++ [entry])

@[simp]
def pushFrontReady (m : TaskManager τ) (entry : Entry τ) : TaskManager τ :=
  m.setQueue entry.priority (entry :: m.ready entry.priority)

@[simp]
def pushDelayed (m : TaskManager τ) (entry : Entry τ) : TaskManager τ :=
  m.setDelayed (pushHeap m.delayedHeap entry)

theorem control_setState (m : TaskManager τ) (id j : Nat) (state : State) :
    (m.setState id state).control j =
      if j = id then { m.control j with state := state } else m.control j := by
  simp only [setState, Function.update_apply]
  split
  · next h => rw [h]
  · rfl

theorem control_dropReschedule (m : TaskManager τ) (id j : Nat) :
    (m.dropReschedule id).control j =
      if j = id then { m.control j with rescheduleRequested := false }
      else m.control j := by
  simp only [dropReschedule, Function.update_apply]
  split
  · next h => rw [h]
  · rfl

theorem control_requestReschedule (m : TaskManager τ) (id j : Nat) (due : Int) :
    (m.requestReschedule id due).control j =
      if j = id then
        { m.control j with rescheduleRequested := true, rescheduleDue := due }
      else m.control j := by
  simp only [requestReschedule, Function.update_apply]
  split
  · next h => rw [h]
  · rfl

@[simp] theorem stateOf_setState (m : TaskManager τ) (id j : Nat)
    (state : State) :
    (m.setState id state).stateOf j = if j = id then state else m.stateOf j := by
  unfold stateOf
  rw [control_setState]
  split <;> rfl

@[simp] theorem stateOf_dropReschedule (m : TaskManager τ) (id : Nat) :
    (m.dropReschedule id).stateOf = m.stateOf := by
  funext j
  unfold stateOf
  rw [control_dropReschedule]
  split <;> rfl

@[simp] theorem stateOf_requestReschedule (m : TaskManager τ) (id : Nat)
    (due : Int) : (m.requestReschedule id due).stateOf = m.stateOf := by
  funext j
  unfold stateOf
  rw [control_requestReschedule]
  split <;> rfl

@[simp] theorem stateOf_incrementReadyCount (m : TaskManager τ) :
    m.incrementReadyCount.stateOf = m.stateOf := rfl

@[simp] theorem stateOf_decrementReadyCount (m : TaskManager τ) :
    m.decrementReadyCount.stateOf = m.stateOf := rfl

@[simp] theorem stateOf_incrementPendingCount (m : TaskManager τ) :
    m.incrementPendingCount.stateOf = m.stateOf := rfl

@[simp] theorem stateOf_decrementPendingCount (m : TaskManager τ) :
    m.decrementPendingCount.stateOf = m.stateOf := rfl

@[simp] theorem stateOf_eraseIndex (m : TaskManager τ) (id : Nat) :
    (m.eraseIndex id).stateOf = m.stateOf := rfl

@[simp] theorem stateOf_advanceSeq (m : TaskManager τ) :
    m.advanceSeq.stateOf = m.stateOf := rfl

@[simp] theorem stateOf_setQueue (m : TaskManager τ) (priority : TaskPriority)
    (queue : List (Entry τ)) : (m.setQueue priority queue).stateOf = m.stateOf :=
  rfl

@[simp] theorem stateOf_setDelayed (m : TaskManager τ) (heap : List (Entry τ)) :
    (m.setDelayed heap).stateOf = m.stateOf := rfl

@[simp] theorem periodic_setState (m : TaskManager τ) (id j : Nat)
    (state : State) :
    ((m.setState id state).control j).periodic = (m.control j).periodic := by
  rw [control_setState]
  split <;> rfl

@[simp] theorem periodic_dropReschedule (m : TaskManager τ) (id j : Nat) :
    ((m.dropReschedule id).control j).periodic = (m.control j).periodic := by
  rw [control_dropReschedule]
  split <;> rfl

@[simp] theorem periodic_requestReschedule (m : TaskManager τ) (id j : Nat)
    (due : Int) :
    ((m.requestReschedule id due).control j).periodic =
      (m.control j).periodic := by
  rw [control_requestReschedule]
  split <;> rfl

/-! ## Submission -/

/-- The id `next_id()` returns; the second read is the branch taken when the
counter has come round to the reserved zero. -/
def freshId (m : TaskManager τ) : Nat :=
  if m.nextId = 0 then m.nextId + 1 else m.nextId

/-- A new control and its slot in the index. -/
@[simps -fullyApplied ready delayedHeap index readyCount pendingCount nextId
  nextSeq closed]
def allocate (m : TaskManager τ) (state : State) (periodic : Bool) :
    TaskManager τ :=
  let id := m.freshId
  { m with
    nextId := id + 1
    nextSeq := m.nextSeq + 1
    control := Function.update m.control id
      { id := id, periodic := periodic, state := state }
    index := insert id m.index }

theorem control_allocate (m : TaskManager τ) (state : State) (periodic : Bool)
    (j : Nat) :
    (m.allocate state periodic).control j =
      if j = m.freshId then
        { id := m.freshId, periodic := periodic, state := state }
      else m.control j := by
  simp only [allocate, Function.update_apply]

@[simp] theorem stateOf_allocate (m : TaskManager τ) (state : State)
    (periodic : Bool) (j : Nat) :
    (m.allocate state periodic).stateOf j =
      if j = m.freshId then state else m.stateOf j := by
  unfold stateOf
  rw [control_allocate]
  split <;> rfl

def enqueueReadyLocked (m : TaskManager τ) (task : τ) (options : TaskOptions) :
    TaskManager τ × Nat :=
  let entry : Entry τ :=
    { id := m.freshId, seq := m.nextSeq, priority := options.priority,
      task := task }
  (((m.allocate .queuedReady false).pushBackReady
    entry).incrementReadyCount.incrementPendingCount, m.freshId)

def enqueueDelayedLocked (m : TaskManager τ) (due : Int) (task : τ)
    (options : TaskOptions) : TaskManager τ × Nat :=
  let entry : Entry τ :=
    { id := m.freshId, seq := m.nextSeq, priority := options.priority,
      due := due, task := task }
  (((m.allocate .queuedDelayed false).pushDelayed
    entry).incrementPendingCount, m.freshId)

def enqueuePeriodicLocked (m : TaskManager τ) (now due : Int)
    (interval : Int) (task : τ) (options : PeriodicTaskOptions) :
    TaskManager τ × Nat :=
  let entry : Entry τ :=
    { id := m.freshId, seq := m.nextSeq, priority := options.priority,
      due := due, periodic := true, interval := interval,
      periodicSchedule := options.schedule, plannedDue := due, task := task }
  if due ≤ now then
    (((m.allocate .queuedReady true).pushBackReady
      entry).incrementReadyCount.incrementPendingCount, m.freshId)
  else
    (((m.allocate .queuedDelayed true).pushDelayed
      entry).incrementPendingCount, m.freshId)

/-- `post`, without the notification. -/
def post (m : TaskManager τ) (task : Option τ) (options : TaskOptions) :
    TaskManager τ × Nat :=
  match task with
  | none => (m, 0)
  | some task =>
      if m.closed then (m, 0) else m.enqueueReadyLocked task options

/-- `post_at`, and with it `add_task_at`; `now` is read under the lock. -/
def postAt (m : TaskManager τ) (now due : Int) (task : Option τ)
    (options : TaskOptions) : TaskManager τ × Nat :=
  match task with
  | none => (m, 0)
  | some task =>
      if m.closed then (m, 0)
      else if due ≤ now then m.enqueueReadyLocked task options
      else m.enqueueDelayedLocked due task options

/-- A `TimePoint` and a `Duration` added up, which count nanoseconds in 64 bits;
nothing checks that the sum is in range. -/
def timeAfter (time duration : Int) : Int := Arith.wrap (time + duration)

theorem timeAfter_of_fits {time duration : Int}
    (h : Arith.Fits (time + duration)) :
    timeAfter time duration = time + duration := Arith.wrap_of_fits h

/-- `post_after`: one clock reading for the deadline, one in `post_at`. -/
def postAfter (m : TaskManager τ) (now now' : Int) (delay : Int)
    (task : Option τ) (options : TaskOptions) : TaskManager τ × Nat :=
  m.postAt now' (timeAfter now delay) task options

/-- `post_every_after`, with the readings of the caller and of
`enqueue_periodic_locked`. -/
def postEveryAfter (m : TaskManager τ) (now now' : Int)
    (initialDelay interval : Int) (task : Option τ)
    (options : PeriodicTaskOptions) : TaskManager τ × Nat :=
  match task with
  | none => (m, 0)
  | some task =>
      if interval ≤ 0 then (m, 0)
      else
        let due := if initialDelay ≤ 0 then now else timeAfter now initialDelay
        if m.closed then (m, 0)
        else m.enqueuePeriodicLocked now' due interval task options

/-- `post_every`. -/
def postEvery (m : TaskManager τ) (now now' : Int) (interval : Int)
    (task : Option τ) (options : PeriodicTaskOptions) :
    TaskManager τ × Nat :=
  m.postEveryAfter now now' 0 interval task options

/-- The loop of `post_batch`. -/
def postBatchLoop (options : TaskOptions) :
    List (Option τ) → TaskManager τ → TaskManager τ × List Nat
  | [], m => (m, [])
  | none :: tasks, m =>
      let (m', ids) := postBatchLoop options tasks m
      (m', 0 :: ids)
  | some task :: tasks, m =>
      let (m', id) := m.enqueueReadyLocked task options
      let (m'', ids) := postBatchLoop options tasks m'
      (m'', id :: ids)

/-- `post_batch`, without the notification. -/
def postBatch (m : TaskManager τ) (tasks : List (Option τ))
    (options : TaskOptions) : TaskManager τ × List Nat :=
  if m.closed then (m, tasks.map fun _ => 0)
  else postBatchLoop options tasks m

/-- `close`; the flag says whether this call closed the manager. -/
def close (m : TaskManager τ) : TaskManager τ × Bool :=
  ({ m with closed := true }, !m.closed)

/-! ## Cancellation -/

/-- What `cancel` does once its compare-exchange has won, by the state it had
loaded before. -/
def cancelled (m : TaskManager τ) (id : Nat) : State → TaskManager τ
  | .queuedReady =>
      ((m.setState id .cancelled).decrementReadyCount.decrementPendingCount
        ).eraseIndex id
  | .queuedDelayed | .readySnapshot =>
      ((m.setState id .cancelled).decrementPendingCount).eraseIndex id
  | .executing =>
      ((m.setState id .cancelled).decrementPendingCount).dropReschedule id
  | .cancelled | .completed => m

/-- The switch of `cancel`, from the state loaded before it: the exchange
fails when the state has moved on in between. -/
def cancelLoaded (m : TaskManager τ) (id : Nat) (loaded : State) :
    TaskManager τ × Bool :=
  match loaded with
  | .cancelled | .completed => (m, false)
  | .executing =>
      if !(m.control id).periodic then (m, false)
      else if m.stateOf id = .executing then (m.cancelled id .executing, true)
      else (m, false)
  | .queuedReady | .queuedDelayed | .readySnapshot =>
      if m.stateOf id = loaded then (m.cancelled id loaded, true)
      else (m, false)

/-- `cancel`, when nothing comes between its load and its exchange. -/
def cancel (m : TaskManager τ) (id : Nat) : TaskManager τ × Bool :=
  if id = 0 then (m, false)
  else if id ∈ m.index then m.cancelLoaded id (m.stateOf id)
  else (m, false)

/-- `cancel_from_context`. -/
def cancelFromContext (m : TaskManager τ) (id : Nat) :
    TaskManager τ × Bool :=
  if id = 0 then (m, false)
  else if id ∈ m.index then
    if m.stateOf id = .executing then
      let m' := (m.setState id .cancelled).dropReschedule id
      (if (m.control id).periodic then m'.decrementPendingCount else m', true)
    else (m, false)
  else (m, false)

/-- `is_cancelled_for_context`. -/
def isCancelledForContext (m : TaskManager τ) (id : Nat) : Bool :=
  if id = 0 then false
  else if id ∈ m.index then m.stateOf id = .cancelled
  else false

/-- `reschedule_from_context`. -/
def rescheduleFromContext (m : TaskManager τ) (id : Nat) (due : Int) :
    TaskManager τ × Bool :=
  if id = 0 then (m, false)
  else if m.closed then (m, false)
  else if id ∈ m.index then
    if m.stateOf id = .executing then (m.requestReschedule id due, true)
    else (m, false)
  else (m, false)

/-! ## Promotion and the batch -/

/-- The state is one that `prune_delayed_top_locked` pops. -/
def dead (m : TaskManager τ) (entry : Entry τ) : Bool :=
  m.stateOf entry.id = .cancelled || m.stateOf entry.id = .completed

def pruneDelayedTopLocked (m : TaskManager τ) : TaskManager τ :=
  m.setDelayed (m.delayedHeap.dropWhile m.dead)

/-- One popped entry of `promote_due_locked`. -/
def promoteEntry (m : TaskManager τ) (entry : Entry τ) : TaskManager τ :=
  if m.stateOf entry.id = .queuedDelayed then
    ((m.setState entry.id .queuedReady).pushBackReady
      entry).incrementReadyCount
  else m

/-- The loop of `promote_due_locked` over the heap from its front: a dead
front is popped by the pruning between two rounds, a due one is promoted, and
the first live entry that is not due stops it. -/
def promoteLoop (now : Int) :
    List (Entry τ) → TaskManager τ → TaskManager τ
  | [], m => m.setDelayed []
  | entry :: heap, m =>
      if m.dead entry then promoteLoop now heap m
      else if entry.due ≤ now then promoteLoop now heap (m.promoteEntry entry)
      else m.setDelayed (entry :: heap)

def promoteDueLocked (m : TaskManager τ) (now : Int) : TaskManager τ :=
  promoteLoop now m.delayedHeap m

/-- The inner loop of `take_ready_batch_locked` on one queue: what is left of
the queue, the batch so far and the manager. -/
def takeLoop (maxTasks : Nat) : List (Entry τ) → List (Entry τ) →
    TaskManager τ → List (Entry τ) × List (Entry τ) × TaskManager τ
  | [], batch, m => ([], batch, m)
  | entry :: queue, batch, m =>
      if batch.length = maxTasks then (entry :: queue, batch, m)
      else if m.stateOf entry.id = .queuedReady then
        takeLoop maxTasks queue (batch ++ [entry])
          (m.setState entry.id .readySnapshot).decrementReadyCount
      else takeLoop maxTasks queue batch m

def takeQueue (maxTasks : Nat) (priority : TaskPriority)
    (batch : List (Entry τ)) (m : TaskManager τ) :
    List (Entry τ) × TaskManager τ :=
  let (queue, batch', m') := takeLoop maxTasks (m.ready priority) batch m
  (batch', m'.setQueue priority queue)

def takeReadyBatchLocked (m : TaskManager τ) (maxTasks : Nat) :
    List (Entry τ) × TaskManager τ :=
  let (batch, m) := takeQueue maxTasks .high [] m
  let (batch, m) := takeQueue maxTasks .normal batch m
  takeQueue maxTasks .low batch m

/-- The critical section at the start of `process`. -/
def beginProcess (m : TaskManager τ) (now : Int) (maxTasks : Nat) :
    List (Entry τ) × TaskManager τ :=
  (m.promoteDueLocked now).takeReadyBatchLocked maxTasks

/-- The start transition of `process`, outside the mutex. -/
def start (m : TaskManager τ) (entry : Entry τ) : Option (TaskManager τ) :=
  if m.stateOf entry.id = .readySnapshot then
    some (m.setState entry.id .executing)
  else none

/-- The decrement after it. -/
def settleStart (m : TaskManager τ) (entry : Entry τ) : TaskManager τ :=
  if entry.periodic then m else m.decrementPendingCount

/-! ## After the callback -/

def nextPeriodicDue (entry : Entry τ) (now : Int) : Int :=
  match entry.periodicSchedule with
  | .fixedRate => timeAfter entry.plannedDue entry.interval
  | .fixedDelay => timeAfter now entry.interval

/-- `enqueue_existing_locked`. -/
def enqueueExistingLocked (m : TaskManager τ) (now : Int) (entry : Entry τ)
    (due : Int) : TaskManager τ :=
  if m.stateOf entry.id = .executing then
    let m := m.setState entry.id
      (if due ≤ now then .queuedReady else .queuedDelayed)
    let m := if entry.periodic then m else m.incrementPendingCount
    let entry :=
      { entry with seq := m.nextSeq, due := due, plannedDue := due }
    if due ≤ now then
      (m.advanceSeq.pushBackReady entry).incrementReadyCount
    else m.advanceSeq.pushDelayed entry
  else m

/-- The transition to `completed` and what follows it. -/
def complete (m : TaskManager τ) (entry : Entry τ) : TaskManager τ :=
  let m := m.setState entry.id .completed
  let m := if entry.periodic then m.decrementPendingCount else m
  m.eraseIndex entry.id

/-- `finish_after_success`; `now` is read for the next periodic deadline and
`now'` by `enqueue_existing_locked`. -/
def finishAfterSuccess (m : TaskManager τ) (now now' : Int)
    (entry : Entry τ) : TaskManager τ :=
  if m.stateOf entry.id = .cancelled then
    (m.dropReschedule entry.id).eraseIndex entry.id
  else if m.stateOf entry.id ≠ .executing then m
  else if m.closed then (m.complete entry).dropReschedule entry.id
  else if (m.control entry.id).rescheduleRequested then
    (m.dropReschedule entry.id).enqueueExistingLocked now' entry
      (m.control entry.id).rescheduleDue
  else if entry.periodic then
    m.enqueueExistingLocked now' entry (nextPeriodicDue entry now)
  else (m.setState entry.id .completed).eraseIndex entry.id

/-- `finish_after_exception`. -/
def finishAfterException (m : TaskManager τ) (entry : Entry τ) :
    TaskManager τ :=
  let m := m.dropReschedule entry.id
  if m.stateOf entry.id = .executing then m.complete entry
  else if m.stateOf entry.id = .cancelled then m.eraseIndex entry.id
  else m

/-- One entry of `restore_unrun`. -/
def restoreEntry (entry : Entry τ) (m : TaskManager τ) : TaskManager τ :=
  if m.stateOf entry.id = .readySnapshot then
    ((m.setState entry.id .queuedReady).pushFrontReady
      entry).incrementReadyCount
  else m

/-- `restore_unrun`, from the last entry of the batch to the first unrun. -/
def restoreUnrun (m : TaskManager τ) (unrun : List (Entry τ)) :
    TaskManager τ :=
  unrun.foldr restoreEntry m

/-! ## Dropping and queries -/

/-- One entry of a ready queue in `clear_pending`; the second component is
the list of tasks dropped so far. -/
def clearReadyEntry (r : TaskManager τ × List Nat) (entry : Entry τ) :
    TaskManager τ × List Nat :=
  if r.1.stateOf entry.id = .queuedReady then
    (r.1.cancelled entry.id .queuedReady, r.2 ++ [entry.id])
  else r

/-- One entry of the heap in `clear_pending`. -/
def clearDelayedEntry (r : TaskManager τ × List Nat) (entry : Entry τ) :
    TaskManager τ × List Nat :=
  if r.1.stateOf entry.id = .queuedDelayed then
    (r.1.cancelled entry.id .queuedDelayed, r.2 ++ [entry.id])
  else r

def clearQueue (priority : TaskPriority) (r : TaskManager τ × List Nat) :
    TaskManager τ × List Nat :=
  let r' := (r.1.ready priority).foldl clearReadyEntry r
  (r'.1.setQueue priority [], r'.2)

def clearDelayed (r : TaskManager τ × List Nat) : TaskManager τ × List Nat :=
  let r' := r.1.delayedHeap.foldl clearDelayedEntry r
  (r'.1.setDelayed [], r'.2)

/-- `clear_pending`; it returns how many tasks it dropped, here which. -/
def clearPending (m : TaskManager τ) : TaskManager τ × List Nat :=
  clearDelayed (clearQueue .low (clearQueue .normal (clearQueue .high (m, []))))

def hasReady (m : TaskManager τ) : Bool := m.readyCount ≠ 0

def hasPending (m : TaskManager τ) : Bool := m.pendingCount ≠ 0

/-- `next_deadline`, which prunes as it looks. -/
def nextDeadline (m : TaskManager τ) : TaskManager τ × Option Int :=
  let m := m.pruneDelayedTopLocked
  (m, m.delayedHeap.head?.map Entry.due)

/-- `recommend_wait_for`: the ready count, then `next_deadline`, then the
clock. -/
def recommendWaitFor (m : TaskManager τ) (now cap : Int) :
    TaskManager τ × Int :=
  if m.hasReady then (m, 0)
  else
    match m.nextDeadline with
    | (m, none) => (m, cap)
    | (m, some deadline) =>
        if deadline ≤ now then (m, 0)
        else (m, if deadline - now < cap then deadline - now else cap)

end TaskManager

end EventHub
