import EventHub.Task.Session

/-!
# The eager scheduler

What a manager is for, without the machinery: three lists of tasks in the
order they became ready, a list of delayed tasks in the order they fall due,
the batch of the `process()` call in progress, and the task that is running.
There are no states, no index and no counters, and nothing lingers: a cancelled
task is taken out of its list at once.
-/

namespace EventHub

/-- The task whose callback is on the stack, and what its context has been
asked for. -/
structure RunningTask (τ : Type) where
  entry : Entry τ
  cancelled : Bool := false
  reschedule : Option Int := none

@[ext]
structure Scheduler (τ : Type) where
  queue : TaskPriority → List (Entry τ) := fun _ => []
  delayed : List (Entry τ) := []
  batch : List (Entry τ) := []
  current : Option (RunningTask τ) := none
  processed : Nat := 0
  nextId : Nat := 1
  nextSeq : Nat := 1
  closed : Bool := false

namespace Scheduler

variable {τ : Type}

/-- A ready task goes to the end of the list of its priority, a delayed one
to its place by `(due, seq)`. -/
def enqueue (r : Scheduler τ) (entry : Entry τ) (ready : Bool) : Scheduler τ :=
  if ready then
    { r with
      queue := Function.update r.queue entry.priority
        (r.queue entry.priority ++ [entry]) }
  else { r with delayed := r.delayed.orderedInsert Entry.popsBefore entry }

/-- A new task gets the next id. -/
def submit (r : Scheduler τ) (entry : Entry τ) (ready : Bool) :
    Scheduler τ × Nat :=
  ({ r.enqueue { entry with id := r.nextId, seq := r.nextSeq } ready with
      nextId := r.nextId + 1, nextSeq := r.nextSeq + 1 }, r.nextId)

def post (r : Scheduler τ) (task : Option τ) (options : TaskOptions) :
    Scheduler τ × Nat :=
  match task with
  | none => (r, 0)
  | some task =>
      if r.closed then (r, 0)
      else r.submit { priority := options.priority, task := task } true

def postAt (r : Scheduler τ) (now due : Int) (task : Option τ)
    (options : TaskOptions) : Scheduler τ × Nat :=
  match task with
  | none => (r, 0)
  | some task =>
      if r.closed then (r, 0)
      else if due ≤ now then
        r.submit { priority := options.priority, task := task } true
      else
        r.submit { priority := options.priority, due := due, task := task } false

def postEveryAfter (r : Scheduler τ) (now now' initialDelay interval : Int)
    (task : Option τ) (options : PeriodicTaskOptions) : Scheduler τ × Nat :=
  match task with
  | none => (r, 0)
  | some task =>
      if interval ≤ 0 ∨ r.closed then (r, 0)
      else
        let due :=
          if initialDelay ≤ 0 then now else TaskManager.timeAfter now initialDelay
        r.submit
          { priority := options.priority, due := due, periodic := true,
            interval := interval, periodicSchedule := options.schedule,
            plannedDue := due, task := task } (due ≤ now')

def postBatch (r : Scheduler τ) (options : TaskOptions) :
    List (Option τ) → Scheduler τ × List Nat
  | [] => (r, [])
  | task :: tasks =>
      let (r', id) := r.post task options
      let (r'', ids) := r'.postBatch options tasks
      (r'', id :: ids)

/-- The task waits in a list. -/
def waits (r : Scheduler τ) (id : Nat) : Bool :=
  (r.queue .high ++ r.queue .normal ++ r.queue .low ++ r.delayed ++
    r.batch).any fun entry => entry.id = id

def remove (r : Scheduler τ) (id : Nat) : Scheduler τ :=
  { r with
    queue := fun priority => (r.queue priority).filter fun entry => entry.id ≠ id
    delayed := r.delayed.filter fun entry => entry.id ≠ id
    batch := r.batch.filter fun entry => entry.id ≠ id }

/-- The running task, if it is `id` and has not been cancelled. -/
def running (r : Scheduler τ) (id : Nat) : Option (RunningTask τ) :=
  r.current.filter fun run => run.entry.id = id && !run.cancelled

def cancelRunning (r : Scheduler τ) (run : RunningTask τ) : Scheduler τ :=
  { r with current := some { run with cancelled := true, reschedule := none } }

/-- A waiting task is removed; a running one can only be kept from running
again, which is something only a periodic task would do. -/
def cancel (r : Scheduler τ) (id : Nat) : Scheduler τ × Bool :=
  if r.waits id then (r.remove id, true)
  else
    match r.running id with
    | some run =>
        if run.entry.periodic then (r.cancelRunning run, true) else (r, false)
    | none => (r, false)

def contextCancel (r : Scheduler τ) (id : Nat) : Scheduler τ × Bool :=
  match r.running id with
  | some run => (r.cancelRunning run, true)
  | none => (r, false)

def contextIsCancelled (r : Scheduler τ) (id : Nat) : Bool :=
  r.current.any fun run => run.entry.id = id && run.cancelled

def contextReschedule (r : Scheduler τ) (id : Nat) (due : Int) :
    Scheduler τ × Bool :=
  if r.closed then (r, false)
  else
    match r.running id with
    | some run => ({ r with current := some { run with reschedule := some due } },
        true)
    | none => (r, false)

/-- The tasks that are due leave the delayed list, in its order, for the
lists of their priorities. -/
def promote (r : Scheduler τ) (now : Int) : Scheduler τ :=
  let due := r.delayed.filter fun entry => entry.due ≤ now
  { r with
    queue := fun priority =>
      r.queue priority ++ due.filter fun entry => entry.priority = priority
    delayed := r.delayed.filter fun entry => now < entry.due }

/-- All ready tasks in the order in which they are taken. -/
def ready (r : Scheduler τ) : List (Entry τ) :=
  r.queue .high ++ r.queue .normal ++ r.queue .low

/-- The first `maxTasks` ready tasks become the batch. -/
def take (r : Scheduler τ) (maxTasks : Nat) : Scheduler τ :=
  let high := (r.queue .high).length
  let normal := (r.queue .normal).length
  { r with
    batch := r.ready.take maxTasks
    queue := fun
      | .high => (r.queue .high).drop maxTasks
      | .normal => (r.queue .normal).drop (maxTasks - high)
      | .low => (r.queue .low).drop (maxTasks - high - normal) }

/-- The next task of the batch starts, or the call of `process()` returns. -/
def next (r : Scheduler τ) : Scheduler τ × Reply :=
  match r.batch with
  | [] => ({ r with current := none }, .returned r.processed)
  | entry :: batch =>
      ({ r with batch := batch, current := some { entry := entry } },
        .started entry.id)

/-- The callback has returned: a task that is not cancelled is enqueued again
if its context asked for that, or if it is periodic. -/
def finish (r : Scheduler τ) (now now' : Int) (run : RunningTask τ) :
    Scheduler τ :=
  let again (due : Int) : Scheduler τ :=
    { r.enqueue { run.entry with seq := r.nextSeq, due := due,
                                 plannedDue := due } (due ≤ now') with
      nextSeq := r.nextSeq + 1 }
  if run.cancelled || r.closed then r
  else
    match run.reschedule with
    | some due => again due
    | none =>
        if run.entry.periodic then
          again (TaskManager.nextPeriodicDue run.entry now)
        else r

def serve (r : Scheduler τ) : Call τ → Option (Scheduler τ × Reply)
  | .post task options =>
      let (r, id) := r.post task options
      some (r, .ids [id])
  | .postAt now due task options =>
      let (r, id) := r.postAt now due task options
      some (r, .ids [id])
  | .postEveryAfter now now' initialDelay interval task options =>
      let (r, id) := r.postEveryAfter now now' initialDelay interval task options
      some (r, .ids [id])
  | .postBatch tasks options =>
      let (r, ids) := r.postBatch options tasks
      some (r, .ids ids)
  | .close => some ({ r with closed := true }, .done)
  | .cancel id =>
      let (r, result) := r.cancel id
      some (r, .flag result)
  | .contextCancel id =>
      let (r, result) := r.contextCancel id
      some (r, .flag result)
  | .contextIsCancelled id => some (r, .flag (r.contextIsCancelled id))
  | .contextReschedule id due =>
      let (r, result) := r.contextReschedule id due
      some (r, .flag result)
  | .nextDeadline => some (r, .deadline (r.delayed.head?.map Entry.due))
  | .process now maxTasks =>
      match r.current with
      | none =>
          if maxTasks = 0 then some (r, .returned 0)
          else
            some { ((r.promote now).take maxTasks) with processed := 0 }.next
      | some _ => none
  | .callbackReturned now now' =>
      match r.current with
      | some run =>
          some { r.finish now now' run with processed := r.processed + 1 }.next
      | none => none

end Scheduler

end EventHub
