import EventHub.Lib.Overflow
import EventHub.Task.Manager

/-!
# Deadlines that are given in milliseconds

The other modules count time in integers. Here it is as in the program: the
clocks and `Duration` count nanoseconds in 64 bits, and a number of
milliseconds is multiplied by a million and added to a reading of a clock. An
operation that overflows wraps, which `Arith` records.
-/

namespace EventHub

variable {τ : Type}

/-- A conversion of `std::chrono::milliseconds(ms)` to `Duration`. -/
def castMs (ms : Int64) : Arith Int64 := Arith.mul ms 1000000

namespace TaskManager

/-- `post_after_ms`, with the readings of `post_after` and of `post_at`. -/
def postAfterMs (m : TaskManager τ) (now now' : Int64) (delayMs : Int64)
    (task : Option τ) (options : TaskOptions) : Arith (TaskManager τ × Nat) := do
  let delay ← castMs delayMs
  let due ← Arith.add now delay
  return m.postAt now'.toInt due.toInt task options

/-- `post_every_after`; its two casts are made where it makes them. -/
def postEveryAfterCast (m : TaskManager τ) (now now' : Int64)
    (initialDelay interval : Arith Int64) (task : Option τ)
    (options : PeriodicTaskOptions) : Arith (TaskManager τ × Nat) :=
  match task with
  | none => return (m, 0)
  | some task => do
      let period ← interval
      if period ≤ 0 then
        return (m, 0)
      else
        let delay ← initialDelay
        let due ← if delay ≤ 0 then pure now else Arith.add now delay
        if m.closed then
          return (m, 0)
        else
          return m.enqueuePeriodicLocked now'.toInt due.toInt period.toInt task
            options

/-- `post_every_ms`, by way of `post_every`. -/
def postEveryMs (m : TaskManager τ) (now now' : Int64) (intervalMs : Int64)
    (task : Option τ) (options : PeriodicTaskOptions) :
    Arith (TaskManager τ × Nat) :=
  m.postEveryAfterCast now now' (pure 0) (castMs intervalMs) task options

def postEveryAfterMs (m : TaskManager τ) (now now' : Int64)
    (initialDelayMs intervalMs : Int64) (task : Option τ)
    (options : PeriodicTaskOptions) : Arith (TaskManager τ × Nat) :=
  m.postEveryAfterCast now now' (castMs initialDelayMs) (castMs intervalMs) task
    options

/-- `add_task_at_system_ms`, by way of `add_task_at_system`; `system` is the
reading of the system clock, in nanoseconds as well. -/
def addTaskAtSystemMs (m : TaskManager τ) (system now now' : Int64)
    (unixTimeMs : Int64) (task : Option τ) (options : TaskOptions) :
    Arith (TaskManager τ × Nat) := do
  let time ← castMs unixTimeMs
  let delay ← Arith.sub time system
  let deadline ← Arith.add now delay
  return m.postAt now'.toInt deadline.toInt task options

end TaskManager

/-- The deadline that the constructor of `EventAwaiter` computes, if any, from
the timeout that `AwaitOptions::set_timeout_ms` has set. -/
def awaiterDeadline (now : Int64) (timeoutMs : Int64) : Arith (Option Int64) := do
  let timeout ← castMs timeoutMs
  if 0 < timeout then
    let deadline ← Arith.add now timeout
    return some deadline
  else
    return none

/-! ## What is asked of them -/

/-- A function that is given milliseconds, and what it is given. -/
inductive MillisCall
  | postAfterMs (delayMs : Int64) (options : TaskOptions)
  | postEveryMs (intervalMs : Int64) (options : PeriodicTaskOptions)
  | postEveryAfterMs (initialDelayMs intervalMs : Int64)
      (options : PeriodicTaskOptions)
  | addTaskAtSystemMs (unixTimeMs : Int64) (options : TaskOptions)
  | setTimeoutMs (timeoutMs : Int64)

/-- The clocks during a call: the system clock, and the steady clock twice. -/
structure MillisReadings where
  system : Int64 := 0
  now : Int64 := 0
  now' : Int64 := 0

/-- The submitted task is not ready at any time from `since` on that is before
`due`. -/
def NotReadyBefore (r : TaskManager τ × Nat) (since due : Int) : Prop :=
  ∀ t, since ≤ t → t < due → (r.1.promoteDueLocked t).stateOf r.2 ≠ .queuedReady

/-- An open manager accepts the series, and its entry has at least this
interval. -/
def AcceptedWith (m : TaskManager τ) (r : TaskManager τ × Nat) (interval : Int) :
    Prop :=
  m.closed = false → r.2 ≠ 0 ∧
    ∃ entry, (entry ∈ r.1.ready entry.priority ∨ entry ∈ r.1.delayedHeap) ∧
      entry.id = r.2 ∧ interval ≤ entry.interval

/-- A number of milliseconds in nanoseconds. -/
def nanos (ms : Int64) : Int := ms.toInt * 1000000

namespace MillisCall

/-- Nothing overflows, and nothing is due early. -/
def Kept (m : TaskManager τ) (task : τ) (rd : MillisReadings) : MillisCall → Prop
  | .postAfterMs delayMs options =>
      let r := m.postAfterMs rd.now rd.now' delayMs (some task) options
      r.exact ∧ (0 < delayMs →
        NotReadyBefore r.value rd.now'.toInt (rd.now.toInt + nanos delayMs))
  | .postEveryMs intervalMs options =>
      let r := m.postEveryMs rd.now rd.now' intervalMs (some task) options
      r.exact ∧ (0 < intervalMs → AcceptedWith m r.value (nanos intervalMs))
  | .postEveryAfterMs initialDelayMs intervalMs options =>
      let r := m.postEveryAfterMs rd.now rd.now' initialDelayMs intervalMs
        (some task) options
      r.exact ∧
        (0 < initialDelayMs → NotReadyBefore r.value rd.now'.toInt
          (rd.now.toInt + nanos initialDelayMs)) ∧
        (0 < intervalMs → AcceptedWith m r.value (nanos intervalMs))
  | .addTaskAtSystemMs unixTimeMs options =>
      let r := m.addTaskAtSystemMs rd.system rd.now rd.now' unixTimeMs (some task)
        options
      r.exact ∧ NotReadyBefore r.value rd.now'.toInt
        (rd.now.toInt + (nanos unixTimeMs - rd.system.toInt))
  | .setTimeoutMs timeoutMs =>
      let r := awaiterDeadline rd.now timeoutMs
      r.exact ∧ (0 < timeoutMs →
        ∃ deadline ∈ r.value, rd.now.toInt + nanos timeoutMs ≤ deadline.toInt)

/-- The greatest number of whole milliseconds in a `Duration`. -/
def maxMs : Nat := 9223372036854

/-- The milliseconds are those of a `Duration`, and so are the times that they
lead to. -/
def InRange (rd : MillisReadings) : MillisCall → Prop
  | .postAfterMs delayMs _ =>
      delayMs.toInt.natAbs ≤ maxMs ∧ Arith.Fits (rd.now.toInt + nanos delayMs)
  | .postEveryMs intervalMs _ => intervalMs.toInt.natAbs ≤ maxMs
  | .postEveryAfterMs initialDelayMs intervalMs _ =>
      intervalMs.toInt.natAbs ≤ maxMs ∧
        (0 < intervalMs → initialDelayMs.toInt.natAbs ≤ maxMs ∧
          (0 < initialDelayMs → Arith.Fits (rd.now.toInt + nanos initialDelayMs)))
  | .addTaskAtSystemMs unixTimeMs _ =>
      unixTimeMs.toInt.natAbs ≤ maxMs ∧
        Arith.Fits (nanos unixTimeMs - rd.system.toInt) ∧
        Arith.Fits (rd.now.toInt + (nanos unixTimeMs - rd.system.toInt))
  | .setTimeoutMs timeoutMs =>
      timeoutMs.toInt.natAbs ≤ maxMs ∧
        (0 < timeoutMs → Arith.Fits (rd.now.toInt + nanos timeoutMs))

end MillisCall

end EventHub
