import EventHub.Task.History

/-!
# A manager and its clock

`Task/System.lean` takes every clock reading as an argument and says nothing of
how two of them compare. Here they come from one steady clock. A reading taken
under `m_mutex` is no earlier than any taken before it. The one reading taken
outside, by which `post_every_after` computes the first deadline, may be stale
by the time the mutex is held. `pass` lets time go by while nobody reads.

Everything else is history: the series that were accepted, and for every id
the cycles its callback has begun, newest first.
-/

namespace EventHub

/-- A call of a callback: what it was planned for, when it began and in which
call of `process()`. `ended` is the reading that follows its return. -/
structure Cycle where
  planned : Int
  began : Int
  call : Nat
  ended : Option Int := none
  deriving DecidableEq, Repr

/-- An accepted `post_every_after`. -/
structure Series where
  firstDue : Int
  interval : Int
  schedule : PeriodicSchedule
  deriving DecidableEq, Repr

structure TimedSystem (τ : Type) where
  sys : TaskSystem τ := {}
  clock : Int := 0
  calls : Nat := 0
  series : Nat → Option Series := fun _ => none
  cycles : Nat → List Cycle := fun _ => []

inductive TimedAction (τ : Type)
  | pass (now : Int)
  | act (a : TaskAction τ)

/-- The clock readings of an action under the mutex, in their order. -/
def TaskAction.readings {τ : Type} : TaskAction τ → List Int
  | .postAt now _ _ _ | .processBegin now _ => [now]
  | .postEveryAfter _ now' _ _ _ _ => [now']
  | .callbackReturned now now' => [now, now']
  | _ => []

/-- The reading outside the mutex precedes the one under it. -/
def TaskAction.stale {τ : Type} : TaskAction τ → Bool
  | .postEveryAfter now now' _ _ _ _ => now ≤ now'
  | _ => true

namespace TimedSystem

variable {τ : Type}

/-- The series after an action. -/
def seriesAfter (s : TimedSystem τ) : TaskAction τ → Nat → Option Series
  | .postEveryAfter now now' initialDelay interval task options =>
      let id := (s.sys.mgr.postEveryAfter now now' initialDelay interval task
        options).2
      if id = 0 then s.series
      else
        Function.update s.series id (some
          { firstDue := if initialDelay ≤ 0 then now else now + initialDelay
            interval := interval, schedule := options.schedule })
  | _ => s.series

/-- The cycles after an action that led to `sys`. -/
def cyclesAfter (s : TimedSystem τ) (sys : TaskSystem τ) (a : TaskAction τ) :
    Nat → List Cycle :=
  match a with
  | .processStart =>
      match sys.phase with
      | .starting entry _ =>
          Function.update s.cycles entry.id
            ({ planned := entry.plannedDue, began := s.clock, call := s.calls } ::
              s.cycles entry.id)
      | _ => s.cycles
  | .callbackReturned now _ =>
      match s.sys.phase with
      | .running entry _ =>
          Function.update s.cycles entry.id
            ((s.cycles entry.id).modifyHead fun c => { c with ended := some now })
      | _ => s.cycles
  | _ => s.cycles

/-- The calls of `process()` so far; `calls` is the number of the last one. -/
def callsAfter (s : TimedSystem τ) : TaskAction τ → Nat
  | .processBegin _ _ => s.calls + 1
  | _ => s.calls

def step (s : TimedSystem τ) : TimedAction τ → Option (TimedSystem τ)
  | .pass now => if s.clock ≤ now then some { s with clock := now } else none
  | .act a =>
      if (s.clock :: a.readings).Pairwise (· ≤ ·) ∧ a.stale then
        (s.sys.step a).map fun sys =>
          { sys := sys
            clock := a.readings.getLastD s.clock
            calls := s.callsAfter a
            series := s.seriesAfter a
            cycles := s.cyclesAfter sys a }
      else none

/-- The states of a manager whose clock has started anywhere. -/
def Reachable (s : TimedSystem τ) : Prop :=
  ∃ start, Lts.Reachable step { clock := start } s

/-- The cycles of a series in their order. -/
def cyclesOf (s : TimedSystem τ) (id : Nat) : List Cycle :=
  (s.cycles id).reverse

end TimedSystem

/-- What the interval of a periodic task is added to when its callback has
returned at `now`. -/
def Entry.periodStart {τ : Type} (entry : Entry τ) (now : Int) : Int :=
  match entry.periodicSchedule with
  | .fixedRate => entry.plannedDue
  | .fixedDelay => now

/-- The manager is open and nothing has interfered with the task. -/
def TaskSystem.Undisturbed {τ : Type} (s : TaskSystem τ) (id : Nat) : Prop :=
  s.mgr.closed = false ∧ ∀ o ∈ s.log, o.disturbs id = false

instance TaskSystem.decidableUndisturbed {τ : Type} (s : TaskSystem τ) (id : Nat) :
    Decidable (s.Undisturbed id) :=
  inferInstanceAs (Decidable (_ ∧ _))

namespace TimedSystem

variable {τ : Type}

/-- The sum by which the step computes a deadline of `id`, if it does, is one
of 64 bits. -/
def DueFits (id : Nat) (s : TimedSystem τ) : TimedAction τ → Prop
  | .act (.postEveryAfter now now' initialDelay interval task options) =>
      (s.sys.mgr.postEveryAfter now now' initialDelay interval task options).2 = id →
        0 < initialDelay → Arith.Fits (now + initialDelay)
  | .act (.callbackReturned now _) =>
      match s.sys.phase with
      | .running entry _ => entry.id = id →
          Arith.Fits (entry.periodStart now + entry.interval)
      | _ => True
  | _ => True

instance decidableDueFits (id : Nat) (s : TimedSystem τ) (a : TimedAction τ) :
    Decidable (s.DueFits id a) := by
  unfold DueFits
  split
  · infer_instance
  · split <;> infer_instance
  · infer_instance

end TimedSystem

/-- The deadline that the cycles so far, newest first, lead to. -/
def Series.nextDue (p : Series) (cycles : List Cycle) : Option Int :=
  match p.schedule, cycles with
  | .fixedRate, cycles => some (p.firstDue + cycles.length * p.interval)
  | .fixedDelay, [] => some p.firstDue
  | .fixedDelay, c :: _ => c.ended.map fun ended => ended + p.interval

end EventHub
