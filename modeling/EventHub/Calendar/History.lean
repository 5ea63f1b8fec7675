import EventHub.Lib.Histories
import EventHub.Calendar.Step

/-!
# When the occurrences of a rule come

A trace kept beside a scheduler that knows nothing of it: what `emit` is asked
to say about the times of a rule, whether or not the rule has an observer. The
newest notice is first, and the lists that are read off the trace are oldest
first.
-/

namespace EventHub

open History

variable {ι : Type}

inductive CalendarNotice
  | scheduled (r : Nat) (planned : Int)
  | due (r : Nat) (planned : Int)
  /-- The callback has ended, and the clock read this. -/
  | ended (r : Nat) (observed : Int)
  deriving DecidableEq, Repr

namespace CalendarNotice

def rule : CalendarNotice → Nat
  | .scheduled r _ | .due r _ | .ended r _ => r

/-- The planned time of a notice that has one. -/
def plannedUtcMs : CalendarNotice → Option Int
  | .scheduled _ planned | .due _ planned => some planned
  | .ended .. => none

def dueOf (r : Nat) : CalendarNotice → List Int
  | .due q planned => if q = r then [planned] else []
  | _ => []

end CalendarNotice

/-- The planned times of the `due` events of a rule. -/
def dues (r : Nat) (trace : List CalendarNotice) : List Int :=
  observed (CalendarNotice.dueOf r) trace

/-- What the clock read at the end of the last run of the rule. -/
def lastEnd (r : Nat) : List CalendarNotice → Option Int
  | [] => none
  | .ended q observed :: trace =>
      if q = r then some observed else lastEnd r trace
  | .scheduled .. :: trace | .due .. :: trace => lastEnd r trace

/-- Rules with these options only move forward. -/
structure MovesForward (options : Nat → CalendarTaskOptions)
    (trace : List CalendarNotice) : Prop where
  increasing : ∀ r, (dues r trace).Pairwise (· < ·)
  afterLast : ∀ n ∈ trace, ∀ last ∈ (options n.rule).lastDueUtcMs,
    ∀ planned ∈ n.plannedUtcMs, last < planned
  afterRun : Each (fun earlier n => ∀ r planned, n = .scheduled r planned →
    (options r).overlapPolicy = .skip →
      ∀ observed ∈ lastEnd r earlier, observed < planned) trace

/-- What the log of a scheduler says in these terms. -/
def CalendarObs.notice : CalendarObs → Option CalendarNotice
  | .emitted r _ info =>
      match info.event with
      | .scheduled => some (.scheduled r info.plannedUtcMs)
      | .due => some (.due r info.plannedUtcMs)
      | .afterCallback => some (.ended r info.observedUtcMs)
      | _ => none
  | _ => none

/-! ## Scheduler and trace -/

/-- The call of `emit` in the step of this frame, if it is one of the three. -/
def CalendarFrame.notices (w : CalendarWorld) (result : Option Int) :
    CalendarFrame → List CalendarNotice
  | .publish r planned _ _ _ =>
      if w.gone r then [] else [.scheduled r planned]
  | .running run .due => [.due run.rule run.planned]
  | .running run .after => [.ended run.rule run.observed]
  | .running run .failed => [.ended run.rule (result.getD 0)]
  | _ => []

def CalendarSystem.notices (s : CalendarSystem ι) :
    CalendarAction ι → List CalendarNotice
  | .advance t _ =>
      match s.frames t, s.mode t with
      | f :: _, .running result => f.notices s.world result
      | _, _ => []
  | _ => []

structure TracedCalendar (ι : Type) where
  calendar : CalendarSystem ι := {}
  /-- Newest first. -/
  trace : List CalendarNotice := []

namespace TracedCalendar

variable [DecidableEq ι]

def step (s : TracedCalendar ι) (a : CalendarAction ι) :
    Option (TracedCalendar ι) :=
  (s.calendar.step a).map fun calendar =>
    { calendar := calendar, trace := s.calendar.notices a ++ s.trace }

end TracedCalendar

/-! ## What the program keeps to -/

/-- The lower bound that was given to the provider the frame waits for. -/
def CalendarFrame.after (w : CalendarWorld) : CalendarFrame → Option Int
  | .adding r (.missing _) => (w.states r).options.lastDueUtcMs
  | .adding _ (.planning observed) => some observed
  | .running run .asked => some run.planned
  | .running run .skipping => some run.observed
  | _ => none

/-- What was returned to the frame that goes on. -/
def CalendarMode.result : CalendarMode → Option Int
  | .running result => result
  | .throwing => none

/-- A provider has returned a time that is later than its lower bound. -/
def CalendarSystem.ProvidesLater (s : CalendarSystem ι) (t : ι)
    (f : CalendarFrame) : Prop :=
  ∀ after ∈ f.after s.world, ∀ next ∈ (s.mode t).result, after < next

instance (s : CalendarSystem ι) (t : ι) (f : CalendarFrame) :
    Decidable (s.ProvidesLater t f) :=
  inferInstanceAs (Decidable (∀ after ∈ f.after s.world, _))

/-- The task whose context is asked to reschedule it. -/
def CalendarAction.rescheduled : CalendarAction ι → Option Nat
  | .call _ (.manager (.contextReschedule i _)) => some i
  | _ => none

/-- The thread that adds a rule or processes tasks. -/
def CalendarAction.works : CalendarAction ι → Option ι
  | .call t (.addRule _) | .call t (.process ..) => some t
  | _ => none

namespace CalendarSystem

/-- No occurrence of a rule is rescheduled through its context. -/
def KeepsSchedule (s : CalendarSystem ι) (a : CalendarAction ι) : Prop :=
  ∀ i ∈ a.rescheduled, s.world.job i = none

instance (s : CalendarSystem ι) (a : CalendarAction ι) :
    Decidable (s.KeepsSchedule a) :=
  inferInstanceAs (Decidable (∀ i ∈ a.rescheduled, _))

end CalendarSystem

end EventHub
