import EventHub.Calendar.Provider
import EventHub.Calendar.Step

/-!
# The occurrences missed before a rule is created

A trace kept beside a scheduler that knows nothing of it: what the clock said
when a rule was created, and for when the callbacks that run were planned. The
newest notice is first. The rules are built-in ones, and their providers return
what `CalendarRule.provider` computes.
-/

namespace EventHub

variable {ι : Type}

inductive BacklogNotice
  /-- `add_rule` has read the clock. -/
  | created (r : Nat) (observed : Int)
  /-- The callback is called. -/
  | ran (r : Nat) (planned : Int)
  deriving DecidableEq, Repr

namespace BacklogNotice

def rule : BacklogNotice → Nat
  | .created r _ | .ran r _ => r

/-- A run of rule `r` that was planned for no later than `bound`. -/
def runsBy (r : Nat) (bound : Int) : BacklogNotice → Bool
  | .created .. => false
  | .ran q planned => q = r && planned ≤ bound

end BacklogNotice

/-- What the clock said when the rule was created. -/
def createdAt (r : Nat) : List BacklogNotice → Option Int
  | [] => none
  | .created q observed :: trace =>
      if q = r then some observed else createdAt r trace
  | .ran .. :: trace => createdAt r trace

/-- The runs that were planned for no later than that. -/
def catchUps (r : Nat) (trace : List BacklogNotice) : Nat :=
  match createdAt r trace with
  | some created => trace.countP (BacklogNotice.runsBy r created)
  | none => 0

/-- The rules of a scheduler, each with its clock, and what their providers
return. -/
structure BuiltinRules (Zone : Type) where
  ts : TimeShield Zone
  rule : Nat → CalendarRule
  clock : Nat → ZonedClock Zone

namespace BuiltinRules

variable {Zone : Type} (rules : BuiltinRules Zone)

def next (r : Nat) (after : Int) : Option Int :=
  ((rules.rule r).provider rules.ts).bind fun provider =>
    provider (rules.clock r) after

/-- The missed occurrence that a rule created at that time is to catch up
with. -/
def backlog (options : CalendarTaskOptions) (r : Nat) (created : Int) :
    Option Int :=
  match options.missedPolicy, options.lastDueUtcMs with
  | .runOnceImmediately, some last => (rules.next r last).filter (· ≤ created)
  | _, _ => none

end BuiltinRules

/-! ## Scheduler and trace -/

def CalendarFrame.backlogNotices (result : Option Int) :
    CalendarFrame → List BacklogNotice
  | .adding r .created => [.created r (result.getD 0)]
  | .running run .calling => [.ran run.rule run.planned]
  | _ => []

def CalendarSystem.backlogNotices (s : CalendarSystem ι) :
    CalendarAction ι → List BacklogNotice
  | .advance t _ =>
      match s.frames t, s.mode t with
      | f :: _, .running result => f.backlogNotices result
      | _, _ => []
  | _ => []

structure BacklogCalendar (ι : Type) where
  calendar : CalendarSystem ι := {}
  /-- Newest first. -/
  trace : List BacklogNotice := []

namespace BacklogCalendar

variable [DecidableEq ι]

def step (s : BacklogCalendar ι) (a : CalendarAction ι) :
    Option (BacklogCalendar ι) :=
  (s.calendar.step a).map fun calendar =>
    { calendar := calendar, trace := s.calendar.backlogNotices a ++ s.trace }

end BacklogCalendar

/-! ## What the program keeps to -/

namespace CalendarFrame

/-- The rule and the lower bound that were given to the provider the frame
waits for. -/
def asksFor (w : CalendarWorld) : CalendarFrame → Option (Nat × Int)
  | .adding r (.missing _) =>
      (w.states r).options.lastDueUtcMs.map fun last => (r, last)
  | .adding r (.planning observed) => some (r, observed)
  | .running run .asked => some (run.rule, run.planned)
  | .running run .skipping => some (run.rule, run.observed)
  | _ => none

/-- The run that asks for the occurrence after it. -/
def asksNext : CalendarFrame → Option Run
  | .running run .asked => some run
  | _ => none

end CalendarFrame

/-- What moves is a frame of the library. -/
def CalendarSystem.top (s : CalendarSystem ι) :
    CalendarAction ι → Option (ι × CalendarFrame)
  | .advance t _ => (s.frames t).head?.map fun f => (t, f)
  | _ => none

namespace BacklogCalendar

variable {Zone : Type}

/-- A provider that was called has returned what its rule says. -/
def Provides (rules : BuiltinRules Zone) (s : BacklogCalendar ι)
    (a : CalendarAction ι) : Prop :=
  ∀ x ∈ s.calendar.top a, ∀ q ∈ x.2.asksFor s.calendar.world,
    s.calendar.mode x.1 = .running (rules.next q.1 q.2)

instance decidableProvides (rules : BuiltinRules Zone) (s : BacklogCalendar ι)
    (a : CalendarAction ι) : Decidable (s.Provides rules a) :=
  inferInstanceAs (Decidable (∀ x ∈ s.calendar.top a, _))

/-- When the run for the missed occurrence asks for the next one, either none
is left that was missed before the rule was created, or the overlap policy has
all of them skipped. -/
def Clears (rules : BuiltinRules Zone) (s : BacklogCalendar ι)
    (a : CalendarAction ι) : Prop :=
  ∀ x ∈ s.calendar.top a, ∀ run ∈ x.2.asksNext,
    let options := (s.calendar.world.states run.rule).options
    options.missedPolicy = .runOnceImmediately →
    ∀ created ∈ createdAt run.rule s.trace,
      ∀ next ∈ rules.next run.rule run.planned, created < next ∨
        options.overlapPolicy = .skip ∧ next ≤ run.observed ∧
          ∀ later ∈ rules.next run.rule run.observed, created < later

instance decidableClears (rules : BuiltinRules Zone) (s : BacklogCalendar ι)
    (a : CalendarAction ι) : Decidable (s.Clears rules a) :=
  inferInstanceAs (Decidable (∀ x ∈ s.calendar.top a, ∀ run ∈ x.2.asksNext, _))

end BacklogCalendar

end EventHub
