import Mathlib.Data.Fintype.Basic
import EventHub.Lib.Threads
import EventHub.Calendar.Types

/-!
# `CalendarScheduler` as a machine

Any number of threads use one scheduler and its manager. A thread is a stack
of frames, as in `Bus/Frames.lean`: `user` frames are code of the program,
which may call anything and ends by returning or throwing, and the other frames
are functions of the library, at the point where control comes back to them. A
step is one critical section, or one call of code of the program with the local
work around it.

The manager is the machine of `Task/System.lean`. Whoever is in `process()` is
its consumer, and `process()` is not called while another call of it goes on:
that other threads do not is a rule of the library, that no callback does is an
assumption on the program.
The lambda of `schedule_one` that cannot lock the core or the rule finds the
same as `run_due`, which then finds the rule gone. In the branch of
`schedule_one` that cancels its own task the source still holds the mutex of
the core; other threads may here take it in between.
-/

namespace EventHub

inductive CalendarCode
  | main
  | observer (r : Nat)
  | now (r : Nat)
  | provider (r : Nat)
  | callback (r i : Nat)
  | task (i : Nat)
  | exceptionHandler
  deriving DecidableEq, Repr

/-- `add_rule` and `first_planned_due`. -/
inductive AddPc
  /-- Waits for the clock. -/
  | created
  | firstDue (observed : Int)
  /-- Waits for the occurrence after the last one that was due. -/
  | missing (observed : Int)
  /-- An occurrence was missed. -/
  | missed (observed planned : Int)
  /-- Waits for the next occurrence. -/
  | planning (observed : Int)
  deriving DecidableEq, Repr

/-- Who calls `schedule_one`. -/
inductive SchedulePc
  | addRule
  | scheduleAfterRun
  deriving DecidableEq, Repr

/-- The local variables of `run_due`; `observed` is the reading of the clock
that it used last. -/
structure Run where
  rule : Nat
  task : Nat
  planned : Int
  taskId : Nat
  runCount : Nat
  observed : Int := 0
  deriving DecidableEq, Repr

/-- `run_due` after its first section, and `schedule_after_run`. -/
inductive RunPc
  /-- Waits for the clock. -/
  | due
  | before
  | calling
  /-- Waits for the callback. -/
  | called
  /-- The callback threw; waits for the clock. -/
  | failed
  | rethrowing
  /-- Waits for the clock. -/
  | settling
  | after
  | checkContext
  | checkState
  | finishing
  /-- At the last `emit`. -/
  | cancelled
  /-- At the head of `schedule_after_run`. -/
  | next
  /-- Waits for the next occurrence. -/
  | asked
  /-- The next occurrence is already over. -/
  | missed (next : Int)
  /-- Waits for the next future occurrence. -/
  | skipping
  deriving DecidableEq, Repr

inductive CalendarFrame
  | user (code : CalendarCode)
  | process
  /-- Task `i` won its start transition; `rule` says what its callable is. -/
  | starting (i : Nat) (rule : Option Nat)
  | addRule (options : CalendarTaskOptions)
  | adding (r : Nat) (pc : AddPc)
  | addReturn (id : Nat)
  | scheduleOne (r : Nat) (planned observed : Int) (immediate : Bool)
      (caller : SchedulePc)
  /-- The second section of `schedule_one`. -/
  | publish (r : Nat) (planned observed : Int) (i : Nat)
      (caller : SchedulePc)
  | runDue (r i : Nat)
  | running (run : Run) (pc : RunPc)
  | markCompleted (r : Nat)
  /-- Waits for the `now_provider`. -/
  | nowProvided
  | readClock
  /-- Waits for the observer. -/
  | emitting
  /-- `TaskManager::cancel`; `called` for the call of the program. -/
  | cancelTask (i : Nat) (called : Bool)
  /-- Its exchange. -/
  | exchanging
  /-- `cancel_on_core`; `called` for the call of the program. -/
  | cancelRule (r : Nat) (called : Bool)
  /-- Waits for the clock. -/
  | cancellingRule (r : Nat) (planned : Int) (taskId runCount : Nat)
      (called : Bool)
  | cancelledRule (r : Nat) (called : Bool)
  /-- `cancel_all_on_core`; `found` was registered when it was called. -/
  | cancelAll (close : Bool) (found : Finset Nat)
  | cancellingAll (rest rules : Finset Nat)
  /-- Waits for the clock. -/
  | cancellingOne (r : Nat)
  deriving DecidableEq

/-- A thread that runs carries the time that the call returned last. -/
inductive CalendarMode
  | running (result : Option Int)
  | throwing
  deriving DecidableEq, Repr

structure CalendarOutcome where
  world : CalendarWorld
  frames : List CalendarFrame
  mode : CalendarMode := .running none

/-- What a step reads: the steady clock, twice, the UTC clock, and the place in
an unordered map. -/
structure Reading where
  now : Int := 0
  now' : Int := 0
  utc : Int := 0
  pick : Nat := 0
  deriving DecidableEq, Repr

/-! ## Calls of code of the program -/

namespace CalendarWorld

/-- A call of `safe_now_utc_ms`. -/
def nowFrames (w : CalendarWorld) (r : Nat) : List CalendarFrame :=
  if (w.states r).options.nowProvider then [.user (.now r), .nowProvided]
  else [.readClock]

/-- The call of `TaskManager::cancel` for the task of a rule, if it has one. -/
def cancelFrames (w : CalendarWorld) (r : Nat) : List CalendarFrame :=
  let i := (w.states r).scheduledTaskId
  if i ≠ 0 then [.cancelTask i false] else []

/-- A call of the observer. -/
def emitFrames (w : CalendarWorld) (r : Nat) : List CalendarFrame :=
  if (w.states r).options.observer then [.user (.observer r), .emitting]
  else []

/-- `emit`, by a frame that goes on as `rest`. -/
def emitThen (w : CalendarWorld) (r : Nat) (run : Option Nat)
    (info : CalendarObserverInfo) (rest : List CalendarFrame) :
    CalendarOutcome where
  world := w.emit r run info
  frames := w.emitFrames r ++ rest

/-- A call of the provider, by a frame that goes on as `rest`. -/
def askThen (w : CalendarWorld) (r : Nat) (run : Option Nat)
    (after observed : Int) (rest : List CalendarFrame) : CalendarOutcome where
  world := w.note (.asked r run after observed)
  frames := .user (.provider r) :: rest

end CalendarWorld

/-! ## The library's frames -/

/-- What follows when `schedule_one` returns true. -/
def SchedulePc.succeeded (r : Nat) : SchedulePc → List CalendarFrame
  | .addRule => [.addReturn r]
  | .scheduleAfterRun => []

/-- What follows when it returns false. -/
def SchedulePc.failed (r : Nat) : SchedulePc → List CalendarFrame
  | .addRule => [.cancelRule r false, .addReturn 0]
  | .scheduleAfterRun => [.markCompleted r]

/-- `add_rule` after the registration. -/
def advanceAdd (w : CalendarWorld) (result : Option Int) (r : Nat) :
    AddPc → CalendarOutcome
  | .created =>
      let observed := result.getD 0
      w.emitThen r none
        { scheduledTaskId := 0, plannedUtcMs := 0, observedUtcMs := observed,
          event := .created, runCount := (w.states r).runCount }
        [.adding r (.firstDue observed)]
  | .firstDue observed =>
      match (w.states r).options.lastDueUtcMs with
      | some last =>
          w.askThen r none last observed [.adding r (.missing observed)]
      | none => w.askThen r none observed observed [.adding r (.planning observed)]
  | .missing observed =>
      match result with
      | none => { world := w, frames := [.cancelRule r false, .addReturn 0] }
      | some missed =>
          if missed ≤ observed then
            w.emitThen r none
              { scheduledTaskId := 0, plannedUtcMs := missed,
                observedUtcMs := observed, event := .missed,
                runCount := (w.states r).runCount }
              [.adding r (.missed observed missed)]
          else
            { world := w,
              frames := [.scheduleOne r missed observed false .addRule] }
  | .missed observed planned =>
      if (w.states r).options.missedPolicy = .runOnceImmediately then
        { world := w,
          frames := [.scheduleOne r planned observed true .addRule] }
      else w.askThen r none observed observed [.adding r (.planning observed)]
  | .planning observed =>
      match result with
      | none => { world := w, frames := [.cancelRule r false, .addReturn 0] }
      | some planned =>
          { world := w,
            frames :=
              [.scheduleOne r planned observed (planned ≤ observed) .addRule] }

/-- An event of `run_due`. -/
def Run.info (run : Run) (event : CalendarObserverEvent) :
    CalendarObserverInfo where
  scheduledTaskId := run.taskId
  plannedUtcMs := run.planned
  observedUtcMs := run.observed
  event := event
  runCount := run.runCount

/-- `TaskContext::is_cancelled`. -/
def CalendarWorld.contextCancelled (w : CalendarWorld) (i : Nat) : Bool :=
  i ∈ w.tasks.mgr.index && w.tasks.mgr.stateOf i = .cancelled

/-- `run_due` after its first section; `none` while the mutex of the manager
is held. -/
def advanceRun (w : CalendarWorld) (result : Option Int) (run : Run) :
    RunPc → Option CalendarOutcome
  | .due =>
      let run := { run with observed := result.getD 0 }
      some (w.emitThen run.rule (some run.task) (run.info .due)
        [.running run .before])
  | .before =>
      some (w.emitThen run.rule (some run.task) (run.info .beforeCallback)
        [.running run .calling])
  | .calling =>
      some
        { world := w.note (.callbackStarted run.rule),
          frames := [.user (.callback run.rule run.task), .running run .called] }
  | .called =>
      some { world := w,
             frames := w.nowFrames run.rule ++ [.running run .settling] }
  | .failed =>
      let run := { run with observed := result.getD 0 }
      some (w.emitThen run.rule (some run.task) (run.info .afterCallback)
        [.running run .rethrowing])
  | .rethrowing =>
      some { world := w.markCompleted run.rule, frames := [],
             mode := .throwing }
  | .settling =>
      let run := { run with observed := result.getD 0 }
      let x := w.states run.rule
      if w.gone run.rule then
        some { world := w.setState run.rule { x with cancelled := true },
               frames := [.running run .after] }
      else if w.tasks.cancelling.isSome then none
      else if w.contextCancelled run.task then
        some { world := w.setState run.rule { x with cancelled := true },
               frames := [.running run .after] }
      else
        some
          { world :=
              w.setState run.rule { x with runCount := x.runCount + 1 },
            frames := [.running { run with runCount := x.runCount + 1 } .after] }
  | .after =>
      some (w.emitThen run.rule (some run.task) (run.info .afterCallback)
        [.running run .checkContext])
  | .checkContext =>
      if w.tasks.cancelling.isSome then none
      else if w.contextCancelled run.task then
        some { world := w, frames := [.running run .finishing] }
      else some { world := w, frames := [.running run .checkState] }
  | .checkState =>
      if w.gone run.rule then
        some { world := w, frames := [.running run .finishing] }
      else some { world := w, frames := [.running run .next] }
  | .finishing =>
      some { world := w.markCompleted run.rule,
             frames := [.running run .cancelled] }
  | .cancelled =>
      some (w.emitThen run.rule (some run.task) (run.info .cancelled) [])
  | .next =>
      some (w.askThen run.rule (some run.task) run.planned run.observed
        [.running run .asked])
  | .asked =>
      match result with
      | none => some { world := w, frames := [.markCompleted run.rule] }
      | some next =>
          if next ≤ run.observed then
            some (w.emitThen run.rule none
              { scheduledTaskId := 0, plannedUtcMs := next,
                observedUtcMs := run.observed, event := .missed,
                runCount := (w.states run.rule).runCount }
              [.running run (.missed next)])
          else
            some { world := w,
                   frames := [.scheduleOne run.rule next run.observed false
                     .scheduleAfterRun] }
  | .missed next =>
      if (w.states run.rule).options.overlapPolicy = .queueOneAfterCurrent then
        some { world := w,
               frames := [.scheduleOne run.rule next run.observed true
                 .scheduleAfterRun] }
      else
        some (w.askThen run.rule none run.observed run.observed
          [.running run .skipping])
  | .skipping =>
      match result with
      | none => some { world := w, frames := [.markCompleted run.rule] }
      | some next =>
          some { world := w,
                 frames := [.scheduleOne run.rule next run.observed
                   (next ≤ run.observed) .scheduleAfterRun] }

/-- A step of the manager, under its mutex. -/
def CalendarWorld.manage (w : CalendarWorld) (act : TaskAction Unit) :
    Option CalendarWorld :=
  (w.tasks.step act).map fun tasks => { w with tasks := tasks }

/-- The `delay_ms` of `schedule_one`. -/
def scheduleDelay (planned observed : Int) (immediate : Bool) : Int :=
  if immediate || planned ≤ observed then 0 else planned - observed

/-- The deadline that `schedule_one` computes; the steady clock counts
nanoseconds. -/
def steadyDue (now planned observed : Int) (immediate : Bool) : Int :=
  now + scheduleDelay planned observed immediate * 1000000

/-- `process()`, at the head of its loop or with a callback that ended. -/
def advanceProcess (w : CalendarWorld) (reading : Reading) :
    Option CalendarOutcome :=
  match w.tasks.phase with
  | .scanning [] =>
      (w.manage .processEnd).map fun w => { world := w, frames := [] }
  | .scanning (entry :: _) =>
      (w.manage .processStart).map fun w =>
        { world := w,
          frames :=
            if w.tasks.phase.current.isSome then
              [.starting entry.id ((w.job entry.id).map Occurrence.rule),
                .process]
            else [.process] }
  | .running .. =>
      (w.manage (.callbackReturned reading.now reading.now')).map fun w =>
        { world := w, frames := [.process] }
  | .reporting _ =>
      (w.manage .exceptionHandled).map fun w =>
        { world := w, frames := [.process] }
  | .idle | .starting .. => none

/-- The top frame of a thread that runs. -/
def CalendarFrame.advance (w : CalendarWorld) (result : Option Int)
    (reading : Reading) : CalendarFrame → Option CalendarOutcome
  | .user _ => none
  | .process => advanceProcess w reading
  | .starting i rule =>
      (w.manage .processSettle).map fun w =>
        { world := w,
          frames :=
            match rule with
            | some r => [.runDue r i]
            | none => [.user (.task i)] }
  | .addRule options =>
      if w.closed || w.tasks.mgr.closed then
        some { world := w.note (.addReturned 0), frames := [] }
      else
        let r := w.nextId
        let w := w.register options
        some { world := w, frames := w.nowFrames r ++ [.adding r .created] }
  | .adding r pc => some (advanceAdd w result r pc)
  | .addReturn id => some { world := w.note (.addReturned id), frames := [] }
  | .scheduleOne r planned observed immediate caller =>
      let due := steadyDue reading.now planned observed immediate
      let options := { priority := (w.states r).options.priority }
      (w.manage (.postAt reading.now' due (some ()) options)).map fun w' =>
        let i := (w.tasks.mgr.postAt reading.now' due (some ()) options).2
        if i = 0 then { world := w', frames := caller.failed r }
        else
          { world :=
              w'.occupy r planned (scheduleDelay planned observed immediate) i,
            frames := [.publish r planned observed i caller] }
  | .publish r planned observed i caller =>
      if w.gone r then
        some { world := w, frames := .cancelTask i false :: caller.failed r }
      else
        let w := w.publish r planned i
        some (w.emitThen r none
          { scheduledTaskId := i, plannedUtcMs := planned,
            observedUtcMs := observed, event := .scheduled,
            runCount := (w.states r).runCount }
          (caller.succeeded r))
  | .runDue r i =>
      if w.gone r then some { world := w, frames := [] }
      else
        let x := w.states r
        let run : Run :=
          { rule := r, task := i, planned := x.plannedUtcMs,
            taskId := x.scheduledTaskId, runCount := x.runCount }
        some { world := w.consume r i,
               frames := w.nowFrames r ++ [.running run .due] }
  | .running run pc => advanceRun w result run pc
  | .markCompleted r => some { world := w.markCompleted r, frames := [] }
  | .nowProvided => some { world := w, frames := [], mode := .running result }
  | .readClock =>
      some { world := w, frames := [],
             mode := .running (some reading.utc) }
  | .emitting => some { world := w, frames := [] }
  | .cancelTask i _ =>
      (w.manage (.cancelLoad i)).map fun w =>
        { world := w,
          frames := if w.tasks.cancelling.isSome then [.exchanging] else [] }
  | .exchanging =>
      (w.manage .cancelExchange).map fun w => { world := w, frames := [] }
  | .cancelRule r called =>
      let x := w.states r
      if r ∉ w.registered ∨ x.cancelled then
        some { world := if called then w.note (.cancelReturned r false) else w,
               frames := [] }
      else
        let cancelling :=
          .cancellingRule r x.plannedUtcMs x.scheduledTaskId x.runCount called
        some { world := w.markCompleted r,
               frames :=
                 w.cancelFrames r ++ w.nowFrames r ++ [cancelling] }
  | .cancellingRule r planned taskId runCount called =>
      some (w.emitThen r none
        { scheduledTaskId := taskId, plannedUtcMs := planned,
          observedUtcMs := result.getD 0, event := .cancelled,
          runCount := runCount }
        [.cancelledRule r called])
  | .cancelledRule r called =>
      some { world := if called then w.note (.cancelReturned r true) else w,
             frames := [] }
  | .cancelAll close found =>
      if close ∧ w.closed ∧ w.registered = ∅ then
        some { world := w.note (.cancelAllReturned found), frames := [] }
      else
        some { world := w.takeAll close,
               frames :=
                 [.cancellingAll w.registered (found ∪ w.registered)] }
  | .cancellingAll rest rules =>
      if rest = ∅ then
        some { world := w.note (.cancelAllReturned rules), frames := [] }
      else if reading.pick ∈ rest then
        let r := reading.pick
        some { world := w,
               frames := w.cancelFrames r ++ w.nowFrames r ++
                 [.cancellingOne r, .cancellingAll (rest.erase r) rules] }
      else none
  | .cancellingOne r =>
      let x := w.states r
      some (w.emitThen r none
        { scheduledTaskId := x.scheduledTaskId, plannedUtcMs := x.plannedUtcMs,
          observedUtcMs := result.getD 0, event := .cancelled,
          runCount := x.runCount }
        [])

/-! ## Exceptions -/

/-- The top frame of a thread that unwinds. The frames left out never wait for
a frame that can throw. -/
def CalendarFrame.unwind (w : CalendarWorld) :
    CalendarFrame → Option CalendarOutcome
  | .nowProvided => some { world := w, frames := [.readClock] }
  | .emitting => some { world := w, frames := [] }
  | .adding r (.missing _) | .adding r (.planning _) =>
      some { world := w, frames := [.cancelRule r false, .addReturn 0] }
  | .running run .called =>
      some { world := w,
             frames := w.nowFrames run.rule ++ [.running run .failed] }
  | .running _ .asked | .running _ .skipping =>
      some { world := w, frames := [], mode := .throwing }
  | .process =>
      match w.tasks.phase with
      | .running .. =>
          (w.manage .callbackThrew).map fun w =>
            { world := w, frames := [.user .exceptionHandler, .process] }
      | .reporting _ =>
          (w.manage .exceptionEscaped).map fun w =>
            { world := w, frames := [], mode := .throwing }
      | _ => none
  | _ => none

/-! ## Code of the program -/

inductive CalendarCall
  /-- With a callback and a provider; without one it returns zero at once. -/
  | addRule (options : CalendarTaskOptions)
  | cancel (r : Nat)
  | cancelAll
  /-- The destructor. -/
  | destroy
  | process (now : Int) (maxTasks : Nat)
  /-- `TaskManager::cancel`. -/
  | cancelTask (i : Nat)
  | manager (act : TaskAction Unit)

/-- What a call leaves to do above the calling frame. -/
def CalendarWorld.call (w : CalendarWorld) :
    CalendarCall → Option (CalendarWorld × List CalendarFrame)
  | .addRule options => some (w, [.addRule options])
  | .cancel r => some (w, [.cancelRule r true])
  | .cancelAll => some (w, [.cancelAll false w.registered])
  | .destroy => some (w, [.cancelAll true w.registered])
  | .process now maxTasks =>
      (w.manage (.processBegin now maxTasks)).map fun w =>
        (w, if maxTasks = 0 then [] else [.process])
  | .cancelTask i => some (w, [.cancelTask i true])
  | .manager act =>
      if act.produces then (w.manage act).map fun w => (w, []) else none

/-! ## Threads -/

structure CalendarSystem (ι : Type) where
  world : CalendarWorld := {}
  frames : ι → List CalendarFrame := fun _ => [.user .main]
  mode : ι → CalendarMode := fun _ => .running none

inductive CalendarAction (ι : Type)
  /-- The library's frame on top of `t` moves. -/
  | advance (t : ι) (reading : Reading)
  /-- Code of the program on top of `t` calls the library. -/
  | call (t : ι) (c : CalendarCall)
  /-- It returns, a clock or a provider with a time. -/
  | ret (t : ι) (value : Option Int)
  /-- It throws, or lets an exception pass. -/
  | throw (t : ι)
  /-- It catches the exception that reached it. -/
  | catch (t : ι)

namespace CalendarSystem

variable {ι : Type} [DecidableEq ι]

/-- The top frame of `t` is replaced. -/
def put (s : CalendarSystem ι) (t : ι) (o : CalendarOutcome) :
    CalendarSystem ι where
  world := o.world
  frames := Threads.replaceTop s.frames t o.frames
  mode := Function.update s.mode t o.mode

/-- What the top frame of a thread becomes. -/
def outcome (s : CalendarSystem ι) :
    CalendarAction ι → Option (ι × CalendarOutcome)
  | .advance t reading =>
      match s.frames t, s.mode t with
      | f :: _, .running result =>
          (f.advance s.world result reading).map (t, ·)
      | f :: _, .throwing => (f.unwind s.world).map (t, ·)
      | [], _ => none
  | .call t c =>
      match s.frames t, s.mode t with
      | .user code :: _, .running _ =>
          (s.world.call c).map fun (w, frames) =>
            (t, { world := w, frames := frames ++ [.user code] })
      | _, _ => none
  | .ret t value =>
      match s.frames t, s.mode t with
      | .user .main :: _, _ => none
      | .user _ :: _, .running _ =>
          some (t, { world := s.world, frames := [],
                     mode := .running value })
      | _, _ => none
  | .throw t =>
      match s.frames t with
      | .user .main :: _ => none
      | .user _ :: _ =>
          some (t, { world := s.world, frames := [], mode := .throwing })
      | _ => none
  | .catch t =>
      match s.frames t, s.mode t with
      | .user code :: _, .throwing =>
          some (t, { world := s.world, frames := [.user code] })
      | _, _ => none

def step (s : CalendarSystem ι) (a : CalendarAction ι) :
    Option (CalendarSystem ι) :=
  (s.outcome a).map fun (t, o) => s.put t o

/-- The states of a scheduler under any program on the threads `ι`. -/
def Reachable (s : CalendarSystem ι) : Prop := Lts.Reachable step {} s

end CalendarSystem

end EventHub
