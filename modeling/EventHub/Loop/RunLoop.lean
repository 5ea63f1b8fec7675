import EventHub.Loop.Sources

/-!
# `RunLoop`

`run_until` as a program counter on top of its sources. The loop is one thread
among the others: in `process()` of a source and in `should_stop()` it runs code
of the program, which may do to the sources what any thread may, and from the
checks to the end of the wait it takes none but its own steps.

A wait ends when the counter has moved, and a wait with a bound also when time
is up, of which nothing is said but that it may be.
-/

namespace EventHub

/-- What a loop is run with. `β` and `κ` are the buses and the managers that have
its notifier; the lists are those that are registered. -/
structure RunLoopSetup (ι β κ : Type) where
  thread : ι
  buses : List β := []
  taskManagers : List κ := []
  maxTasksPerManager : Nat := 128

namespace RunLoopSetup

variable {ι β κ : Type}

/-- The constructor of `RunLoop` makes a quota of zero one of one task. -/
def maxTasks (setup : RunLoopSetup ι β κ) : Nat :=
  if setup.maxTasksPerManager = 0 then 1 else setup.maxTasksPerManager

def wiring (setup : RunLoopSetup ι β κ) : Wiring ι β κ Unit Unit where
  bus _ := ()
  tasks _ := ()
  flag _ := ()
  dispatcher _ := setup.thread
  consumer _ := setup.thread

end RunLoopSetup

/-- Where the thread is in `run_until`. -/
inductive LoopPc (β κ : Type)
  /-- The first `stop_requested()`. -/
  | head
  /-- `should_stop()`, the second one if it has a generation. -/
  | shouldStop (generation : Option Nat)
  /-- `const auto generation`. -/
  | capture
  /-- `process_once()`. -/
  | buses (generation : Nat) (rest : List β) (workDone : Nat)
  | inBus (generation : Nat) (b : β) (rest : List β) (workDone : Nat)
  | managers (generation : Nat) (rest : List κ) (workDone : Nat)
  | inManager (generation : Nat) (k : κ) (rest : List κ) (workDone : Nat)
  /-- The second `stop_requested()`. -/
  | recheck (generation : Nat)
  /-- `has_ready_or_pending_work()`. -/
  | pending (generation : Nat) (rest : List β)
  | ready (generation : Nat) (rest : List κ)
  /-- `next_task_wait()`. -/
  | clock (generation : Nat)
  | nextWait (generation : Nat) (now : Int) (rest : List κ) (best : Option Int)
  | deadline (generation : Nat) (now : Int) (k : κ) (rest : List κ)
      (best : Option Int)
  /-- In `wait` or `wait_for`; `now` is what `next_task_wait` read. -/
  | waiting (generation : Nat) (now : Int) (wait : Option Int)
  | returned
  | threw
  deriving DecidableEq, Repr

/-- Code of the program may run on the thread. -/
def LoopPc.runsCode {β κ : Type} : LoopPc β κ → Bool
  | .shouldStop _ | .inBus .. | .inManager .. => true
  | _ => false

/-- The shorter wait of `next_task_wait`. -/
def shorterWait (now : Int) (best : Option Int) : Option Int → Option Int
  | none => best
  | some deadline =>
      let wait := if deadline ≤ now then 0 else deadline - now
      match best with
      | none => some wait
      | some best => some (if wait < best then wait else best)

structure RunLoop (ι β κ τ ε : Type) where
  sources : Sources ι β κ Unit Unit τ ε
  pc : LoopPc β κ := .head

inductive RunLoopAction (ι β κ τ ε : Type)
  | source (a : SourceAction ι β κ Unit Unit τ ε)
  /-- The loop goes on; `now` is what its clock shows, if it reads it. -/
  | advance (now : Int)
  | shouldStop (result : Bool)
  | shouldStopThrew
  | wake

namespace RunLoop

variable {ι β κ τ ε : Type} [DecidableEq ι] [DecidableEq β] [DecidableEq κ]

/-- Where the loop is after a step on the sources. -/
def afterSource (setup : RunLoopSetup ι β κ)
    (old new : Sources ι β κ Unit Unit τ ε)
    (a : SourceAction ι β κ Unit Unit τ ε) : LoopPc β κ → LoopPc β κ
  | .inBus g b rest workDone =>
      match Sources.busCall b setup.thread old new a with
      | .underWay => .inBus g b rest workDone
      | .returned n => .buses g rest (workDone + n)
      | .threw => .threw
  | .inManager g k rest workDone =>
      match Sources.taskCall k old a with
      | .underWay => .inManager g k rest workDone
      | .returned n => .managers g rest (workDone + n)
      | .threw => .threw
  | pc => pc

variable [Fintype ι] [RequestTraits ε]

/-- A step of `run_until` that is not one of the program. -/
def advance (setup : RunLoopSetup ι β κ) (loop : RunLoop ι β κ τ ε) (now : Int) :
    Option (RunLoop ι β κ τ ε) :=
  let sources := loop.sources
  let goto (pc : LoopPc β κ) : Option (RunLoop ι β κ τ ε) :=
    some { sources := sources, pc := pc }
  match loop.pc with
  | .head =>
      if sources.flags () then goto .returned else goto (.shouldStop none)
  | .capture => goto (.buses (sources.generation ()) setup.buses 0)
  | .buses g [] workDone => goto (.managers g setup.taskManagers workDone)
  | .buses g (b :: rest) workDone =>
      match (sources.buses b).frames setup.thread with
      | [.user .main] =>
          (sources.step setup.wiring (.bus b (.call setup.thread .process))).map
            fun sources => { sources, pc := .inBus g b rest workDone }
      | _ => none
  | .managers g [] workDone =>
      if workDone ≠ 0 then goto .head else goto (.recheck g)
  | .managers g (k :: rest) workDone =>
      (sources.step setup.wiring
          (.task setup.thread k (.processBegin now setup.maxTasks))).map
        fun sources => { sources, pc := .inManager g k rest workDone }
  | .recheck g =>
      if sources.flags () then goto .returned else goto (.shouldStop (some g))
  | .pending g [] => goto (.ready g setup.taskManagers)
  | .pending g (b :: rest) =>
      if (sources.buses b).world.queue = [] then goto (.pending g rest)
      else goto .head
  | .ready g [] => goto (.clock g)
  | .ready g (k :: rest) =>
      if (sources.managers k).mgr.hasReady then goto .head
      else goto (.ready g rest)
  | .clock g => goto (.nextWait g now setup.taskManagers none)
  | .nextWait g now [] best =>
      if best.any (· ≤ 0) then goto .head else goto (.waiting g now best)
  | .nextWait g now (k :: rest) best =>
      if (sources.managers k).mgr.hasReady then goto .head
      else goto (.deadline g now k rest best)
  | .deadline g now k rest best =>
      (sources.step setup.wiring (.task setup.thread k .nextDeadline)).map
        fun sources' =>
          { sources := sources',
            pc := .nextWait g now rest
              (shorterWait now best (sources.managers k).mgr.nextDeadline.2) }
  | _ => none

def step (setup : RunLoopSetup ι β κ) (loop : RunLoop ι β κ τ ε) :
    RunLoopAction ι β κ τ ε → Option (RunLoop ι β κ τ ε)
  | .source a =>
      if a.actor = some setup.thread ∧ loop.pc.runsCode = false then none
      else
        (loop.sources.step setup.wiring a).map fun sources =>
          { sources, pc := afterSource setup loop.sources sources a loop.pc }
  | .advance now => loop.advance setup now
  | .shouldStop result =>
      match loop.pc with
      | .shouldStop generation =>
          if (loop.sources.owing setup.thread).isSome then none
          else
            some { loop with
              pc :=
                if result then .returned
                else
                  match generation with
                  | none => .capture
                  | some g => .pending g setup.buses }
      | _ => none
  | .shouldStopThrew =>
      match loop.pc with
      | .shouldStop _ => some { loop with pc := .threw }
      | _ => none
  | .wake =>
      match loop.pc with
      | .waiting g _ wait =>
          if loop.sources.generation () ≠ g ∨ wait.isSome then
            some { loop with pc := .head }
          else none
      | _ => none

end RunLoop

end EventHub
