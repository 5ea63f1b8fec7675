import EventHub.Loop.HubLoop
import EventHub.Loop.RunLoop

/-!
# Rounds of a loop

A round begins where the loop reads its generation. Beside each loop a record is
kept of what the round has done so far: the buses whose `process()`, with the
poll of their awaiters, has returned, and what the sources have answered when
they were asked for a deadline.
-/

namespace EventHub

structure Round (β κ : Type) where
  processed : List β := []
  /-- Answers of `next_deadline()`. -/
  tasks : List (κ × Option Int) := []
  /-- Answers of `deadline_hint()`. -/
  hints : List (κ × Option Int) := []

namespace Round

variable {β κ : Type}

/-- The deadlines that were reported. -/
def deadlines (round : Round β κ) : List Int :=
  (round.tasks ++ round.hints).filterMap Prod.snd

def returned (round : Round β κ) (b : β) : Round β κ :=
  { round with processed := b :: round.processed }

def answered (round : Round β κ) (k : κ) (answer : Option Int) : Round β κ :=
  { round with tasks := (k, answer) :: round.tasks }

def hinted (round : Round β κ) (k : κ) (answer : Option Int) : Round β κ :=
  { round with hints := (k, answer) :: round.hints }

end Round

structure RecordedLoop (ι β κ τ ε : Type) where
  loop : RunLoop ι β κ τ ε
  round : Round β κ := {}

structure RecordedHub (ι κ τ ε : Type) where
  hub : HubLoop ι κ τ ε
  round : Round Unit κ := {}

variable {ι β κ τ ε : Type} [DecidableEq ι] [DecidableEq β] [DecidableEq κ]

namespace RecordedLoop

/-- The record after a step to `pc`. -/
def recorded (s : RecordedLoop ι β κ τ ε) (pc : LoopPc β κ) : Round β κ :=
  match s.loop.pc, pc with
  | .capture, .buses .. => {}
  | .inBus _ b _ _, .buses .. => s.round.returned b
  | .deadline _ _ k _ _, .nextWait .. =>
      s.round.answered k (s.loop.sources.managers k).mgr.nextDeadline.2
  | _, _ => s.round

def step [Fintype ι] [RequestTraits ε] (setup : RunLoopSetup ι β κ)
    (s : RecordedLoop ι β κ τ ε) (a : RunLoopAction ι β κ τ ε) :
    Option (RecordedLoop ι β κ τ ε) :=
  (s.loop.step setup a).map fun loop => { loop, round := s.recorded loop.pc }

end RecordedLoop

namespace RecordedHub

def recorded (s : RecordedHub ι κ τ ε) (pc : HubLoopPc κ) : Round Unit κ :=
  match s.hub.pc, pc with
  | .capture, .bus _ => {}
  | .inBus _, .modules .. => s.round.returned ()
  | .deadlineTasks _ k _ _, .deadlineHint .. =>
      s.round.answered k (s.hub.sources.managers k).mgr.nextDeadline.2
  | .deadlineHint _ k _ _, .deadline .. => s.round.hinted k (s.hub.hint k)
  | _, _ => s.round

def step [Fintype ι] [RequestTraits ε] (setup : HubSetup ι κ)
    (s : RecordedHub ι κ τ ε) (a : HubLoopAction ι κ τ ε) :
    Option (RecordedHub ι κ τ ε) :=
  (s.hub.step setup a).map fun hub => { hub, round := s.recorded hub.pc }

end RecordedHub

end EventHub
