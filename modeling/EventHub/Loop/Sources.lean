import EventHub.Bus.Step
import EventHub.Task.System

/-!
# Buses, task managers and flags that notify

What the blocking loops of `run_loop.hpp`, `module_hub.hpp` and `module.hpp`
wait for. Each source has the notifier of its loop. `post`, `close` and
`request_stop` first make something available and then call `notify()`, in two
steps; `owing` says which threads are between the two. While a thread is, it
takes no other step.

A bus is processed by one thread, and so is a task manager, whose loop decides
when. All other calls are open to every thread.
-/

namespace EventHub

/-- What a call has made available, as long as it has yet to notify. -/
inductive Submission (β κ φ : Type)
  | event (b : β) (ticket : Nat)
  | tasks (k : κ) (ids : List Nat)
  | close (k : κ)
  | flag (f : φ)

/-- The notifier of each source, and the thread that processes it. A flag may
have a thread that raises it for itself, without notifying. -/
structure Wiring (ι β κ φ ν : Type) where
  bus : β → ν
  tasks : κ → ν
  flag : φ → ν
  dispatcher : β → ι
  consumer : κ → ι
  owner : φ → Option ι := fun _ => none

def Submission.notifier {ι β κ φ ν : Type} (w : Wiring ι β κ φ ν) :
    Submission β κ φ → ν
  | .event b _ => w.bus b
  | .tasks k _ | .close k => w.tasks k
  | .flag f => w.flag f

structure Sources (ι β κ φ ν τ ε : Type) where
  buses : β → BusSystem ι ε
  managers : κ → TaskSystem τ := fun _ => {}
  flags : φ → Bool := fun _ => false
  /-- The counters of the notifiers, which are taken not to run around. -/
  generation : ν → Nat := fun _ => 0
  owing : ι → Option (Submission β κ φ) := fun _ => none

inductive SourceAction (ι β κ φ ν τ ε : Type)
  | bus (b : β) (a : BusAction ι ε)
  | task (t : ι) (k : κ) (a : TaskAction τ)
  | raise (t : ι) (f : φ)
  | lower (t : ι) (f : φ)
  /-- The owner of a flag raises it. -/
  | mark (t : ι) (f : φ)
  | notify (t : ι)
  /-- A notification that announces nothing. -/
  | ring (t : ι) (n : ν)

def BusAction.actor {ι ε : Type} : BusAction ι ε → Option ι
  | .advance t | .call t _ | .ret t _ | .throw t | .catch t => some t
  | .tick _ => none

/-- The steps of `process()`. -/
def TaskAction.consumes {τ : Type} : TaskAction τ → Bool
  | .processBegin .. | .processStart | .processSettle | .callbackReturned ..
  | .callbackThrew | .exceptionHandled | .exceptionEscaped | .processEnd => true
  | _ => false

def SourceAction.actor {ι β κ φ ν τ ε : Type} :
    SourceAction ι β κ φ ν τ ε → Option ι
  | .bus _ a => a.actor
  | .task t _ _ | .raise t _ | .lower t _ | .mark t _ | .notify t
  | .ring t _ => some t

/-- The step may make something available of which no one is notified. -/
def SourceAction.consumes {ι β κ φ ν τ ε : Type} :
    SourceAction ι β κ φ ν τ ε → Bool
  | .bus .. | .mark .. => true
  | .task _ _ a => a.consumes
  | _ => false

namespace Sources

variable {ι β κ φ ν τ ε : Type} [DecidableEq ι] [DecidableEq β] [DecidableEq κ]
  [DecidableEq φ] [DecidableEq ν]

/-- `notify()`. -/
def notified (s : Sources ι β κ φ ν τ ε) (n : ν) : Sources ι β κ φ ν τ ε :=
  { s with generation := Function.update s.generation n (s.generation n + 1) }

def setBus (s : Sources ι β κ φ ν τ ε) (b : β) (bus : BusSystem ι ε) :
    Sources ι β κ φ ν τ ε :=
  { s with buses := Function.update s.buses b bus }

def setOwing (s : Sources ι β κ φ ν τ ε) (t : ι)
    (owing : Option (Submission β κ φ)) : Sources ι β κ φ ν τ ε :=
  { s with owing := Function.update s.owing t owing }

/-- Thread `t` is about to notify the notifier of the bus. -/
def notifying (bus : BusSystem ι ε) (t : ι) : Bool :=
  match bus.frames t, bus.mode t with
  | .notifyWorkAvailable :: _, .running _ => true
  | _, _ => false

/-- Thread `t` may take a step on the bus. -/
def mayStepBus (s : Sources ι β κ φ ν τ ε) (w : Wiring ι β κ φ ν) (b : β)
    (t : ι) (a : BusAction ι ε) : Bool :=
  (match s.owing t with
    | none => true
    | some (.event b' _) => decide (b' = b) && notifying (s.buses b) t
    | some _ => false) &&
  match a with
  | .call _ .process => decide (t = w.dispatcher b)
  | .call _ (.setNotifier _) => false
  | _ => true

/-- Thread `t` has taken a step on bus `b`. -/
def afterBus (s : Sources ι β κ φ ν τ ε) (w : Wiring ι β κ φ ν) (b : β) (t : ι)
    (bus : BusSystem ι ε) : Sources ι β κ φ ν τ ε :=
  let s' := s.setBus b bus
  let world := (s.buses b).world
  if notifying (s.buses b) t then
    if world.notifier.isSome then (s'.setOwing t none).notified (w.bus b)
    else s'.setOwing t none
  else if bus.world.nextTicket = world.nextTicket then s'
  else s'.setOwing t (some (.event b world.nextTicket))

/-- The ids that a step has logged as accepted. -/
def accepted (old new : TaskSystem τ) : List Nat :=
  (new.log.take (new.log.length - old.log.length)).filterMap fun
    | .submitted id => some id
    | _ => none

/-- What a step on a manager has to notify of. -/
def submission (k : κ) (old new : TaskSystem τ) : Option (Submission β κ φ) :=
  if accepted old new ≠ [] then some (.tasks k (accepted old new))
  else if new.mgr.closed && !old.mgr.closed then some (.close k)
  else none

def step [Fintype ι] [RequestTraits ε] (w : Wiring ι β κ φ ν)
    (s : Sources ι β κ φ ν τ ε) :
    SourceAction ι β κ φ ν τ ε → Option (Sources ι β κ φ ν τ ε)
  | .bus b a =>
      match a.actor with
      | some t =>
          if s.mayStepBus w b t a then
            ((s.buses b).step a).map (s.afterBus w b t)
          else none
      | none =>
          ((s.buses b).step a).map (s.setBus b)
  | .task t k a =>
      if (s.owing t).isNone && (!a.consumes || decide (t = w.consumer k)) then
        ((s.managers k).step a).map fun manager =>
          { s with managers := Function.update s.managers k manager }.setOwing t
            (submission k (s.managers k) manager)
      else none
  | .raise t f =>
      if (s.owing t).isNone then
        some ({ s with flags := Function.update s.flags f true }.setOwing t
          (some (.flag f)))
      else none
  | .lower t f =>
      if (s.owing t).isNone then
        some { s with flags := Function.update s.flags f false }
      else none
  | .mark t f =>
      if w.owner f = some t then
        some { s with flags := Function.update s.flags f true }
      else none
  | .notify t =>
      match s.owing t with
      | none | some (.event _ _) => none
      | some submission =>
          some ((s.setOwing t none).notified (submission.notifier w))
  | .ring t n => if (s.owing t).isNone then some (s.notified n) else none

end Sources

/-! ## Calls of `process()` -/

/-- What has become of a call. -/
inductive CallEnd
  | underWay
  | returned (count : Nat)
  | threw

namespace Sources

variable {ι β κ φ ν τ ε : Type} [DecidableEq ι] [DecidableEq β] [DecidableEq κ]

/-- The call of `EventBus::process` by the own code of thread `t`, after a step. -/
def busCall (b : β) (t : ι) (old new : Sources ι β κ φ ν τ ε) :
    SourceAction ι β κ φ ν τ ε → CallEnd
  | .bus b' (.advance t') =>
      if b' = b ∧ t' = t then
        match (old.buses b).frames t, (new.buses b).frames t with
        | [.processed n, .user .main], _ => .returned n
        | _, [.user .main] => .threw
        | _, _ => .underWay
      else .underWay
  | _ => .underWay

/-- The call of `TaskManager::process`, after a step. -/
def taskCall (k : κ) (old : Sources ι β κ φ ν τ ε) :
    SourceAction ι β κ φ ν τ ε → CallEnd
  | .task _ k' .processEnd =>
      if k' = k then .returned (old.managers k).processed else .underWay
  | .task _ k' .exceptionEscaped => if k' = k then .threw else .underWay
  | _ => .underWay

end Sources

/-! ## What a loop looks for -/

inductive SourceItem (β κ φ : Type)
  /-- A queued event. -/
  | event (b : β) (ticket : Nat)
  | ready (k : κ) (id : Nat)
  | delayed (k : κ) (id : Nat)
  | flag (f : φ)

def SourceItem.notifier {ι β κ φ ν : Type} (w : Wiring ι β κ φ ν) :
    SourceItem β κ φ → ν
  | .event b _ => w.bus b
  | .ready k _ | .delayed k _ => w.tasks k
  | .flag f => w.flag f

/-- The thread that may make such an item available and not notify. -/
def SourceItem.processor {ι β κ φ ν : Type} (w : Wiring ι β κ φ ν) :
    SourceItem β κ φ → Option ι
  | .event b _ => some (w.dispatcher b)
  | .ready k _ | .delayed k _ => some (w.consumer k)
  | .flag f => w.owner f

/-- The items that the call has made available. -/
def Submission.covers {β κ φ : Type} :
    Submission β κ φ → SourceItem β κ φ → Prop
  | .event b ticket, x => x = .event b ticket
  | .tasks k ids, x => ∃ id ∈ ids, x = .ready k id ∨ x = .delayed k id
  | .close _, _ => False
  | .flag f, x => x = .flag f

namespace Sources

variable {ι β κ φ ν τ ε : Type}

/-- A call that made the item available has yet to notify. -/
def owed (s : Sources ι β κ φ ν τ ε) (x : SourceItem β κ φ) : Prop :=
  ∃ t submission, s.owing t = some submission ∧ submission.covers x

/-- The item is there; of the delayed tasks those that are due `early`. -/
def item (s : Sources ι β κ φ ν τ ε) (early : Int → Prop) :
    SourceItem β κ φ → Prop
  | .event b ticket => ∃ q ∈ (s.buses b).world.queue, q.ticket = ticket
  | .ready k id => (s.managers k).mgr.stateOf id = .queuedReady
  | .delayed k id => ∃ entry ∈ (s.managers k).mgr.delayedHeap, entry.id = id ∧
      (s.managers k).mgr.stateOf entry.id = .queuedDelayed ∧ early entry.due
  | .flag f => s.flags f = true

end Sources

end EventHub
