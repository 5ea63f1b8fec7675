import EventHub.Lib.Histories
import EventHub.Bus.Step

/-!
# Whom a dispatch should call

What the subscriptions of a bus are for, without the tables: a list that grows
at its end and out of which an unsubscription takes what it is aimed at. A
trace of subscriptions, unsubscriptions and dispatches says all that; it is
kept beside a bus that knows nothing of it.

In the trace a dispatch begins, takes a turn for a record, which is then called
or left out, and ends. Each turn also notes whether the guards of the record
could be locked then.
-/

namespace EventHub

open History

variable {ι ε : Type}

/-- What an unsubscription is aimed at. -/
inductive Unsubscription
  | byId (id : Nat)
  | byOwner (owner : Owner)
  | byOwnerOf (type : Nat) (owner : Owner)
  deriving DecidableEq, Repr

def Unsubscription.hits (type : Nat) (r : CallbackRecord) :
    Unsubscription → Bool
  | .byId id => r.id = id
  | .byOwner owner => r.owner = owner
  | .byOwnerOf t owner => type = t && r.owner = owner

inductive RegistryObs
  | subscribed (type : Nat) (record : CallbackRecord)
  | unsubscribed (target : Unsubscription)
  | began (d : Nat) (type : Nat)
  | turn (d : Nat) (record : CallbackRecord) (called lockable : Bool)
  | ended (d : Nat)
  deriving DecidableEq, Repr

/-- The subscriptions to a type, in the order in which they were made. The
trace has the newest observation first. -/
def present (type : Nat) : List RegistryObs → List CallbackRecord
  | [] => []
  | .subscribed t r :: trace =>
      if type = t then present type trace ++ [r] else present type trace
  | .unsubscribed target :: trace =>
      (present type trace).filter fun r => !target.hits type r
  | .began .. :: trace | .turn .. :: trace | .ended _ :: trace =>
      present type trace

/-- The subscriptions that were present when dispatch `d` began. -/
def recordsAt (d : Nat) : List RegistryObs → List CallbackRecord
  | [] => []
  | .began d' type :: trace =>
      if d = d' then present type trace else recordsAt d trace
  | _ :: trace => recordsAt d trace

def RegistryObs.turnOf (d : Nat) : RegistryObs → List CallbackRecord
  | .turn d' r _ _ => if d = d' then [r] else []
  | _ => []

/-- The records that had their turn in dispatch `d`, in this order. -/
def turnsOf (d : Nat) (trace : List RegistryObs) : List CallbackRecord :=
  observed (RegistryObs.turnOf d) trace

def RegistryObs.begins (d : Nat) : RegistryObs → Bool
  | .began d' _ => d = d'
  | _ => false

/-- Dispatches call whom they should. -/
structure ExactDispatches (trace : List RegistryObs) : Prop where
  /-- A dispatch goes through the subscriptions that were present when it
  began, each once and in order, -/
  turns : ∀ d, turnsOf d trace <+: recordsAt d trace
  /-- and all of them before it ends. -/
  complete : ∀ d, .ended d ∈ trace → turnsOf d trace = recordsAt d trace
  /-- Called is who can be locked. -/
  called : ∀ d r called lockable, .turn d r called lockable ∈ trace →
    called = lockable
  once : ∀ d, (recordsAt d trace).Nodup
  /-- No two dispatches have one number, -/
  began : ∀ d, trace.countP (·.begins d) ≤ 1
  /-- and no two subscriptions one id. -/
  ids : ∀ type type', ∀ r ∈ present type trace, ∀ r' ∈ present type' trace,
    r.id = r'.id → type = type' ∧ r = r'

/-! ## Bus and trace -/

/-- All guards that must be locked for the callback to run. -/
def CallbackRecord.lockable (alive : Guard → Bool) (r : CallbackRecord) :
    Bool :=
  (!r.hasGuard || r.guard.any alive) &&
    match r.callback with
    | .endpoint _ (some g) => g.any alive
    | _ => true

/-- What the frame does to the subscriptions. -/
def Frame.registers (w : World ε) : Frame ε → List RegistryObs
  | .addCallback type r => [.subscribed type r]
  | .release a =>
      let id := (w.awaiters a).subscriptionId
      if id ≠ 0 then [.unsubscribed (.byId id)] else []
  | .closeUnsubscribe e => [.unsubscribed (.byOwner (.endpoint e))]
  | _ => []

def BusCall.registers : BusCall ε → List RegistryObs
  | .unsubscribe id => [.unsubscribed (.byId id)]
  | .unsubscribeAllOf type owner => [.unsubscribed (.byOwnerOf type owner)]
  | .unsubscribeAll owner => [.unsubscribed (.byOwner owner)]
  | _ => []

/-- What the log of the bus says of dispatches. -/
def BusObs.dispatches (alive : Guard → Bool) : BusObs ε → List RegistryObs
  | .dispatchBegan d type _ => [.began d type]
  | .started d r => [.turn d r true (r.lockable alive)]
  | .skipped d r => [.turn d r false (r.lockable alive)]
  | .dispatchEnded d => [.ended d]
  | _ => []

/-- A callback of the program throws, or lets an exception pass. -/
def BusAction.throws : BusAction ι ε → Bool
  | .throw _ => true
  | _ => false

namespace BusSystem

variable [Fintype ι] [DecidableEq ι]

omit [Fintype ι] [DecidableEq ι] in
def registers (s : BusSystem ι ε) : BusAction ι ε → List RegistryObs
  | .advance t =>
      match s.frames t, s.mode t with
      | f :: _, .running _ => f.registers s.world
      | _, _ => []
  | .call _ c => c.registers
  | _ => []

/-- What a step from `s` to `s'` adds to the trace. -/
def observes (s s' : BusSystem ι ε) (a : BusAction ι ε) : List RegistryObs :=
  let added := s'.world.log.take (s'.world.log.length - s.world.log.length)
  s.registers a ++ added.flatMap (·.dispatches s.alive)

end BusSystem

structure TracedBus (ι ε : Type) where
  bus : BusSystem ι ε := {}
  /-- Newest first. -/
  trace : List RegistryObs := []

namespace TracedBus

variable [Fintype ι] [DecidableEq ι] [RequestTraits ε]

def step (s : TracedBus ι ε) (a : BusAction ι ε) : Option (TracedBus ι ε) :=
  (s.bus.step a).map fun bus =>
    { bus := bus, trace := s.bus.observes bus a ++ s.trace }

end TracedBus

end EventHub
