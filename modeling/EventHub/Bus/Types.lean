import Mathlib.Algebra.Group.Nat.Defs

/-!
# The data of the event bus, its awaiters and its endpoints

Every thread works on one `World`: the bus, the awaiters and endpoints
connected to it, cancellation tokens, the user objects that guards point to,
the clock, and a history. The operations below are the critical sections of
`EventBus`, `EventAwaiter` and `EventEndpoint`, one definition per section;
which thread takes which one next is `Bus/Step.lean`.

Event types are numbers, and events of every type carry one payload type. A
weak pointer is `Option`: `none` is an empty one, `some g` one that points to
the object `g`. Whether it can be locked depends on who owns `g` and on the
stacks, so that question is asked in `Bus/Step.lean`.

An awaiter is destroyed with its last handle, and its destructor is `cancel()`;
a destroyed awaiter is therefore a cancelled one. The callback wrapper that
cannot lock its awaiter and the one that finds it inactive both return at once.
-/

namespace EventHub

/-- The accessors of `RequestTraits`, one pair for each event type. -/
class RequestTraits (ε : Type) where
  getId : Nat → ε → Nat
  setId : Nat → ε → Nat → ε
  getId_setId : ∀ type payload id, getId type (setId type payload id) = id

/-- A payload that is nothing but its id. -/
instance : RequestTraits Nat where
  getId _ payload := payload
  setId _ _ id := id
  getId_setId _ _ _ := rfl

structure Event (ε : Type) where
  type : Nat
  payload : ε
  deriving DecidableEq, Repr

namespace Event

variable {ε : Type} [RequestTraits ε]

def getId (ev : Event ε) : Nat := RequestTraits.getId ev.type ev.payload

def setId (ev : Event ε) (id : Nat) : Event ε :=
  { ev with payload := RequestTraits.setId ev.type ev.payload id }

@[simp] theorem getId_setId (ev : Event ε) (id : Nat) :
    (ev.setId id).getId = id := RequestTraits.getId_setId ..

end Event

/-- `QueuedEvent`. The ticket is a history variable: how many events entered
the queue before this one. -/
structure QueuedEvent (ε : Type) where
  event : Event ε
  ticket : Nat
  deriving DecidableEq, Repr

/-- What a lifetime guard points to: the `m_guard` of an endpoint, or an object
of the program. -/
inductive Guard
  | endpoint (e : Nat)
  | user (g : Nat)
  deriving DecidableEq, Repr

/-- The owner key of a subscription. -/
inductive Owner
  | endpoint (e : Nat)
  | awaiter (a : Nat)
  | other (p : Nat)
  deriving DecidableEq, Repr

/-- What the callback stored in a record does. -/
inductive Callback
  /-- The callback given to `EventBus::subscribe`. -/
  | plain
  /-- The callback given to `EventEndpoint::subscribe`, behind the user guard
  when there is one. -/
  | endpoint (e : Nat) (userGuard : Option (Option Guard))
  /-- The wrapper of `EventAwaiter::subscribe_internal`. -/
  | awaiter (a : Nat)
  deriving DecidableEq, Repr

structure CallbackRecord where
  id : Nat
  owner : Owner
  hasGuard : Bool
  guard : Option Guard
  callback : Callback
  deriving DecidableEq, Repr

/-! ## Awaiters and endpoints -/

inductive Predicate
  /-- An empty `std::function`: every event matches. -/
  | always
  /-- A predicate of the program; it may do anything. -/
  | user
  /-- The predicate of `request`: the result carries this id. -/
  | requestId (id : Nat)
  deriving DecidableEq, Repr

def Predicate.isRequest : Predicate → Bool
  | .requestId _ => true
  | _ => false

/-- The arguments of `EventAwaiter::create` without the guard; a `timeout` of
zero is none. -/
structure AwaitSpec where
  type : Nat
  predicate : Predicate := .always
  callback : Bool := true
  timeout : Nat := 0
  token : Option Nat := none
  onTimeout : Bool := false
  singleShot : Bool := true
  deriving DecidableEq, Repr

structure Awaiter where
  type : Nat := 0
  predicate : Predicate := .always
  callback : Bool := false
  token : Option Nat := none
  onTimeout : Bool := false
  singleShot : Bool := true
  hasSubscriptionGuard : Bool := false
  subscriptionGuard : Option Guard := none
  deadline : Option Nat := none
  subscriptionId : Nat := 0
  cancelled : Bool := true
  retainSelf : Bool := false
  deriving DecidableEq, Repr

/-- Who calls `cancel()` and returns: a handle, `close()`, or a check that
observed the token cancelled. -/
inductive Canceller
  | call | close | token
  deriving DecidableEq, Repr

/-- Why an awaiter became inactive: who won the exchange in `cancel()`. -/
inductive Cause
  | cancel (canceller : Canceller)
  | timeout
  | matched
  deriving DecidableEq, Repr

/-- `m_guard` is reset together with setting `m_closed`, so a closed endpoint
is one that no longer owns its guard. -/
structure Endpoint where
  closed : Bool := false
  awaiters : List Nat := []
  deriving DecidableEq, Repr

/-! ## Request ids -/

/-- `m_next`, an unsigned 64-bit counter. -/
structure RequestIdGenerator where
  next : Nat := 1
  deriving DecidableEq, Repr

def RequestIdGenerator.fetchAdd (g : RequestIdGenerator) :
    Nat × RequestIdGenerator :=
  (g.next, { next := (g.next + 1) % 2 ^ 64 })

def invalidRequestId : Nat := 0

/-! ## History -/

inductive BusObs (ε : Type)
  /-- Dispatch `d` copied the records of the event's type. -/
  | dispatchBegan (d : Nat) (type : Nat) (records : List CallbackRecord)
  /-- The guard of the record was locked, or it has none. -/
  | passed (d : Nat) (record : CallbackRecord)
  /-- A guard of the record could not be locked. -/
  | skipped (d : Nat) (record : CallbackRecord)
  /-- The callback of the record starts. -/
  | started (d : Nat) (record : CallbackRecord)
  | dispatchEnded (d : Nat)
  /-- `close()` of the endpoint returned. -/
  | closeReturned (e : Nat)
  | entered (q : QueuedEvent ε)
  | notified (notifier : Nat)
  /-- `clear_pending()` dropped these. -/
  | dropped (queue : List (QueuedEvent ε))
  /-- `process()` took this snapshot. -/
  | processBegan (snapshot : List (QueuedEvent ε))
  /-- `process()` handed the event to `dispatch`. -/
  | dispatched (q : QueuedEvent ε)
  | processReturned (count : Nat)
  /-- `process()` threw while dispatching `q` and left this queue. -/
  | processThrew (q : QueuedEvent ε) (queue : List (QueuedEvent ε))
  | pollBegan (live : List Nat)
  | pollEnded
  /-- The awaiter was created, through an endpoint or directly. -/
  | created (a : Nat) (via : Option Nat)
  /-- A `cancel()` of the awaiter won its exchange. -/
  | deactivated (a : Nat) (cause : Cause)
  | callbackStarted (a : Nat) (ev : Event ε)
  | timeoutStarted (a : Nat)
  /-- `next_request_id()` returned. -/
  | idDrawn (id : Nat)
  /-- `request` returned `id`; its event entered the queue as `ticket`. -/
  | requestReturned (e : Nat) (id : Nat) (ticket : Nat)
  deriving DecidableEq, Repr

/-! ## The shared state -/

structure World (ε : Type) where
  callbacks : Nat → List CallbackRecord := fun _ => []
  nextSubscriptionId : Nat := 1
  queue : List (QueuedEvent ε) := []
  nextTicket : Nat := 0
  /-- `m_awaiters` of the bus. -/
  registered : List Nat := []
  exceptionHandler : Bool := false
  requestIds : RequestIdGenerator := {}
  notifier : Option Nat := none
  awaiters : Nat → Awaiter := fun _ => {}
  nextAwaiter : Nat := 0
  endpoints : Nat → Endpoint := fun _ => {}
  /-- The user objects whose owner let go of them. -/
  released : Nat → Bool := fun _ => false
  tokens : Nat → Bool := fun _ => false
  now : Nat := 0
  nextDispatch : Nat := 0
  /-- Newest first. -/
  log : List (BusObs ε) := []

namespace World

variable {ε : Type}

def note (w : World ε) (o : BusObs ε) : World ε := { w with log := o :: w.log }

def setAwaiter (w : World ε) (a : Nat) (x : Awaiter) : World ε :=
  { w with awaiters := fun b => if b = a then x else w.awaiters b }

def setEndpoint (w : World ε) (e : Nat) (x : Endpoint) : World ε :=
  { w with endpoints := fun b => if b = e then x else w.endpoints b }

/-- The owner still holds its strong reference. -/
def owned (w : World ε) : Guard → Bool
  | .endpoint e => !(w.endpoints e).closed
  | .user g => !w.released g

/-- `EventEndpoint::guard()`. -/
def guard (w : World ε) (e : Nat) : Option Guard :=
  if (w.endpoints e).closed then none else some (.endpoint e)

def isActive (w : World ε) (a : Nat) : Bool := !(w.awaiters a).cancelled

/-- `m_options.token && m_options.token.is_cancelled()`. -/
def tokenCancelled (w : World ε) (a : Nat) : Bool :=
  match (w.awaiters a).token with
  | some k => w.tokens k
  | none => false

/-- `m_has_deadline && now() >= m_deadline`. -/
def deadlinePassed (w : World ε) (a : Nat) : Bool :=
  match (w.awaiters a).deadline with
  | some due => decide (due ≤ w.now)
  | none => false

/-! ### Subscriptions -/

def addCallback (w : World ε) (type : Nat) (record : CallbackRecord) :
    World ε :=
  { w with
    callbacks := fun t =>
      if t = type then w.callbacks t ++ [record] else w.callbacks t }

def unsubscribe (w : World ε) (id : Nat) : World ε :=
  { w with callbacks := fun t => (w.callbacks t).filter (·.id ≠ id) }

/-- `unsubscribe_all<EventType>(owner)`. -/
def unsubscribeAllOf (w : World ε) (type : Nat) (owner : Owner) : World ε :=
  { w with
    callbacks := fun t =>
      if t = type then (w.callbacks t).filter (·.owner ≠ owner)
      else w.callbacks t }

def unsubscribeAll (w : World ε) (owner : Owner) : World ε :=
  { w with callbacks := fun t => (w.callbacks t).filter (·.owner ≠ owner) }

/-! ### The queue -/

def enqueue (w : World ε) (ev : Event ε) : World ε :=
  let q : QueuedEvent ε := { event := ev, ticket := w.nextTicket }
  { w with
    queue := w.queue ++ [q]
    nextTicket := w.nextTicket + 1
    log := .entered q :: w.log }

/-- The queue that `restore_unprocessed_events` leaves. -/
def restoreUnprocessedEvents (queue remaining : List (QueuedEvent ε)) :
    List (QueuedEvent ε) :=
  match remaining, queue with
  | [], queue => queue
  | remaining, [] => remaining
  | remaining, queue => remaining ++ queue

theorem restoreUnprocessedEvents_eq (queue remaining : List (QueuedEvent ε)) :
    restoreUnprocessedEvents queue remaining = remaining ++ queue := by
  cases remaining with
  | nil => rfl
  | cons q remaining =>
      cases queue with
      | nil => exact (List.append_nil _).symm
      | cons => rfl

def clearPending (w : World ε) : World ε :=
  { w with queue := [], log := .dropped w.queue :: w.log }

/-! ### Awaiters -/

/-- The constructor of `EventAwaiter`, with the self-reference that
`subscribe_internal` takes before anyone else sees the awaiter. -/
def newAwaiter (w : World ε) (spec : AwaitSpec)
    (guard : Option (Option Guard)) : Awaiter where
  type := spec.type
  predicate := spec.predicate
  callback := spec.callback
  token := spec.token
  onTimeout := spec.onTimeout
  singleShot := spec.singleShot
  hasSubscriptionGuard := guard.isSome
  subscriptionGuard := guard.join
  deadline := if 0 < spec.timeout then some (w.now + spec.timeout) else none
  cancelled := false
  retainSelf := spec.singleShot

def createAwaiter (w : World ε) (spec : AwaitSpec)
    (guard : Option (Option Guard)) (via : Option Nat) : World ε :=
  { w.setAwaiter w.nextAwaiter (w.newAwaiter spec guard) with
    nextAwaiter := w.nextAwaiter + 1
    log := .created w.nextAwaiter via :: w.log }

/-- The record that `subscribe_internal` hands to the bus. -/
def awaiterRecord (w : World ε) (a : Nat) (id : Nat) : CallbackRecord where
  id := id
  owner := .awaiter a
  hasGuard := (w.awaiters a).hasSubscriptionGuard
  guard := (w.awaiters a).subscriptionGuard
  callback := .awaiter a

/-- The exchange in `cancel()`, when it is won. -/
def deactivate (w : World ε) (a : Nat) (cause : Cause) : World ε :=
  (w.setAwaiter a { w.awaiters a with cancelled := true }).note
    (.deactivated a cause)

/-- The rest of `cancel()`, run by the thread that won the exchange. -/
def release (w : World ε) (a : Nat) : World ε :=
  let x := w.awaiters a
  let w := if x.subscriptionId ≠ 0 then w.unsubscribe x.subscriptionId else w
  w.setAwaiter a { x with subscriptionId := 0, retainSelf := false }

/-- The sweep of `poll_awaiters`. -/
def pruneRegistered (w : World ε) : World ε :=
  { w with registered := w.registered.filter w.isActive }

/-- `prune_awaiters` of an endpoint. -/
def pruneAwaiters (w : World ε) (e : Nat) : World ε :=
  w.setEndpoint e
    { w.endpoints e with
      awaiters := (w.endpoints e).awaiters.filter w.isActive }

end World

end EventHub
