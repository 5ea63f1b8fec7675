import EventHub.Bus.Types

/-!
# Call stacks

A thread is a stack of frames, innermost first. `user` frames are code of the
program: its threads' own code, handlers, predicates, awaiter callbacks,
timeout callbacks and exception handlers. They are not modelled as code; while
one is on top, every operation of the library is open to it, and it may end by
returning or by throwing. All other frames are functions of the library, each
with the local variables that matter and the point it has reached. A frame is
always at the point where control comes back to it, so a frame below the top
is one that waits for the frames above.
-/

namespace EventHub

/-- Which code of the program a `user` frame runs. -/
inductive UserCode
  | main
  | handler (record : CallbackRecord)
  | predicate (a : Nat)
  | callback (a : Nat)
  | onTimeout (a : Nat)
  | exceptionHandler
  deriving DecidableEq, Repr

/-- The loop of `dispatch`; a record in the loop body is no longer in the list
of those to come. -/
inductive DispatchPc
  | next
  /-- The guard was locked, the callback not yet called. -/
  | passed (record : CallbackRecord)
  | calling (record : CallbackRecord)
  /-- In `report_exception`. -/
  | reporting (record : CallbackRecord)
  deriving DecidableEq, Repr

/-- `EventAwaiter::handle_event`. -/
inductive HandlePc
  | entry | token | predicate | deciding | matched | callback | calling
  deriving DecidableEq, Repr

/-- `EventAwaiter::poll_timeout`. -/
inductive PollPc
  | entry | token | deadline
  /-- At `cancel()`; the argument says whether `on_timeout` was set. -/
  | expired (onTimeout : Bool)
  /-- `cancel()` returned. -/
  | timedOut (onTimeout : Bool)
  | calling | reporting
  deriving DecidableEq, Repr

/-- A call of `request`, waiting for its id. -/
structure RequestCall (ε : Type) where
  endpoint : Nat
  event : Event ε
  spec : AwaitSpec
  deriving DecidableEq, Repr

inductive Frame (ε : Type)
  | user (code : UserCode)
  /-- `m_callbacks[type].push_back(record)` of `subscribe`. -/
  | addCallback (type : Nat) (record : CallbackRecord)
  | dispatch (ev : Event ε)
  /-- The loop of `dispatch` number `d`. -/
  | records (d : Nat) (ev : Event ε) (rest : List CallbackRecord)
      (pc : DispatchPc)
  | pollAwaiters
  | polling (live : List Nat)
  | pollTimeout (a : Nat) (pc : PollPc)
  | process
  /-- The loop of `process`, at its head. -/
  | draining (rest : List (QueuedEvent ε)) (processed : Nat)
  /-- The loop of `process`, in `dispatch`. -/
  | dispatching (front : QueuedEvent ε) (rest : List (QueuedEvent ε))
      (processed : Nat)
  | processed (count : Nat)
  /-- `post`; `request` is the endpoint and id when `request` posts. -/
  | enqueue (ev : Event ε) (request : Option (Nat × Nat))
  | notifyWorkAvailable
  | requestReturn (e : Nat) (id : Nat) (ticket : Nat)
  | handleEvent (a : Nat) (ev : Event ε) (pc : HandlePc)
  /-- The exchange of `cancel()`. -/
  | cancel (a : Nat) (canceller : Canceller)
  /-- The rest of a `cancel()` that won. -/
  | release (a : Nat)
  | cancelAwaiters (e : Nat) (canceller : Canceller)
  | cancelling (awaiters : List Nat) (canceller : Canceller)
  | close (e : Nat)
  /-- The `unsubscribe_all()` of `close()`. -/
  | closeUnsubscribe (e : Nat)
  /-- `make_awaiter`, before `prune_awaiters()`. -/
  | makeAwaiter (e : Nat) (spec : AwaitSpec)
  /-- `EventAwaiter::create`; through an endpoint the guard is its own. -/
  | createAwaiter (spec : AwaitSpec) (guard : Option (Option Guard))
      (via : Option Nat)
  | subscribeAwaiter (a : Nat)
  /-- `m_subscription_id = id`. -/
  | storeSubscriptionId (a : Nat) (id : Nat)
  | registerAwaiter (a : Nat)
  /-- `m_awaiters.emplace_back(handle)` of the endpoint. -/
  | keepHandle (e : Nat) (a : Nat)
  /-- `next_request_id()`; `retry` after a draw of the invalid id. -/
  | nextRequestId (retry : Bool) (request : Option (RequestCall ε))
  deriving DecidableEq, Repr

namespace Frame

variable {ε : Type}

/-- The records whose guard a frame has locked and still holds. -/
def lockedRecord : Frame ε → Option CallbackRecord
  | .records _ _ _ (.passed r) | .records _ _ _ (.calling r)
  | .records _ _ _ (.reporting r) => some r
  | _ => none

/-- The user guard that the wrapper of `EventEndpoint::subscribe` holds while
the callback runs. -/
def lockedUserGuard : Frame ε → Option Guard
  | .records _ _ _ (.calling r) =>
      match r.callback with
      | .endpoint _ (some g) => g
      | _ => none
  | _ => none

/-- The frame holds a strong reference to `g`. -/
def holds (f : Frame ε) (g : Guard) : Bool :=
  (f.lockedRecord.any fun r => r.hasGuard && r.guard == some g) ||
    f.lockedUserGuard == some g

end Frame

/-- Whether a thread runs or unwinds; a thread that runs carries the result of
the call that returned last. -/
inductive Mode
  | running (result : Bool)
  | throwing
  deriving DecidableEq, Repr

/-- What the top frame is replaced by. -/
structure Outcome (ε : Type) where
  world : World ε
  frames : List (Frame ε)
  mode : Mode := .running false

/-- What code of the program may call. -/
inductive BusCall (ε : Type)
  | subscribe (type : Nat) (owner : Owner) (guard : Option (Option Nat))
  | endpointSubscribe (e type : Nat) (userGuard : Option (Option Nat))
  | unsubscribe (id : Nat)
  | unsubscribeAllOf (type : Nat) (owner : Owner)
  | unsubscribeAll (owner : Owner)
  | emit (ev : Event ε)
  | post (ev : Event ε)
  | process
  | clearPending
  /-- `close()`, also from the destructor. -/
  | close (e : Nat)
  | endpointCancelAwaiters (e : Nat)
  | createAwaiter (spec : AwaitSpec) (guard : Option (Option Nat))
  /-- `await_once` and `await_each`. -/
  | await (e : Nat) (spec : AwaitSpec)
  | request (e : Nat) (ev : Event ε) (spec : AwaitSpec)
  | nextRequestId
  /-- `cancel()` through a handle, also from the destructor. -/
  | cancelAwaiter (a : Nat)
  | cancelToken (k : Nat)
  | setExceptionHandler (installed : Bool)
  | setNotifier (notifier : Option Nat)
  /-- The program drops its last reference to a guard object. -/
  | releaseGuard (g : Nat)
  deriving DecidableEq, Repr

/-- The program's own awaiters do not use the lambda of `request`. -/
def BusCall.ownPredicate {ε : Type} : BusCall ε → Bool
  | .createAwaiter spec _ | .await _ spec => !spec.predicate.isRequest
  | _ => true

end EventHub
