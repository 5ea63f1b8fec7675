import Mathlib.Data.Fintype.Basic
import EventHub.Lib.Lts
import EventHub.Lib.Threads
import EventHub.Bus.Frames

/-!
# The event bus as a machine

One step moves the top frame of one thread. `advance` follows the functions of
the library line by line while the thread runs, `unwind` says what an exception
does to a frame, and `call` what code of the program may start. A step is as
much as no other thread can look into: one critical section, one atomic access,
or local work.
-/

namespace EventHub

variable {ε : Type}

/-! ## The library's frames -/

/-- `EventBus::dispatch`. -/
def advanceDispatch (alive : Guard → Bool) (w : World ε) (d : Nat)
    (ev : Event ε) (rest : List CallbackRecord) : DispatchPc → Outcome ε
  | .next =>
      match rest with
      | [] => { world := w.note (.dispatchEnded d), frames := [] }
      | r :: rest =>
          if r.hasGuard && !(r.guard.any alive) then
            { world := w.note (.skipped d r),
              frames := [.records d ev rest .next] }
          else
            { world := w.note (.passed d r),
              frames := [.records d ev rest (.passed r)] }
  | .passed r =>
      match r.callback with
      | .endpoint _ (some g) =>
          if g.any alive then
            { world := w.note (.started d r),
              frames := [.user (.handler r), .records d ev rest (.calling r)] }
          else
            { world := w.note (.skipped d r),
              frames := [.records d ev rest .next] }
      | .plain | .endpoint _ none =>
          { world := w.note (.started d r),
            frames := [.user (.handler r), .records d ev rest (.calling r)] }
      | .awaiter a =>
          { world := w.note (.started d r),
            frames :=
              [.handleEvent a ev .entry, .records d ev rest (.calling r)] }
  | .calling _ | .reporting _ =>
      { world := w, frames := [.records d ev rest .next] }

/-- `cancel()`, called by a frame that goes on as `rest`. -/
def cancelThen (w : World ε) (a : Nat) (cause : Cause) (rest : List (Frame ε)) :
    Outcome ε :=
  if w.isActive a then
    { world := w.deactivate a cause, frames := .release a :: rest }
  else { world := w, frames := rest }

/-- `EventAwaiter::handle_event`. -/
def advanceHandle [RequestTraits ε] (w : World ε) (result : Bool) (a : Nat)
    (ev : Event ε) : HandlePc → Outcome ε
  | .entry =>
      if w.isActive a then
        { world := w, frames := [.handleEvent a ev .token] }
      else { world := w, frames := [] }
  | .token =>
      if w.tokenCancelled a then { world := w, frames := [.cancel a .token] }
      else { world := w, frames := [.handleEvent a ev .predicate] }
  | .predicate =>
      match (w.awaiters a).predicate with
      | .always => { world := w, frames := [.handleEvent a ev .matched] }
      | .user =>
          { world := w,
            frames := [.user (.predicate a), .handleEvent a ev .deciding] }
      | .requestId id =>
          if ev.getId = id then
            { world := w, frames := [.handleEvent a ev .matched] }
          else { world := w, frames := [] }
  | .deciding =>
      if result then { world := w, frames := [.handleEvent a ev .matched] }
      else { world := w, frames := [] }
  | .matched =>
      if (w.awaiters a).singleShot then
        cancelThen w a .matched [.handleEvent a ev .callback]
      else { world := w, frames := [.handleEvent a ev .callback] }
  | .callback =>
      if (w.awaiters a).callback then
        { world := w.note (.callbackStarted a ev),
          frames := [.user (.callback a), .handleEvent a ev .calling] }
      else { world := w, frames := [] }
  | .calling => { world := w, frames := [] }

/-- `EventAwaiter::poll_timeout`. -/
def advancePoll (w : World ε) (a : Nat) : PollPc → Outcome ε
  | .entry =>
      if w.isActive a then { world := w, frames := [.pollTimeout a .token] }
      else { world := w, frames := [] }
  | .token =>
      if w.tokenCancelled a then { world := w, frames := [.cancel a .token] }
      else { world := w, frames := [.pollTimeout a .deadline] }
  | .deadline =>
      if w.deadlinePassed a then
        let x := w.awaiters a
        { world := w.setAwaiter a { x with onTimeout := false },
          frames := [.pollTimeout a (.expired x.onTimeout)] }
      else { world := w, frames := [] }
  | .expired onTimeout =>
      cancelThen w a .timeout [.pollTimeout a (.timedOut onTimeout)]
  | .timedOut onTimeout =>
      if onTimeout then
        { world := w.note (.timeoutStarted a),
          frames := [.user (.onTimeout a), .pollTimeout a .calling] }
      else { world := w, frames := [] }
  | .calling | .reporting => { world := w, frames := [] }

/-- What `request` does once it has its id. -/
def requestFrames [RequestTraits ε] (request : Option (RequestCall ε))
    (id : Nat) : List (Frame ε) :=
  match request with
  | none => []
  | some r =>
      [.makeAwaiter r.endpoint
          { r.spec with predicate := .requestId id, singleShot := true },
        .enqueue (r.event.setId id) (some (r.endpoint, id))]

/-- The top frame of a thread that runs. -/
def advance [RequestTraits ε] (alive : Guard → Bool) (w : World ε)
    (result : Bool) : Frame ε → Option (Outcome ε)
  | .user _ => none
  | .addCallback type record =>
      some { world := w.addCallback type record, frames := [] }
  | .dispatch ev =>
      let records := w.callbacks ev.type
      some
        { world :=
            { w with
              nextDispatch := w.nextDispatch + 1
              log := .dispatchBegan w.nextDispatch ev.type records :: w.log },
          frames := [.records w.nextDispatch ev records .next] }
  | .records d ev rest pc => some (advanceDispatch alive w d ev rest pc)
  | .pollAwaiters =>
      let w := w.pruneRegistered
      some { world := w.note (.pollBegan w.registered),
             frames := [.polling w.registered] }
  | .polling [] => some { world := w.note .pollEnded, frames := [] }
  | .polling (a :: live) =>
      some { world := w, frames := [.pollTimeout a .entry, .polling live] }
  | .pollTimeout a pc => some (advancePoll w a pc)
  | .process =>
      some { world := { w with
               queue := []
               log := .processBegan w.queue :: w.log },
             frames := [.draining w.queue 0] }
  | .draining [] n =>
      some { world := w, frames := [.pollAwaiters, .processed n] }
  | .draining (q :: rest) n =>
      some { world := w.note (.dispatched q),
             frames := [.dispatch q.event, .dispatching q rest n] }
  | .dispatching _ rest n =>
      some { world := w, frames := [.draining rest (n + 1)] }
  | .processed n => some { world := w.note (.processReturned n), frames := [] }
  | .enqueue ev request =>
      let returning := match request with
        | none => []
        | some (e, id) => [.requestReturn e id w.nextTicket]
      some { world := w.enqueue ev, frames := .notifyWorkAvailable :: returning }
  | .notifyWorkAvailable =>
      match w.notifier with
      | some n => some { world := w.note (.notified n), frames := [] }
      | none => some { world := w, frames := [] }
  | .requestReturn e id ticket =>
      some { world := w.note (.requestReturned e id ticket), frames := [] }
  | .handleEvent a ev pc => some (advanceHandle w result a ev pc)
  | .cancel a canceller => some (cancelThen w a (.cancel canceller) [])
  | .release a => some { world := w.release a, frames := [] }
  | .cancelAwaiters e canceller =>
      let x := w.endpoints e
      some { world := w.setEndpoint e { x with awaiters := [] },
             frames := [.cancelling x.awaiters canceller] }
  | .cancelling [] _ => some { world := w, frames := [] }
  | .cancelling (a :: rest) canceller =>
      some { world := w,
             frames := [.cancel a canceller, .cancelling rest canceller] }
  | .close e =>
      some { world := w.setEndpoint e { w.endpoints e with closed := true },
             frames := [.cancelAwaiters e .close, .closeUnsubscribe e] }
  | .closeUnsubscribe e =>
      some { world :=
               (w.unsubscribeAll (.endpoint e)).note (.closeReturned e),
             frames := [] }
  | .makeAwaiter e spec =>
      some { world := w.pruneAwaiters e,
             frames := [.createAwaiter spec none (some e)] }
  | .createAwaiter spec guard via =>
      let guard := match via with
        | some e => some (w.guard e)
        | none => guard
      let keep := match via with
        | some e => [.keepHandle e w.nextAwaiter]
        | none => []
      some { world := w.createAwaiter spec guard via,
             frames := [.subscribeAwaiter w.nextAwaiter,
               .registerAwaiter w.nextAwaiter] ++ keep }
  | .subscribeAwaiter a =>
      let id := w.nextSubscriptionId
      some { world := { w with nextSubscriptionId := id + 1 },
             frames := [.addCallback (w.awaiters a).type (w.awaiterRecord a id),
               .storeSubscriptionId a id] }
  | .storeSubscriptionId a id =>
      some { world := w.setAwaiter a { w.awaiters a with subscriptionId := id },
             frames := [] }
  | .registerAwaiter a =>
      some { world := { w with registered := w.registered ++ [a] }, frames := [] }
  | .keepHandle e a =>
      let x := w.endpoints e
      some { world := w.setEndpoint e { x with awaiters := x.awaiters ++ [a] },
             frames := [] }
  | .nextRequestId retry request =>
      let (id, generator) := w.requestIds.fetchAdd
      let w := { w with requestIds := generator }
      if id = invalidRequestId ∧ retry = false then
        some { world := w, frames := [.nextRequestId true request] }
      else
        some { world := w.note (.idDrawn id), frames := requestFrames request id }

/-! ## Exceptions -/

/-- The top frame of a thread that unwinds. Code of the program may catch or
let go, which is not decided here. The other frames left out never wait for a
frame that can throw. -/
def unwind (w : World ε) : Frame ε → Option (Outcome ε)
  | .user _ => none
  | .records d ev rest (.calling r) =>
      if w.exceptionHandler then
        some { world := w,
               frames :=
                 [.user .exceptionHandler, .records d ev rest (.reporting r)] }
      else some { world := w, frames := [], mode := .throwing }
  | .records _ _ _ (.reporting _) | .handleEvent _ _ .deciding
  | .handleEvent _ _ .calling | .pollAwaiters =>
      some { world := w, frames := [], mode := .throwing }
  | .pollTimeout a .calling =>
      if w.exceptionHandler then
        some { world := w,
               frames := [.user .exceptionHandler, .pollTimeout a .reporting] }
      else some { world := w, frames := [] }
  | .pollTimeout _ .reporting => some { world := w, frames := [] }
  | .dispatching q rest _ =>
      let queue := World.restoreUnprocessedEvents w.queue rest
      some { world := { w with
               queue := queue
               log := .processThrew q queue :: w.log },
             frames := [], mode := .throwing }
  | _ => none

/-! ## Code of the program -/

/-- A record for `EventBus::subscribe`. -/
def busRecord (id : Nat) (owner : Owner) (guard : Option (Option Nat)) :
    CallbackRecord where
  id := id
  owner := owner
  hasGuard := guard.isSome
  guard := guard.join.map .user
  callback := .plain

/-- A record for `EventEndpoint::subscribe`. -/
def endpointRecord (id : Nat) (e : Nat) (guard : Option Guard)
    (userGuard : Option (Option Nat)) : CallbackRecord where
  id := id
  owner := .endpoint e
  hasGuard := true
  guard := guard
  callback := .endpoint e (userGuard.map (·.map .user))

/-- What a call leaves to do above the calling frame, and what it does at
once. -/
def call (w : World ε) : BusCall ε → World ε × List (Frame ε)
  | .subscribe type owner guard =>
      let id := w.nextSubscriptionId
      ({ w with nextSubscriptionId := id + 1 },
        [.addCallback type (busRecord id owner guard)])
  | .endpointSubscribe e type userGuard =>
      let id := w.nextSubscriptionId
      ({ w with nextSubscriptionId := id + 1 },
        [.addCallback type (endpointRecord id e (w.guard e) userGuard)])
  | .unsubscribe id => (w.unsubscribe id, [])
  | .unsubscribeAllOf type owner => (w.unsubscribeAllOf type owner, [])
  | .unsubscribeAll owner => (w.unsubscribeAll owner, [])
  | .emit ev => (w, [.dispatch ev, .pollAwaiters])
  | .post ev => (w, [.enqueue ev none])
  | .process => (w, [.process])
  | .clearPending => (w.clearPending, [])
  | .close e => (w, [.close e])
  | .endpointCancelAwaiters e => (w, [.cancelAwaiters e .call])
  | .createAwaiter spec guard =>
      (w, [.createAwaiter spec (guard.map (·.map .user)) none])
  | .await e spec => (w, [.makeAwaiter e spec])
  | .request e ev spec =>
      (w, [.nextRequestId false
            (some { endpoint := e, event := ev, spec := spec })])
  | .nextRequestId => (w, [.nextRequestId false none])
  | .cancelAwaiter a => (w, [.cancel a .call])
  | .cancelToken k =>
      ({ w with tokens := fun b => if b = k then true else w.tokens b }, [])
  | .setExceptionHandler installed =>
      ({ w with exceptionHandler := installed }, [])
  | .setNotifier notifier => ({ w with notifier := notifier }, [])
  | .releaseGuard g =>
      ({ w with released := fun b => if b = g then true else w.released b }, [])

/-! ## Threads -/

structure BusSystem (ι ε : Type) where
  world : World ε := {}
  frames : ι → List (Frame ε) := fun _ => [.user .main]
  mode : ι → Mode := fun _ => .running false

inductive BusAction (ι ε : Type)
  /-- The library's frame on top of `t` moves. -/
  | advance (t : ι)
  /-- Code of the program on top of `t` calls the library. -/
  | call (t : ι) (c : BusCall ε)
  /-- It returns. -/
  | ret (t : ι) (result : Bool)
  /-- It throws, or lets an exception pass. -/
  | throw (t : ι)
  /-- It catches the exception that reached it. -/
  | catch (t : ι)
  /-- Time passes. -/
  | tick (delta : Nat)
  deriving DecidableEq, Repr

namespace BusSystem

variable {ι : Type} [Fintype ι] [DecidableEq ι]

/-- Some frame of some thread holds `g`. -/
def held (s : BusSystem ι ε) (g : Guard) : Prop :=
  Threads.Exists (fun f => f.holds g) s.frames

instance (s : BusSystem ι ε) (g : Guard) : Decidable (s.held g) :=
  inferInstanceAs (Decidable (Threads.Exists _ _))

/-- `guard.lock()` succeeds. -/
def alive (s : BusSystem ι ε) (g : Guard) : Bool :=
  s.world.owned g || decide (s.held g)

/-- The top frame of `t` is replaced. -/
def put (s : BusSystem ι ε) (t : ι) (o : Outcome ε) : BusSystem ι ε where
  world := o.world
  frames := Threads.replaceTop s.frames t o.frames
  mode := Function.update s.mode t o.mode

/-- What the top frame of thread `t` becomes. -/
def outcome [RequestTraits ε] (s : BusSystem ι ε) :
    BusAction ι ε → Option (ι × Outcome ε)
  | .advance t =>
      match s.frames t, s.mode t with
      | f :: _, .running result =>
          (advance s.alive s.world result f).map (t, ·)
      | f :: _, .throwing => (unwind s.world f).map (t, ·)
      | [], _ => none
  | .call t c =>
      match s.frames t, s.mode t with
      | .user code :: _, .running _ =>
          let (w, frames) := call s.world c
          some (t, { world := w, frames := frames ++ [.user code] })
      | _, _ => none
  | .ret t result =>
      match s.frames t, s.mode t with
      | .user .main :: _, _ => none
      | .user _ :: _, .running _ =>
          some (t, { world := s.world, frames := [], mode := .running result })
      | _, _ => none
  | .throw t =>
      match s.frames t with
      | .user .main :: _ => none
      | .user _ :: _ =>
          some (t, { world := s.world, frames := [], mode := .throwing })
      | _ => none
  | .catch t =>
      match s.frames t, s.mode t with
      | .user code :: _, .throwing =>
          some (t, { world := s.world, frames := [.user code] })
      | _, _ => none
  | .tick _ => none

def step [RequestTraits ε] (s : BusSystem ι ε) :
    BusAction ι ε → Option (BusSystem ι ε)
  | .tick delta =>
      some { s with world := { s.world with now := s.world.now + delta } }
  | a => (s.outcome a).map fun (t, o) => s.put t o

/-- The states of a bus under any program on the threads `ι`. -/
def Reachable [RequestTraits ε] (s : BusSystem ι ε) : Prop :=
  Lts.Reachable step {} s

end BusSystem

end EventHub
