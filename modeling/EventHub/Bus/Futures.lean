import EventHub.Bus.History

/-!
# Requests with a future

`request_future` is a client of `request`. It shares a promise, a flag and a
place for the request id with two lambdas, hands these to `request` as the
callback and as `on_timeout`, and stores the id when `request` has returned it.
The lambdas run where the bus runs callbacks of the program, on whatever thread
that is.

The promise is shared by the locals of the call and by the two lambdas, which
the awaiter owns. `request` drops the handle that `await_once` returned, so the
awaiter lives on by its reference to itself, by the list of the endpoint and by
references on the stacks. When none of these is left the promise is destroyed,
and its destructor stores `std::future_error(broken_promise)` unless a value or
an exception was set before.

So the machine of the bus goes on as before, and each thread also has a place
in the code of `request_future` while that code is on top of its stack. The
`on_timeout` of the caller runs at the end of the lambda that wraps it; from
there on the frame is code of the program like any other.
-/

namespace EventHub

variable {ι ε : Type}

/-- What one call of `request_future` shares with its lambdas. -/
structure Promise where
  endpoint : Nat := 0
  requestId : Nat := invalidRequestId
  completed : Bool := false
  userOnTimeout : Bool := false
  destroyed : Bool := false
  /-- A history variable: the id that `request` drew. -/
  drawn : Option Nat := none
  deriving DecidableEq, Repr

inductive FutureCode (ε : Type)
  | requesting (p : Nat)
  /-- `*request_id = id`. -/
  | storing (p : Nat) (id : Nat)
  /-- The callback, at its exchange. -/
  | completing (p : Nat) (result : Event ε)
  /-- It won. -/
  | settingValue (p : Nat) (result : Event ε)
  /-- The wrapped `on_timeout`, at its exchange. -/
  | expiring (p : Nat)
  | settingException (p : Nat)
  deriving DecidableEq, Repr

namespace FutureCode

def promise : FutureCode ε → Nat
  | .requesting p | .storing p _ | .completing p _ | .settingValue p _
  | .expiring p | .settingException p => p

end FutureCode

/-- What `future.get()` throws. -/
inductive FutureError
  /-- `RequestTimeoutError` with this id. -/
  | requestTimeout (id : Nat)
  /-- `std::future_error` with the code `broken_promise`. -/
  | brokenPromise
  deriving DecidableEq, Repr

inductive FutureObs (ε : Type)
  /-- The request event entered the queue. -/
  | posted (p : Nat) (request : Event ε)
  | valueSet (p : Nat) (result : Event ε)
  | exceptionSet (p : Nat) (error : FutureError)
  deriving DecidableEq, Repr

/-- The promise whose shared state became ready. -/
def FutureObs.resolved : FutureObs ε → Option Nat
  | .valueSet p _ | .exceptionSet p _ => some p
  | .posted .. => none

structure FutureSystem (ι ε : Type) where
  bus : BusSystem ι ε := {}
  promises : Nat → Promise := fun _ => {}
  nextPromise : Nat := 0
  /-- The promise whose lambdas an awaiter has. -/
  owner : Nat → Option Nat := fun _ => none
  code : ι → Option (FutureCode ε) := fun _ => none
  /-- Newest first. -/
  log : List (FutureObs ε) := []

inductive FutureAction (ι ε : Type)
  | bus (act : BusAction ι ε)
  /-- Code of the program on top of `t` calls `request_future`. -/
  | requestFuture (t : ι) (e : Nat) (ev : Event ε) (options : AwaitSpec)
  /-- The code of `request_future` on top of `t` moves. -/
  | proceed (t : ι)
  /-- The last reference to the promise is gone. -/
  | destroy (p : Nat)
  deriving DecidableEq, Repr

/-- The frame has a `shared_ptr` to the awaiter. -/
def Frame.refers (a : Nat) : Frame ε → Bool
  | .subscribeAwaiter b | .storeSubscriptionId b _ | .registerAwaiter b
  | .keepHandle _ b | .handleEvent b _ _ | .pollTimeout b _ | .cancel b _
  | .release b => b = a
  | .polling awaiters | .cancelling awaiters _ => a ∈ awaiters
  | _ => false

/-- Somebody has a `shared_ptr` to the awaiter that was made through `e`. The
list of a closed endpoint does not count: the endpoint may be gone. -/
def BusSystem.keeps (s : BusSystem ι ε) (e a : Nat) : Prop :=
  (s.world.awaiters a).retainSelf ∨
    (s.world.endpoints e).closed = false ∧ a ∈ (s.world.endpoints e).awaiters ∨
    Threads.Exists (Frame.refers a) s.frames

instance [Fintype ι] (s : BusSystem ι ε) (e a : Nat) : Decidable (s.keeps e a) :=
  inferInstanceAs (Decidable (_ ∨ _ ∨ _))

namespace FutureSystem

def note (s : FutureSystem ι ε) (o : FutureObs ε) : FutureSystem ι ε :=
  { s with log := o :: s.log }

def setPromise (s : FutureSystem ι ε) (p : Nat) (x : Promise) :
    FutureSystem ι ε :=
  { s with promises := Function.update s.promises p x }

@[simp] theorem setPromise_self {s : FutureSystem ι ε} {p : Nat} {x : Promise} :
    (s.setPromise p x).promises p = x := Function.update_self ..

theorem setPromise_of_ne {s : FutureSystem ι ε} {p q : Nat} {x : Promise}
    (h : q ≠ p) : (s.setPromise p x).promises q = s.promises q :=
  Function.update_of_ne h ..

/-- Somebody has a `shared_ptr` to the promise: code of `request_future` that
runs, or an awaiter that is kept. -/
def shares (s : FutureSystem ι ε) (p : Nat) : Prop :=
  (∃ t, (s.code t).map FutureCode.promise = some p) ∨
    ∃ a < s.bus.world.nextAwaiter, s.owner a = some p ∧
      s.bus.keeps (s.promises p).endpoint a

instance [Fintype ι] (s : FutureSystem ι ε) (p : Nat) : Decidable (s.shares p) :=
  inferInstanceAs (Decidable (_ ∨ _))

/-- The destructor of the promise. -/
def abandon (s : FutureSystem ι ε) (p : Nat) : FutureSystem ι ε :=
  let destroyed := s.setPromise p { s.promises p with destroyed := true }
  if s.log.any (fun o => o.resolved = some p) then destroyed
  else destroyed.note (.exceptionSet p .brokenPromise)

section abandon

variable {s : FutureSystem ι ε} {p : Nat}

@[simp] theorem abandon_bus : (s.abandon p).bus = s.bus := by
  unfold abandon
  dsimp only
  split <;> rfl

@[simp] theorem abandon_code : (s.abandon p).code = s.code := by
  unfold abandon
  dsimp only
  split <;> rfl

@[simp] theorem abandon_owner : (s.abandon p).owner = s.owner := by
  unfold abandon
  dsimp only
  split <;> rfl

@[simp] theorem abandon_nextPromise :
    (s.abandon p).nextPromise = s.nextPromise := by
  unfold abandon
  dsimp only
  split <;> rfl

theorem abandon_promises : (s.abandon p).promises =
    (s.setPromise p { s.promises p with destroyed := true }).promises := by
  unfold abandon
  dsimp only
  split <;> rfl

theorem abandon_log :
    (s.abandon p).log = s.log ∧ (∃ o ∈ s.log, o.resolved = some p) ∨
      (s.abandon p).log = .exceptionSet p .brokenPromise :: s.log ∧
        ∀ o ∈ s.log, o.resolved ≠ some p := by
  unfold abandon
  dsimp only
  split
  next hready =>
    obtain ⟨o, ho, hres⟩ := List.any_eq_true.mp hready
    exact .inl ⟨rfl, o, ho, of_decide_eq_true hres⟩
  next hready =>
    refine .inr ⟨rfl, fun o ho hres => hready ?_⟩
    exact List.any_eq_true.mpr ⟨o, ho, decide_eq_true hres⟩

end abandon

variable [DecidableEq ι]

def setCode (s : FutureSystem ι ε) (t : ι) (c : Option (FutureCode ε)) :
    FutureSystem ι ε :=
  { s with code := Function.update s.code t c }

@[simp] theorem setCode_self {s : FutureSystem ι ε} {t : ι}
    {c : Option (FutureCode ε)} : (s.setCode t c).code t = c :=
  Function.update_self ..

theorem setCode_of_ne {s : FutureSystem ι ε} {t u : ι}
    {c : Option (FutureCode ε)} (h : u ≠ t) :
    (s.setCode t c).code u = s.code u := Function.update_of_ne h ..

/-- While code of `request_future` is on top of a thread, the bus moves that
thread only inside `request`. -/
def permits (s : FutureSystem ι ε) : BusAction ι ε → Bool
  | .tick _ => true
  | .advance t =>
      match s.code t with
      | none | some (.requesting _) => true
      | _ => false
  | .call t c => (s.code t).isNone && c.ownPredicate
  | .ret t _ | .throw t | .catch t => (s.code t).isNone

/-- The frame `f` on top of `t` moves: what this is to `request_future`. -/
def follow (s : FutureSystem ι ε) (t : ι) (f : Frame ε) : FutureSystem ι ε :=
  match s.code t, f with
  | some (.requesting p), .nextRequestId retry _ =>
      let id := s.bus.world.requestIds.next
      if id = invalidRequestId ∧ retry = false then s
      else s.setPromise p { s.promises p with drawn := some id }
  | some (.requesting p), .createAwaiter .. =>
      { s with owner :=
          Function.update s.owner s.bus.world.nextAwaiter (some p) }
  | some (.requesting p), .enqueue ev _ => s.note (.posted p ev)
  | some (.requesting p), .requestReturn _ id _ =>
      s.setCode t (some (.storing p id))
  | none, .handleEvent a ev .callback =>
      match s.owner a with
      | some p => s.setCode t (some (.completing p ev))
      | none => s
  | none, .pollTimeout a (.timedOut true) =>
      match s.owner a with
      | some p => s.setCode t (some (.expiring p))
      | none => s
  | _, _ => s

def followed (s : FutureSystem ι ε) : BusAction ι ε → FutureSystem ι ε
  | .advance t =>
      match s.bus.frames t with
      | f :: _ => s.follow t f
      | [] => s
  | _ => s

variable [Fintype ι] [RequestTraits ε]

/-- The lambda on top of `t` returns. -/
def leave (s : FutureSystem ι ε) (t : ι) : Option (FutureSystem ι ε) :=
  (s.bus.step (.ret t false)).map fun bus =>
    { s.setCode t none with bus := bus }

/-- The rest of the wrapped `on_timeout`. -/
def endTimeout (s : FutureSystem ι ε) (t : ι) (p : Nat) :
    Option (FutureSystem ι ε) :=
  if (s.promises p).userOnTimeout then some (s.setCode t none) else s.leave t

def step (s : FutureSystem ι ε) :
    FutureAction ι ε → Option (FutureSystem ι ε)
  | .bus act =>
      if s.permits act then
        (s.bus.step act).map fun bus => { s.followed act with bus := bus }
      else none
  | .requestFuture t e ev options =>
      if (s.code t).isNone then
        let spec := { options with callback := true, onTimeout := true }
        (s.bus.step (.call t (.request e ev spec))).map fun bus =>
          { (s.setPromise s.nextPromise
                { endpoint := e, userOnTimeout := options.onTimeout }).setCode t
              (some (.requesting s.nextPromise)) with
            bus := bus
            nextPromise := s.nextPromise + 1 }
      else none
  | .proceed t =>
      match s.code t with
      | some (.storing p id) =>
          some ((s.setPromise p { s.promises p with requestId := id }).setCode t
            none)
      | some (.completing p result) =>
          if (s.promises p).completed then s.leave t
          else
            some ((s.setPromise p { s.promises p with completed := true }).setCode
              t (some (.settingValue p result)))
      | some (.settingValue p result) => (s.note (.valueSet p result)).leave t
      | some (.expiring p) =>
          if (s.promises p).completed then s.endTimeout t p
          else
            some ((s.setPromise p { s.promises p with completed := true }).setCode
              t (some (.settingException p)))
      | some (.settingException p) =>
          (s.note (.exceptionSet p (.requestTimeout
            (s.promises p).requestId))).endTimeout t p
      | some (.requesting _) | none => none
  | .destroy p =>
      if p < s.nextPromise ∧ (s.promises p).destroyed = false ∧ ¬ s.shares p then
        some (s.abandon p)
      else none

/-- The states under any program on the threads `ι`. -/
def Reachable (s : FutureSystem ι ε) : Prop := Lts.Reachable step {} s

end FutureSystem

end EventHub
