import EventHub.Proofs.BusAwaiters

/-!
# What awaiters leave behind

A creation puts the record into the table, stores its id and registers the
awaiter, in three steps that other threads can come between. A `cancel()` takes
out the record whose id is stored. So the tables follow the awaiters as long as
nobody cancels an awaiter before its creation has got that far.

The argument counts, for one awaiter, what is left to do. An awaiter that is
active or about to be released is one that still has to draw its id, or to
store it, or has it stored; and the record is in the table, or about to be put
there, from the draw on.
-/

namespace EventHub

variable {ι ε : Type}

/-- `subscribe_internal` of the awaiter made the record. -/
def CallbackRecord.isOf (a : Nat) (r : CallbackRecord) : Bool :=
  decide (r.callback = .awaiter a)

namespace World

def recordsOf (w : World ε) (type a : Nat) : List CallbackRecord :=
  (w.callbacks type).filter (·.isOf a)

/-- Whether `m_subscription_id` is stored. -/
def idStored (w : World ε) (a : Nat) : Nat :=
  if (w.awaiters a).subscriptionId = 0 then 0 else 1

end World

/-- One record for each active awaiter, and no self-reference of another. -/
structure AwaitersTidy (w : World ε) : Prop where
  records : ∀ a type, (w.recordsOf type a).length =
    if w.isActive a ∧ type = (w.awaiters a).type then 1 else 0
  released : ∀ a, w.isActive a = false → (w.awaiters a).retainSelf = false

namespace BusObs

def beginsPoll : BusObs ε → Bool
  | .pollBegan _ => true
  | _ => false

end BusObs

/-- No entry of `m_awaiters` was inactive when some poll began; the poll of an
`emit()` or `process()` that returned is one of these. -/
def RegisteredTidy (w : World ε) : Prop :=
  ∀ a ∈ w.registered, w.log.Pairwise fun later earlier =>
    later.beginsPoll → earlier.deactivates a = false

instance (w : World ε) : Decidable (RegisteredTidy w) :=
  inferInstanceAs (Decidable (∀ a ∈ w.registered, _))

namespace Frame

/-- Between the steps of a creation, or before the last one of a `cancel()`. -/
def bookkeeping : Frame ε → Bool
  | .subscribeAwaiter _ | .storeSubscriptionId .. | .release _ => true
  | .addCallback _ r =>
      match r.callback with
      | .awaiter _ => true
      | _ => false
  | _ => false

def subscribes (a : Nat) : Frame ε → Bool
  | .subscribeAwaiter b => b = a
  | _ => false

def adds (a type : Nat) : Frame ε → Bool
  | .addCallback t r => t = type && r.isOf a
  | _ => false

def stores (a : Nat) : Frame ε → Bool
  | .storeSubscriptionId b _ => b = a
  | _ => false

def storesId (a id : Nat) : Frame ε → Bool
  | .storeSubscriptionId b i => b = a && i = id
  | _ => false

def releases (a : Nat) : Frame ε → Bool
  | .release b => b = a
  | _ => false

end Frame

namespace BusSystem

variable [Fintype ι]

/-- No creation and no `cancel()` of an awaiter is under way. -/
def Settled (s : BusSystem ι ε) : Prop :=
  ¬ Threads.Exists Frame.bookkeeping s.frames

instance (s : BusSystem ι ε) : Decidable s.Settled :=
  inferInstanceAs (Decidable (¬ _))

end BusSystem

/-- A `cancel()` finds the id of the awaiter stored, and a creation registers
an awaiter that is still active. -/
def CreationDone (w : World ε) : Frame ε → Prop
  | .release a => (w.awaiters a).subscriptionId ≠ 0
  | .registerAwaiter a => w.isActive a
  | _ => True

instance (w : World ε) (f : Frame ε) : Decidable (CreationDone w f) :=
  match f with
  | .release a =>
      inferInstanceAs (Decidable ((w.awaiters a).subscriptionId ≠ 0))
  | .registerAwaiter a => inferInstanceAs (Decidable (w.isActive a = true))
  | .user _ | .addCallback .. | .dispatch _ | .records .. | .pollAwaiters
  | .polling _ | .pollTimeout .. | .process | .draining .. | .dispatching ..
  | .processed _ | .enqueue .. | .notifyWorkAvailable | .requestReturn ..
  | .handleEvent .. | .cancel .. | .cancelAwaiters .. | .cancelling ..
  | .close _ | .closeUnsubscribe _ | .makeAwaiter .. | .createAwaiter ..
  | .subscribeAwaiter _ | .storeSubscriptionId .. | .keepHandle ..
  | .nextRequestId .. => inferInstanceAs (Decidable True)

def Owner.isAwaiter : Owner → Bool
  | .awaiter _ => true
  | _ => false

/-- Nobody cancels an awaiter whose creation is under way, and the program
unsubscribes nothing by an id or an owner that is an awaiter's. -/
def Undisturbed [Fintype ι] (s : BusSystem ι ε) : BusAction ι ε → Prop
  | .advance t => ∀ f ∈ (s.frames t).head?, CreationDone s.world f
  | .call _ (.unsubscribe id) =>
      (∀ a < s.world.nextAwaiter, (s.world.awaiters a).subscriptionId ≠ id) ∧
        ∀ a < s.world.nextAwaiter, ¬ Threads.Exists (Frame.storesId a id) s.frames
  | .call _ (.unsubscribeAllOf _ owner) | .call _ (.unsubscribeAll owner) =>
      owner.isAwaiter = false
  | _ => True

instance [Fintype ι] (s : BusSystem ι ε) (act : BusAction ι ε) :
    Decidable (Undisturbed s act) :=
  match act with
  | .advance t =>
      inferInstanceAs
        (Decidable (∀ f ∈ (s.frames t).head?, CreationDone s.world f))
  | .call _ (.unsubscribe id) =>
      inferInstanceAs (Decidable
        ((∀ a < s.world.nextAwaiter,
            (s.world.awaiters a).subscriptionId ≠ id) ∧
          ∀ a < s.world.nextAwaiter,
            ¬ Threads.Exists (Frame.storesId a id) s.frames))
  | .call _ (.unsubscribeAllOf _ owner) | .call _ (.unsubscribeAll owner) =>
      inferInstanceAs (Decidable (owner.isAwaiter = false))
  | .call _ (.subscribe ..) | .call _ (.endpointSubscribe ..)
  | .call _ (.emit _) | .call _ (.post _) | .call _ .process
  | .call _ .clearPending | .call _ (.close _)
  | .call _ (.endpointCancelAwaiters _) | .call _ (.createAwaiter ..)
  | .call _ (.await ..) | .call _ (.request ..) | .call _ .nextRequestId
  | .call _ (.cancelAwaiter _) | .call _ (.cancelToken _)
  | .call _ (.setExceptionHandler _) | .call _ (.setNotifier _)
  | .call _ (.releaseGuard _) | .ret .. | .throw _ | .catch _ | .tick _ =>
      inferInstanceAs (Decidable True)

/-! ## What a step does to the tables -/

/-- Nothing that belongs to an awaiter changed. -/
structure SameRecords (w w' : World ε) : Prop where
  records : ∀ a type, w'.recordsOf type a = w.recordsOf type a
  type : ∀ a, (w'.awaiters a).type = (w.awaiters a).type
  subscriptionId : ∀ a,
    (w'.awaiters a).subscriptionId = (w.awaiters a).subscriptionId
  cancelled : ∀ a, (w'.awaiters a).cancelled = (w.awaiters a).cancelled
  retainSelf : ∀ a, (w'.awaiters a).retainSelf = (w.awaiters a).retainSelf
  nextAwaiter : w'.nextAwaiter = w.nextAwaiter
  nextSubscriptionId : w.nextSubscriptionId ≤ w'.nextSubscriptionId

/-- No frame of the list is bookkeeping. -/
def Plain (fs : List (Frame ε)) : Prop := ∀ f ∈ fs, f.bookkeeping = false

inductive RecordMove (w : World ε) (f : Frame ε) (w' : World ε)
    (fs : List (Frame ε)) : Prop
  | same (hsame : SameRecords w w') (hf : f.bookkeeping = false) (hfs : Plain fs)
  | created (spec : AwaitSpec) (guard : Option (Option Guard))
      (via : Option Nat) (rest : List (Frame ε))
      (hw : w' = w.createAwaiter spec guard via) (hf : f.bookkeeping = false)
      (hfs : fs = .subscribeAwaiter w.nextAwaiter :: rest) (hrest : Plain rest)
  | drawn (a : Nat) (hf : f = .subscribeAwaiter a)
      (hw : w' = { w with nextSubscriptionId := w.nextSubscriptionId + 1 })
      (hfs : fs =
        [.addCallback (w.awaiters a).type (w.awaiterRecord a w.nextSubscriptionId),
          .storeSubscriptionId a w.nextSubscriptionId])
  | added (a type : Nat) (r : CallbackRecord) (hf : f = .addCallback type r)
      (hr : r.callback = .awaiter a) (hw : w' = w.addCallback type r)
      (hfs : fs = [])
  | stored (a id : Nat) (hf : f = .storeSubscriptionId a id)
      (hw : w' = w.setAwaiter a { w.awaiters a with subscriptionId := id })
      (hfs : fs = [])
  | ended (a : Nat) (cause : Cause) (rest : List (Frame ε))
      (hactive : w.isActive a) (hw : w' = w.deactivate a cause)
      (hf : f.bookkeeping = false) (hfs : fs = .release a :: rest)
      (hrest : Plain rest)
  | released (a : Nat) (hf : f = .release a) (hw : w' = w.release a)
      (hfs : fs = [])

/-- The owner of an awaiter's record is the awaiter. -/
def OwnRecords (w : World ε) : Prop :=
  ∀ a type, ∀ r ∈ w.recordsOf type a, r.owner = .awaiter a

section RecordMove

variable {w w' : World ε} {f : Frame ε} {fs : List (Frame ε)} {o : Outcome ε}

theorem SameRecords.of_eq (hcallbacks : w'.callbacks = w.callbacks)
    (hawaiters : w'.awaiters = w.awaiters)
    (hnext : w'.nextAwaiter = w.nextAwaiter)
    (hid : w.nextSubscriptionId ≤ w'.nextSubscriptionId) : SameRecords w w' where
  records a type := by rw [World.recordsOf, hcallbacks]; rfl
  type a := by rw [hawaiters]
  subscriptionId a := by rw [hawaiters]
  cancelled a := by rw [hawaiters]
  retainSelf a := by rw [hawaiters]
  nextAwaiter := hnext
  nextSubscriptionId := hid

theorem SameRecords.refl : SameRecords w w := .of_eq rfl rfl rfl (Nat.le_refl _)

/-- Only other records come or go. -/
theorem SameRecords.of_records
    (hrecords : ∀ a type, w'.recordsOf type a = w.recordsOf type a)
    (hawaiters : w'.awaiters = w.awaiters)
    (hnext : w'.nextAwaiter = w.nextAwaiter)
    (hid : w'.nextSubscriptionId = w.nextSubscriptionId) : SameRecords w w' where
  records := hrecords
  type a := by rw [hawaiters]
  subscriptionId a := by rw [hawaiters]
  cancelled a := by rw [hawaiters]
  retainSelf a := by rw [hawaiters]
  nextAwaiter := hnext
  nextSubscriptionId := hid.ge

/-- The records of an awaiter pass a filter on the table. -/
theorem recordsOf_filter {p : CallbackRecord → Bool} {type a : Nat}
    (hcallbacks : w'.callbacks type = (w.callbacks type).filter p)
    (hp : ∀ r ∈ w.recordsOf type a, p r) :
    w'.recordsOf type a = w.recordsOf type a := by
  unfold World.recordsOf at hp ⊢
  rw [hcallbacks, List.filter_comm]
  exact List.filter_eq_self.mpr hp

theorem SameRecords.unsubscribeAllOf (howns : OwnRecords w) {owner : Owner}
    (howner : owner.isAwaiter = false) (type : Nat) :
    SameRecords w (w.unsubscribeAllOf type owner) := by
  refine .of_records (fun a t => ?_) rfl rfl rfl
  have hkeep : ∀ r ∈ w.recordsOf t a, decide (r.owner ≠ owner) = true := by
    intro r hr
    refine decide_eq_true fun heq => ?_
    rw [← heq, howns a t r hr] at howner
    exact Bool.false_ne_true howner.symm
  by_cases ht : t = type
  · exact recordsOf_filter (if_pos ht) hkeep
  · exact congrArg _ (if_neg ht)

theorem SameRecords.unsubscribeAll (howns : OwnRecords w) {owner : Owner}
    (howner : owner.isAwaiter = false) : SameRecords w (w.unsubscribeAll owner) := by
  refine .of_records (fun a t => recordsOf_filter rfl fun r hr => ?_) rfl rfl rfl
  refine decide_eq_true fun heq => ?_
  rw [← heq, howns a t r hr] at howner
  exact Bool.false_ne_true howner.symm

theorem SameRecords.unsubscribe {id : Nat}
    (hid : ∀ a type, ∀ r ∈ w.recordsOf type a, r.id ≠ id) :
    SameRecords w (w.unsubscribe id) :=
  .of_records
    (fun a t => recordsOf_filter rfl fun r hr => decide_eq_true (hid a t r hr))
    rfl rfl rfl

theorem recordsOf_addCallback (type : Nat) (r : CallbackRecord) (t a : Nat) :
    (w.addCallback type r).recordsOf t a =
      w.recordsOf t a ++ if t = type ∧ r.isOf a then [r] else [] := by
  unfold World.recordsOf World.addCallback
  dsimp only
  split
  · next ht =>
      rw [List.filter_append]
      cases hr : r.isOf a <;> simp [hr, ht]
  · next ht => simp [ht]

theorem SameRecords.addCallback {type : Nat} {r : CallbackRecord}
    (hr : ∀ a, r.isOf a = false) : SameRecords w (w.addCallback type r) := by
  refine .of_records (fun a t => ?_) rfl rfl rfl
  rw [recordsOf_addCallback, hr a]
  simp

theorem SameRecords.setAwaiter {b : Nat} {x : Awaiter}
    (htype : x.type = (w.awaiters b).type)
    (hid : x.subscriptionId = (w.awaiters b).subscriptionId)
    (hcancelled : x.cancelled = (w.awaiters b).cancelled)
    (hretain : x.retainSelf = (w.awaiters b).retainSelf) :
    SameRecords w (w.setAwaiter b x) := by
  have hx (a : Nat) : (w.setAwaiter b x).awaiters a = w.awaiters a ∨
      a = b ∧ (w.setAwaiter b x).awaiters a = x := by
    by_cases hab : a = b
    · exact .inr ⟨hab, if_pos hab⟩
    · exact .inl (if_neg hab)
  refine ⟨fun _ _ => rfl, fun a => ?_, fun a => ?_, fun a => ?_, fun a => ?_,
    rfl, Nat.le_refl _⟩ <;>
  · rcases hx a with h | ⟨rfl, h⟩ <;> rw [h]
    assumption

/-- A step of plain frames that leaves the tables and the awaiters alone. -/
theorem RecordMove.plain (hcallbacks : w'.callbacks = w.callbacks)
    (hawaiters : w'.awaiters = w.awaiters)
    (hnext : w'.nextAwaiter = w.nextAwaiter)
    (hid : w.nextSubscriptionId ≤ w'.nextSubscriptionId)
    (hf : f.bookkeeping = false) (hfs : Plain fs) : RecordMove w f w' fs :=
  .same (.of_eq hcallbacks hawaiters hnext hid) hf hfs

theorem Plain.cons (hf : f.bookkeeping = false) (hfs : Plain fs) :
    Plain (f :: fs) := List.forall_mem_cons.mpr ⟨hf, hfs⟩

theorem Plain.nil : Plain ([] : List (Frame ε)) := fun _ h => nomatch h

theorem cancelThen_recordMove {b : Nat} {cause : Cause} {rest : List (Frame ε)}
    (hf : f.bookkeeping = false) (hrest : Plain rest) :
    RecordMove w f (cancelThen w b cause rest).world
      (cancelThen w b cause rest).frames := by
  unfold cancelThen
  split
  · next hactive => exact .ended b cause rest hactive rfl hf rfl hrest
  · exact .same .refl hf hrest

theorem advanceHandle_recordMove [RequestTraits ε] (result : Bool) (b : Nat)
    (ev : Event ε) (pc : HandlePc) :
    RecordMove w (.handleEvent b ev pc) (advanceHandle w result b ev pc).world
      (advanceHandle w result b ev pc).frames := by
  fun_cases advanceHandle <;> first
    | exact cancelThen_recordMove rfl (.cons rfl .nil)
    | exact .plain rfl rfl rfl (Nat.le_refl _) rfl
        (by simp [Plain, Frame.bookkeeping])

theorem advancePoll_recordMove (b : Nat) (pc : PollPc) :
    RecordMove w (.pollTimeout b pc) (advancePoll w b pc).world
      (advancePoll w b pc).frames := by
  fun_cases advancePoll <;> first
    | exact cancelThen_recordMove rfl (.cons rfl .nil)
    | exact .plain rfl rfl rfl (Nat.le_refl _) rfl
        (by simp [Plain, Frame.bookkeeping])
    | exact .same (.setAwaiter rfl rfl rfl rfl) rfl
        (by simp [Plain, Frame.bookkeeping])

theorem advanceDispatch_recordMove (alive : Guard → Bool) (d : Nat)
    (ev : Event ε) (rest : List CallbackRecord) (pc : DispatchPc) :
    RecordMove w (.records d ev rest pc)
      (advanceDispatch alive w d ev rest pc).world
      (advanceDispatch alive w d ev rest pc).frames := by
  fun_cases advanceDispatch <;>
    exact .plain rfl rfl rfl (Nat.le_refl _) rfl
      (by simp [Plain, Frame.bookkeeping])

theorem advance_recordMove [RequestTraits ε] {alive : Guard → Bool}
    {result : Bool} (howns : OwnRecords w)
    (h : advance alive w result f = some o) :
    RecordMove w f o.world o.frames := by
  cases f with
  | user code => cases h
  | records d ev rest pc =>
      cases h
      exact advanceDispatch_recordMove ..
  | handleEvent b ev pc =>
      cases h
      exact advanceHandle_recordMove ..
  | pollTimeout b pc =>
      cases h
      exact advancePoll_recordMove ..
  | cancel b canceller =>
      cases h
      exact cancelThen_recordMove rfl .nil
  | release b =>
      cases h
      exact .released b rfl rfl rfl
  | storeSubscriptionId b id =>
      cases h
      exact .stored b id rfl rfl rfl
  | subscribeAwaiter b =>
      cases h
      exact .drawn b rfl rfl rfl
  | addCallback type r =>
      cases h
      cases hr : r.callback with
      | awaiter b => exact .added b type r rfl hr rfl rfl
      | plain | endpoint =>
          exact .same (.addCallback fun a => by simp [CallbackRecord.isOf, hr])
            (by simp [Frame.bookkeeping, hr]) .nil
  | createAwaiter spec guard via =>
      cases h
      refine .created spec _ via _ rfl rfl rfl ?_
      cases via <;> simp [Plain, Frame.bookkeeping]
  | closeUnsubscribe e =>
      cases h
      have hsame : SameRecords w (w.unsubscribeAll (.endpoint e)) :=
        .unsubscribeAll howns rfl
      exact .same ⟨hsame.records, hsame.type, hsame.subscriptionId,
        hsame.cancelled, hsame.retainSelf, rfl, Nat.le_refl _⟩ rfl .nil
  | enqueue ev request =>
      cases h
      refine .plain rfl rfl rfl (Nat.le_refl _) rfl ?_
      cases request <;> simp [Plain, Frame.bookkeeping]
  | nextRequestId retry request =>
      simp only [advance] at h
      split at h <;> cases h
      · exact .plain rfl rfl rfl (Nat.le_refl _) rfl (.cons rfl .nil)
      · refine .plain rfl rfl rfl (Nat.le_refl _) rfl ?_
        cases request <;> simp [requestFrames, Plain, Frame.bookkeeping]
  | polling live | draining live n | cancelling live canceller =>
      cases live <;> cases h <;>
        exact .plain rfl rfl rfl (Nat.le_refl _) rfl
          (by simp [Plain, Frame.bookkeeping])
  | notifyWorkAvailable =>
      simp only [advance] at h
      split at h <;> cases h <;>
        exact .plain rfl rfl rfl (Nat.le_refl _) rfl .nil
  | _ =>
      cases h
      exact .plain rfl rfl rfl (Nat.le_refl _) rfl
        (by simp [Plain, Frame.bookkeeping])

theorem unwind_recordMove (h : unwind w f = some o) :
    RecordMove w f o.world o.frames := by
  unfold unwind at h
  split at h
  case h_2 | h_7 =>
    split at h <;> cases h <;>
      exact .plain rfl rfl rfl (Nat.le_refl _) rfl
        (by simp [Plain, Frame.bookkeeping])
  all_goals cases h
  all_goals exact .plain rfl rfl rfl (Nat.le_refl _) rfl .nil

theorem call_recordMove (howns : OwnRecords w)
    (code : UserCode) (c : BusCall ε)
    (hid : ∀ id, c = .unsubscribe id →
      ∀ a type, ∀ r ∈ w.recordsOf type a, r.id ≠ id)
    (howner : ∀ type owner, c = .unsubscribeAllOf type owner ∨
      c = .unsubscribeAll owner → owner.isAwaiter = false) :
    RecordMove w (.user code) (call w c).1 ((call w c).2 ++ [.user code]) := by
  have huser : Plain [(.user code : Frame ε)] := .cons rfl .nil
  cases c with
  | unsubscribe id => exact .same (.unsubscribe (hid id rfl)) rfl huser
  | unsubscribeAllOf type owner =>
      exact .same (.unsubscribeAllOf howns (howner type owner (.inl rfl)) type)
        rfl huser
  | unsubscribeAll owner =>
      exact .same (.unsubscribeAll howns (howner 0 owner (.inr rfl))) rfl huser
  | subscribe | endpointSubscribe =>
      exact .plain rfl rfl rfl (Nat.le_succ _) rfl (.cons rfl huser)
  | emit ev => exact .plain rfl rfl rfl (Nat.le_refl _) rfl (.cons rfl (.cons rfl huser))
  | clearPending | cancelToken | setExceptionHandler | setNotifier
  | releaseGuard => exact .plain rfl rfl rfl (Nat.le_refl _) rfl huser
  | _ => exact .plain rfl rfl rfl (Nat.le_refl _) rfl (.cons rfl huser)

/-- Every step does one of these things to the tables. -/
theorem Moved.recordMove [Fintype ι] [RequestTraits ε] {s : BusSystem ι ε}
    {act : BusAction ι ε} {t : ι} (h : Moved s act t f o) (howns : OwnRecords s.world)
    (hid : ∀ id, act = .call t (.unsubscribe id) →
      ∀ a type, ∀ r ∈ s.world.recordsOf type a, r.id ≠ id)
    (hdone : Undisturbed s act) : RecordMove s.world f o.world o.frames := by
  cases h with
  | advance hmode h => exact advance_recordMove howns h
  | unwind hmode h => exact unwind_recordMove h
  | call c hmode =>
      refine call_recordMove howns _ c (fun id hc => hid id (hc ▸ rfl)) ?_
      rintro type owner (rfl | rfl) <;> exact hdone
  | ret | throw => exact .plain rfl rfl rfl (Nat.le_refl _) rfl .nil
  | «catch» => exact .plain rfl rfl rfl (Nat.le_refl _) rfl (.cons rfl .nil)

end RecordMove

/-! ## What is left to do for one awaiter -/

def World.live (w : World ε) (a : Nat) : Nat := if w.isActive a then 1 else 0

/-- The account of one awaiter. -/
structure RecordPhase [Fintype ι] (w : World ε) (frames : ι → List (Frame ε))
    (a : Nat) : Prop where
  account : w.live a + Threads.total (Frame.releases a) frames =
    Threads.total (Frame.subscribes a) frames +
      Threads.total (Frame.stores a) frames + w.idStored a
  one : w.live a + Threads.total (Frame.releases a) frames ≤ 1
  records : ∀ type,
    (w.recordsOf type a).length + Threads.total (Frame.adds a type) frames =
      if type = (w.awaiters a).type then
        Threads.total (Frame.stores a) frames + w.idStored a
      else 0
  fresh : w.nextAwaiter ≤ a →
    w.live a + Threads.total (Frame.releases a) frames = 0
  retained : (w.awaiters a).retainSelf →
    0 < w.live a + Threads.total (Frame.releases a) frames

/-- The id was drawn for this awaiter: it is stored, or about to be. -/
def Owns [Fintype ι] (w : World ε) (frames : ι → List (Frame ε)) (a id : Nat) :
    Prop :=
  (w.awaiters a).subscriptionId = id ∧ id ≠ 0 ∨
    0 < Threads.total (Frame.storesId a id) frames

/-- The record is its owner's, under an id drawn for it. -/
def OwnRecord [Fintype ι] (w : World ε) (frames : ι → List (Frame ε))
    (r : CallbackRecord) : Prop :=
  ∀ a, r.isOf a → r.owner = .awaiter a ∧ Owns w frames a r.id

/-- A record that is about to be added is on top of its thread, and its id is
stored next. -/
structure AddsOnTop (fs : List (Frame ε)) : Prop where
  tail : ∀ f ∈ fs.tail, ∀ a type, f.adds a type = false
  next : ∀ a type, fs.countP (Frame.adds a type) ≤ fs.countP (Frame.stores a)

structure RecordInv [Fintype ι] (w : World ε) (frames : ι → List (Frame ε)) :
    Prop where
  phase : ∀ a, RecordPhase w frames a
  positive : 0 < w.nextSubscriptionId
  table : ∀ a type, ∀ r ∈ w.recordsOf type a, OwnRecord w frames r
  adding : Threads.Forall
    (fun f => ∀ type r, f = .addCallback type r → OwnRecord w frames r) frames
  bound : ∀ a id, Owns w frames a id → 0 < id ∧ id < w.nextSubscriptionId
  distinct : ∀ a b id, Owns w frames a id → Owns w frames b id → a = b
  onTop : ∀ t, AddsOnTop (frames t)

section RecordInv

variable {a b id : Nat} {f : Frame ε} {w w' : World ε}

theorem Frame.subscribes_of_plain (h : f.bookkeeping = false) :
    f.subscribes a = false := by
  cases f <;> first
    | rfl
    | cases h

theorem Frame.stores_of_plain (h : f.bookkeeping = false) :
    f.stores a = false := by
  cases f <;> first
    | rfl
    | cases h

theorem Frame.storesId_of_plain (h : f.bookkeeping = false) :
    f.storesId a id = false := by
  cases f <;> first
    | rfl
    | cases h

theorem Frame.releases_of_plain (h : f.bookkeeping = false) :
    f.releases a = false := by
  cases f <;> first
    | rfl
    | cases h

theorem Frame.isOf_of_plain {type : Nat} {r : CallbackRecord}
    (h : (Frame.addCallback (ε := ε) type r).bookkeeping = false) :
    r.isOf a = false := by
  unfold CallbackRecord.isOf
  cases hr : r.callback with
  | awaiter b => simp [Frame.bookkeeping, hr] at h
  | _ => rfl

theorem Frame.adds_of_plain {type : Nat} (h : f.bookkeeping = false) :
    f.adds a type = false := by
  cases f with
  | addCallback t r => simp [Frame.adds, Frame.isOf_of_plain h]
  | _ => rfl

theorem Frame.stores_of_storesId (h : f.storesId a id) : f.stores a := by
  cases f with
  | storeSubscriptionId b i =>
      rw [Frame.storesId, Bool.and_eq_true] at h
      exact h.1
  | _ => exact absurd h Bool.false_ne_true

theorem storesId_le_stores [Fintype ι] (id : Nat) (frames : ι → List (Frame ε)) :
    Threads.total (Frame.storesId a id) frames ≤
      Threads.total (Frame.stores a) frames :=
  Threads.total_mono fun _ h => Frame.stores_of_storesId h

/-- The account looks at nothing else. -/
theorem RecordPhase.congr [Fintype ι] {frames frames' : ι → List (Frame ε)}
    (h : RecordPhase w frames a)
    (hlive : w'.live a + Threads.total (Frame.releases a) frames' =
      w.live a + Threads.total (Frame.releases a) frames)
    (hpending : Threads.total (Frame.subscribes a) frames' +
        Threads.total (Frame.stores a) frames' + w'.idStored a =
      Threads.total (Frame.subscribes a) frames +
        Threads.total (Frame.stores a) frames + w.idStored a)
    (hrecords : ∀ type,
      (w'.recordsOf type a).length + Threads.total (Frame.adds a type) frames' =
        if type = (w'.awaiters a).type then
          Threads.total (Frame.stores a) frames' + w'.idStored a
        else 0)
    (hnext : w.nextAwaiter ≤ w'.nextAwaiter)
    (hretain : (w'.awaiters a).retainSelf → (w.awaiters a).retainSelf) :
    RecordPhase w' frames' a where
  account := by
    have haccount := h.account
    omega
  one := hlive.le.trans h.one
  records := hrecords
  fresh hle := hlive.trans (h.fresh (hnext.trans hle))
  retained hr := (h.retained (hretain hr)).trans_eq hlive.symm

variable [Fintype ι] {frames frames' : ι → List (Frame ε)}

theorem Owns.congr (hid : (w'.awaiters a).subscriptionId =
      (w.awaiters a).subscriptionId)
    (htotal : Threads.total (Frame.storesId a id) frames' =
      Threads.total (Frame.storesId a id) frames) :
    Owns w' frames' a id ↔ Owns w frames a id := by
  rw [Owns, Owns, hid, htotal]

theorem OwnRecord.imp {r : CallbackRecord} (h : OwnRecord w frames r)
    (hown : ∀ a, r.isOf a → Owns w frames a r.id → Owns w' frames' a r.id) :
    OwnRecord w' frames' r :=
  fun a ha => ⟨(h a ha).1, hown a ha (h a ha).2⟩

theorem AddsOnTop.replace {rest fs : List (Frame ε)} (h : AddsOnTop (f :: rest))
    (htail : ∀ g ∈ fs.tail, ∀ a type, g.adds a type = false)
    (hnext : ∀ a type,
      fs.countP (Frame.adds a type) ≤ fs.countP (Frame.stores a)) :
    AddsOnTop (fs ++ rest) where
  tail g hg a type := by
    cases fs with
    | nil => exact h.tail g (List.mem_of_mem_tail hg) a type
    | cons f' fs =>
        rcases List.mem_append.mp hg with hg | hg
        · exact htail g hg a type
        · exact h.tail g hg a type
  next a type := by
    have hrest : rest.countP (Frame.adds a type) = 0 :=
      List.countP_eq_zero.mpr fun g hg =>
        Bool.eq_false_iff.mp (h.tail g hg a type)
    rw [List.countP_append, List.countP_append, hrest]
    exact (hnext a type).trans (Nat.le_add_right _ _)

theorem AddsOnTop.plain {fs : List (Frame ε)} (h : Plain fs.tail)
    (a type : Nat) : ∀ g ∈ fs.tail, g.adds a type = false :=
  fun g hg => Frame.adds_of_plain (h g hg)

/-- With no id left to store, nothing is about to be added. -/
theorem RecordInv.adds_eq_zero (h : RecordInv w frames)
    (hstores : Threads.total (Frame.stores a) frames = 0) (type : Nat) :
    Threads.total (Frame.adds a type) frames = 0 := by
  refine Threads.total_eq_zero_iff.mpr fun t f hf => ?_
  have hnone : (frames t).countP (Frame.stores a) = 0 :=
    List.countP_eq_zero.mpr fun g hg =>
      Bool.eq_false_iff.mp (Threads.total_eq_zero_iff.mp hstores t g hg)
  have hle := (h.onTop t).next a type
  rw [hnone, Nat.le_zero, List.countP_eq_zero] at hle
  exact Bool.eq_false_iff.mpr (hle f hf)

variable [DecidableEq ι] {t : ι} {rest fs : List (Frame ε)}

/-- What a step has to show when ids stay with their owners; `c` is the awaiter
that drew one, if it did. -/
theorem RecordInv.next (h : RecordInv w frames) (ht : frames t = f :: rest)
    (c : Nat)
    (hphase : ∀ a, RecordPhase w' (Threads.replaceTop frames t fs) a)
    (hle : w.nextSubscriptionId ≤ w'.nextSubscriptionId)
    (hkeep : ∀ a id, Owns w frames a id →
      Owns w' (Threads.replaceTop frames t fs) a id)
    (hown : ∀ a id, Owns w' (Threads.replaceTop frames t fs) a id →
      Owns w frames a id ∨
        a = c ∧ id = w.nextSubscriptionId ∧ id < w'.nextSubscriptionId)
    (htable : ∀ a type, ∀ r ∈ w'.recordsOf type a,
      r ∈ w.recordsOf type a ∨ OwnRecord w frames r)
    (hadd : ∀ g ∈ fs, ∀ type r, g = .addCallback type r →
      OwnRecord w' (Threads.replaceTop frames t fs) r)
    (htail : ∀ g ∈ fs.tail, ∀ a type, g.adds a type = false)
    (hnext : ∀ a type,
      fs.countP (Frame.adds a type) ≤ fs.countP (Frame.stores a)) :
    RecordInv w' (Threads.replaceTop frames t fs) where
  phase := hphase
  positive := h.positive.trans_le hle
  table a type r hr := by
    rcases htable a type r hr with hr | hr
    · exact (h.table a type r hr).imp fun b _ => hkeep b r.id
    · exact hr.imp fun b _ => hkeep b r.id
  adding := by
    refine Threads.Forall.replace (h.adding.imp fun g hg type r hr => ?_) hadd
    exact (hg type r hr).imp fun b _ => hkeep b r.id
  bound a id ha := by
    rcases hown a id ha with ha | ⟨-, rfl, hlt⟩
    · exact ⟨(h.bound a id ha).1, (h.bound a id ha).2.trans_le hle⟩
    · exact ⟨h.positive, hlt⟩
  distinct a b id ha hb := by
    rcases hown a id ha with ha | ⟨hac, hid, -⟩ <;>
      rcases hown b id hb with hb | ⟨hbc, hid', -⟩
    · exact h.distinct a b id ha hb
    · exact absurd hid' (h.bound a id ha).2.ne
    · exact absurd hid (h.bound b id hb).2.ne
    · exact hac.trans hbc.symm
  onTop u := by
    by_cases hu : u = t
    · subst hu
      rw [Threads.replaceTop_self, ht, List.tail_cons]
      exact AddsOnTop.replace (ht ▸ h.onTop u) htail hnext
    · rw [Threads.replaceTop_of_ne hu]
      exact h.onTop u

/-- Plain frames come and go: no count changes. -/
theorem total_of_plain {p : Frame ε → Bool}
    (hp : ∀ f : Frame ε, f.bookkeeping = false → p f = false)
    (ht : frames t = f :: rest) (hf : f.bookkeeping = false) (hfs : Plain fs) :
    Threads.total p (Threads.replaceTop frames t fs) = Threads.total p frames :=
  Threads.total_replaceTop_of_none _ ht (hp f hf) fun g hg => hp g (hfs g hg)

theorem countP_of_plain {p : Frame ε → Bool}
    (hp : ∀ f : Frame ε, f.bookkeeping = false → p f = false) (hfs : Plain fs) :
    fs.countP p = 0 :=
  List.countP_eq_zero.mpr fun g hg => Bool.eq_false_iff.mp (hp g (hfs g hg))

theorem RecordInv.same (h : RecordInv w frames) (ht : frames t = f :: rest)
    (hsame : SameRecords w w') (hf : f.bookkeeping = false) (hfs : Plain fs) :
    RecordInv w' (Threads.replaceTop frames t fs) := by
  have htotal {p : Frame ε → Bool}
      (hp : ∀ f : Frame ε, f.bookkeeping = false → p f = false) :=
    total_of_plain hp ht hf hfs
  have hlive (a : Nat) : w'.live a = w.live a := by
    rw [World.live, World.live, World.isActive, World.isActive, hsame.cancelled]
  have hid (a : Nat) : w'.idStored a = w.idStored a := by
    rw [World.idStored, World.idStored, hsame.subscriptionId]
  have hown (a id : Nat) : Owns w' (Threads.replaceTop frames t fs) a id ↔
      Owns w frames a id :=
    Owns.congr (hsame.subscriptionId a) (htotal fun _ => Frame.storesId_of_plain)
  refine h.next ht 0 (fun a => ?_) hsame.nextSubscriptionId
    (fun a id => (hown a id).mpr) (fun a id ha => .inl ((hown a id).mp ha))
    (fun a type r hr => .inl (hsame.records a type ▸ hr)) ?_
    (fun g hg a type => Frame.adds_of_plain (hfs g (List.mem_of_mem_tail hg)))
    (fun a type => ?_)
  · refine (h.phase a).congr ?_ ?_ (fun type => ?_) hsame.nextAwaiter.ge ?_
    · rw [hlive, htotal fun _ => Frame.releases_of_plain]
    · rw [hid, htotal fun _ => Frame.subscribes_of_plain,
        htotal fun _ => Frame.stores_of_plain]
    · rw [hsame.records, hsame.type, hid, htotal fun _ => Frame.adds_of_plain,
        htotal fun _ => Frame.stores_of_plain]
      exact (h.phase a).records type
    · rw [hsame.retainSelf]
      exact fun hr => hr
  · rintro g hg type r rfl a ha
    rw [Frame.isOf_of_plain (hfs _ hg)] at ha
    exact absurd ha Bool.false_ne_true
  · rw [countP_of_plain (fun _ => Frame.adds_of_plain) hfs]
    exact Nat.zero_le _

theorem RecordInv.create (h : RecordInv w frames) (ht : frames t = f :: rest)
    (spec : AwaitSpec) (guard : Option (Option Guard)) (via : Option Nat)
    (hf : f.bookkeeping = false) (hfs : Plain fs) :
    RecordInv (w.createAwaiter spec guard via)
      (Threads.replaceTop frames t (.subscribeAwaiter w.nextAwaiter :: fs)) := by
  have hnew : (w.createAwaiter spec guard via).awaiters w.nextAwaiter =
      w.newAwaiter spec guard := if_pos rfl
  have hold {a : Nat} (ha : a ≠ w.nextAwaiter) :
      (w.createAwaiter spec guard via).awaiters a = w.awaiters a := if_neg ha
  have hcount {p : Frame ε → Bool} (n : Nat)
      (hn : [(.subscribeAwaiter w.nextAwaiter : Frame ε)].countP p = n)
      (hp : ∀ f : Frame ε, f.bookkeeping = false → p f = false) :
      Threads.total p (Threads.replaceTop frames t
        (.subscribeAwaiter w.nextAwaiter :: fs)) = Threads.total p frames + n := by
    have htotal := Threads.total_replaceTop (p := p)
      (.subscribeAwaiter w.nextAwaiter :: fs) ht
    have hplain := countP_of_plain hp hfs
    rw [List.countP_cons_of_neg (Bool.eq_false_iff.mp (hp f hf)), List.countP_nil,
      ← List.singleton_append, List.countP_append, hn, hplain] at htotal
    exact htotal
  have hfresh := (h.phase w.nextAwaiter).fresh (Nat.le_refl _)
  have haccount := (h.phase w.nextAwaiter).account
  have hidNew : (w.awaiters w.nextAwaiter).subscriptionId = 0 := by
    have hzero : w.idStored w.nextAwaiter = 0 := by omega
    unfold World.idStored at hzero
    split at hzero
    · assumption
    · exact absurd hzero Nat.one_ne_zero
  have hid (a : Nat) : ((w.createAwaiter spec guard via).awaiters a).subscriptionId =
      (w.awaiters a).subscriptionId := by
    by_cases ha : a = w.nextAwaiter
    · rw [ha, hnew, hidNew]
      rfl
    · rw [hold ha]
  have hstored (a : Nat) : (w.createAwaiter spec guard via).idStored a =
      w.idStored a := by
    rw [World.idStored, World.idStored, hid]
  have hown (a id : Nat) : Owns (w.createAwaiter spec guard via)
      (Threads.replaceTop frames t (.subscribeAwaiter w.nextAwaiter :: fs)) a id ↔
        Owns w frames a id :=
    Owns.congr (hid a) (hcount 0 rfl fun _ => Frame.storesId_of_plain)
  refine h.next ht 0 (fun a => ?_) (Nat.le_refl _) (fun a id => (hown a id).mpr)
    (fun a id ha => .inl ((hown a id).mp ha)) (fun a type r hr => .inl hr) ?_
    (fun g hg a type => Frame.adds_of_plain (hfs g hg)) (fun a type => ?_)
  · have hreleases : Threads.total (Frame.releases a) (Threads.replaceTop frames t
        (.subscribeAwaiter w.nextAwaiter :: fs)) =
          Threads.total (Frame.releases a) frames :=
      hcount 0 rfl fun _ => Frame.releases_of_plain
    have hstores : Threads.total (Frame.stores a) (Threads.replaceTop frames t
        (.subscribeAwaiter w.nextAwaiter :: fs)) =
          Threads.total (Frame.stores a) frames :=
      hcount 0 rfl fun _ => Frame.stores_of_plain
    have hadds (type : Nat) : Threads.total (Frame.adds a type)
        (Threads.replaceTop frames t (.subscribeAwaiter w.nextAwaiter :: fs)) =
          Threads.total (Frame.adds a type) frames :=
      hcount 0 rfl fun _ => Frame.adds_of_plain
    by_cases ha : a = w.nextAwaiter
    · subst ha
      have hsubscribes := hcount (p := Frame.subscribes w.nextAwaiter) 1
        (by simp [Frame.subscribes]) fun _ => Frame.subscribes_of_plain
      have hlive : (w.createAwaiter spec guard via).live w.nextAwaiter = 1 := by
        rw [World.live, World.isActive, hnew]
        rfl
      exact
        { account := by rw [hlive, hreleases, hstores, hsubscribes, hstored]; omega
          one := by rw [hlive, hreleases]; omega
          records := fun type => by
            have hrecords := (h.phase w.nextAwaiter).records type
            rw [hadds, hstores, hstored]
            have hzero : Threads.total (Frame.stores w.nextAwaiter) frames +
                w.idStored w.nextAwaiter = 0 := by omega
            rw [hzero, ite_self] at hrecords ⊢
            exact hrecords
          fresh := fun hle => absurd hle (Nat.not_succ_le_self _)
          retained := fun _ => by rw [hlive]; omega }
    · have hsubscribes := hcount (p := Frame.subscribes a) 0
        (by simp [Frame.subscribes, Ne.symm ha]) fun _ => Frame.subscribes_of_plain
      refine (h.phase a).congr ?_ ?_ (fun type => ?_) (Nat.le_succ _) ?_
      · rw [World.live, World.isActive, hold ha, hreleases]
        rfl
      · rw [hsubscribes, hstores, hstored]
        rfl
      · rw [hadds, hstores, hstored, hold ha]
        exact (h.phase a).records type
      · rw [hold ha]
        exact fun hr => hr
  · intro g hg type r hr
    rcases List.mem_cons.mp hg with rfl | hg
    · cases hr
    · subst hr
      intro a ha
      rw [Frame.isOf_of_plain (hfs _ hg)] at ha
      exact absurd ha Bool.false_ne_true
  · rw [List.countP_cons_of_neg Bool.false_ne_true,
      countP_of_plain (fun _ => Frame.adds_of_plain) hfs]
    exact Nat.zero_le _

theorem awaiterRecord_isOf (w : World ε) (a id : Nat) :
    (w.awaiterRecord a id).isOf b ↔ b = a := by
  simp [CallbackRecord.isOf, World.awaiterRecord, eq_comm]

theorem RecordInv.draw (h : RecordInv w frames)
    (ht : frames t = .subscribeAwaiter a :: rest) :
    RecordInv { w with nextSubscriptionId := w.nextSubscriptionId + 1 }
      (Threads.replaceTop frames t
        [.addCallback (w.awaiters a).type (w.awaiterRecord a w.nextSubscriptionId),
          .storeSubscriptionId a w.nextSubscriptionId]) := by
  have hcount (p : Frame ε → Bool) := Threads.total_replaceTop (p := p)
    [.addCallback (w.awaiters a).type (w.awaiterRecord a w.nextSubscriptionId),
      .storeSubscriptionId a w.nextSubscriptionId] ht
  have hkeep (b id : Nat) (hb : Owns w frames b id) :
      Owns { w with nextSubscriptionId := w.nextSubscriptionId + 1 }
        (Threads.replaceTop frames t
          [.addCallback (w.awaiters a).type
              (w.awaiterRecord a w.nextSubscriptionId),
            .storeSubscriptionId a w.nextSubscriptionId]) b id := by
    refine hb.imp_right fun hpos => ?_
    have hid := hcount (Frame.storesId b id)
    rw [List.countP_cons_of_neg Bool.false_ne_true, List.countP_nil] at hid
    omega
  refine h.next ht a (fun b => ?_) (Nat.le_succ _) hkeep (fun b id hb => ?_)
    (fun b type r hr => .inl hr) ?_ (by simp [Frame.adds]) (fun b type => ?_)
  · have hreleases := hcount (Frame.releases b)
    have hsubscribes := hcount (Frame.subscribes b)
    have hstores := hcount (Frame.stores b)
    have hphase := h.phase b
    by_cases hb : b = a
    · subst hb
      simp only [List.countP_cons, List.countP_nil, Frame.releases,
        Frame.subscribes, Frame.stores, decide_true, Bool.false_eq_true, if_true,
        if_false, Nat.zero_add, Nat.add_zero] at hreleases hsubscribes hstores
      refine hphase.congr (by rw [hreleases]; rfl)
        (by show _ + _ + w.idStored b = _; omega) (fun type => ?_) (Nat.le_refl _)
        fun hr => hr
      have hadds := hcount (Frame.adds b type)
      have hrecords := hphase.records type
      have hzero : Threads.total (Frame.stores b) frames + w.idStored b = 0 := by
        have haccount := hphase.account
        have hone := hphase.one
        omega
      simp only [List.countP_cons, List.countP_nil, Frame.adds,
        (awaiterRecord_isOf w b w.nextSubscriptionId).mpr rfl, Bool.and_true,
        decide_eq_true_eq, Bool.false_eq_true, if_false, Nat.zero_add,
        Nat.add_zero, eq_comm (a := (w.awaiters b).type)] at hadds
      show (w.recordsOf type b).length + _ =
        if type = (w.awaiters b).type then _ + w.idStored b else 0
      rw [hzero, ite_self] at hrecords
      by_cases htype : type = (w.awaiters b).type
      · rw [if_pos htype] at hadds ⊢
        omega
      · rw [if_neg htype] at hadds ⊢
        omega
    · have hba : a ≠ b := fun heq => hb heq.symm
      simp only [List.countP_cons, List.countP_nil, Frame.releases,
        Frame.subscribes, Frame.stores, hba, decide_false, Bool.false_eq_true,
        if_false, Nat.add_zero] at hreleases hsubscribes hstores
      refine hphase.congr (by rw [hreleases]; rfl)
        (by rw [hsubscribes, hstores]; rfl) (fun type => ?_) (Nat.le_refl _)
        fun hr => hr
      have hadds := hcount (Frame.adds b type)
      have hnot : (w.awaiterRecord a w.nextSubscriptionId).isOf b = false :=
        Bool.eq_false_iff.mpr fun h => hb ((awaiterRecord_isOf w a _).mp h)
      simp only [List.countP_cons, List.countP_nil, Frame.adds, hnot,
        Bool.and_false, Bool.false_eq_true, if_false, Nat.add_zero] at hadds
      rw [hadds, hstores]
      exact hphase.records type
  · have hid := hcount (Frame.storesId b id)
    rcases hb with hb | hpos
    · exact .inl (.inl hb)
    · by_cases hnew : (Frame.storeSubscriptionId a w.nextSubscriptionId :
          Frame ε).storesId b id
      · simp only [Frame.storesId, Bool.and_eq_true, decide_eq_true_eq] at hnew
        exact .inr ⟨hnew.1.symm, hnew.2.symm, hnew.2 ▸ Nat.lt_succ_self _⟩
      · rw [List.countP_cons_of_neg Bool.false_ne_true, List.countP_nil,
          List.countP_cons_of_neg Bool.false_ne_true,
          List.countP_cons_of_neg hnew, List.countP_nil] at hid
        exact .inl (.inr (by omega))
  · intro g hg type r hr
    rcases List.mem_cons.mp hg with rfl | hg
    · cases hr
      intro b hb
      rw [(awaiterRecord_isOf w a _).mp hb]
      refine ⟨rfl, .inr ?_⟩
      have hid := hcount (Frame.storesId a w.nextSubscriptionId)
      have hnew : (Frame.storeSubscriptionId a w.nextSubscriptionId :
          Frame ε).storesId a w.nextSubscriptionId := by
        simp [Frame.storesId]
      rw [List.countP_cons_of_neg Bool.false_ne_true, List.countP_nil,
        List.countP_cons_of_neg Bool.false_ne_true,
        List.countP_cons_of_pos hnew] at hid
      show 0 < _
      have hrec : (w.awaiterRecord a w.nextSubscriptionId).id =
          w.nextSubscriptionId := rfl
      rw [hrec]
      omega
    · rw [List.mem_singleton.mp hg] at hr
      cases hr
  · by_cases hb : b = a
    · subst hb
      simp [Frame.adds, Frame.stores, List.countP_cons]
      split <;> omega
    · have hnot : (w.awaiterRecord a w.nextSubscriptionId).isOf b = false :=
        Bool.eq_false_iff.mpr fun h => hb ((awaiterRecord_isOf w a _).mp h)
      simp [Frame.adds, hnot]

theorem RecordInv.add {type : Nat} {r : CallbackRecord} (h : RecordInv w frames)
    (ht : frames t = .addCallback type r :: rest) :
    RecordInv (w.addCallback type r) (Threads.replaceTop frames t []) := by
  have hcount (p : Frame ε → Bool) :=
    Threads.total_replaceTop (p := p) [] ht
  have hsame {p : Frame ε → Bool} (hp : p (.addCallback type r) = false) :=
    Threads.total_replaceTop_of_none (p := p) [] ht hp fun _ h => nomatch h
  have hown (b id : Nat) : Owns (w.addCallback type r)
      (Threads.replaceTop frames t []) b id ↔ Owns w frames b id :=
    Owns.congr rfl (hsame rfl)
  refine h.next ht 0 (fun b => ?_) (Nat.le_refl _) (fun b id => (hown b id).mpr)
    (fun b id hb => .inl ((hown b id).mp hb)) (fun b t' r' hr => ?_)
    (fun _ hg => nomatch hg) (fun _ hg => nomatch hg) fun _ _ => Nat.le_refl _
  · refine (h.phase b).congr (by rw [hsame rfl]; rfl)
      (by rw [hsame rfl, hsame rfl]; rfl) (fun t' => ?_) (Nat.le_refl _) fun hr => hr
    have hadds := hcount (Frame.adds b t')
    have hrecords := (h.phase b).records t'
    rw [hsame (p := Frame.stores b) rfl, recordsOf_addCallback,
      List.length_append]
    by_cases hr : t' = type ∧ r.isOf b
    · have hf : (Frame.addCallback type r : Frame ε).adds b t' := by
        simp [Frame.adds, hr.1, hr.2]
      rw [List.countP_cons_of_pos hf, List.countP_nil] at hadds
      rw [if_pos hr]
      show _ + 1 + _ = if t' = (w.awaiters b).type then _ + w.idStored b else 0
      omega
    · have hf : ¬ (Frame.addCallback type r : Frame ε).adds b t' := by
        rw [Frame.adds, Bool.and_eq_true, decide_eq_true_eq]
        exact fun h => hr ⟨h.1.symm, h.2⟩
      rw [List.countP_cons_of_neg hf, List.countP_nil] at hadds
      rw [if_neg hr]
      show _ + 0 + _ = if t' = (w.awaiters b).type then _ + w.idStored b else 0
      omega
  · rw [recordsOf_addCallback, List.mem_append] at hr
    refine hr.imp_right fun hr => ?_
    split at hr
    · rw [List.mem_singleton.mp hr]
      exact h.adding.top ht type r rfl
    · cases hr

theorem RecordInv.store {i : Nat} (h : RecordInv w frames)
    (ht : frames t = .storeSubscriptionId a i :: rest) :
    RecordInv (w.setAwaiter a { w.awaiters a with subscriptionId := i })
      (Threads.replaceTop frames t []) := by
  have hcount (p : Frame ε → Bool) :=
    Threads.total_replaceTop (p := p) [] ht
  have hsame {p : Frame ε → Bool} (hp : p (.storeSubscriptionId a i) = false) :=
    Threads.total_replaceTop_of_none (p := p) [] ht hp fun _ h => nomatch h
  have hnew : (w.setAwaiter a { w.awaiters a with subscriptionId := i }).awaiters a =
      { w.awaiters a with subscriptionId := i } := if_pos rfl
  have hold {b : Nat} (hb : b ≠ a) :
      (w.setAwaiter a { w.awaiters a with subscriptionId := i }).awaiters b =
        w.awaiters b := if_neg hb
  have hstore : (Frame.storeSubscriptionId a i : Frame ε).stores a :=
    decide_eq_true rfl
  have hstoreId : (Frame.storeSubscriptionId a i : Frame ε).storesId a i := by
    simp [Frame.storesId]
  have hstores := hcount (Frame.stores a)
  rw [List.countP_cons_of_pos hstore, List.countP_nil] at hstores
  have hid := hcount (Frame.storesId a i)
  rw [List.countP_cons_of_pos hstoreId, List.countP_nil] at hid
  have hone := (h.phase a).one
  have haccount := (h.phase a).account
  have hi : i ≠ 0 := ((h.bound a i (.inr (by omega))).1).ne'
  have hidOld : w.idStored a = 0 := by omega
  have hidNew : (w.setAwaiter a { w.awaiters a with subscriptionId := i }).idStored a =
      1 := by
    rw [World.idStored, hnew]
    exact if_neg hi
  refine h.next ht 0 (fun b => ?_) (Nat.le_refl _) (fun b id hb => ?_)
    (fun b id hb => .inl ?_) (fun b t' r' hr => .inl hr) (fun _ hg => nomatch hg)
    (fun _ hg => nomatch hg) fun _ _ => Nat.le_refl _
  · have hphase := h.phase b
    have hlive : (w.setAwaiter a { w.awaiters a with subscriptionId := i }).live b =
        w.live b := by
      by_cases hb : b = a
      · rw [hb, World.live, World.isActive, hnew]
        rfl
      · rw [World.live, World.isActive, hold hb]
        rfl
    refine hphase.congr (by rw [hlive, hsame rfl]) ?_ (fun type => ?_)
      (Nat.le_refl _) ?_
    · rw [hsame rfl]
      by_cases hb : b = a
      · subst hb
        omega
      · have hother : (Frame.storeSubscriptionId a i : Frame ε).stores b = false :=
          decide_eq_false (Ne.symm hb)
        rw [hsame hother, World.idStored, hold hb]
        rfl
    · rw [hsame rfl]
      have hrecords := hphase.records type
      by_cases hb : b = a
      · subst hb
        rw [hnew, hidNew]
        show (w.recordsOf type b).length + _ = _
        split
        · next htype =>
            rw [if_pos htype] at hrecords
            omega
        · next htype =>
            rw [if_neg htype] at hrecords
            exact hrecords
      · have hother : (Frame.storeSubscriptionId a i : Frame ε).stores b = false :=
          decide_eq_false (Ne.symm hb)
        rw [hsame hother, World.idStored, hold hb]
        exact hrecords
    · by_cases hb : b = a
      · rw [hb, hnew]
        exact fun hr => hr
      · rw [hold hb]
        exact fun hr => hr
  · by_cases hb' : b = a
    · subst hb'
      rcases hb with ⟨hsub, hne⟩ | hpos
      · unfold World.idStored at hidOld
        rw [if_neg (hsub.trans_ne hne)] at hidOld
        cases hidOld
      · by_cases hii : id = i
        · exact .inl ⟨by rw [hnew, hii], hii ▸ hi⟩
        · have hother :
              (Frame.storeSubscriptionId b i : Frame ε).storesId b id = false := by
            simp [Frame.storesId, Ne.symm hii]
          have hle := storesId_le_stores (a := b) id
            (Threads.replaceTop frames t [])
          rw [hsame hother] at hle
          omega
    · have hother : (Frame.storeSubscriptionId a i : Frame ε).storesId b id = false := by
        simp [Frame.storesId, Ne.symm hb']
      exact (Owns.congr (by rw [hold hb']) (hsame hother)).mpr hb
  · by_cases hb' : b = a
    · subst hb'
      rcases hb with ⟨hsub, hne⟩ | hpos
      · rw [hnew] at hsub
        exact .inr (by rw [← show i = id from hsub]; omega)
      · have hmono := hcount (Frame.storesId b id)
        rw [List.countP_nil] at hmono
        exact .inr (by omega)
    · have hother : (Frame.storeSubscriptionId a i : Frame ε).storesId b id = false := by
        simp [Frame.storesId, Ne.symm hb']
      exact (Owns.congr (by rw [hold hb']) (hsame hother)).mp hb

theorem RecordInv.end {cause : Cause} (h : RecordInv w frames)
    (ht : frames t = f :: rest) (hactive : w.isActive a)
    (hf : f.bookkeeping = false) (hfs : Plain fs) :
    RecordInv (w.deactivate a cause)
      (Threads.replaceTop frames t (.release a :: fs)) := by
  have hcount {p : Frame ε → Bool}
      (hp : ∀ f : Frame ε, f.bookkeeping = false → p f = false) :
      Threads.total p (Threads.replaceTop frames t (.release a :: fs)) =
        Threads.total p frames + [(.release a : Frame ε)].countP p := by
    have htotal := Threads.total_replaceTop (p := p) (.release a :: fs) ht
    have hplain := countP_of_plain hp hfs
    rw [List.countP_cons_of_neg (Bool.eq_false_iff.mp (hp f hf)), List.countP_nil,
      ← List.singleton_append, List.countP_append, hplain] at htotal
    exact htotal
  have hsame {p : Frame ε → Bool}
      (hp : ∀ f : Frame ε, f.bookkeeping = false → p f = false)
      (hrelease : p (.release a) = false) :
      Threads.total p (Threads.replaceTop frames t (.release a :: fs)) =
        Threads.total p frames := by
    rw [hcount hp, List.countP_cons_of_neg (Bool.eq_false_iff.mp hrelease)]
    rfl
  have hnew : (w.deactivate a cause).awaiters a =
      { w.awaiters a with cancelled := true } := if_pos rfl
  have hold {b : Nat} (hb : b ≠ a) :
      (w.deactivate a cause).awaiters b = w.awaiters b := if_neg hb
  have hsub (b : Nat) : ((w.deactivate a cause).awaiters b).subscriptionId =
      (w.awaiters b).subscriptionId := by
    by_cases hb : b = a
    · rw [hb, hnew]
    · rw [hold hb]
  have hown (b id : Nat) : Owns (w.deactivate a cause)
      (Threads.replaceTop frames t (.release a :: fs)) b id ↔ Owns w frames b id :=
    Owns.congr (hsub b) (hsame (fun _ => Frame.storesId_of_plain) rfl)
  refine h.next ht 0 (fun b => ?_) (Nat.le_refl _) (fun b id => (hown b id).mpr)
    (fun b id hb => .inl ((hown b id).mp hb)) (fun b type r hr => .inl hr) ?_
    (fun g hg b type => Frame.adds_of_plain (hfs g hg)) (fun b type => ?_)
  · have hstored : (w.deactivate a cause).idStored b = w.idStored b := by
      rw [World.idStored, World.idStored, hsub]
    refine (h.phase b).congr ?_ ?_ (fun type => ?_) (Nat.le_refl _) ?_
    · rw [hcount (p := Frame.releases b) fun _ => Frame.releases_of_plain]
      by_cases hb : b = a
      · have hrelease : (Frame.release a : Frame ε).releases b :=
          decide_eq_true hb.symm
        rw [List.countP_cons_of_pos hrelease, List.countP_nil, hb, World.live,
          World.live, deactivate_isActive, if_neg Bool.false_ne_true, if_pos hactive]
        omega
      · have hrelease : (Frame.release a : Frame ε).releases b = false :=
          decide_eq_false (Ne.symm hb)
        rw [List.countP_cons_of_neg (Bool.eq_false_iff.mp hrelease), World.live,
          World.isActive, hold hb]
        rfl
    · rw [hsame (fun _ => Frame.subscribes_of_plain) rfl,
        hsame (fun _ => Frame.stores_of_plain) rfl, hstored]
    · rw [hsame (fun _ => Frame.adds_of_plain) rfl,
        hsame (fun _ => Frame.stores_of_plain) rfl, hstored]
      have htype : ((w.deactivate a cause).awaiters b).type = (w.awaiters b).type := by
        by_cases hb : b = a
        · rw [hb, hnew]
        · rw [hold hb]
      rw [htype]
      exact (h.phase b).records type
    · by_cases hb : b = a
      · rw [hb, hnew]
        exact fun hr => hr
      · rw [hold hb]
        exact fun hr => hr
  · intro g hg type r hr
    rcases List.mem_cons.mp hg with rfl | hg
    · cases hr
    · subst hr
      intro b hb
      rw [Frame.isOf_of_plain (hfs _ hg)] at hb
      exact absurd hb Bool.false_ne_true
  · rw [List.countP_cons_of_neg Bool.false_ne_true,
      countP_of_plain (fun _ => Frame.adds_of_plain) hfs]
    exact Nat.zero_le _

theorem CallbackRecord.isOf_unique {r : CallbackRecord} (ha : r.isOf a)
    (hb : r.isOf b) : a = b := by
  have h := (of_decide_eq_true ha : r.callback = _).symm.trans
    (of_decide_eq_true hb : r.callback = _)
  cases h
  rfl

theorem RecordInv.release (h : RecordInv w frames)
    (ht : frames t = .release a :: rest)
    (hstored : (w.awaiters a).subscriptionId ≠ 0) :
    RecordInv (w.release a) (Threads.replaceTop frames t []) := by
  have hsame {p : Frame ε → Bool} (hp : p (.release a) = false) :=
    Threads.total_replaceTop_of_none (p := p) [] ht hp (by rintro _ ⟨⟩)
  have hcount := Threads.total_replaceTop (p := Frame.releases a) [] ht
  have hrelease : (Frame.release a : Frame ε).releases a := decide_eq_true rfl
  rw [List.countP_cons_of_pos hrelease, List.countP_nil] at hcount
  have hidOld : w.idStored a = 1 := if_neg hstored
  have haccount := (h.phase a).account
  have hone := (h.phase a).one
  have hstores : Threads.total (Frame.stores a) frames = 0 := by omega
  have hw : w.release a = (w.unsubscribe (w.awaiters a).subscriptionId).setAwaiter a
      { w.awaiters a with subscriptionId := 0, retainSelf := false } := by
    unfold World.release
    dsimp only
    rw [if_pos hstored]
  have hnew : (w.release a).awaiters a =
      { w.awaiters a with subscriptionId := 0, retainSelf := false } := by
    rw [hw]
    exact if_pos rfl
  have hold {b : Nat} (hb : b ≠ a) : (w.release a).awaiters b = w.awaiters b := by
    rw [hw]
    exact if_neg hb
  have hidNew : (w.release a).idStored a = 0 := by
    rw [World.idStored, hnew]
    rfl
  have hnext : (w.release a).nextAwaiter = w.nextAwaiter := by
    rw [hw]
    rfl
  have hnextId : (w.release a).nextSubscriptionId = w.nextSubscriptionId := by
    rw [hw]
    rfl
  have htable (b type : Nat) : (w.release a).recordsOf type b =
      (w.recordsOf type b).filter (·.id ≠ (w.awaiters a).subscriptionId) := by
    rw [hw]
    exact List.filter_comm ..
  have hgone (type : Nat) : (w.release a).recordsOf type a = [] := by
    rw [htable, List.filter_eq_nil_iff]
    intro r hr hne
    have hisOf : r.isOf a := (List.mem_filter.mp hr).2
    rcases (h.table a type r hr a hisOf).2 with ⟨hsub, -⟩ | hpos
    · exact of_decide_eq_true hne hsub.symm
    · have hle := storesId_le_stores (a := a) r.id frames
      omega
  have hother {b : Nat} (hb : b ≠ a) (type : Nat) :
      (w.release a).recordsOf type b = w.recordsOf type b := by
    rw [htable, List.filter_eq_self]
    intro r hr
    refine decide_eq_true fun heq => hb ?_
    have hisOf : r.isOf b := (List.mem_filter.mp hr).2
    exact h.distinct b a r.id (h.table b type r hr b hisOf).2
      (.inl ⟨heq.symm, heq ▸ hstored⟩)
  have hown {b : Nat} (hb : b ≠ a) (id : Nat) :
      Owns (w.release a) (Threads.replaceTop frames t []) b id ↔ Owns w frames b id :=
    Owns.congr (by rw [hold hb]) (hsame rfl)
  have hdrop (b id : Nat)
      (hb : Owns (w.release a) (Threads.replaceTop frames t []) b id) :
      Owns w frames b id := by
    by_cases hba : b = a
    · subst hba
      rcases hb with ⟨hsub, hne⟩ | hpos
      · rw [hnew] at hsub
        exact absurd hsub.symm hne
      · rw [hsame (p := Frame.storesId b id) rfl] at hpos
        exact .inr hpos
    · exact (hown hba id).mp hb
  exact
    { phase := fun b => by
        by_cases hb : b = a
        · subst hb
          have hlive : (w.release b).live b = w.live b := by
            rw [World.live, World.isActive, hnew]
            rfl
          exact
            { account := by
                rw [hlive, hsame (p := Frame.subscribes b) rfl,
                  hsame (p := Frame.stores b) rfl, hidNew]
                omega
              one := by rw [hlive]; omega
              records := fun type => by
                rw [hgone, hsame (p := Frame.adds b type) rfl,
                  hsame (p := Frame.stores b) rfl, hidNew, hstores,
                  h.adds_eq_zero hstores, ite_self]
                rfl
              fresh := fun _ => by rw [hlive]; omega
              retained := fun hr => by
                rw [hnew] at hr
                exact absurd hr Bool.false_ne_true }
        · have hnone : (Frame.release a : Frame ε).releases b = false :=
            decide_eq_false (Ne.symm hb)
          refine (h.phase b).congr ?_ ?_ (fun type => ?_) hnext.ge ?_
          · rw [hsame hnone, World.live, World.isActive, hold hb]
            rfl
          · rw [hsame (p := Frame.subscribes b) rfl,
              hsame (p := Frame.stores b) rfl, World.idStored, hold hb]
            rfl
          · rw [hother hb, hsame (p := Frame.adds b type) rfl,
              hsame (p := Frame.stores b) rfl, World.idStored, hold hb]
            exact (h.phase b).records type
          · rw [hold hb]
            exact fun hr => hr
      positive := hnextId ▸ h.positive
      table := fun b type r hr c hc => by
        have hisOf : r.isOf b := (List.mem_filter.mp hr).2
        obtain rfl := CallbackRecord.isOf_unique hisOf hc
        by_cases hb : b = a
        · subst hb
          rw [hgone] at hr
          cases hr
        · rw [hother hb] at hr
          have hr := h.table b type r hr b hisOf
          exact ⟨hr.1, (hown hb r.id).mpr hr.2⟩
      adding := by
        refine Threads.Forall.replace (fun u g hg type r hr c hc => ?_)
          (by rintro _ ⟨⟩)
        have hr' := h.adding u g hg type r hr c hc
        refine ⟨hr'.1, (hown (fun heq => ?_) r.id).mpr hr'.2⟩
        subst heq
        have hnone := Threads.total_eq_zero_iff.mp (h.adds_eq_zero hstores type) u g hg
        rw [hr, Frame.adds, hc, decide_eq_true rfl] at hnone
        cases hnone
      bound := fun b id hb => by
        rw [hnextId]
        exact h.bound b id (hdrop b id hb)
      distinct := fun b c id hb hc => h.distinct b c id (hdrop b id hb) (hdrop c id hc)
      onTop := fun u => by
        by_cases hu : u = t
        · subst hu
          rw [Threads.replaceTop_self, ht, List.tail_cons]
          exact AddsOnTop.replace (ht ▸ h.onTop u) ((by rintro _ ⟨⟩))
            fun _ _ => Nat.le_refl _
        · rw [Threads.replaceTop_of_ne hu]
          exact h.onTop u }

omit [DecidableEq ι] in
theorem RecordInv.init :
    RecordInv ({} : World ε) (fun _ : ι => [.user .main]) := by
  have hzero {p : Frame ε → Bool} (hp : p (.user .main) = false) :
      Threads.total p (fun _ : ι => [.user .main]) = 0 :=
    Threads.total_eq_zero_iff.mpr fun t f hf => by rwa [List.mem_singleton.mp hf]
  have hown (a id : Nat) :
      ¬ Owns ({} : World ε) (fun _ : ι => [.user .main]) a id := by
    rintro (⟨hsub, hne⟩ | hpos)
    · exact hne hsub.symm
    · rw [hzero rfl] at hpos
      exact Nat.lt_irrefl 0 hpos
  exact
    { phase := fun a =>
        { account := by
            rw [hzero (p := Frame.releases a) rfl,
              hzero (p := Frame.subscribes a) rfl, hzero (p := Frame.stores a) rfl]
            rfl
          one := by
            rw [hzero (p := Frame.releases a) rfl]
            exact Nat.zero_le 1
          records := fun type => by
            rw [hzero (p := Frame.adds a type) rfl,
              hzero (p := Frame.stores a) rfl]
            exact (ite_self 0).symm
          fresh := fun _ => by
            rw [hzero (p := Frame.releases a) rfl]
            rfl
          retained := fun h => absurd h Bool.false_ne_true }
      positive := Nat.one_pos
      table := fun _ _ _ hr => nomatch hr
      adding := fun t f hf type r hr => by
        rw [List.mem_singleton.mp hf] at hr
        cases hr
      bound := fun a id h => absurd h (hown a id)
      distinct := fun a b id h => absurd h (hown a id)
      onTop := fun _ =>
        ⟨fun _ h => (nomatch h), fun _ _ => Nat.le_refl _⟩ }

variable [RequestTraits ε] {s s' : BusSystem ι ε}

omit [DecidableEq ι] [RequestTraits ε] in
/-- An id that the program may unsubscribe is no awaiter's. -/
theorem RecordInv.foreign_id {i : Nat} (h : RecordInv s.world s.frames)
    (hdone : Undisturbed s (.call t (.unsubscribe i))) (type : Nat)
    {r : CallbackRecord} (hr : r ∈ s.world.recordsOf type a) : r.id ≠ i := by
  rintro rfl
  obtain ⟨hsub, hstores⟩ := hdone
  have hisOf : r.isOf a := (List.mem_filter.mp hr).2
  have hown := (h.table a type r hr a hisOf).2
  by_cases ha : a < s.world.nextAwaiter
  · rcases hown with ⟨heq, -⟩ | hpos
    · exact hsub a ha heq
    · exact hpos.ne' (Threads.total_eq_zero_iff.mpr
        (Threads.not_exists_iff.mp (hstores a ha)))
  · have hfresh := (h.phase a).fresh (Nat.le_of_not_lt ha)
    have haccount := (h.phase a).account
    rcases hown with ⟨heq, hne⟩ | hpos
    · have hstored : s.world.idStored a = 1 := if_neg (heq.trans_ne hne)
      omega
    · have hle := storesId_le_stores (a := a) r.id s.frames
      omega

theorem RecordInv.step {act : BusAction ι ε} (h : RecordInv s.world s.frames)
    (hdone : Undisturbed s act) (hstep : BusSystem.step s act = some s') :
    RecordInv s'.world s'.frames := by
  rcases BusSystem.step_cases hstep with
    ⟨delta, rfl, rfl⟩ | ⟨t, f, rest, o, ht, hmoved, rfl⟩
  · exact ⟨fun a => ⟨(h.phase a).account, (h.phase a).one, (h.phase a).records,
        (h.phase a).fresh, (h.phase a).retained⟩, h.positive, h.table, h.adding,
      h.bound, h.distinct, h.onTop⟩
  have hcreated (hf : ∀ code, f ≠ .user code) : CreationDone s.world f := by
    rw [hmoved.eq_advance hf] at hdone
    exact hdone f (by rw [ht]; rfl)
  have hmove := hmoved.recordMove
    (fun a type r hr => (h.table a type r hr a (List.mem_filter.mp hr).2).1)
    (fun i hact a type r hr => h.foreign_id (hact ▸ hdone) type hr) hdone
  obtain ⟨w', fs, mode⟩ := o
  show RecordInv w' (Threads.replaceTop s.frames t fs)
  cases hmove with
  | same hsame hf hfs => exact h.same ht hsame hf hfs
  | created spec guard via rest' hw hf hfs hrest =>
      subst hw hfs
      exact h.create ht spec guard via hf hrest
  | drawn a hf hw hfs =>
      subst hf hw hfs
      exact h.draw ht
  | added a type r hf hr hw hfs =>
      subst hf hw hfs
      exact h.add ht
  | stored a id hf hw hfs =>
      subst hf hw hfs
      exact h.store ht
  | ended a cause rest' hactive hw hf hfs hrest =>
      subst hw hfs
      exact h.end ht hactive hf hrest
  | released a hf hw hfs =>
      subst hf hw hfs
      exact h.release ht (hcreated fun _ => nofun)

omit [DecidableEq ι] [RequestTraits ε] in
/-- Where nothing is under way, only the stored ids are left. -/
theorem RecordInv.tidy (h : RecordInv s.world s.frames) (hsettled : s.Settled) :
    AwaitersTidy s.world := by
  have hplain := Threads.not_exists_iff.mp hsettled
  have hzero {p : Frame ε → Bool}
      (hp : ∀ f : Frame ε, f.bookkeeping = false → p f = false) :
      Threads.total p s.frames = 0 :=
    Threads.total_eq_zero_iff.mpr (hplain.imp hp)
  have hlive (a : Nat) : s.world.live a = s.world.idStored a := by
    have haccount := (h.phase a).account
    have hreleases := hzero (p := Frame.releases a) fun _ => Frame.releases_of_plain
    have hsubscribes := hzero (p := Frame.subscribes a) fun _ =>
      Frame.subscribes_of_plain
    have hstores := hzero (p := Frame.stores a) fun _ => Frame.stores_of_plain
    omega
  refine ⟨fun a type => ?_, fun a hactive => ?_⟩
  · have hrecords := (h.phase a).records type
    rw [hzero (p := Frame.adds a type) fun _ => Frame.adds_of_plain,
      hzero (p := Frame.stores a) fun _ => Frame.stores_of_plain, ← hlive,
      Nat.add_zero, Nat.zero_add] at hrecords
    rw [hrecords, World.live, ite_and]
    by_cases htype : type = (s.world.awaiters a).type <;>
      by_cases hact : s.world.isActive a <;> simp [htype, hact]
  · refine Bool.eq_false_iff.mpr fun hretain => ?_
    have hpos := (h.phase a).retained hretain
    rw [hzero (p := Frame.releases a) fun _ => Frame.releases_of_plain, World.live,
      if_neg (Bool.eq_false_iff.mp hactive)] at hpos
    exact Nat.lt_irrefl 0 hpos

end RecordInv

/-! ## The registered awaiters -/

/-- What a step does to `m_awaiters`, and whether it is the start of a poll. -/
inductive PollMove (w : World ε) (f : Frame ε) (w' : World ε) : Prop
  | same (hregistered : w'.registered = w.registered)
      (hlog : w'.log = w.log ∨
        ∃ o : BusObs ε, w'.log = o :: w.log ∧ o.beginsPoll = false)
  | polled (hf : f = .pollAwaiters)
      (hw : w' = w.pruneRegistered.note (.pollBegan w.pruneRegistered.registered))
  | registered (a : Nat) (hf : f = .registerAwaiter a)
      (hw : w' = { w with registered := w.registered ++ [a] })

section PollMove

variable {w w' : World ε} {f : Frame ε} {o : Outcome ε}

theorem cancelThen_pollMove (b : Nat) (cause : Cause) (rest : List (Frame ε)) :
    PollMove w f (cancelThen w b cause rest).world := by
  unfold cancelThen
  split
  · exact .same rfl (.inr ⟨_, rfl, rfl⟩)
  · exact .same rfl (.inl rfl)

theorem advance_pollMove [RequestTraits ε] {alive : Guard → Bool} {result : Bool}
    (h : advance alive w result f = some o) : PollMove w f o.world := by
  cases f with
  | user code => cases h
  | records d ev rest pc =>
      cases h
      fun_cases advanceDispatch <;> first
        | exact .same rfl (.inr ⟨_, rfl, rfl⟩)
        | exact .same rfl (.inl rfl)
  | handleEvent b ev pc =>
      cases h
      fun_cases advanceHandle <;> first
        | exact cancelThen_pollMove ..
        | exact .same rfl (.inr ⟨_, rfl, rfl⟩)
        | exact .same rfl (.inl rfl)
  | pollTimeout b pc =>
      cases h
      fun_cases advancePoll <;> first
        | exact cancelThen_pollMove ..
        | exact .same rfl (.inr ⟨_, rfl, rfl⟩)
        | exact .same rfl (.inl rfl)
  | cancel b canceller =>
      cases h
      exact cancelThen_pollMove ..
  | release b =>
      cases h
      show PollMove w _ (w.release b)
      unfold World.release
      dsimp only
      split <;> exact .same rfl (.inl rfl)
  | pollAwaiters =>
      cases h
      exact .polled rfl rfl
  | registerAwaiter b =>
      cases h
      exact .registered b rfl rfl
  | nextRequestId retry request =>
      simp only [advance] at h
      split at h <;> cases h
      · exact .same rfl (.inl rfl)
      · exact .same rfl (.inr ⟨_, rfl, rfl⟩)
  | polling live | draining live n =>
      cases live <;> cases h <;> first
        | exact .same rfl (.inr ⟨_, rfl, rfl⟩)
        | exact .same rfl (.inl rfl)
  | cancelling live canceller =>
      cases live <;> cases h <;> exact .same rfl (.inl rfl)
  | notifyWorkAvailable =>
      simp only [advance] at h
      split at h <;> cases h
      · exact .same rfl (.inr ⟨_, rfl, rfl⟩)
      · exact .same rfl (.inl rfl)
  | _ =>
      cases h
      first
      | exact .same rfl (.inr ⟨_, rfl, rfl⟩)
      | exact .same rfl (.inl rfl)

theorem unwind_pollMove (h : unwind w f = some o) : PollMove w f o.world := by
  unfold unwind at h
  split at h
  case h_2 | h_7 =>
    split at h <;> cases h <;> exact .same rfl (.inl rfl)
  all_goals cases h
  all_goals
    first
    | exact .same rfl (.inl rfl)
    | exact .same rfl (.inr ⟨_, rfl, rfl⟩)

theorem Moved.pollMove [Fintype ι] [RequestTraits ε] {s : BusSystem ι ε}
    {act : BusAction ι ε} {t : ι} (h : Moved s act t f o) :
    PollMove s.world f o.world := by
  cases h with
  | advance hmode h => exact advance_pollMove h
  | unwind hmode h => exact unwind_pollMove h
  | call c hmode =>
      cases c with
      | clearPending => exact .same rfl (.inr ⟨_, rfl, rfl⟩)
      | _ => exact .same rfl (.inl rfl)
  | ret | throw | «catch» => exact .same rfl (.inl rfl)

end PollMove

/-- An awaiter that is active was never deactivated, and neither was one that
is not created. -/
structure ActiveInv (a : Nat) (w : World ε) : Prop where
  active : w.isActive a → w.log.countP (·.deactivates a) = 0
  fresh : w.nextAwaiter ≤ a →
    w.isActive a = false ∧ w.log.countP (·.deactivates a) = 0

section ActiveInv

variable {a : Nat} {w w' : World ε} {f : Frame ε} {fs : List (Frame ε)}

theorem ActiveInv.of_end (h : ActiveInv a w) (hactive : w.isActive a)
    (cause : Cause) : ActiveInv a (w.deactivate a cause) where
  active hact := by
    rw [deactivate_isActive] at hact
    exact absurd hact Bool.false_ne_true
  fresh hle := by
    rw [(h.fresh hle).1] at hactive
    exact absurd hactive Bool.false_ne_true

theorem ActiveInv.note (h : ActiveInv a w) {o : BusObs ε}
    (ho : o.deactivates a = false) : ActiveInv a (w.note o) where
  active hact := by
    rw [World.note, List.countP_cons_of_neg (Bool.eq_false_iff.mp ho)]
    exact h.active hact
  fresh hle := by
    rw [World.note, List.countP_cons_of_neg (Bool.eq_false_iff.mp ho)]
    exact h.fresh hle

theorem ActiveInv.move (h : ActiveInv a w) (hmove : AwaiterMove a w f w' fs) :
    ActiveInv a w' := by
  cases hmove with
  | quiet hstill harmed hexpiring hfs =>
      have hactive : w'.isActive a = w.isActive a :=
        congrArg (!·) hstill.cancelled
      have hlog := hstill.silent.sameAccount.deactivates
      exact ⟨fun hact => hlog.trans (h.active (hactive ▸ hact)), fun hle =>
        ⟨hactive.trans (h.fresh (hstill.nextAwaiter.trans hle)).1,
          hlog.trans (h.fresh (hstill.nextAwaiter.trans hle)).2⟩⟩
  | created ha hnext hlog harmed hexpiring hfs =>
      exact ⟨fun _ => hlog.sameAccount.deactivates.trans (h.fresh ha.ge).2,
        fun hle => absurd hle (by omega)⟩
  | ended cause hcause hactive hw harmed hexpiring hfs =>
      exact hw ▸ h.of_end hactive cause
  | claimed ev hf hsingle hactive hw hfs => exact hw ▸ h.of_end hactive .matched
  | expired hf hactive hw hfs => exact hw ▸ h.of_end hactive .timeout
  | called ev hf hcallback hw hfs => exact hw ▸ h.note rfl
  | timedOut hf hw hfs => exact hw ▸ h.note rfl
  | lost ev hf hsingle hactive hw hfs => exact hw ▸ h
  | repeated ev hf hsingle hw hfs => exact hw ▸ h
  | mute ev hf hcallback hw hfs => exact hw ▸ h
  | overtaken hf hactive hw hfs => exact hw ▸ h

variable [Fintype ι] [DecidableEq ι] [RequestTraits ε] {s s' : BusSystem ι ε}

theorem ActiveInv.step {act : BusAction ι ε} (h : ActiveInv a s.world)
    (hstep : BusSystem.step s act = some s') : ActiveInv a s'.world := by
  rcases BusSystem.step_cases hstep with
    ⟨delta, rfl, rfl⟩ | ⟨t, f, rest, o, ht, hmoved, rfl⟩
  · exact ⟨h.active, h.fresh⟩
  · exact h.move (hmoved.awaiterMove a)

theorem RegisteredTidy.step {act : BusAction ι ε} (h : RegisteredTidy s.world)
    (hactive : ∀ a, ActiveInv a s.world) (hdone : Undisturbed s act)
    (hstep : BusSystem.step s act = some s') : RegisteredTidy s'.world := by
  rcases BusSystem.step_cases hstep with
    ⟨delta, rfl, rfl⟩ | ⟨t, f, rest, o, ht, hmoved, rfl⟩
  · exact h
  have hcreated (hf : ∀ code, f ≠ .user code) : CreationDone s.world f := by
    rw [hmoved.eq_advance hf] at hdone
    exact hdone f (by rw [ht]; rfl)
  have hnever {a : Nat} (ha : s.world.isActive a) :
      ∀ o ∈ s.world.log, o.deactivates a = false := fun o ho =>
    Bool.eq_false_iff.mpr (List.countP_eq_zero.mp ((hactive a).active ha) o ho)
  show RegisteredTidy o.world
  intro a ha
  cases hmoved.pollMove with
  | same hregistered hlog =>
      rw [hregistered] at ha
      rcases hlog with hlog | ⟨obs, hlog, hobs⟩ <;> rw [hlog]
      · exact h a ha
      · exact List.pairwise_cons.mpr
          ⟨fun _ _ hbegins => absurd hbegins (Bool.eq_false_iff.mp hobs), h a ha⟩
  | polled hf hw =>
      rw [hw] at ha ⊢
      obtain ⟨ha, hact⟩ := List.mem_filter.mp ha
      exact List.pairwise_cons.mpr ⟨fun o ho _ => hnever hact o ho, h a ha⟩
  | registered b hf hw =>
      rw [hw] at ha ⊢
      rcases List.mem_append.mp ha with ha | ha
      · exact h a ha
      · rw [List.mem_singleton.mp ha]
        have hact : s.world.isActive b := by
          have hdone := hcreated (hf ▸ fun _ => nofun)
          rwa [hf] at hdone
        refine List.Pairwise.imp_of_mem ?_ (List.pairwise_of_forall fun _ _ => trivial)
        exact fun _ ho _ _ => hnever hact _ ho

end ActiveInv

namespace BusSystem

variable [Fintype ι] [DecidableEq ι] [RequestTraits ε] {s : BusSystem ι ε}

/-- In every run in which no awaiter is cancelled before its creation has
stored its id and registered it, the tables hold what belongs to active
awaiters and nothing else. -/
theorem run_awaitersTidy {as : List (BusAction ι ε)}
    (hrun : Lts.run step {} as = some s)
    (hdone : Lts.RunMeets step Undisturbed {} as) :
    (s.Settled → AwaitersTidy s.world) ∧ RegisteredTidy s.world := by
  have hinv := Lts.run_invariant_of_meets
    (P := fun s : BusSystem ι ε => RecordInv s.world s.frames ∧
      (∀ a, ActiveInv a s.world) ∧ RegisteredTidy s.world)
    (fun _ _ _ h hdone hstep => ⟨h.1.step hdone hstep,
      fun a => (h.2.1 a).step hstep, h.2.2.step h.2.1 hdone hstep⟩)
    ⟨RecordInv.init, fun _ => ⟨fun _ => rfl, fun _ => ⟨rfl, rfl⟩⟩,
      fun _ ha => absurd ha List.not_mem_nil⟩
    hdone hrun
  exact ⟨hinv.1.tidy, hinv.2.2⟩

end BusSystem

/-- One thread creates an awaiter and the other emits its event. -/
def createdRun : List (BusAction Bool Nat) :=
  [.call true (.createAwaiter { type := 0, callback := false } none)] ++
  List.replicate 5 (.advance true) ++
  [.call false (.emit { type := 0, payload := 0 })] ++
  List.replicate 13 (.advance false)

theorem BusSystem.run_awaitersTidy_matched :
    ∃ s, Lts.run step ({} : BusSystem Bool Nat) createdRun = some s ∧
      (s.Settled → AwaitersTidy s.world) ∧ RegisteredTidy s.world := by
  obtain ⟨s, hs, -⟩ : ∃ s : BusSystem Bool Nat,
      Lts.run step {} createdRun = some s ∧ True :=
    Lts.exists_run_of_decide (by decide)
  exact ⟨s, hs, run_awaitersTidy hs (.of_checks (by decide))⟩

/-- The event comes after the record is in the table and before its id is
stored. -/
def overtakenRun : List (BusAction Bool Nat) :=
  [.call true (.createAwaiter { type := 0, callback := false } none)] ++
  List.replicate 3 (.advance true) ++
  [.call false (.emit { type := 0, payload := 0 })] ++
  List.replicate 13 (.advance false) ++ List.replicate 2 (.advance true)

/-- The record stays, and so does the entry of the inactive awaiter. -/
theorem BusSystem.awaitersTidy_fails :
    ∃ s, Lts.run step ({} : BusSystem Bool Nat) overtakenRun = some s ∧
      s.Settled ∧ ¬ AwaitersTidy s.world ∧ ¬ RegisteredTidy s.world := by
  obtain ⟨s, hs, hsettled, hrecord, hactive, hregistered⟩ :
      ∃ s : BusSystem Bool Nat, Lts.run step {} overtakenRun = some s ∧
        s.Settled ∧ (s.world.recordsOf 0 0).length = 1 ∧
        s.world.isActive 0 = false ∧ ¬ RegisteredTidy s.world :=
    Lts.exists_run_of_decide (by decide)
  refine ⟨s, hs, hsettled, fun htidy => ?_, hregistered⟩
  have hnone := htidy.records 0 0
  rw [hrecord, hactive, if_neg fun h => Bool.false_ne_true h.1] at hnone
  cases hnone

end EventHub
