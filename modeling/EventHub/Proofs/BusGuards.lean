import EventHub.Bus.History
import EventHub.Proofs.BusStep

/-!
# Endpoint guards

`close()` lets go of the endpoint's guard, and from then on nobody owns it. A
callback subscribed through the endpoint can still start for two reasons only.
A dispatch may have passed its guard check before `close()` returned, and the
library does not wait for it. Or the check comes later, and some frame of some
thread, the frame of another callback of the same endpoint, still holds the
guard. Where the second does not happen, nothing passes a check any more.
-/

namespace EventHub

variable {ι ε : Type}

/-- The record was subscribed through the endpoint. -/
def CallbackRecord.through (r : CallbackRecord) (e : Nat) : Bool :=
  match r.callback with
  | .endpoint e' _ => e' = e
  | _ => false

/-- A callback subscribed through the endpoint starts. -/
def BusObs.startsThrough (e : Nat) : BusObs ε → Bool
  | .started _ r => r.through e
  | _ => false

/-- `close()` of the endpoint returns. -/
def BusObs.returnsClose (e : Nat) : BusObs ε → Bool
  | .closeReturned e' => e' = e
  | _ => false

def closeReturned (e : Nat) (log : List (BusObs ε)) : Bool :=
  log.any (·.returnsClose e)

/-- Nothing subscribed through the endpoint starts once `close()` has
returned. -/
def CloseSilent (e : Nat) (log : List (BusObs ε)) : Prop :=
  log.Pairwise fun later earlier =>
    earlier.returnsClose e → later.startsThrough e = false

instance (e : Nat) (log : List (BusObs ε)) : Decidable (CloseSilent e log) :=
  inferInstanceAs (Decidable (List.Pairwise _ _))

/-- Dispatch `d` was past its guard check for `r` whenever a `close()` of the
endpoint returned. -/
def PassedBefore (e : Nat) (d : Nat) (r : CallbackRecord)
    (log : List (BusObs ε)) : Prop :=
  ∀ between before, log = between ++ .closeReturned e :: before →
    .passed d r ∈ before

/-- What is subscribed through the endpoint and starts after its `close()`
returned was past its guard check before. -/
def CloseSafe (e : Nat) (log : List (BusObs ε)) : Prop :=
  History.Each (fun earlier o => ∀ d r, o = .started d r → r.through e →
    PassedBefore e d r earlier) log

namespace Frame

/-- The records a frame carries. -/
def carried : Frame ε → List CallbackRecord
  | .addCallback _ r => [r]
  | .records _ _ rest .next => rest
  | .records _ _ rest (.passed r) | .records _ _ rest (.calling r)
  | .records _ _ rest (.reporting r) => r :: rest
  | _ => []

/-- The record whose guard was locked and whose callback is about to be
called. -/
def passedRecord : Frame ε → Option (Nat × CallbackRecord)
  | .records d _ _ (.passed r) => some (d, r)
  | _ => none

/-- The record whose guard is checked next. -/
def checkedRecord : Frame ε → Option CallbackRecord
  | .records _ _ (r :: _) .next => some r
  | _ => none

end Frame

/-! ## When a check after `close()` fails -/

/-- Not a check of a guard of `e` that is made after its `close()` returned and
while some frame holds the guard. -/
def GuardGone [Fintype ι] (e : Nat) (s : BusSystem ι ε) :
    BusAction ι ε → Prop
  | .advance t =>
      ∀ f ∈ (s.frames t).head?, f.checkedRecord.any (·.through e) →
        closeReturned e s.world.log → ¬ s.held (.endpoint e)
  | _ => True

instance [Fintype ι] (e : Nat) (s : BusSystem ι ε) (a : BusAction ι ε) :
    Decidable (GuardGone e s a) :=
  match a with
  | .advance t =>
      inferInstanceAs (Decidable (∀ f ∈ (s.frames t).head?,
        f.checkedRecord.any (·.through e) → closeReturned e s.world.log →
          ¬ s.held (.endpoint e)))
  | .call .. | .ret .. | .throw _ | .catch _ | .tick _ =>
      inferInstanceAs (Decidable True)

/-! ## Records of endpoints are guarded by them -/

/-- A record of an endpoint carries its guard, or an empty one if the endpoint
was closed already. -/
def CallbackRecord.WellGuarded (r : CallbackRecord) : Prop :=
  ∀ e, r.through e → r.hasGuard ∧ (r.guard = none ∨ r.guard = some (.endpoint e))

def World.WellGuarded (w : World ε) : Prop :=
  ∀ type, ∀ r ∈ w.callbacks type, r.WellGuarded

def Frame.WellGuarded (f : Frame ε) : Prop := ∀ r ∈ f.carried, r.WellGuarded

/-- No callback started and no `close()` returned. -/
def GuardSilent (w w' : World ε) : Prop :=
  w'.log = w.log ∨ ∃ o : BusObs ε, w'.log = o :: w.log ∧
    ∀ e, o.startsThrough e = false ∧ o.returnsClose e = false

/-- A step that neither passes a check, starts a callback nor ends a
`close()`. -/
structure GuardQuiet (w : World ε) (f : Frame ε) (w' : World ε)
    (fs : List (Frame ε)) : Prop where
  closed : ∀ e, (w.endpoints e).closed → (w'.endpoints e).closed
  world : w.WellGuarded → f.WellGuarded → w'.WellGuarded
  frames : w.WellGuarded → f.WellGuarded → ∀ f' ∈ fs, f'.WellGuarded
  passed : ∀ f' ∈ fs, f'.passedRecord = none
  closing : ∀ e, .closeUnsubscribe e ∈ fs → (w'.endpoints e).closed
  log : GuardSilent w w'

/-- What a step does to guards. -/
inductive GuardMove (alive : Guard → Bool) (w : World ε) (f : Frame ε)
    (w' : World ε) (fs : List (Frame ε)) : Prop
  | quiet (h : GuardQuiet w f w' fs)
  | passed {d : Nat} {ev : Event ε} {r : CallbackRecord}
      {rest : List CallbackRecord} (hf : f = .records d ev (r :: rest) .next)
      (hw : w' = w.note (.passed d r))
      (hfs : fs = [.records d ev rest (.passed r)])
      (hguard : r.hasGuard → r.guard.any alive)
  | started {d : Nat} {ev : Event ε} {r : CallbackRecord}
      {rest : List CallbackRecord} (hf : f = .records d ev rest (.passed r))
      (hw : w' = w.note (.started d r)) (g : Frame ε)
      (hfs : fs = [g, .records d ev rest (.calling r)]) (hg : g.carried = [])
      (hclose : ∀ e, g ≠ .closeUnsubscribe e)
  | closed {e : Nat} (hf : f = .closeUnsubscribe e)
      (hw : w' = (w.unsubscribeAll (.endpoint e)).note (.closeReturned e))
      (hfs : fs = [])

section GuardMove

variable {alive : Guard → Bool} {w : World ε} {f : Frame ε} {o : Outcome ε}

/-- Frames that carry no records and wait for no `close()`. -/
def Frame.plain : Frame ε → Bool
  | .addCallback .. | .records .. | .closeUnsubscribe _ => false
  | _ => true

theorem Frame.wellGuarded_of_plain (h : f.plain) : f.WellGuarded := by
  cases f <;> first
    | exact fun r hr => absurd hr List.not_mem_nil
    | exact absurd h Bool.false_ne_true

theorem Frame.passedRecord_of_plain (h : f.plain) : f.passedRecord = none := by
  cases f <;> first
    | rfl
    | exact absurd h Bool.false_ne_true

/-- Only plain frames are left, and the callbacks lost at most some records. -/
theorem GuardQuiet.of_plain {w' : World ε} {fs : List (Frame ε)}
    (hclosed : ∀ e, (w.endpoints e).closed → (w'.endpoints e).closed)
    (hcallbacks : ∀ type, w'.callbacks type ⊆ w.callbacks type)
    (hfs : ∀ f' ∈ fs, f'.plain)
    (hlog : GuardSilent w w') :
    GuardQuiet w f w' fs where
  closed := hclosed
  world := fun hw _ type r hr => hw type r (hcallbacks type hr)
  frames := fun _ _ f' hf' => f'.wellGuarded_of_plain (hfs f' hf')
  passed := fun f' hf' => f'.passedRecord_of_plain (hfs f' hf')
  closing := fun _ he => absurd (hfs _ he) Bool.false_ne_true
  log := hlog

theorem GuardSilent.same {w' : World ε} (h : w'.log = w.log) :
    GuardSilent w w' := .inl h

theorem GuardSilent.noted {w' : World ε} {obs : BusObs ε}
    (h : w'.log = obs :: w.log)
    (hobs : ∀ e, obs.startsThrough e = false ∧ obs.returnsClose e = false) :
    GuardSilent w w' := .inr ⟨obs, h, hobs⟩

/-- A step that leaves records and endpoints alone and carries no record that
it did not carry before. -/
theorem GuardQuiet.of_carried {w' : World ε} {fs : List (Frame ε)}
    (hendpoints : w'.endpoints = w.endpoints)
    (hcallbacks : w'.callbacks = w.callbacks)
    (hcarried : ∀ f' ∈ fs, f'.carried ⊆ f.carried)
    (hpassed : ∀ f' ∈ fs, f'.passedRecord = none)
    (hclosing : ∀ e, .closeUnsubscribe e ∉ fs) (hlog : GuardSilent w w') :
    GuardQuiet w f w' fs where
  closed := fun _ h => hendpoints ▸ h
  world := fun hw _ type r hr => hw type r (hcallbacks ▸ hr)
  frames := fun _ hf f' hf' r hr => hf r (hcarried f' hf' hr)
  passed := hpassed
  closing := fun e he => absurd he (hclosing e)
  log := hlog

theorem advanceDispatch_guardMove (d : Nat) (ev : Event ε)
    (rest : List CallbackRecord) (pc : DispatchPc) :
    GuardMove alive w (.records d ev rest pc)
      (advanceDispatch alive w d ev rest pc).world
      (advanceDispatch alive w d ev rest pc).frames := by
  cases pc with
  | next =>
      cases rest with
      | nil =>
          exact .quiet (.of_carried rfl rfl (fun _ h => nomatch h)
            (fun _ h => nomatch h) (fun _ h => nomatch h)
            (.noted rfl fun _ => ⟨rfl, rfl⟩))
      | cons r rest =>
          simp only [advanceDispatch]
          split
          · exact .quiet (.of_carried rfl rfl (by simp [Frame.carried])
              (by simp [Frame.passedRecord]) (by simp)
              (.noted rfl fun _ => ⟨rfl, rfl⟩))
          · next hguard => exact .passed rfl rfl rfl (by simpa using hguard)
  | passed r =>
      simp only [advanceDispatch]
      split
      · split
        · exact .started rfl rfl _ rfl rfl (fun _ => nofun)
        · exact .quiet (.of_carried rfl rfl (by simp [Frame.carried])
            (by simp [Frame.passedRecord]) (by simp)
            (.noted rfl fun _ => ⟨rfl, rfl⟩))
      all_goals exact .started rfl rfl _ rfl rfl (fun _ => nofun)
  | calling r | reporting r =>
      exact .quiet (.of_carried rfl rfl (by simp [advanceDispatch, Frame.carried])
        (by simp [advanceDispatch, Frame.passedRecord])
        (by simp [advanceDispatch]) (.same rfl))

/-- A step that only writes to the history, if anything. -/
theorem GuardQuiet.of_same {w' : World ε} {fs : List (Frame ε)}
    (hendpoints : w'.endpoints = w.endpoints)
    (hcallbacks : w'.callbacks = w.callbacks)
    (hfs : ∀ f' ∈ fs, f'.plain) (hlog : GuardSilent w w') :
    GuardQuiet w f w' fs :=
  .of_plain (fun _ h => hendpoints ▸ h) (fun _ => hcallbacks ▸ List.Subset.refl _)
    hfs hlog

theorem cancelThen_guardQuiet (a : Nat) (cause : Cause) {rest : List (Frame ε)}
    (hrest : ∀ f ∈ rest, f.plain) :
    GuardQuiet w f (cancelThen w a cause rest).world
      (cancelThen w a cause rest).frames := by
  unfold cancelThen
  split
  · exact .of_same rfl rfl (List.forall_mem_cons.mpr ⟨rfl, hrest⟩)
      (.noted rfl fun _ => ⟨rfl, rfl⟩)
  · exact .of_same rfl rfl hrest (.same rfl)

theorem advanceHandle_guardQuiet [RequestTraits ε] (result : Bool) (a : Nat)
    (ev : Event ε) (pc : HandlePc) :
    GuardQuiet w f (advanceHandle w result a ev pc).world
      (advanceHandle w result a ev pc).frames := by
  fun_cases advanceHandle <;>
    first
    | exact .of_same rfl rfl (by simp [Frame.plain]) (.same rfl)
    | exact .of_same rfl rfl (by simp [Frame.plain])
        (.noted rfl fun _ => ⟨rfl, rfl⟩)
    | exact cancelThen_guardQuiet _ _ (by simp [Frame.plain])

theorem advancePoll_guardQuiet (a : Nat) (pc : PollPc) :
    GuardQuiet w f (advancePoll w a pc).world (advancePoll w a pc).frames := by
  fun_cases advancePoll <;>
    first
    | exact .of_same rfl rfl (by simp [Frame.plain]) (.same rfl)
    | exact .of_same rfl rfl (by simp [Frame.plain])
        (.noted rfl fun _ => ⟨rfl, rfl⟩)
    | exact cancelThen_guardQuiet _ _ (by simp [Frame.plain])

theorem setEndpoint_closed (e : Nat) (x : Endpoint)
    (hx : (w.endpoints e).closed → x.closed) (e' : Nat)
    (h : (w.endpoints e').closed) : ((w.setEndpoint e x).endpoints e').closed := by
  show (if e' = e then x else w.endpoints e').closed = true
  split
  · next heq => exact hx (heq ▸ h)
  · exact h

theorem advance_guardMove [RequestTraits ε] {result : Bool}
    (h : advance alive w result f = some o) :
    GuardMove alive w f o.world o.frames := by
  cases f with
  | user code => cases h
  | records d ev rest pc =>
      cases h
      exact advanceDispatch_guardMove ..
  | handleEvent a ev pc =>
      cases h
      exact .quiet (advanceHandle_guardQuiet ..)
  | pollTimeout a pc =>
      cases h
      exact .quiet (advancePoll_guardQuiet ..)
  | closeUnsubscribe e =>
      cases h
      exact .closed rfl rfl rfl
  | addCallback type record =>
      cases h
      refine .quiet
        { closed := fun _ h => h
          world := fun hw hf type' r hr => ?_
          frames := fun _ _ _ h => nomatch h
          passed := fun _ h => nomatch h
          closing := fun _ h => nomatch h
          log := .same rfl }
      change r ∈ if type' = type then w.callbacks type' ++ [record]
        else w.callbacks type' at hr
      split at hr
      · rcases List.mem_append.mp hr with hr | hr
        · exact hw type' r hr
        · exact hf r hr
      · exact hw type' r hr
  | dispatch ev =>
      cases h
      refine .quiet
        { closed := fun _ h => h
          world := fun hw _ => hw
          frames := fun hw _ f' hf' => ?_
          passed := by simp [Frame.passedRecord]
          closing := by simp
          log := .noted rfl fun _ => ⟨rfl, rfl⟩ }
      rw [List.mem_singleton.mp hf']
      exact hw ev.type
  | close e =>
      cases h
      have hclosed := setEndpoint_closed (w := w) e
        { w.endpoints e with closed := true } fun _ => rfl
      exact .quiet
        { closed := hclosed
          world := fun hw _ => hw
          frames := by simp [Frame.WellGuarded, Frame.carried]
          passed := by simp [Frame.passedRecord]
          closing := by simp [World.setEndpoint]
          log := .same rfl }
  | release a =>
      cases h
      refine .quiet (.of_plain ?_ ?_ (fun _ h => nomatch h) (.same ?_))
      · intro e he
        unfold World.release
        dsimp only
        split <;> exact he
      · intro type r hr
        unfold World.release at hr
        dsimp only at hr
        split at hr
        · exact List.mem_of_mem_filter hr
        · exact hr
      · unfold World.release
        dsimp only
        split <;> rfl
  | subscribeAwaiter a =>
      cases h
      refine .quiet
        { closed := fun _ h => h
          world := fun hw _ => hw
          frames := fun _ _ f' hf' => ?_
          passed := by simp [Frame.passedRecord]
          closing := by simp
          log := .same rfl }
      rw [List.mem_cons, List.mem_singleton] at hf'
      rcases hf' with rfl | rfl
      · intro r hr e hthrough
        rw [List.mem_singleton.mp hr] at hthrough
        cases hthrough
      · exact Frame.wellGuarded_of_plain rfl
  | cancelAwaiters e cause | makeAwaiter e spec | keepHandle e a =>
      cases h
      exact .quiet (.of_plain (setEndpoint_closed _ _ fun h => h)
        (fun _ => List.Subset.refl _) (by simp [Frame.plain]) (.same rfl))
  | createAwaiter spec guard via =>
      cases h
      refine .quiet (.of_same rfl rfl ?_ (.noted rfl fun _ => ⟨rfl, rfl⟩))
      cases via <;> simp [Frame.plain]
  | enqueue ev request =>
      cases h
      refine .quiet (.of_same rfl rfl ?_ (.noted rfl fun _ => ⟨rfl, rfl⟩))
      cases request <;> simp [Frame.plain]
  | nextRequestId retry request =>
      simp only [advance] at h
      split at h <;> cases h
      · exact .quiet (.of_same rfl rfl (by simp [Frame.plain]) (.same rfl))
      · refine .quiet (.of_same rfl rfl ?_ (.noted rfl fun _ => ⟨rfl, rfl⟩))
        cases request <;> simp [requestFrames, Frame.plain]
  | pollAwaiters | process | processed n | requestReturn e id ticket =>
      cases h
      exact .quiet (.of_same rfl rfl (by simp [Frame.plain])
        (.noted rfl fun _ => ⟨rfl, rfl⟩))
  | dispatching q rest n | storeSubscriptionId a id | registerAwaiter a =>
      cases h
      exact .quiet (.of_same rfl rfl (by simp [Frame.plain]) (.same rfl))
  | polling live =>
      cases live <;> cases h
      · exact .quiet (.of_same rfl rfl (by simp) (.noted rfl fun _ => ⟨rfl, rfl⟩))
      · exact .quiet (.of_same rfl rfl (by simp [Frame.plain]) (.same rfl))
  | draining rest n =>
      cases rest <;> cases h
      · exact .quiet (.of_same rfl rfl (by simp [Frame.plain]) (.same rfl))
      · exact .quiet (.of_same rfl rfl (by simp [Frame.plain])
          (.noted rfl fun _ => ⟨rfl, rfl⟩))
  | cancelling awaiters cause =>
      cases awaiters <;> cases h <;>
        exact .quiet (.of_same rfl rfl (by simp [Frame.plain]) (.same rfl))
  | notifyWorkAvailable =>
      simp only [advance] at h
      split at h <;> cases h
      · exact .quiet (.of_same rfl rfl (by simp) (.noted rfl fun _ => ⟨rfl, rfl⟩))
      · exact .quiet (.of_same rfl rfl (by simp) (.same rfl))
  | cancel a cause =>
      cases h
      exact .quiet (cancelThen_guardQuiet _ _ (by simp))

theorem unwind_guardQuiet (h : unwind w f = some o) :
    GuardQuiet w f o.world o.frames := by
  cases f with
  | dispatching q rest n =>
      cases h
      exact .of_same rfl rfl (by simp) (.noted rfl fun _ => ⟨rfl, rfl⟩)
  | pollAwaiters =>
      cases h
      exact .of_same rfl rfl (by simp) (.same rfl)
  | records d ev rest pc =>
      cases pc with
      | calling r =>
          simp only [unwind] at h
          split at h <;> cases h
          · exact .of_carried rfl rfl (by simp [Frame.carried])
              (by simp [Frame.passedRecord]) (by simp) (.same rfl)
          · exact .of_same rfl rfl (by simp) (.same rfl)
      | reporting r =>
          cases h
          exact .of_same rfl rfl (by simp) (.same rfl)
      | _ => cases h
  | handleEvent a ev pc =>
      cases pc with
      | deciding | calling =>
          cases h
          exact .of_same rfl rfl (by simp) (.same rfl)
      | _ => cases h
  | pollTimeout a pc =>
      cases pc with
      | calling =>
          simp only [unwind] at h
          split at h <;> cases h <;>
            exact .of_same rfl rfl (by simp [Frame.plain]) (.same rfl)
      | reporting =>
          cases h
          exact .of_same rfl rfl (by simp) (.same rfl)
      | _ => cases h
  | _ => cases h

/-- A call that only leaves a well-guarded record to be added. -/
theorem GuardQuiet.of_addCallback {code : UserCode} {type : Nat}
    {record : CallbackRecord} {w' : World ε} (hrecord : record.WellGuarded)
    (hendpoints : w'.endpoints = w.endpoints)
    (hcallbacks : w'.callbacks = w.callbacks) (hlog : w'.log = w.log) :
    GuardQuiet w f w' ([.addCallback type record] ++ [.user code]) where
  closed := fun _ h => hendpoints ▸ h
  world := fun hw _ type r hr => hw type r (hcallbacks ▸ hr)
  frames := by
    intro _ _ f' hf'
    rw [List.singleton_append, List.mem_cons, List.mem_singleton] at hf'
    rcases hf' with rfl | rfl
    · exact fun r hr => List.mem_singleton.mp hr ▸ hrecord
    · exact Frame.wellGuarded_of_plain rfl
  passed := by simp [Frame.passedRecord]
  closing := by simp
  log := .same hlog

theorem endpointRecord_wellGuarded (w : World ε) (id e : Nat)
    (userGuard : Option (Option Nat)) :
    (endpointRecord id e (w.guard e) userGuard).WellGuarded := by
  intro e' hthrough
  have he : e = e' := of_decide_eq_true hthrough
  subst he
  refine ⟨rfl, ?_⟩
  show w.guard e = none ∨ w.guard e = some (.endpoint e)
  unfold World.guard
  split
  · exact .inl rfl
  · exact .inr rfl

theorem call_guardQuiet (code : UserCode) (c : BusCall ε) :
    GuardQuiet w (.user code) (call w c).1 ((call w c).2 ++ [.user code]) := by
  cases c with
  | subscribe type owner guard =>
      exact .of_addCallback (fun _ h => nomatch h) rfl rfl rfl
  | endpointSubscribe e type userGuard =>
      exact .of_addCallback (endpointRecord_wellGuarded w _ e userGuard) rfl rfl rfl
  | unsubscribe id | unsubscribeAll owner =>
      exact .of_plain (fun _ h => h) (fun _ _ => List.mem_of_mem_filter)
        (by simp [call, Frame.plain]) (.same rfl)
  | unsubscribeAllOf type owner =>
      refine .of_plain (fun _ h => h) (fun type' r hr => ?_)
        (by simp [call, Frame.plain]) (.same rfl)
      change r ∈ if type' = type then (w.callbacks type').filter _
        else w.callbacks type' at hr
      split at hr
      · exact List.mem_of_mem_filter hr
      · exact hr
  | clearPending =>
      exact .of_same rfl rfl (by simp [call, Frame.plain])
        (.noted rfl fun _ => ⟨rfl, rfl⟩)
  | _ => exact .of_same rfl rfl (by simp [call, Frame.plain]) (.same rfl)

/-- Every step does one of these things to guards. -/
theorem Moved.guardMove [Fintype ι] [DecidableEq ι] [RequestTraits ε]
    {s : BusSystem ι ε} {a : BusAction ι ε} {t : ι} (h : Moved s a t f o) :
    GuardMove s.alive s.world f o.world o.frames := by
  cases h with
  | advance hmode h => exact advance_guardMove h
  | unwind hmode h => exact .quiet (unwind_guardQuiet h)
  | call c hmode => exact .quiet (call_guardQuiet ..)
  | ret result' hmode hcode => exact .quiet (.of_same rfl rfl (by simp) (.same rfl))
  | throw hcode => exact .quiet (.of_same rfl rfl (by simp) (.same rfl))
  | «catch» hmode =>
      exact .quiet (.of_same rfl rfl (by simp [Frame.plain]) (.same rfl))

end GuardMove

/-! ## What starts after `close()` -/

/-- A frame past a guard check of the endpoint was so before every `close()`
that returned. -/
def Frame.PassedIn (e : Nat) (log : List (BusObs ε)) (f : Frame ε) : Prop :=
  ∀ d r, f.passedRecord = some (d, r) →
    .passed d r ∈ log ∧ (r.through e → PassedBefore e d r log)

structure GuardInv (e : Nat) (s : BusSystem ι ε) : Prop where
  world : s.world.WellGuarded
  frames : Threads.Forall Frame.WellGuarded s.frames
  closing : Threads.Forall
    (fun f => f = .closeUnsubscribe e → (s.world.endpoints e).closed) s.frames
  closed : closeReturned e s.world.log → (s.world.endpoints e).closed
  passed : Threads.Forall (Frame.PassedIn e s.world.log) s.frames
  safe : CloseSafe e s.world.log

section GuardInv

variable {e : Nat} {w w' : World ε} {f : Frame ε} {log : List (BusObs ε)}

theorem PassedBefore.cons {d : Nat} {r : CallbackRecord} {o : BusObs ε}
    (hmem : .passed d r ∈ log) (h : PassedBefore e d r log) :
    PassedBefore e d r (o :: log) := by
  intro between before hsplit
  cases between with
  | nil =>
      rw [List.nil_append, List.cons.injEq] at hsplit
      exact hsplit.2 ▸ hmem
  | cons o' between =>
      rw [List.cons_append, List.cons.injEq] at hsplit
      exact h between before hsplit.2

theorem PassedBefore.of_open {d : Nat} {r : CallbackRecord}
    (h : closeReturned e log = false) : PassedBefore e d r log := by
  intro between before hsplit
  refine absurd (List.any_eq_true.mpr ⟨.closeReturned e, ?_, ?_⟩)
    (Bool.eq_false_iff.mp h)
  · rw [hsplit]
    exact List.mem_append_right _ List.mem_cons_self
  · exact decide_eq_true rfl

theorem Frame.PassedIn.cons (h : f.PassedIn e log) (o : BusObs ε) :
    f.PassedIn e (o :: log) := by
  intro d r hpassed
  obtain ⟨hmem, hbefore⟩ := h d r hpassed
  exact ⟨List.mem_cons_of_mem _ hmem, fun hr => (hbefore hr).cons hmem⟩

theorem Frame.PassedIn.of_none (h : f.passedRecord = none) :
    f.PassedIn e log := by
  intro d r hpassed
  rw [h] at hpassed
  cases hpassed

theorem Frame.passedRecord_eq_none (h : f.carried = []) :
    f.passedRecord = none := by
  cases f with
  | records d ev rest pc =>
      cases pc with
      | passed r => cases h
      | _ => rfl
  | _ => rfl

theorem GuardSilent.closeReturned (h : GuardSilent w w') :
    closeReturned e w'.log = closeReturned e w.log := by
  rcases h with hlog | ⟨o, hlog, ho⟩
  · rw [hlog]
  · rw [hlog, EventHub.closeReturned, List.any_cons, (ho e).2, Bool.false_or]
    rfl

theorem GuardSilent.passedIn (h : GuardSilent w w') (hf : f.PassedIn e w.log) :
    f.PassedIn e w'.log := by
  rcases h with hlog | ⟨o, hlog, -⟩
  · exact hlog ▸ hf
  · exact hlog ▸ hf.cons o

theorem GuardSilent.closeSafe (h : GuardSilent w w')
    (hsafe : CloseSafe e w.log) : CloseSafe e w'.log := by
  rcases h with hlog | ⟨o, hlog, ho⟩
  · exact hlog ▸ hsafe
  · rw [hlog]
    refine ⟨fun d r heq hr => ?_, hsafe⟩
    have hstarts := (ho e).1
    rw [heq] at hstarts
    exact absurd hr (Bool.eq_false_iff.mp hstarts)

theorem GuardInv.init : GuardInv e ({} : BusSystem ι ε) where
  world := fun _ _ h => nomatch h
  frames := fun t f hf => by
    rw [List.mem_singleton.mp hf]
    exact Frame.wellGuarded_of_plain rfl
  closing := fun t f hf heq => by
    rw [List.mem_singleton.mp hf] at heq
    cases heq
  closed := fun h => nomatch h
  passed := fun t f hf => by
    rw [List.mem_singleton.mp hf]
    exact .of_none rfl
  safe := trivial

variable [Fintype ι] {s s' : BusSystem ι ε}

/-- A guard check that passes for an endpoint finds its guard alive. -/
theorem alive_of_check {r : CallbackRecord} (hr : r.WellGuarded)
    (hthrough : r.through e) (hguard : r.hasGuard → r.guard.any s.alive) :
    s.alive (.endpoint e) := by
  obtain ⟨hhas, hnone | hsome⟩ := hr e hthrough
  · have hany := hguard hhas
    rw [hnone] at hany
    cases hany
  · have hany := hguard hhas
    rw [hsome] at hany
    exact hany

theorem GuardInv.step [DecidableEq ι] [RequestTraits ε] {a : BusAction ι ε}
    (h : GuardInv e s) (ha : GuardGone e s a)
    (hstep : BusSystem.step s a = some s') : GuardInv e s' := by
  rcases BusSystem.step_cases hstep with
    ⟨delta, rfl, rfl⟩ | ⟨t, f, rest, o, ht, hmoved, rfl⟩
  · exact ⟨h.world, h.frames, h.closing, h.closed, h.passed, h.safe⟩
  have hf := h.frames.top ht
  obtain ⟨w', fs, mode⟩ := o
  cases hmoved.guardMove with
  | quiet hq =>
      have hreturned := hq.log.closeReturned (e := e)
      exact
        { world := hq.world h.world hf
          frames := h.frames.replace (hq.frames h.world hf)
          closing := (h.closing.imp fun g hg heq => hq.closed e (hg heq)).replace
            fun g hg heq => hq.closing e (heq ▸ hg)
          closed := fun hret => hq.closed e (h.closed (hreturned ▸ hret))
          passed := (h.passed.imp fun g hg => hq.log.passedIn hg).replace
            fun g hg => .of_none (hq.passed g hg)
          safe := hq.log.closeSafe h.safe }
  | @passed d ev r rest' hf' hw hfs hguard =>
      subst hf' hw hfs
      rw [hmoved.eq_advance (by rintro _ ⟨⟩), GuardGone, ht] at ha
      exact
        { world := h.world
          frames := h.frames.replace fun g hg => List.mem_singleton.mp hg ▸ hf
          closing := h.closing.replace fun g hg heq => by
            rw [List.mem_singleton.mp hg] at heq
            cases heq
          closed := h.closed
          passed := by
            refine (h.passed.imp fun g hg => hg.cons _).replace fun g hg => ?_
            rw [List.mem_singleton.mp hg]
            rintro d' r' ⟨rfl, rfl⟩
            refine ⟨List.mem_cons_self, fun hthrough => .of_open ?_⟩
            refine Bool.eq_false_iff.mpr fun hret => ?_
            -- The owner let go, and the condition says that nobody else holds.
            have halive := alive_of_check (hf r List.mem_cons_self) hthrough hguard
            rw [BusSystem.alive, World.owned, h.closed hret, Bool.not_true,
              Bool.false_or] at halive
            exact ha _ rfl hthrough hret (of_decide_eq_true halive)
          safe := ⟨by rintro _ _ ⟨⟩, h.safe⟩ }
  | @started d ev r rest' hf' hw g hfs hg hclose =>
      subst hf' hw hfs
      have hnew {P : Frame ε → Prop} (h₁ : P g)
          (h₂ : P (.records d ev rest' (.calling r))) :
          ∀ f' ∈ [g, .records d ev rest' (.calling r)], P f' := by
        rw [List.forall_mem_cons, List.forall_mem_singleton]
        exact ⟨h₁, h₂⟩
      exact
        { world := h.world
          frames := h.frames.replace
            (hnew (fun r hr => absurd (hg ▸ hr) List.not_mem_nil) hf)
          closing := h.closing.replace
            (hnew (fun heq => absurd heq (hclose e)) (by rintro ⟨⟩))
          closed := h.closed
          passed := (h.passed.imp fun g hg => hg.cons _).replace
            (hnew (.of_none (Frame.passedRecord_eq_none hg)) (.of_none rfl))
          safe := by
            refine ⟨?_, h.safe⟩
            rintro d' r' ⟨rfl, rfl⟩ hthrough
            exact (h.passed.top ht _ _ rfl).2 hthrough }
  | @closed e' hf' hw hfs =>
      subst hf' hw hfs
      exact
        { world := fun type r hr => h.world type r (List.mem_of_mem_filter hr)
          frames := h.frames.replace (by rintro _ ⟨⟩)
          closing := h.closing.replace (by rintro _ ⟨⟩)
          closed := by
            intro hret
            change closeReturned e (.closeReturned e' :: s.world.log) at hret
            rw [closeReturned, List.any_cons, Bool.or_eq_true] at hret
            rcases hret with heq | hret
            · have he : e' = e := of_decide_eq_true heq
              exact h.closing.top ht (he ▸ rfl)
            · exact h.closed hret
          passed := (h.passed.imp fun g hg => hg.cons _).replace
            (by rintro _ ⟨⟩)
          safe := ⟨by rintro _ _ ⟨⟩, h.safe⟩ }

/-- In every run in which no guard of the endpoint is checked after `close()`
while a frame holds it, nothing subscribed through the endpoint starts after
its `close()` returned, except what was past its guard check before. -/
theorem BusSystem.run_closeSafe [DecidableEq ι] [RequestTraits ε]
    {as : List (BusAction ι ε)} (hrun : Lts.run step {} as = some s)
    (hgone : Lts.RunMeets step (GuardGone e) {} as) :
    CloseSafe e s.world.log :=
  (Lts.run_invariant_of_meets (fun _ _ _ h ha hstep => h.step ha hstep)
    GuardInv.init hgone hrun).safe

end GuardInv

/-- A foreign handler closes the endpoint while its callback is already copied. -/
def foreignCloseRun : List (BusAction Unit Nat) :=
  [.call () (.subscribe 0 (.other 0) none), .advance (),
    .call () (.endpointSubscribe 0 0 none), .advance (),
    .call () (.emit { type := 0, payload := 0 })] ++
  List.replicate 3 (.advance ()) ++ [.call () (.close 0)] ++
  List.replicate 4 (.advance ()) ++ [.ret () true] ++
  List.replicate 3 (.advance ())

theorem BusSystem.run_closeSafe_foreign :
    ∃ s, Lts.run step ({} : BusSystem Unit Nat) foreignCloseRun = some s ∧
      closeReturned 0 s.world.log ∧ CloseSafe 0 s.world.log := by
  obtain ⟨s, hs, hreturned⟩ : ∃ s : BusSystem Unit Nat,
      Lts.run step {} foreignCloseRun = some s ∧ closeReturned 0 s.world.log :=
    Lts.exists_run_of_decide (by decide)
  exact ⟨s, hs, hreturned, run_closeSafe hs (.of_checks (by decide))⟩

/-- One thread is past the guard check of the endpoint's callback when another
closes the endpoint. -/
def passedCloseRun : List (BusAction Bool Nat) :=
  [.call true (.endpointSubscribe 0 0 none), .advance true,
    .call true (.emit { type := 0, payload := 0 }), .advance true,
    .advance true, .call false (.close 0)] ++
  List.replicate 4 (.advance false) ++ [.advance true]

/-- The library does not wait for it, so the callback starts. -/
theorem BusSystem.closeSilent_fails :
    ∃ s, Lts.run step ({} : BusSystem Bool Nat) passedCloseRun = some s ∧
      ¬ CloseSilent 0 s.world.log :=
  Lts.exists_run_of_decide (by decide)

/-- A callback of the endpoint emits an event that two other callbacks of the
endpoint receive, and the first of them closes it. -/
def nestedCloseRun : List (BusAction Unit Nat) :=
  [.call () (.endpointSubscribe 0 0 none), .advance (),
    .call () (.endpointSubscribe 0 1 none), .advance (),
    .call () (.endpointSubscribe 0 1 none), .advance (),
    .call () (.emit { type := 0, payload := 0 })] ++
  List.replicate 3 (.advance ()) ++
  [.call () (.emit { type := 1, payload := 0 })] ++
  List.replicate 3 (.advance ()) ++ [.call () (.close 0)] ++
  List.replicate 4 (.advance ()) ++ [.ret () true] ++
  List.replicate 3 (.advance ())

-- The frame of the callback that emitted holds the guard, so the last check
-- passes and the last callback starts.
example : (Lts.run BusSystem.step ({} : BusSystem Unit Nat) nestedCloseRun).any
    (fun s => !decide (CloseSilent 0 s.world.log)) = true := by
  decide

end EventHub
