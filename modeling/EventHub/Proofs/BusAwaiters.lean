import EventHub.Bus.History
import EventHub.Proofs.BusStep

/-!
# Awaiters

`cancel()` is an exchange, and the log says who won it. `handle_event` checks
that its awaiter is active, runs the predicate, calls `cancel()` and then the
callback, and `poll_timeout` checks, calls `cancel()` and then `on_timeout`;
neither asks whether its own `cancel()` won. So an awaiter is safe as long as
whoever reaches such a `cancel()` finds the awaiter as the check left it.

The argument is an account for one awaiter. A callback of a single-shot awaiter
that started or is about to start was paid for by an exchange won after a
match, and there is at most one exchange to win.
-/

namespace EventHub

variable {ι ε : Type}

namespace BusObs

/-- A `cancel()` of the awaiter won. -/
def deactivates (a : Nat) : BusObs ε → Bool
  | .deactivated b _ => b = a
  | _ => false

/-- The one after a match won. -/
def claims (a : Nat) : BusObs ε → Bool
  | .deactivated b .matched => b = a
  | _ => false

/-- Another one won: `cancel()` from outside, endpoint close, an observed token
or the timeout. -/
def endsOtherwise (a : Nat) (o : BusObs ε) : Bool :=
  o.deactivates a && !o.claims a

def startsCallback (a : Nat) : BusObs ε → Bool
  | .callbackStarted b _ => b = a
  | _ => false

def startsTimeout (a : Nat) : BusObs ε → Bool
  | .timeoutStarted b => b = a
  | _ => false

def concerns (a : Nat) (o : BusObs ε) : Bool :=
  o.deactivates a || o.startsCallback a || o.startsTimeout a

end BusObs

/-- The callback starts only while the awaiter is live; when it is single-shot,
at most once, and not besides `on_timeout`. -/
structure AwaiterSafe (a : Nat) (singleShot : Bool) (log : List (BusObs ε)) :
    Prop where
  live : log.Pairwise fun later earlier =>
    earlier.endsOtherwise a → later.startsCallback a = false
  once : singleShot → log.countP (·.startsCallback a) ≤ 1
  either : singleShot → log.any (·.startsCallback a) →
    log.any (·.startsTimeout a) = false

instance (a : Nat) (singleShot : Bool) (log : List (BusObs ε)) :
    Decidable (AwaiterSafe a singleShot log) :=
  decidable_of_iff
    ((log.Pairwise fun later earlier =>
        earlier.endsOtherwise a → later.startsCallback a = false) ∧
      (singleShot → log.countP (·.startsCallback a) ≤ 1) ∧
      (singleShot → log.any (·.startsCallback a) →
        log.any (·.startsTimeout a) = false))
    ⟨fun h => ⟨h.1, h.2.1, h.2.2⟩, fun h => ⟨h.live, h.once, h.either⟩⟩

/-- `f` reaches a `cancel()` after a match, a callback of a repeating awaiter
or a `cancel()` after a timeout, and finds its awaiter as checked: still active,
and where the timeout has come, not claimed by a match. -/
def StillLive (a : Nat) (w : World ε) : Frame ε → Prop
  | .handleEvent b _ .matched =>
      b = a → (w.awaiters a).singleShot → (w.awaiters a).callback → w.isActive a
  | .handleEvent b _ .callback =>
      b = a → (w.awaiters a).singleShot = false → (w.awaiters a).callback →
        w.isActive a
  | .pollTimeout b (.expired true) =>
      b = a → (w.awaiters a).singleShot → (w.awaiters a).callback →
        w.log.any (·.claims a) = false
  | _ => True

instance (a : Nat) (w : World ε) (f : Frame ε) : Decidable (StillLive a w f) := by
  unfold StillLive
  split <;> infer_instance

/-- The step does not find the awaiter changed between check and `cancel()`. -/
def FindsLive (a : Nat) (s : BusSystem ι ε) : BusAction ι ε → Prop
  | .advance t => ∀ f ∈ (s.frames t).head?, StillLive a s.world f
  | _ => True

instance (a : Nat) (s : BusSystem ι ε) (act : BusAction ι ε) :
    Decidable (FindsLive a s act) := by
  unfold FindsLive
  split <;> infer_instance

/-! ## What a step does to one awaiter -/

namespace Frame

/-- About to start the callback. -/
def armed (a : Nat) : Frame ε → Bool
  | .handleEvent b _ .callback => b = a
  | _ => false

/-- About to start `on_timeout`. -/
def expiring (a : Nat) : Frame ε → Bool
  | .pollTimeout b (.timedOut true) => b = a
  | _ => false

/-- Past the check that the awaiter is active. -/
def engaged (a : Nat) : Frame ε → Bool
  | .handleEvent _ _ .entry | .pollTimeout _ .entry => false
  | .handleEvent b _ _ | .pollTimeout b _ => b = a
  | _ => false

end Frame

/-- Nothing that concerns the awaiter is observed. -/
def AwaiterSilent (a : Nat) (w w' : World ε) : Prop :=
  w'.log = w.log ∨ ∃ o : BusObs ε, w'.log = o :: w.log ∧ o.concerns a = false

/-- A step that leaves the awaiter as it is, for what matters here. -/
structure AwaiterStill (a : Nat) (w w' : World ε) : Prop where
  singleShot : (w'.awaiters a).singleShot = (w.awaiters a).singleShot
  callback : (w'.awaiters a).callback = (w.awaiters a).callback
  cancelled : (w'.awaiters a).cancelled = (w.awaiters a).cancelled
  nextAwaiter : w.nextAwaiter ≤ w'.nextAwaiter
  silent : AwaiterSilent a w w'

/-- The new frames are neither about to start the callback nor `on_timeout`,
and past the check only if the old one was or the awaiter is active. -/
def Harmless (a : Nat) (w : World ε) (f : Frame ε) (fs : List (Frame ε)) : Prop :=
  ∀ f' ∈ fs, f'.armed a = false ∧ f'.expiring a = false ∧
    (f'.engaged a → f.engaged a ∨ w.isActive a)

inductive AwaiterMove (a : Nat) (w : World ε) (f : Frame ε) (w' : World ε)
    (fs : List (Frame ε)) : Prop
  | quiet (hstill : AwaiterStill a w w') (harmed : f.armed a = false)
      (hexpiring : f.expiring a = false) (hfs : Harmless a w f fs)
  | created (ha : a = w.nextAwaiter) (hnext : w'.nextAwaiter = a + 1)
      (hlog : AwaiterSilent a w w') (harmed : f.armed a = false)
      (hexpiring : f.expiring a = false)
      (hfs : ∀ f' ∈ fs, f'.engaged a = false)
  | ended (cause : Cause) (hcause : cause ≠ .matched) (hactive : w.isActive a)
      (hw : w' = w.deactivate a cause) (harmed : f.armed a = false)
      (hexpiring : f.expiring a = false) (hfs : Harmless a w f fs)
  | claimed (ev : Event ε) (hf : f = .handleEvent a ev .matched)
      (hsingle : (w.awaiters a).singleShot) (hactive : w.isActive a)
      (hw : w' = w.deactivate a .matched)
      (hfs : fs = [.release a, .handleEvent a ev .callback])
  | lost (ev : Event ε) (hf : f = .handleEvent a ev .matched)
      (hsingle : (w.awaiters a).singleShot) (hactive : w.isActive a = false)
      (hw : w' = w) (hfs : fs = [.handleEvent a ev .callback])
  | repeated (ev : Event ε) (hf : f = .handleEvent a ev .matched)
      (hsingle : (w.awaiters a).singleShot = false) (hw : w' = w)
      (hfs : fs = [.handleEvent a ev .callback])
  | called (ev : Event ε) (hf : f = .handleEvent a ev .callback)
      (hcallback : (w.awaiters a).callback)
      (hw : w' = w.note (.callbackStarted a ev))
      (hfs : fs = [.user (.callback a), .handleEvent a ev .calling])
  | mute (ev : Event ε) (hf : f = .handleEvent a ev .callback)
      (hcallback : (w.awaiters a).callback = false) (hw : w' = w) (hfs : fs = [])
  | expired (hf : f = .pollTimeout a (.expired true)) (hactive : w.isActive a)
      (hw : w' = w.deactivate a .timeout)
      (hfs : fs = [.release a, .pollTimeout a (.timedOut true)])
  | overtaken (hf : f = .pollTimeout a (.expired true))
      (hactive : w.isActive a = false) (hw : w' = w)
      (hfs : fs = [.pollTimeout a (.timedOut true)])
  | timedOut (hf : f = .pollTimeout a (.timedOut true))
      (hw : w' = w.note (.timeoutStarted a))
      (hfs : fs = [.user (.onTimeout a), .pollTimeout a .calling])

section AwaiterMove

variable {a : Nat} {w w' : World ε} {f : Frame ε} {fs : List (Frame ε)}
  {o : Outcome ε}

/-- Not past the check that an awaiter is active. -/
def Frame.outside : Frame ε → Bool
  | .handleEvent _ _ .entry | .pollTimeout _ .entry => true
  | .handleEvent .. | .pollTimeout .. => false
  | _ => true

theorem Frame.engaged_of_outside (h : f.outside) : f.engaged a = false := by
  cases f with
  | handleEvent b ev pc =>
      cases pc <;> first
        | rfl
        | exact absurd h Bool.false_ne_true
  | pollTimeout b pc =>
      cases pc <;> first
        | rfl
        | exact absurd h Bool.false_ne_true
  | _ => rfl

theorem Frame.armed_of_engaged (h : f.engaged a = false) :
    f.armed a = false := by
  fun_cases Frame.armed a f <;> simp_all [Frame.engaged]

theorem Frame.expiring_of_engaged (h : f.engaged a = false) :
    f.expiring a = false := by
  fun_cases Frame.expiring a f <;> simp_all [Frame.engaged]

theorem Harmless.of_unengaged (h : ∀ f' ∈ fs, f'.engaged a = false) :
    Harmless a w f fs := fun f' hf' =>
  ⟨f'.armed_of_engaged (h f' hf'), f'.expiring_of_engaged (h f' hf'),
    fun he => absurd he (Bool.eq_false_iff.mp (h f' hf'))⟩

theorem AwaiterStill.of_awaiters (hawaiters : w'.awaiters = w.awaiters)
    (hnext : w'.nextAwaiter = w.nextAwaiter) (hsilent : AwaiterSilent a w w') :
    AwaiterStill a w w' where
  singleShot := by rw [hawaiters]
  callback := by rw [hawaiters]
  cancelled := by rw [hawaiters]
  nextAwaiter := hnext.ge
  silent := hsilent

theorem AwaiterStill.setAwaiter {b : Nat} {x : Awaiter}
    (hsingle : x.singleShot = (w.awaiters b).singleShot)
    (hcallback : x.callback = (w.awaiters b).callback)
    (hcancelled : x.cancelled = (w.awaiters b).cancelled) :
    AwaiterStill a w (w.setAwaiter b x) := by
  have hx : (w.setAwaiter b x).awaiters a = if a = b then x else w.awaiters a := rfl
  by_cases hab : a = b
  · subst hab
    rw [if_pos rfl] at hx
    exact ⟨by rw [hx, hsingle], by rw [hx, hcallback], by rw [hx, hcancelled],
      Nat.le_refl _, .inl rfl⟩
  · rw [if_neg hab] at hx
    exact ⟨by rw [hx], by rw [hx], by rw [hx], Nat.le_refl _, .inl rfl⟩

/-- A step of frames that are not past a check, on a world in which only other
things changed. -/
theorem AwaiterMove.outside (hawaiters : w'.awaiters = w.awaiters)
    (hnext : w'.nextAwaiter = w.nextAwaiter) (hsilent : AwaiterSilent a w w')
    (hf : f.outside) (hfs : ∀ f' ∈ fs, f'.outside) : AwaiterMove a w f w' fs :=
  .quiet (.of_awaiters hawaiters hnext hsilent)
    (f.armed_of_engaged (f.engaged_of_outside hf))
    (f.expiring_of_engaged (f.engaged_of_outside hf))
    (.of_unengaged fun f' hf' => f'.engaged_of_outside (hfs f' hf'))

theorem release_awaiterStill (b : Nat) : AwaiterStill a w (w.release b) := by
  unfold World.release
  dsimp only
  split
  · have hset := AwaiterStill.setAwaiter (a := a)
      (w := w.unsubscribe (w.awaiters b).subscriptionId) (b := b)
      (x := { w.awaiters b with subscriptionId := 0, retainSelf := false })
      rfl rfl rfl
    exact ⟨hset.singleShot, hset.callback, hset.cancelled, hset.nextAwaiter,
      hset.silent⟩
  · exact .setAwaiter rfl rfl rfl

theorem AwaiterSilent.noted {obs : BusObs ε} (h : obs.concerns a = false) :
    AwaiterSilent a w (w.note obs) := .inr ⟨obs, rfl, h⟩

theorem AwaiterStill.refl : AwaiterStill a w w :=
  .of_awaiters rfl rfl (.inl rfl)

theorem deactivate_awaiterStill {b : Nat} (cause : Cause) (hb : b ≠ a) :
    AwaiterStill a w (w.deactivate b cause) where
  singleShot := by simp [World.deactivate, World.setAwaiter, World.note, hb.symm]
  callback := by simp [World.deactivate, World.setAwaiter, World.note, hb.symm]
  cancelled := by simp [World.deactivate, World.setAwaiter, World.note, hb.symm]
  nextAwaiter := Nat.le_refl _
  silent := .inr ⟨_, rfl, by
    simp [BusObs.concerns, BusObs.deactivates, BusObs.startsCallback,
      BusObs.startsTimeout, hb]⟩

/-- A `cancel()` of another awaiter, or one that is not after a match. -/
theorem cancelThen_awaiterMove {b : Nat} {cause : Cause}
    {rest : List (Frame ε)} (hcause : b = a → cause ≠ .matched)
    (harmed : f.armed a = false) (hexpiring : f.expiring a = false)
    (hrest : Harmless a w f rest) :
    AwaiterMove a w f (cancelThen w b cause rest).world
      (cancelThen w b cause rest).frames := by
  have hrelease : Harmless a w f (.release b :: rest) :=
    List.forall_mem_cons.mpr ⟨⟨rfl, rfl, fun h => nomatch h⟩, hrest⟩
  unfold cancelThen
  split
  · next hactive =>
      by_cases hb : b = a
      · subst hb
        exact .ended cause (hcause rfl) hactive rfl harmed hexpiring hrelease
      · exact .quiet (deactivate_awaiterStill cause hb) harmed hexpiring hrelease
  · exact .quiet .refl harmed hexpiring hrest

/-- Frames that are past the check, like `f`, or outside. -/
theorem Harmless.of_engaged
    (hfs : ∀ f' ∈ fs, (f'.armed a = false ∧ f'.expiring a = false ∧
      f'.engaged a = f.engaged a) ∨ f'.outside) : Harmless a w f fs := by
  intro f' hf'
  rcases hfs f' hf' with ⟨h₁, h₂, h₃⟩ | hout
  · exact ⟨h₁, h₂, fun he => .inl (h₃ ▸ he)⟩
  · have hone : Harmless a w f [f'] := .of_unengaged fun g hg =>
      g.engaged_of_outside (List.mem_singleton.mp hg ▸ hout)
    exact hone f' List.mem_cons_self

theorem advanceHandle_awaiterMove [RequestTraits ε] (result : Bool) (b : Nat)
    (ev : Event ε) (pc : HandlePc) :
    AwaiterMove a w (.handleEvent b ev pc)
      (advanceHandle w result b ev pc).world
      (advanceHandle w result b ev pc).frames := by
  cases pc with
  | entry =>
      simp only [advanceHandle]
      split
      · next hactive =>
          refine .quiet .refl rfl rfl (List.forall_mem_singleton.mpr
            ⟨rfl, rfl, fun he => .inr ?_⟩)
          exact (of_decide_eq_true he : b = a) ▸ hactive
      · exact .quiet .refl rfl rfl fun _ hf' => nomatch hf'
  | token =>
      simp only [advanceHandle]
      split
      · exact .quiet .refl rfl rfl (.of_engaged (by simp [Frame.outside]))
      · exact .quiet .refl rfl rfl (.of_engaged (by
          simp [Frame.armed, Frame.expiring, Frame.engaged]))
  | predicate =>
      simp only [advanceHandle]
      split
      · exact .quiet .refl rfl rfl (.of_engaged (by
          simp [Frame.armed, Frame.expiring, Frame.engaged]))
      · exact .quiet .refl rfl rfl (.of_engaged (by
          simp [Frame.armed, Frame.expiring, Frame.engaged, Frame.outside]))
      · split
        · exact .quiet .refl rfl rfl (.of_engaged (by
            simp [Frame.armed, Frame.expiring, Frame.engaged]))
        · exact .quiet .refl rfl rfl fun _ hf' => nomatch hf'
  | deciding =>
      simp only [advanceHandle]
      split
      · exact .quiet .refl rfl rfl (.of_engaged (by
          simp [Frame.armed, Frame.expiring, Frame.engaged]))
      · exact .quiet .refl rfl rfl fun _ hf' => nomatch hf'
  | matched =>
      by_cases hb : b = a
      · subst hb
        simp only [advanceHandle]
        split
        · next hsingle =>
            unfold cancelThen
            split
            · next hactive => exact .claimed ev rfl hsingle hactive rfl rfl
            · next hactive =>
                exact .lost ev rfl hsingle (Bool.eq_false_iff.mpr hactive) rfl rfl
        · next hsingle =>
            exact .repeated ev rfl (Bool.eq_false_iff.mpr hsingle) rfl rfl
      · have hrest : Harmless a w (.handleEvent b ev .matched)
            [.handleEvent b ev .callback] :=
          .of_engaged (by simp [Frame.armed, Frame.expiring, Frame.engaged, hb])
        simp only [advanceHandle]
        split
        · exact cancelThen_awaiterMove (fun h => absurd h hb) rfl rfl hrest
        · exact .quiet .refl rfl rfl hrest
  | callback =>
      by_cases hb : b = a
      · subst hb
        simp only [advanceHandle]
        split
        · next hcallback => exact .called ev rfl hcallback rfl rfl
        · next hcallback =>
            exact .mute ev rfl (Bool.eq_false_iff.mpr hcallback) rfl rfl
      · have harmed : (Frame.handleEvent b ev .callback).armed a = false :=
          decide_eq_false hb
        simp only [advanceHandle]
        split
        · refine .quiet (.of_awaiters rfl rfl (.noted ?_)) harmed rfl
            (.of_engaged ?_)
          · simp [BusObs.concerns, BusObs.deactivates, BusObs.startsCallback,
              BusObs.startsTimeout, hb]
          · simp [Frame.armed, Frame.expiring, Frame.engaged, Frame.outside]
        · exact .quiet .refl harmed rfl fun _ hf' => nomatch hf'
  | calling => exact .quiet .refl rfl rfl fun _ hf' => nomatch hf'

theorem advancePoll_awaiterMove (b : Nat) (pc : PollPc) :
    AwaiterMove a w (.pollTimeout b pc) (advancePoll w b pc).world
      (advancePoll w b pc).frames := by
  cases pc with
  | entry =>
      simp only [advancePoll]
      split
      · next hactive =>
          refine .quiet .refl rfl rfl (List.forall_mem_singleton.mpr
            ⟨rfl, rfl, fun he => .inr ?_⟩)
          exact (of_decide_eq_true he : b = a) ▸ hactive
      · exact .quiet .refl rfl rfl fun _ hf' => nomatch hf'
  | token =>
      simp only [advancePoll]
      split
      · exact .quiet .refl rfl rfl (.of_engaged (by simp [Frame.outside]))
      · exact .quiet .refl rfl rfl (.of_engaged (by
          simp [Frame.armed, Frame.expiring, Frame.engaged]))
  | deadline =>
      simp only [advancePoll]
      split
      · exact .quiet (.setAwaiter rfl rfl rfl) rfl rfl (.of_engaged (by
          simp [Frame.armed, Frame.expiring, Frame.engaged]))
      · exact .quiet .refl rfl rfl fun _ hf' => nomatch hf'
  | expired onTimeout =>
      simp only [advancePoll]
      cases onTimeout with
      | false =>
          exact cancelThen_awaiterMove (fun _ => nofun) rfl rfl (.of_engaged (by
            simp [Frame.armed, Frame.expiring, Frame.engaged]))
      | true =>
          by_cases hb : b = a
          · subst hb
            unfold cancelThen
            split
            · next hactive => exact .expired rfl hactive rfl rfl
            · next hactive =>
                exact .overtaken rfl (Bool.eq_false_iff.mpr hactive) rfl rfl
          · exact cancelThen_awaiterMove (fun h => absurd h hb) rfl rfl
              (.of_engaged (by
                simp [Frame.armed, Frame.expiring, Frame.engaged, hb]))
  | timedOut onTimeout =>
      cases onTimeout with
      | false => exact .quiet .refl rfl rfl fun _ hf' => nomatch hf'
      | true =>
          by_cases hb : b = a
          · subst hb
            exact .timedOut rfl rfl rfl
          · refine .quiet (.of_awaiters rfl rfl (.noted ?_)) rfl
              (decide_eq_false hb) (.of_engaged ?_)
            · simp [BusObs.concerns, BusObs.deactivates, BusObs.startsCallback,
                BusObs.startsTimeout, hb]
            · simp [advancePoll, Frame.armed, Frame.expiring, Frame.engaged,
                Frame.outside]
  | calling | reporting => exact .quiet .refl rfl rfl fun _ hf' => nomatch hf'

theorem advanceDispatch_awaiterMove (alive : Guard → Bool) (d : Nat)
    (ev : Event ε) (rest : List CallbackRecord) (pc : DispatchPc) :
    AwaiterMove a w (.records d ev rest pc)
      (advanceDispatch alive w d ev rest pc).world
      (advanceDispatch alive w d ev rest pc).frames := by
  fun_cases advanceDispatch <;>
    first
    | exact .outside rfl rfl (.inl rfl) rfl (by simp [Frame.outside])
    | exact .outside rfl rfl (.noted rfl) rfl (by simp [Frame.outside])

theorem createAwaiter_awaiterMove (spec : AwaitSpec)
    (guard : Option (Option Guard)) (via : Option Nat) (hf : f.outside)
    (hfs : ∀ f' ∈ fs, f'.outside) :
    AwaiterMove a w f (w.createAwaiter spec guard via) fs := by
  have hun := f.engaged_of_outside (a := a) hf
  by_cases ha : a = w.nextAwaiter
  · exact .created ha (ha ▸ rfl) (.inr ⟨_, rfl, rfl⟩) (f.armed_of_engaged hun)
      (f.expiring_of_engaged hun) fun f' hf' => f'.engaged_of_outside (hfs f' hf')
  · have hx : (w.createAwaiter spec guard via).awaiters a = w.awaiters a :=
      if_neg ha
    refine .quiet ⟨by rw [hx], by rw [hx], by rw [hx], Nat.le_succ _,
      .inr ⟨_, rfl, rfl⟩⟩ (f.armed_of_engaged hun) (f.expiring_of_engaged hun)
      (.of_unengaged fun f' hf' => f'.engaged_of_outside (hfs f' hf'))

theorem advance_awaiterMove [RequestTraits ε] {alive : Guard → Bool}
    {result : Bool} (h : advance alive w result f = some o) :
    AwaiterMove a w f o.world o.frames := by
  cases f with
  | user code => cases h
  | records d ev rest pc =>
      cases h
      exact advanceDispatch_awaiterMove ..
  | handleEvent b ev pc =>
      cases h
      exact advanceHandle_awaiterMove ..
  | pollTimeout b pc =>
      cases h
      exact advancePoll_awaiterMove ..
  | cancel b canceller =>
      cases h
      exact cancelThen_awaiterMove (fun _ => nofun) rfl rfl fun _ hf' => nomatch hf'
  | release b =>
      cases h
      exact .quiet (release_awaiterStill b) rfl rfl fun _ hf' => nomatch hf'
  | storeSubscriptionId b id =>
      cases h
      exact .quiet (.setAwaiter rfl rfl rfl) rfl rfl fun _ hf' => nomatch hf'
  | createAwaiter spec guard via =>
      cases h
      refine createAwaiter_awaiterMove _ _ _ rfl ?_
      cases via <;> simp [Frame.outside]
  | enqueue ev request =>
      cases h
      refine .outside rfl rfl (.inr ⟨_, rfl, rfl⟩) rfl ?_
      cases request <;> simp [Frame.outside]
  | nextRequestId retry request =>
      simp only [advance] at h
      split at h <;> cases h
      · exact .outside rfl rfl (.inl rfl) rfl (by simp [Frame.outside])
      · refine .outside rfl rfl (.inr ⟨_, rfl, rfl⟩) rfl ?_
        cases request <;> simp [requestFrames, Frame.outside]
  | dispatch ev | pollAwaiters | process | processed n
  | requestReturn e id ticket | closeUnsubscribe e =>
      cases h
      exact .outside rfl rfl (.inr ⟨_, rfl, rfl⟩) rfl (by simp [Frame.outside])
  | addCallback type record | dispatching q rest n | cancelAwaiters e canceller
  | close e | makeAwaiter e spec | subscribeAwaiter b | registerAwaiter b
  | keepHandle e b =>
      cases h
      exact .outside rfl rfl (.inl rfl) rfl (by simp [Frame.outside])
  | polling live =>
      cases live <;> cases h
      · exact .outside rfl rfl (.noted rfl) rfl (by simp)
      · exact .outside rfl rfl (.inl rfl) rfl (by simp [Frame.outside])
  | draining rest n =>
      cases rest <;> cases h
      · exact .outside rfl rfl (.inl rfl) rfl (by simp [Frame.outside])
      · exact .outside rfl rfl (.noted rfl) rfl (by simp [Frame.outside])
  | cancelling awaiters canceller =>
      cases awaiters <;> cases h <;>
        exact .outside rfl rfl (.inl rfl) rfl (by simp [Frame.outside])
  | notifyWorkAvailable =>
      simp only [advance] at h
      split at h <;> cases h
      · exact .outside rfl rfl (.noted rfl) rfl (by simp)
      · exact .outside rfl rfl (.inl rfl) rfl (by simp)

theorem unwind_awaiterMove (h : unwind w f = some o) :
    AwaiterMove a w f o.world o.frames := by
  cases f with
  | dispatching q rest n =>
      cases h
      exact .outside rfl rfl (.inr ⟨_, rfl, rfl⟩) rfl (by simp)
  | pollAwaiters =>
      cases h
      exact .outside rfl rfl (.inl rfl) rfl (by simp)
  | records d ev rest pc =>
      cases pc with
      | calling r =>
          simp only [unwind] at h
          split at h <;> cases h <;>
            exact .outside rfl rfl (.inl rfl) rfl (by simp [Frame.outside])
      | reporting r =>
          cases h
          exact .outside rfl rfl (.inl rfl) rfl (by simp)
      | _ => cases h
  | handleEvent b ev pc =>
      cases pc with
      | deciding | calling =>
          cases h
          exact .quiet .refl rfl rfl fun _ hf' => nomatch hf'
      | _ => cases h
  | pollTimeout b pc =>
      cases pc with
      | calling =>
          simp only [unwind] at h
          split at h <;> cases h
          · exact .quiet .refl rfl rfl (.of_engaged (by
              simp [Frame.armed, Frame.expiring, Frame.engaged, Frame.outside]))
          · exact .quiet .refl rfl rfl fun _ hf' => nomatch hf'
      | reporting =>
          cases h
          exact .quiet .refl rfl rfl fun _ hf' => nomatch hf'
      | _ => cases h
  | _ => cases h

theorem call_awaiterMove (code : UserCode) (c : BusCall ε) :
    AwaiterMove a w (.user code) (call w c).1 ((call w c).2 ++ [.user code]) := by
  cases c with
  | clearPending =>
      exact .outside rfl rfl (.inr ⟨_, rfl, rfl⟩) rfl
        (by simp [call, Frame.outside])
  | _ => exact .outside rfl rfl (.inl rfl) rfl (by simp [call, Frame.outside])

/-- Every step does one of these things to the awaiter. -/
theorem Moved.awaiterMove [Fintype ι] [DecidableEq ι] [RequestTraits ε]
    {s : BusSystem ι ε} {act : BusAction ι ε} {t : ι} (h : Moved s act t f o)
    (a : Nat) : AwaiterMove a s.world f o.world o.frames := by
  cases h with
  | advance hmode h => exact advance_awaiterMove h
  | unwind hmode h => exact unwind_awaiterMove h
  | call c hmode => exact call_awaiterMove ..
  | ret result' hmode hcode => exact .outside rfl rfl (.inl rfl) rfl (by simp)
  | throw hcode => exact .outside rfl rfl (.inl rfl) rfl (by simp)
  | «catch» hmode =>
      exact .outside rfl rfl (.inl rfl) rfl (by simp [Frame.outside])

end AwaiterMove

/-! ## The account of one awaiter -/

structure AwaiterInv [Fintype ι] (a : Nat) (w : World ε)
    (frames : ι → List (Frame ε)) : Prop where
  fresh : w.nextAwaiter ≤ a → w.isActive a = false ∧
    Threads.Forall (fun f => f.engaged a = false) frames ∧
    ∀ o ∈ w.log, o.concerns a = false
  active : w.isActive a → w.log.countP (·.deactivates a) = 0
  one : w.log.countP (·.deactivates a) ≤ 1
  mute : (w.awaiters a).callback = false →
    w.log.countP (·.startsCallback a) = 0
  /-- Callbacks that started or are about to were paid for. -/
  account : (w.awaiters a).singleShot → (w.awaiters a).callback →
    Threads.total (Frame.armed a) frames +
        w.log.countP (·.startsCallback a) ≤
      w.log.countP (·.claims a)
  expiry : (w.awaiters a).singleShot → (w.awaiters a).callback →
    0 < Threads.total (Frame.expiring a) frames +
        w.log.countP (·.startsTimeout a) →
      w.log.countP (·.claims a) = 0 ∧ w.isActive a = false
  live : w.log.Pairwise fun later earlier =>
    earlier.endsOtherwise a → later.startsCallback a = false

section AwaiterInv

variable {a : Nat} {log : List (BusObs ε)}

/-- A claim is an exchange that was won. -/
theorem countP_claims (a : Nat) (log : List (BusObs ε)) :
    log.countP (·.claims a) + log.countP (·.endsOtherwise a) =
      log.countP (·.deactivates a) := by
  induction log with
  | nil => rfl
  | cons o log ih =>
      have ho : o.claims a → o.deactivates a := by
        fun_cases BusObs.claims a o <;> simp [BusObs.deactivates]
      simp only [List.countP_cons, BusObs.endsOtherwise]
      cases hc : o.claims a <;> cases hd : o.deactivates a <;>
        simp_all [BusObs.endsOtherwise] <;> omega

/-- What the log says of the awaiter did not change. -/
structure SameAccount (a : Nat) (log' log : List (BusObs ε)) : Prop where
  deactivates : log'.countP (·.deactivates a) = log.countP (·.deactivates a)
  claims : log'.countP (·.claims a) = log.countP (·.claims a)
  callbacks : log'.countP (·.startsCallback a) = log.countP (·.startsCallback a)
  timeouts : log'.countP (·.startsTimeout a) = log.countP (·.startsTimeout a)
  concerns : (∀ o ∈ log, o.concerns a = false) → ∀ o ∈ log', o.concerns a = false
  live : (log.Pairwise fun later earlier =>
      earlier.endsOtherwise a → later.startsCallback a = false) →
    log'.Pairwise fun later earlier =>
      earlier.endsOtherwise a → later.startsCallback a = false

theorem AwaiterSilent.sameAccount {w w' : World ε} (h : AwaiterSilent a w w') :
    SameAccount a w'.log w.log := by
  rcases h with hlog | ⟨o, hlog, ho⟩
  · rw [hlog]
    exact ⟨rfl, rfl, rfl, rfl, fun h => h, fun h => h⟩
  · rw [BusObs.concerns, Bool.or_eq_false_iff, Bool.or_eq_false_iff] at ho
    obtain ⟨⟨hd, hc⟩, ht⟩ := ho
    have hclaims : o.claims a = false := by
      refine Bool.eq_false_iff.mpr fun hclaims => Bool.eq_false_iff.mp hd ?_
      revert hclaims
      fun_cases BusObs.claims a o <;> simp [BusObs.deactivates]
    rw [hlog]
    exact
      { deactivates := List.countP_cons_of_neg (Bool.eq_false_iff.mp hd)
        claims := List.countP_cons_of_neg (Bool.eq_false_iff.mp hclaims)
        callbacks := List.countP_cons_of_neg (Bool.eq_false_iff.mp hc)
        timeouts := List.countP_cons_of_neg (Bool.eq_false_iff.mp ht)
        concerns := fun h => List.forall_mem_cons.mpr
          ⟨by rw [BusObs.concerns, hd, hc, ht]; rfl, h⟩
        live := fun h => List.pairwise_cons.mpr ⟨fun _ _ _ => hc, h⟩ }

theorem AwaiterInv.init [Fintype ι] :
    AwaiterInv a ({} : World ε) (fun _ : ι => [.user .main]) where
  fresh := fun _ =>
    ⟨rfl, fun t f hf => by rw [List.mem_singleton.mp hf]; rfl,
      fun _ ho => nomatch ho⟩
  active := fun h => nomatch h
  one := Nat.zero_le _
  mute := fun _ => rfl
  account := fun _ h => nomatch h
  expiry := fun _ h => nomatch h
  live := .nil

/-- What follows for the users of the awaiter. -/
theorem AwaiterInv.awaiterSafe [Fintype ι] {w : World ε}
    {frames : ι → List (Frame ε)} (h : AwaiterInv a w frames) :
    AwaiterSafe a (w.awaiters a).singleShot w.log := by
  have hcount := countP_claims a w.log
  have hone := h.one
  have honce : (w.awaiters a).singleShot →
      w.log.countP (·.startsCallback a) ≤ w.log.countP (·.claims a) := by
    intro hsingle
    cases hcallback : (w.awaiters a).callback with
    | true => exact (Nat.le_add_left _ _).trans (h.account hsingle hcallback)
    | false => exact (h.mute hcallback).le.trans (Nat.zero_le _)
  refine ⟨h.live, fun hsingle => ?_, fun hsingle hstarted => ?_⟩
  · have hle := honce hsingle
    omega
  · have hle := honce hsingle
    have hpos : 0 < w.log.countP (·.startsCallback a) :=
      List.countP_pos_iff.mpr (List.any_eq_true.mp hstarted)
    have hcallback : (w.awaiters a).callback = true := by
      refine Bool.eq_true_of_not_eq_false fun hmute => ?_
      exact Nat.ne_of_gt hpos (h.mute hmute)
    refine Bool.eq_false_iff.mpr fun htimeout => ?_
    have hpos' : 0 < w.log.countP (·.startsTimeout a) :=
      List.countP_pos_iff.mpr (List.any_eq_true.mp htimeout)
    have hzero := (h.expiry hsingle hcallback (Nat.add_pos_right _ hpos')).1
    omega

variable [Fintype ι] [DecidableEq ι] {w w' : World ε}
  {frames : ι → List (Frame ε)} {t : ι} {f : Frame ε}
  {rest fs : List (Frame ε)}

/-- Nothing happened to the awaiter. -/
theorem AwaiterInv.still (h : AwaiterInv a w frames)
    (ht : frames t = f :: rest) (hstill : AwaiterStill a w w')
    (harmed : f.armed a = false) (hexpiring : f.expiring a = false)
    (hfs : Harmless a w f fs) :
    AwaiterInv a w' (Threads.replaceTop frames t fs) := by
  have hlog := hstill.silent.sameAccount
  have htotal : Threads.total (Frame.armed a) (Threads.replaceTop frames t fs) =
      Threads.total (Frame.armed a) frames :=
    Threads.total_replaceTop_of_none _ ht harmed fun g hg => (hfs g hg).1
  have hexpiry :
      Threads.total (Frame.expiring a) (Threads.replaceTop frames t fs) =
        Threads.total (Frame.expiring a) frames :=
    Threads.total_replaceTop_of_none _ ht hexpiring fun g hg => (hfs g hg).2.1
  have hactive : w'.isActive a = w.isActive a := by
    rw [World.isActive, hstill.cancelled]
    rfl
  exact
    { fresh := fun hle => by
        obtain ⟨hnot, hframes, hsilent⟩ := h.fresh (hstill.nextAwaiter.trans hle)
        refine ⟨hactive.trans hnot, hframes.replace fun g hg => ?_,
          hlog.concerns hsilent⟩
        refine Bool.eq_false_iff.mpr fun hengaged => ?_
        rcases (hfs g hg).2.2 hengaged with hf | hact
        · exact Bool.eq_false_iff.mp (hframes.top ht) hf
        · exact Bool.eq_false_iff.mp hnot hact
      active := fun hact => hlog.deactivates.trans (h.active (hactive ▸ hact))
      one := hlog.deactivates.le.trans h.one
      mute := fun hc => hlog.callbacks.trans (h.mute (hstill.callback ▸ hc))
      account := fun hsingle hcallback => by
        rw [htotal, hlog.callbacks, hlog.claims]
        exact h.account (hstill.singleShot ▸ hsingle) (hstill.callback ▸ hcallback)
      expiry := fun hsingle hcallback hpos => by
        rw [hexpiry, hlog.timeouts] at hpos
        rw [hlog.claims]
        exact hactive ▸
          h.expiry (hstill.singleShot ▸ hsingle) (hstill.callback ▸ hcallback) hpos
      live := hlog.live h.live }

/-- The awaiter was created. -/
theorem AwaiterInv.create (h : AwaiterInv a w frames) (ha : a = w.nextAwaiter)
    (hnext : w'.nextAwaiter = a + 1) (hsilent : AwaiterSilent a w w')
    (hfs : ∀ g ∈ fs, g.engaged a = false) :
    AwaiterInv a w' (Threads.replaceTop frames t fs) := by
  obtain ⟨-, hframes, hconcerns⟩ := h.fresh ha.ge
  have hnone := hsilent.sameAccount.concerns hconcerns
  have hengaged := hframes.replace (t := t) hfs
  have hzero {p : BusObs ε → Bool} (hp : ∀ o, p o → o.concerns a) :
      w'.log.countP p = 0 :=
    List.countP_eq_zero.mpr fun o ho hpo =>
      Bool.eq_false_iff.mp (hnone o ho) (hp o hpo)
  have hd := hzero (p := (·.deactivates a)) fun o ho => by simp [BusObs.concerns, ho]
  have hc := hzero (p := (·.startsCallback a)) fun o ho => by
    simp [BusObs.concerns, ho]
  have htimeout := hzero (p := (·.startsTimeout a)) fun o ho => by
    simp [BusObs.concerns, ho]
  have harmed : Threads.total (Frame.armed a) (Threads.replaceTop frames t fs) = 0 :=
    Threads.total_eq_zero_iff.mpr (hengaged.imp fun g hg => g.armed_of_engaged hg)
  have hexpiring :
      Threads.total (Frame.expiring a) (Threads.replaceTop frames t fs) = 0 :=
    Threads.total_eq_zero_iff.mpr
      (hengaged.imp fun g hg => g.expiring_of_engaged hg)
  exact
    { fresh := fun hle => absurd hle (by omega)
      active := fun _ => hd
      one := hd.le.trans (Nat.zero_le 1)
      mute := fun _ => hc
      account := fun _ _ => by rw [harmed, hc]; exact Nat.zero_le _
      expiry := fun _ _ hpos => by
        rw [hexpiring, htimeout] at hpos
        exact absurd hpos (Nat.lt_irrefl 0)
      live := hsilent.sameAccount.live h.live }

/-- What a won exchange does to the awaiter itself. -/
theorem deactivate_isActive (w : World ε) (a : Nat) (cause : Cause) :
    (w.deactivate a cause).isActive a = false := by
  simp [World.isActive, World.deactivate, World.setAwaiter, World.note]

theorem deactivate_singleShot (w : World ε) (a : Nat) (cause : Cause) :
    ((w.deactivate a cause).awaiters a).singleShot =
      (w.awaiters a).singleShot := by
  simp [World.deactivate, World.setAwaiter, World.note]

theorem deactivate_callback (w : World ε) (a : Nat) (cause : Cause) :
    ((w.deactivate a cause).awaiters a).callback = (w.awaiters a).callback := by
  simp [World.deactivate, World.setAwaiter, World.note]

/-- An exchange was won: nothing was won before, and the account still holds if
what is armed and what has expired now is covered. -/
theorem AwaiterInv.deactivate (h : AwaiterInv a w frames)
    (hactive : w.isActive a) (cause : Cause)
    (harmed : Threads.total (Frame.armed a) (Threads.replaceTop frames t fs) ≤
      Threads.total (Frame.armed a) frames + if cause = .matched then 1 else 0)
    (hexpiring : cause = .matched →
      Threads.total (Frame.expiring a) (Threads.replaceTop frames t fs) =
        Threads.total (Frame.expiring a) frames) :
    AwaiterInv a (w.deactivate a cause) (Threads.replaceTop frames t fs) := by
  have hzero := h.active hactive
  have hclaims := countP_claims a w.log
  have hlog : (w.deactivate a cause).log = .deactivated a cause :: w.log := rfl
  have hnot := deactivate_isActive w a cause
  have hd : (w.deactivate a cause).log.countP (·.deactivates a) = 1 := by
    have hwon : (.deactivated a cause : BusObs ε).deactivates a :=
      decide_eq_true rfl
    rw [hlog, List.countP_cons_of_pos hwon, hzero]
  have hc : (w.deactivate a cause).log.countP (·.startsCallback a) =
      w.log.countP (·.startsCallback a) := by
    rw [hlog, List.countP_cons_of_neg Bool.false_ne_true]
  have ht : (w.deactivate a cause).log.countP (·.startsTimeout a) =
      w.log.countP (·.startsTimeout a) := by
    rw [hlog, List.countP_cons_of_neg Bool.false_ne_true]
  have hclaim : (w.deactivate a cause).log.countP (·.claims a) =
      if cause = .matched then 1 else 0 := by
    have hclaimed : w.log.countP (·.claims a) = 0 := by omega
    rw [hlog, List.countP_cons, hclaimed]
    cases cause <;> simp [BusObs.claims]
  exact
    { fresh := fun hle => absurd hactive (Bool.eq_false_iff.mp (h.fresh hle).1)
      active := fun hact => absurd hact (Bool.eq_false_iff.mp hnot)
      one := hd.le
      mute := fun hmute => hc.trans (h.mute (deactivate_callback w a cause ▸ hmute))
      account := fun hsingle hcallback => by
        have hle := h.account (deactivate_singleShot w a cause ▸ hsingle)
          (deactivate_callback w a cause ▸ hcallback)
        rw [hc, hclaim]
        omega
      expiry := fun hsingle hcallback hpos => by
        refine ⟨?_, hnot⟩
        rw [hclaim]
        refine if_neg fun hmatched => ?_
        rw [ht, hexpiring hmatched] at hpos
        -- What had expired would have ended the awaiter before.
        have hend := h.expiry (deactivate_singleShot w a cause ▸ hsingle)
          (deactivate_callback w a cause ▸ hcallback) hpos
        exact Bool.eq_false_iff.mp hend.2 hactive
      live := List.pairwise_cons.mpr ⟨fun _ _ _ => rfl, h.live⟩ }

/-- The callback starts, and what was armed has been spent. -/
theorem AwaiterInv.call (h : AwaiterInv a w frames) {ev : Event ε}
    (ht : frames t = .handleEvent a ev .callback :: rest)
    (hcallback : (w.awaiters a).callback)
    (hlive : (w.awaiters a).singleShot = false → w.isActive a) :
    AwaiterInv a (w.note (.callbackStarted a ev)) (Threads.replaceTop frames t
      [.user (.callback a), .handleEvent a ev .calling]) := by
  have hlog : (w.note (.callbackStarted a ev)).log =
      .callbackStarted a ev :: w.log := rfl
  have hcount := countP_claims a w.log
  have htotal := Threads.total_replaceTop (p := Frame.armed a)
    [.user (.callback a), .handleEvent a ev .calling] ht
  have hone : [(.handleEvent a ev .callback : Frame ε)].countP (Frame.armed a) = 1 := by
    simp [Frame.armed]
  have hnone : [(.user (.callback a) : Frame ε), .handleEvent a ev .calling].countP
      (Frame.armed a) = 0 := by
    simp [Frame.armed]
  have hexpiring := Threads.total_replaceTop_of_none (p := Frame.expiring a)
    [.user (.callback a), .handleEvent a ev .calling] ht rfl
    (by simp [Frame.expiring])
  -- Either nobody has won, or the one who won did so after a match.
  have hother : w.log.countP (·.endsOtherwise a) = 0 := by
    cases hsingle : (w.awaiters a).singleShot with
    | true =>
        have hle := h.account hsingle hcallback
        have hd := h.one
        omega
    | false =>
        have hd := h.active (hlive hsingle)
        omega
  have hd : (w.note (.callbackStarted a ev)).log.countP (·.deactivates a) =
      w.log.countP (·.deactivates a) := by
    rw [hlog, List.countP_cons_of_neg Bool.false_ne_true]
  have hclaims : (w.note (.callbackStarted a ev)).log.countP (·.claims a) =
      w.log.countP (·.claims a) := by
    rw [hlog, List.countP_cons_of_neg Bool.false_ne_true]
  have hstarts : (w.note (.callbackStarted a ev)).log.countP (·.startsCallback a) =
      w.log.countP (·.startsCallback a) + 1 := by
    have hstart : (.callbackStarted a ev : BusObs ε).startsCallback a :=
      decide_eq_true rfl
    rw [hlog, List.countP_cons_of_pos hstart]
  have htimeouts : (w.note (.callbackStarted a ev)).log.countP (·.startsTimeout a) =
      w.log.countP (·.startsTimeout a) := by
    rw [hlog, List.countP_cons_of_neg Bool.false_ne_true]
  exact
    { fresh := fun hle => by
        have hengaged := (h.fresh hle).2.1.top ht
        exact absurd (decide_eq_true rfl) (Bool.eq_false_iff.mp hengaged)
      active := fun hact => hd.trans (h.active hact)
      one := hd.le.trans h.one
      mute := fun hmute => absurd hcallback (Bool.eq_false_iff.mp hmute)
      account := fun hsingle hcallback => by
        have hle := h.account hsingle hcallback
        rw [hstarts, hclaims]
        omega
      expiry := fun hsingle hcallback hpos => by
        rw [hexpiring, htimeouts] at hpos
        rw [hclaims]
        exact h.expiry hsingle hcallback hpos
      live := List.pairwise_cons.mpr
        ⟨fun o ho hends =>
          absurd hends (List.countP_eq_zero.mp hother o ho), h.live⟩ }

/-- A match took the frame to the callback without a claim, which the account
only allows where it does not count. -/
theorem AwaiterInv.arm (h : AwaiterInv a w frames) {ev : Event ε}
    (ht : frames t = .handleEvent a ev .matched :: rest)
    (hfree : (w.awaiters a).singleShot → (w.awaiters a).callback = false) :
    AwaiterInv a w (Threads.replaceTop frames t [.handleEvent a ev .callback]) :=
  { h with
    fresh := fun hle => by
      have hengaged := (h.fresh hle).2.1.top ht
      exact absurd (decide_eq_true rfl) (Bool.eq_false_iff.mp hengaged)
    account := fun hsingle hcallback =>
      absurd hcallback (Bool.eq_false_iff.mp (hfree hsingle))
    expiry := fun hsingle hcallback =>
      absurd hcallback (Bool.eq_false_iff.mp (hfree hsingle)) }

/-- The deadline passed and somebody else had ended the awaiter. -/
theorem AwaiterInv.overtake (h : AwaiterInv a w frames)
    (ht : frames t = .pollTimeout a (.expired true) :: rest)
    (hactive : w.isActive a = false)
    (hclaims : (w.awaiters a).singleShot → (w.awaiters a).callback →
      w.log.any (·.claims a) = false) :
    AwaiterInv a w
      (Threads.replaceTop frames t [.pollTimeout a (.timedOut true)]) :=
  { h with
    fresh := fun hle => by
      have hengaged := (h.fresh hle).2.1.top ht
      exact absurd (decide_eq_true rfl) (Bool.eq_false_iff.mp hengaged)
    account := fun hsingle hcallback => by
      rw [Threads.total_replaceTop_of_none _ ht rfl (by simp [Frame.armed])]
      exact h.account hsingle hcallback
    expiry := fun hsingle hcallback _ => by
      refine ⟨List.countP_eq_zero.mpr fun o ho hclaim => ?_, hactive⟩
      exact Bool.eq_false_iff.mp (hclaims hsingle hcallback)
        (List.any_eq_true.mpr ⟨o, ho, hclaim⟩) }

/-- `on_timeout` starts. -/
theorem AwaiterInv.timeOut (h : AwaiterInv a w frames)
    (ht : frames t = .pollTimeout a (.timedOut true) :: rest) :
    AwaiterInv a (w.note (.timeoutStarted a)) (Threads.replaceTop frames t
      [.user (.onTimeout a), .pollTimeout a .calling]) := by
  have hlog : (w.note (.timeoutStarted a)).log = .timeoutStarted a :: w.log := rfl
  have htotal := Threads.total_replaceTop (p := Frame.expiring a)
    [.user (.onTimeout a), .pollTimeout a .calling] ht
  have hone :
      [(.pollTimeout a (.timedOut true) : Frame ε)].countP (Frame.expiring a) = 1 := by
    simp [Frame.expiring]
  have hnone : [(.user (.onTimeout a) : Frame ε), .pollTimeout a .calling].countP
      (Frame.expiring a) = 0 := by
    simp [Frame.expiring]
  have hd : (w.note (.timeoutStarted a)).log.countP (·.deactivates a) =
      w.log.countP (·.deactivates a) := by
    rw [hlog, List.countP_cons_of_neg Bool.false_ne_true]
  have hclaims : (w.note (.timeoutStarted a)).log.countP (·.claims a) =
      w.log.countP (·.claims a) := by
    rw [hlog, List.countP_cons_of_neg Bool.false_ne_true]
  have hstarts : (w.note (.timeoutStarted a)).log.countP (·.startsCallback a) =
      w.log.countP (·.startsCallback a) := by
    rw [hlog, List.countP_cons_of_neg Bool.false_ne_true]
  exact
    { fresh := fun hle => by
        have hengaged := (h.fresh hle).2.1.top ht
        exact absurd (decide_eq_true rfl) (Bool.eq_false_iff.mp hengaged)
      active := fun hact => hd.trans (h.active hact)
      one := hd.le.trans h.one
      mute := fun hmute => hstarts.trans (h.mute hmute)
      account := fun hsingle hcallback => by
        rw [hstarts, hclaims,
          Threads.total_replaceTop_of_none _ ht rfl (by simp [Frame.armed])]
        exact h.account hsingle hcallback
      expiry := fun hsingle hcallback _ => by
        rw [hclaims]
        refine h.expiry hsingle hcallback ?_
        omega
      live := List.pairwise_cons.mpr ⟨fun _ _ _ => rfl, h.live⟩ }

variable [RequestTraits ε] {s s' : BusSystem ι ε}

theorem AwaiterInv.step {act : BusAction ι ε}
    (h : AwaiterInv a s.world s.frames) (hlive : FindsLive a s act)
    (hstep : BusSystem.step s act = some s') :
    AwaiterInv a s'.world s'.frames := by
  rcases BusSystem.step_cases hstep with
    ⟨delta, rfl, rfl⟩ | ⟨t, f, rest, o, ht, hmoved, rfl⟩
  · exact ⟨h.fresh, h.active, h.one, h.mute, h.account, h.expiry, h.live⟩
  have hstill (hf : ∀ code, f ≠ .user code) : StillLive a s.world f := by
    rw [hmoved.eq_advance hf] at hlive
    exact hlive f (by rw [ht]; rfl)
  obtain ⟨w', fs, mode⟩ := o
  show AwaiterInv a w' (Threads.replaceTop s.frames t fs)
  cases hmoved.awaiterMove a with
  | quiet hstill harmed hexpiring hfs =>
      exact h.still ht hstill harmed hexpiring hfs
  | created ha hnext hlog harmed hexpiring hfs => exact h.create ha hnext hlog hfs
  | ended cause hcause hactive hw harmed hexpiring hfs =>
      subst hw
      refine h.deactivate hactive cause ?_ fun heq => absurd heq hcause
      rw [Threads.total_replaceTop_of_none _ ht harmed fun g hg => (hfs g hg).1]
      exact Nat.le_add_right _ _
  | claimed ev hf hsingle hactive hw hfs =>
      subst hf hw hfs
      refine h.deactivate hactive .matched ?_ fun _ =>
        Threads.total_replaceTop_of_none _ ht rfl (by simp [Frame.expiring])
      have htotal := Threads.total_replaceTop (p := Frame.armed a)
        [.release a, .handleEvent a ev .callback] ht
      have hnew : [(.release a : Frame ε), .handleEvent a ev .callback].countP
          (Frame.armed a) = 1 := by
        simp [Frame.armed]
      rw [if_pos rfl]
      omega
  | lost ev hf hsingle hactive hw hfs =>
      subst hf hw hfs
      refine h.arm ht fun hsingle => Bool.eq_false_iff.mpr fun hcallback => ?_
      exact Bool.eq_false_iff.mp hactive
        (hstill (fun _ => nofun) rfl hsingle hcallback)
  | repeated ev hf hsingle hw hfs =>
      subst hf hw hfs
      exact h.arm ht fun h => absurd h (Bool.eq_false_iff.mp hsingle)
  | called ev hf hcallback hw hfs =>
      subst hf hw hfs
      exact h.call ht hcallback fun hsingle =>
        hstill (fun _ => nofun) rfl hsingle hcallback
  | mute ev hf hcallback hw hfs =>
      subst hf hw hfs
      exact
        { h with
          fresh := fun hle => by
            have hengaged := (h.fresh hle).2.1.top ht
            exact absurd (decide_eq_true rfl) (Bool.eq_false_iff.mp hengaged)
          account := fun _ hc => absurd hc (Bool.eq_false_iff.mp hcallback)
          expiry := fun _ hc => absurd hc (Bool.eq_false_iff.mp hcallback) }
  | expired hf hactive hw hfs =>
      subst hf hw hfs
      refine h.deactivate hactive .timeout ?_ nofun
      rw [Threads.total_replaceTop_of_none _ ht rfl (by simp [Frame.armed])]
      exact Nat.le_add_right _ _
  | overtaken hf hactive hw hfs =>
      subst hf hw hfs
      exact h.overtake ht hactive fun hsingle hcallback =>
        hstill (fun _ => nofun) rfl hsingle hcallback
  | timedOut hf hw hfs =>
      subst hf hw hfs
      exact h.timeOut ht

/-- In every run in which nothing comes between a check of the awaiter and the
`cancel()` or the callback that relies on it, the awaiter is safe. -/
theorem BusSystem.run_awaiterSafe {as : List (BusAction ι ε)}
    (hrun : Lts.run step {} as = some s)
    (hlive : Lts.RunMeets step (FindsLive a) {} as) :
    AwaiterSafe a (s.world.awaiters a).singleShot s.world.log :=
  (Lts.run_invariant_of_meets (P := fun s => AwaiterInv a s.world s.frames)
    (fun _ _ _ h hl hstep => h.step hl hstep) AwaiterInv.init hlive
    hrun).awaiterSafe

end AwaiterInv

/-- A single-shot awaiter whose predicate is about to decide on an event. -/
def predicateRun : List (BusAction Unit Nat) :=
  [.call () (.createAwaiter { type := 0, predicate := .user } none)] ++
  List.replicate 5 (.advance ()) ++
  [.call () (.emit { type := 0, payload := 0 })] ++
  List.replicate 6 (.advance ())

theorem BusSystem.run_awaiterSafe_matched :
    ∃ s, Lts.run step ({} : BusSystem Unit Nat)
        (predicateRun ++ [.ret () true] ++ List.replicate 4 (.advance ())) = some s ∧
      s.world.log.any (·.startsCallback 0) ∧
      AwaiterSafe 0 (s.world.awaiters 0).singleShot s.world.log := by
  obtain ⟨s, hs, hstarted⟩ : ∃ s : BusSystem Unit Nat,
      Lts.run step {} (predicateRun ++ [.ret () true] ++
        List.replicate 4 (.advance ())) = some s ∧
        s.world.log.any (·.startsCallback 0) :=
    Lts.exists_run_of_decide (by decide)
  exact ⟨s, hs, hstarted, run_awaiterSafe hs (.of_checks (by decide))⟩

/-- The predicate cancels its awaiter and then accepts the event. -/
theorem BusSystem.awaiterSafe_fails :
    ∃ s, Lts.run step ({} : BusSystem Unit Nat)
        (predicateRun ++ [.call () (.cancelAwaiter 0)] ++
          List.replicate 2 (.advance ()) ++ [.ret () true] ++
          List.replicate 3 (.advance ())) = some s ∧
      ¬ AwaiterSafe 0 (s.world.awaiters 0).singleShot s.world.log :=
  Lts.exists_run_of_decide (by decide)

end EventHub
