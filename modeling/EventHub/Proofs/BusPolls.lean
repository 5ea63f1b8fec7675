import EventHub.Proofs.BusRecords
import EventHub.Proofs.BusStacks

/-!
# A poll of the awaiters

`poll_awaiters` copies the live awaiters and gives each its turn. A turn may run
`on_timeout`, which may do anything: throw, poll again inside, cancel who is
still to come, create who is not in the copy. On one thread the frames of a poll
nevertheless keep one shape, `polling live` with the turn of one awaiter on top
of it, and a turn ends in one way only, by returning. That everybody has a turn
and that nothing escapes is read off that shape.

What a turn does to its awaiter is read off one account. A timeout that won its
`cancel()` is paid for by one start of `on_timeout`, which has happened or is
the next thing to happen, and nothing else starts it.

An awaiter may lose its place for a reason that is neither its turn nor a
cancellation: an event that `on_timeout` emits may be the one it waits for.
-/

namespace EventHub

variable {ε : Type}

/-- Code of the program called `cancel()` or closed the endpoint. -/
def Cause.byUser : Cause → Bool
  | .cancel .call | .cancel .close => true
  | _ => false

/-- It did so, or its event came. -/
def Cause.byProgram : Cause → Bool
  | .matched => true
  | cause => cause.byUser

/-- The awaiter ended by its deadline. -/
def BusObs.timesOut (a : Nat) : BusObs ε → Bool
  | .deactivated b .timeout => b = a
  | _ => false

/-- What a check of the awaiter at `pc` will find. -/
def World.dueAt (w : World ε) (a : Nat) : PollPc → Bool
  | .entry | .token => w.tokenCancelled a || w.deadlinePassed a
  | .deadline => w.deadlinePassed a
  | _ => false

/-- The frame is at a check that finds the token of the awaiter cancelled or its
deadline passed. -/
def Frame.findsDue (a : Nat) (w : World ε) : Frame ε → Bool
  | .pollTimeout b .token | .handleEvent b _ .token => b = a && w.tokenCancelled b
  | .pollTimeout b .deadline => b = a && w.deadlinePassed b
  | _ => false

namespace BusSystem

/-- The next step finds the awaiter due. -/
def FindsDue (a : Nat) (s : BusSystem Unit ε) : Prop :=
  (s.frames ()).head?.any (Frame.findsDue a s.world)

instance decidableFindsDue (a : Nat) (s : BusSystem Unit ε) :
    Decidable (s.FindsDue a) := inferInstanceAs (Decidable (_ = true))

variable [RequestTraits ε]

/-- `poll_awaiters`, called by `emit` or `process` above `rest`, from its start
to its end, however it ends. -/
structure Polls (rest : List (Frame ε)) (s : BusSystem Unit ε)
    (as : List (BusAction Unit ε)) (s' : BusSystem Unit ε) : Prop where
  called : s.frames () = .pollAwaiters :: rest
  mode : s.mode () ≠ .throwing
  run : Lts.run step s as = some s'
  inside : Lts.RunMeets step (fun m _ => m.frames () ≠ rest) s as
  ended : s'.frames () = rest

/-- Who was active and registered, was never found due, and was not ended for a
reason in `excused`, is active and registered. -/
def Keeps (excused : Cause → Bool) (s : BusSystem Unit ε)
    (as : List (BusAction Unit ε)) (s' : BusSystem Unit ε) : Prop :=
  ∀ a ∈ s.world.registered, s.world.isActive a →
    Lts.RunMeets step (fun m _ => ¬ m.FindsDue a) s as →
    (∀ cause, excused cause → .deactivated a cause ∉ s'.world.log) →
    s'.world.isActive a ∧ a ∈ s'.world.registered

structure PollComplete (rest : List (Frame ε)) (s : BusSystem Unit ε)
    (as : List (BusAction Unit ε)) (s' : BusSystem Unit ε) : Prop where
  /-- No exception leaves the poll, -/
  returned : s'.mode () ≠ .throwing
  /-- nor the turn of an awaiter. -/
  contained : ∀ m live, Lts.Visits step s as m →
    m.frames () = .polling live :: rest → m.mode () ≠ .throwing
  /-- Every awaiter that was active and registered has its turn. -/
  turns : ∀ a ∈ s.world.registered, s.world.isActive a →
    ∃ m live, Lts.Visits step s as m ∧
      m.frames () = .pollTimeout a .entry :: .polling live :: rest
  /-- Who is due at its turn ends. -/
  due : ∀ a ∈ s.world.registered, s.world.isActive a →
    ∀ m live pc, Lts.Visits step s as m →
      m.frames () = .pollTimeout a pc :: .polling live :: rest →
      m.world.dueAt a pc → s'.world.isActive a = false
  /-- Who ended has run its `on_timeout` once if it ended by its deadline, else
  never, and will not run it again. -/
  onTimeout : ∀ a ∈ s.world.registered, s.world.isActive a →
    s'.world.isActive a = false →
    ∀ bs later, Lts.run step s' bs = some later →
      later.world.log.countP (·.startsTimeout a) =
        if (s.world.awaiters a).onTimeout && s'.world.log.any (·.timesOut a)
        then 1 else 0
  kept : Keeps Cause.byProgram s as s'

end BusSystem

/-! ## What a step does to one awaiter -/

/-- In its turn, past the check that the awaiter is active, and not yet in
`on_timeout`. -/
def Frame.inTurn (a : Nat) : Frame ε → Bool
  | .pollTimeout b .token | .pollTimeout b .deadline | .pollTimeout b (.expired _)
  | .pollTimeout b (.timedOut _) => b = a
  | _ => false

/-- A step that leaves the awaiter and its `on_timeout` alone. -/
structure LifeStill (a : Nat) (w w' : World ε) : Prop where
  onTimeout : (w'.awaiters a).onTimeout = (w.awaiters a).onTimeout
  cancelled : (w'.awaiters a).cancelled = (w.awaiters a).cancelled
  nextAwaiter : w.nextAwaiter ≤ w'.nextAwaiter
  log : w'.log = w.log ∨ ∃ o : BusObs ε, w'.log = o :: w.log ∧
    o.startsTimeout a = false ∧ o.deactivates a = false

inductive LifeMove (a : Nat) (w : World ε) (f : Frame ε) (w' : World ε)
    (fs : List (Frame ε)) : Prop
  | still (hstill : LifeStill a w w') (hf : f.inTurn a = false)
      (hfs : ∀ g ∈ fs, g.inTurn a = false)
  | created (ha : a = w.nextAwaiter) (hnext : w'.nextAwaiter = a + 1)
      (hlog : ∃ o : BusObs ε, w'.log = o :: w.log ∧ o.startsTimeout a = false ∧
        o.deactivates a = false)
      (hf : f.inTurn a = false) (hfs : ∀ g ∈ fs, g.inTurn a = false)
  | ended (cause : Cause)
      (hcause : (∃ c, f = .cancel a c ∧ cause = .cancel c) ∨
        ∃ ev, f = .handleEvent a ev .matched ∧ cause = .matched)
      (hactive : w.isActive a) (hw : w' = w.deactivate a cause)
      (hfs : ∀ g ∈ fs, g.inTurn a = false)
  | turn (pc : PollPc) (hf : f = .pollTimeout a pc)
      (hw : w' = (advancePoll w a pc).world)
      (hfs : fs = (advancePoll w a pc).frames)

section LifeMove

variable {a : Nat} {w w' : World ε} {f : Frame ε} {fs : List (Frame ε)}
  {o : Outcome ε}

theorem LifeStill.of_awaiters (hawaiters : w'.awaiters = w.awaiters)
    (hnext : w'.nextAwaiter = w.nextAwaiter)
    (hlog : w'.log = w.log ∨ ∃ o : BusObs ε, w'.log = o :: w.log ∧
      o.startsTimeout a = false ∧ o.deactivates a = false) :
    LifeStill a w w' where
  onTimeout := by rw [hawaiters]
  cancelled := by rw [hawaiters]
  nextAwaiter := hnext.ge
  log := hlog

theorem LifeStill.refl : LifeStill a w w := .of_awaiters rfl rfl (.inl rfl)

theorem LifeStill.setAwaiter {b : Nat} {x : Awaiter}
    (honTimeout : b = a → x.onTimeout = (w.awaiters b).onTimeout)
    (hcancelled : b = a → x.cancelled = (w.awaiters b).cancelled) :
    LifeStill a w (w.setAwaiter b x) := by
  have hx : (w.setAwaiter b x).awaiters a = if a = b then x else w.awaiters a := rfl
  by_cases hab : a = b
  · subst hab
    rw [if_pos rfl] at hx
    exact ⟨by rw [hx, honTimeout rfl], by rw [hx, hcancelled rfl], Nat.le_refl _,
      .inl rfl⟩
  · rw [if_neg hab] at hx
    exact ⟨by rw [hx], by rw [hx], Nat.le_refl _, .inl rfl⟩

theorem LifeStill.deactivate {b : Nat} (cause : Cause) (hb : b ≠ a) :
    LifeStill a w (w.deactivate b cause) := by
  have hset := LifeStill.setAwaiter (w := w) (a := a) (b := b)
    (x := { w.awaiters b with cancelled := true })
    (fun h => absurd h hb) (fun h => absurd h hb)
  exact ⟨hset.onTimeout, hset.cancelled, Nat.le_refl _,
    .inr ⟨_, rfl, rfl, decide_eq_false hb⟩⟩

theorem LifeStill.release (b : Nat) : LifeStill a w (w.release b) := by
  unfold World.release
  dsimp only
  split
  · have hset := LifeStill.setAwaiter (a := a)
      (w := w.unsubscribe (w.awaiters b).subscriptionId) (b := b)
      (x := { w.awaiters b with subscriptionId := 0, retainSelf := false })
      (fun _ => rfl) (fun _ => rfl)
    exact ⟨hset.onTimeout, hset.cancelled, hset.nextAwaiter, hset.log⟩
  · exact .setAwaiter (fun _ => rfl) (fun _ => rfl)

/-- A step of frames that check nothing, on a world in which only other things
changed. -/
theorem LifeMove.outside (hawaiters : w'.awaiters = w.awaiters)
    (hnext : w'.nextAwaiter = w.nextAwaiter)
    (hlog : w'.log = w.log ∨ ∃ o : BusObs ε, w'.log = o :: w.log ∧
      o.startsTimeout a = false ∧ o.deactivates a = false)
    (hf : f.inTurn a = false) (hfs : ∀ g ∈ fs, g.inTurn a = false) :
    LifeMove a w f w' fs :=
  .still (.of_awaiters hawaiters hnext hlog) hf hfs

theorem cancelThen_lifeMove {b : Nat} {cause : Cause} {rest : List (Frame ε)}
    (hcause : b = a → (∃ c, f = .cancel a c ∧ cause = .cancel c) ∨
      ∃ ev, f = .handleEvent a ev .matched ∧ cause = .matched)
    (hf : f.inTurn a = false) (hrest : ∀ g ∈ rest, g.inTurn a = false) :
    LifeMove a w f (cancelThen w b cause rest).world
      (cancelThen w b cause rest).frames := by
  unfold cancelThen
  split
  · next hactive =>
      have hfs : ∀ g ∈ Frame.release b :: rest, g.inTurn a = false :=
        List.forall_mem_cons.mpr ⟨rfl, hrest⟩
      by_cases hb : b = a
      · subst hb
        exact .ended cause (hcause rfl) hactive rfl hfs
      · exact .still (.deactivate cause hb) hf hfs
  · exact .still .refl hf hrest

theorem advanceHandle_lifeMove [RequestTraits ε] (result : Bool) (b : Nat)
    (ev : Event ε) (pc : HandlePc) :
    LifeMove a w (.handleEvent b ev pc) (advanceHandle w result b ev pc).world
      (advanceHandle w result b ev pc).frames := by
  cases pc with
  | matched =>
      simp only [advanceHandle]
      split
      · exact cancelThen_lifeMove (fun hb => .inr ⟨ev, by rw [hb], rfl⟩) rfl
          (List.forall_mem_singleton.mpr rfl)
      · exact .still .refl rfl (List.forall_mem_singleton.mpr rfl)
  | callback =>
      simp only [advanceHandle]
      split
      · exact .outside rfl rfl (.inr ⟨_, rfl, rfl, rfl⟩) rfl (by simp [Frame.inTurn])
      · exact .still .refl rfl (List.forall_mem_nil _)
  | _ =>
      simp only [advanceHandle]
      repeat' split
      all_goals exact .still .refl rfl (by simp [Frame.inTurn])

/-- The turn of another awaiter. -/
theorem advancePoll_lifeMove (b : Nat) (pc : PollPc) (hb : b ≠ a) :
    LifeMove a w (.pollTimeout b pc) (advancePoll w b pc).world
      (advancePoll w b pc).frames := by
  have hother (pc : PollPc) : (Frame.pollTimeout (ε := ε) b pc).inTurn a = false := by
    cases pc <;> first
      | rfl
      | exact decide_eq_false hb
  have hone (pc : PollPc) : ∀ g ∈ [Frame.pollTimeout (ε := ε) b pc],
      g.inTurn a = false := List.forall_mem_singleton.mpr (hother pc)
  cases pc with
  | deadline =>
      simp only [advancePoll]
      split
      · exact .still (.setAwaiter (fun h => absurd h hb) fun h => absurd h hb)
          (hother _) (hone _)
      · exact .still .refl (hother _) (List.forall_mem_nil _)
  | expired onTimeout =>
      exact cancelThen_lifeMove (fun h => absurd h hb) (hother _) (hone _)
  | timedOut onTimeout =>
      simp only [advancePoll]
      split
      · exact .outside rfl rfl (.inr ⟨_, rfl, decide_eq_false hb, rfl⟩) (hother _)
          (List.forall_mem_cons.mpr ⟨rfl, hone _⟩)
      · exact .still .refl (hother _) (List.forall_mem_nil _)
  | entry | token =>
      simp only [advancePoll]
      split
      · exact .still .refl (hother _) (by simp [Frame.inTurn, hb])
      · exact .still .refl (hother _) (by simp [Frame.inTurn, hb])
  | calling | reporting =>
      exact .still .refl rfl (List.forall_mem_nil _)

theorem advanceDispatch_lifeMove (alive : Guard → Bool) (d : Nat) (ev : Event ε)
    (rest : List CallbackRecord) (pc : DispatchPc) :
    LifeMove a w (.records d ev rest pc)
      (advanceDispatch alive w d ev rest pc).world
      (advanceDispatch alive w d ev rest pc).frames := by
  fun_cases advanceDispatch <;> first
    | exact .still .refl rfl (by simp [Frame.inTurn])
    | exact .outside rfl rfl (.inr ⟨_, rfl, rfl, rfl⟩) rfl (by simp [Frame.inTurn])

theorem advance_lifeMove [RequestTraits ε] {alive : Guard → Bool} {result : Bool}
    (h : advance alive w result f = some o) :
    LifeMove a w f o.world o.frames := by
  cases f with
  | user code => cases h
  | records d ev rest pc =>
      cases h
      exact advanceDispatch_lifeMove ..
  | handleEvent b ev pc =>
      cases h
      exact advanceHandle_lifeMove ..
  | pollTimeout b pc =>
      cases h
      by_cases hb : b = a
      · exact .turn pc (by rw [hb]) (by rw [hb]) (by rw [hb])
      · exact advancePoll_lifeMove b pc hb
  | cancel b c =>
      cases h
      exact cancelThen_lifeMove (fun hb => .inl ⟨c, by rw [hb], rfl⟩) rfl
        (List.forall_mem_nil _)
  | release b =>
      cases h
      exact .still (.release b) rfl (List.forall_mem_nil _)
  | storeSubscriptionId b id =>
      cases h
      exact .still (.setAwaiter (fun _ => rfl) fun _ => rfl) rfl
        (List.forall_mem_nil _)
  | createAwaiter spec guard via =>
      cases h
      by_cases ha : a = w.nextAwaiter
      · exact .created ha (congrArg (· + 1) ha.symm) ⟨_, rfl, rfl, rfl⟩ rfl
          (by cases via <;> simp [Frame.inTurn])
      · have hx (guard : Option (Option Guard)) :
            (w.createAwaiter spec guard via).awaiters a = w.awaiters a := if_neg ha
        exact .still ⟨by rw [hx], by rw [hx], Nat.le_succ _,
          .inr ⟨_, rfl, rfl, rfl⟩⟩ rfl (by cases via <;> simp [Frame.inTurn])
  | enqueue ev request =>
      cases h
      refine .outside rfl rfl (.inr ⟨_, rfl, rfl, rfl⟩) rfl ?_
      cases request <;> simp [Frame.inTurn]
  | nextRequestId retry request =>
      simp only [advance] at h
      split at h <;> cases h
      · exact .outside rfl rfl (.inl rfl) rfl (by simp [Frame.inTurn])
      · refine .outside rfl rfl (.inr ⟨_, rfl, rfl, rfl⟩) rfl ?_
        cases request <;> simp [requestFrames, Frame.inTurn]
  | dispatch | pollAwaiters | process | processed | requestReturn
  | closeUnsubscribe =>
      cases h
      exact .outside rfl rfl (.inr ⟨_, rfl, rfl, rfl⟩) rfl (by simp [Frame.inTurn])
  | polling live =>
      cases live <;> cases h
      · exact .outside rfl rfl (.inr ⟨_, rfl, rfl, rfl⟩) rfl (List.forall_mem_nil _)
      · exact .outside rfl rfl (.inl rfl) rfl (by simp [Frame.inTurn])
  | draining rest n =>
      cases rest <;> cases h
      · exact .outside rfl rfl (.inl rfl) rfl (by simp [Frame.inTurn])
      · exact .outside rfl rfl (.inr ⟨_, rfl, rfl, rfl⟩) rfl (by simp [Frame.inTurn])
  | cancelling awaiters canceller =>
      cases awaiters <;> cases h <;>
        exact .outside rfl rfl (.inl rfl) rfl (by simp [Frame.inTurn])
  | notifyWorkAvailable =>
      simp only [advance] at h
      split at h <;> cases h
      · exact .outside rfl rfl (.inr ⟨_, rfl, rfl, rfl⟩) rfl (List.forall_mem_nil _)
      · exact .outside rfl rfl (.inl rfl) rfl (List.forall_mem_nil _)
  | _ =>
      cases h
      exact .outside rfl rfl (.inl rfl) rfl (by simp [Frame.inTurn])

theorem unwind_lifeMove (h : unwind w f = some o) :
    LifeMove a w f o.world o.frames := by
  unfold unwind at h
  split at h
  case h_2 | h_7 =>
    split at h <;> cases h <;>
      exact .outside rfl rfl (.inl rfl) rfl (by simp [Frame.inTurn])
  all_goals cases h
  all_goals
    first
    | exact .outside rfl rfl (.inl rfl) rfl (List.forall_mem_nil _)
    | exact .outside rfl rfl (.inr ⟨_, rfl, rfl, rfl⟩) rfl (List.forall_mem_nil _)

theorem call_lifeMove (code : UserCode) (c : BusCall ε) :
    LifeMove a w (.user code) (call w c).1 ((call w c).2 ++ [.user code]) := by
  cases c with
  | clearPending =>
      exact .outside rfl rfl (.inr ⟨_, rfl, rfl, rfl⟩) rfl
        (by simp [call, Frame.inTurn])
  | _ => exact .outside rfl rfl (.inl rfl) rfl (by simp [call, Frame.inTurn])

theorem Moved.lifeMove [RequestTraits ε] {s : BusSystem Unit ε}
    {act : BusAction Unit ε} {t : Unit} (h : Moved s act t f o) (a : Nat) :
    LifeMove a s.world f o.world o.frames := by
  cases h with
  | advance hmode h => exact advance_lifeMove h
  | unwind hmode h => exact unwind_lifeMove h
  | call c hmode => exact call_lifeMove ..
  | ret | throw | «catch» => exact .still .refl rfl (by simp [Frame.inTurn])

theorem LifeMove.nextAwaiter (h : LifeMove a w f w' fs) :
    w.nextAwaiter ≤ w'.nextAwaiter := by
  cases h with
  | still hstill hf hfs => exact hstill.nextAwaiter
  | created ha hnext => exact ha ▸ hnext ▸ Nat.le_succ _
  | ended cause hcause hactive hw hfs => exact hw ▸ Nat.le_refl _
  | turn pc hf hw hfs =>
      subst hw
      fun_cases advancePoll <;> first
        | exact Nat.le_refl _
        | (unfold cancelThen; split <;> exact Nat.le_refl _)

theorem LifeMove.mem_log {obs : BusObs ε} (h : LifeMove a w f w' fs)
    (hmem : obs ∈ w.log) : obs ∈ w'.log := by
  cases h with
  | still hstill hf hfs =>
      rcases hstill.log with hlog | ⟨o, hlog, -⟩ <;> rw [hlog]
      · exact hmem
      · exact List.mem_cons_of_mem _ hmem
  | created ha hnext hlog =>
      obtain ⟨o, hlog, -⟩ := hlog
      exact hlog ▸ List.mem_cons_of_mem _ hmem
  | ended cause hcause hactive hw hfs => exact hw ▸ List.mem_cons_of_mem _ hmem
  | turn pc hf hw hfs =>
      subst hw
      fun_cases advancePoll <;> first
        | exact hmem
        | exact List.mem_cons_of_mem _ hmem
        | (unfold cancelThen; split <;> first
            | exact List.mem_cons_of_mem _ hmem
            | exact hmem)

/-- How an active awaiter ends. -/
theorem LifeMove.ends (h : LifeMove a w f w' fs) (hcreated : a < w.nextAwaiter)
    (hactive : w.isActive a) (hinactive : w'.isActive a = false) :
    ∃ cause, ((∃ c, f = .cancel a c ∧ cause = .cancel c) ∨
      (∃ ev, f = .handleEvent a ev .matched ∧ cause = .matched) ∨
      ∃ b, f = .pollTimeout a (.expired b)) ∧ .deactivated a cause ∈ w'.log := by
  have hnot (h : w'.isActive a = w.isActive a) : False :=
    Bool.false_ne_true (hinactive.symm.trans (h.trans hactive))
  cases h with
  | still hstill hf hfs => exact (hnot (congrArg (!·) hstill.cancelled)).elim
  | created ha => exact absurd hcreated (ha ▸ Nat.lt_irrefl _)
  | ended cause hcause hactive hw hfs =>
      subst hw
      exact ⟨cause, hcause.imp id .inl, List.mem_cons_self⟩
  | turn pc hf hw hfs =>
      subst hw
      cases pc with
      | expired b =>
          refine ⟨.timeout, .inr (.inr ⟨b, hf⟩), ?_⟩
          simp only [advancePoll, cancelThen, if_pos hactive]
          exact List.mem_cons_self
      | deadline =>
          refine (hnot ?_).elim
          simp only [advancePoll]
          split
          · show (!(if a = a then _ else _ : Awaiter).cancelled) = _
            rw [if_pos rfl]
            rfl
          · rfl
      | entry | token | timedOut =>
          refine (hnot ?_).elim
          simp only [advancePoll]
          split <;> rfl
      | calling | reporting => exact (hnot rfl).elim

end LifeMove

/-! ## What ends an awaiter that is due -/

/-- The next `cancel()` is one of a check, not of the program. -/
def Frame.endsDue (a : Nat) : Frame ε → Bool
  | .cancel b .token | .pollTimeout b (.expired _) => b = a
  | .cancelAwaiters _ .token | .cancelling _ .token => true
  | _ => false

section EndsDue

variable {a : Nat} {w : World ε} {f : Frame ε} {fs : List (Frame ε)}
  {o : Outcome ε}

theorem Frame.endsDue_of_waiting (h : f.depth = .waiting) : f.endsDue a = false := by
  fun_cases Frame.endsDue a f <;> first
    | rfl
    | cases h

theorem cancelThen_endsDue {b : Nat} {cause : Cause}
    (hfs : ∀ g ∈ fs, g.endsDue a = false) :
    ∀ g ∈ (cancelThen w b cause fs).frames, g.endsDue a = false := by
  unfold cancelThen
  split
  · exact List.forall_mem_cons.mpr ⟨rfl, hfs⟩
  · exact hfs

theorem advance_endsDue [RequestTraits ε] {alive : Guard → Bool} {result : Bool}
    (h : advance alive w result f = some o) (hf : f.endsDue a = false)
    (hdue : f.findsDue a w = false) : ∀ g ∈ o.frames, g.endsDue a = false := by
  cases f with
  | user code => cases h
  | records d ev rest pc =>
      cases h
      fun_cases advanceDispatch <;> simp [Frame.endsDue]
  | handleEvent b ev pc =>
      cases h
      fun_cases advanceHandle <;> first
        | exact cancelThen_endsDue (List.forall_mem_singleton.mpr rfl)
        | simp_all [Frame.endsDue, Frame.findsDue]
  | pollTimeout b pc =>
      cases h
      fun_cases advancePoll <;> first
        | exact cancelThen_endsDue (List.forall_mem_singleton.mpr rfl)
        | simp_all [Frame.endsDue, Frame.findsDue]
  | cancel b canceller =>
      cases h
      exact cancelThen_endsDue (List.forall_mem_nil _)
  | cancelAwaiters e canceller =>
      cases h
      cases canceller with
      | token => cases hf
      | call | close => exact List.forall_mem_singleton.mpr rfl
  | cancelling live canceller =>
      cases canceller with
      | token => cases hf
      | call | close => cases live <;> cases h <;> simp [Frame.endsDue]
  | createAwaiter spec guard via =>
      cases h
      cases via <;> simp [Frame.endsDue]
  | enqueue ev request =>
      cases h
      cases request <;> simp [Frame.endsDue]
  | nextRequestId retry request =>
      simp only [advance] at h
      split at h <;> cases h
      · exact List.forall_mem_singleton.mpr rfl
      · cases request <;> simp [requestFrames, Frame.endsDue]
  | polling live | draining live n =>
      cases live <;> cases h <;> simp [Frame.endsDue]
  | notifyWorkAvailable =>
      simp only [advance] at h
      split at h <;> cases h <;> exact List.forall_mem_nil _
  | _ =>
      cases h
      simp [Frame.endsDue]

theorem unwind_endsDue (h : unwind w f = some o) :
    ∀ g ∈ o.frames, g.endsDue a = false := by
  unfold unwind at h
  split at h
  case h_2 | h_7 => split at h <;> cases h <;> simp [Frame.endsDue]
  all_goals cases h
  all_goals exact List.forall_mem_nil _

theorem call_endsDue (code : UserCode) (c : BusCall ε) :
    ∀ g ∈ (call w c).2 ++ [.user code], g.endsDue a = false := by
  cases c <;> simp [call, Frame.endsDue]

theorem Moved.endsDue [RequestTraits ε] {s : BusSystem Unit ε}
    {act : BusAction Unit ε} {t : Unit} (h : Moved s act t f o)
    (hf : f.endsDue a = false) (hdue : f.findsDue a s.world = false) :
    ∀ g ∈ o.frames, g.endsDue a = false := by
  cases h with
  | advance hmode h => exact advance_endsDue h hf hdue
  | unwind hmode h => exact unwind_endsDue h
  | call c hmode => exact call_endsDue _ c
  | ret | throw => exact List.forall_mem_nil _
  | «catch» => exact List.forall_mem_singleton.mpr rfl

end EndsDue

/-! ## The account of one awaiter -/

/-- The life of an awaiter whose `on_timeout` is set as `given` says; the frames
are those of the one thread. -/
structure Life (a : Nat) (given : Bool) (w : World ε) (fs : List (Frame ε)) :
    Prop where
  created : a < w.nextAwaiter
  /-- Between the check and `cancel()` nobody else moves. -/
  checked : ∀ f ∈ fs, f.inTurn a → f.depth = .fleeting → w.isActive a
  moved : ∀ b, .pollTimeout a (.expired b) ∈ fs → b = given
  held : w.isActive a → (∀ b, .pollTimeout a (.expired b) ∉ fs) →
    (w.awaiters a).onTimeout = given
  account : w.log.countP (·.startsTimeout a) + fs.countP (Frame.expiring a) =
    if given && w.log.any (·.timesOut a) then 1 else 0

structure Unborn (a : Nat) (w : World ε) (fs : List (Frame ε)) : Prop where
  fresh : w.nextAwaiter ≤ a
  inactive : w.isActive a = false
  frames : ∀ f ∈ fs, f.inTurn a = false
  silent : w.log.countP (·.startsTimeout a) = 0

section Life

variable {a : Nat} {given : Bool} {w w' : World ε} {f : Frame ε}
  {fs rest : List (Frame ε)}

theorem Frame.expiring_of_inTurn (h : f.inTurn a = false) :
    f.expiring a = false := by
  fun_cases Frame.expiring a f
  · exact h
  · rfl

theorem countP_expiring (h : ∀ g ∈ fs, g.inTurn a = false) :
    fs.countP (Frame.expiring a) = 0 :=
  List.countP_eq_zero.mpr fun g hg =>
    Bool.eq_false_iff.mp (g.expiring_of_inTurn (h g hg))

theorem BusObs.timesOut_of_deactivates {o : BusObs ε}
    (h : o.deactivates a = false) : o.timesOut a = false := by
  fun_cases BusObs.timesOut a o
  · exact h
  · rfl

theorem any_timesOut_eq_false {log : List (BusObs ε)}
    (h : log.countP (·.deactivates a) = 0) : log.any (·.timesOut a) = false :=
  List.any_eq_false.mpr fun _ ho => Bool.eq_false_iff.mp
    (BusObs.timesOut_of_deactivates
      (Bool.eq_false_iff.mpr (List.countP_eq_zero.mp h _ ho)))

/-- The frames below the one that moved check nothing that could change. -/
theorem Life.next (h : Life a given w (f :: rest)) (hn : WellNested (f :: rest))
    (hnext : w.nextAwaiter ≤ w'.nextAwaiter)
    (hchecked : ∀ g ∈ fs, g.inTurn a → g.depth = .fleeting → w'.isActive a)
    (hmoved : ∀ b, .pollTimeout a (.expired b) ∈ fs → b = given)
    (hheld : w'.isActive a → (∀ b, .pollTimeout a (.expired b) ∉ fs) →
      (w'.awaiters a).onTimeout = given)
    (haccount : w'.log.countP (·.startsTimeout a) + fs.countP (Frame.expiring a) +
        rest.countP (Frame.expiring a) =
      if given && w'.log.any (·.timesOut a) then 1 else 0) :
    Life a given w' (fs ++ rest) where
  created := h.created.trans_le hnext
  checked g hg hturn hfleeting := by
    rcases List.mem_append.mp hg with hg | hg
    · exact hchecked g hg hturn hfleeting
    · exact absurd hfleeting (hn.tail g hg)
  moved b hb := by
    rcases List.mem_append.mp hb with hb | hb
    · exact hmoved b hb
    · exact absurd rfl (hn.tail _ hb)
  held hactive hb := hheld hactive fun b hmem => hb b (List.mem_append_left _ hmem)
  account := by rw [List.countP_append, ← Nat.add_assoc, haccount]

theorem Life.account_cons (h : Life a given w (f :: rest)) :
    w.log.countP (·.startsTimeout a) + (if f.expiring a then 1 else 0) +
        rest.countP (Frame.expiring a) =
      if given && w.log.any (·.timesOut a) then 1 else 0 := by
  rw [← h.account, List.countP_cons]
  omega

/-- Who is past the check of its deadline has its `on_timeout` taken. -/
theorem Life.onTimeout (h : Life a given w (f :: rest)) (hn : WellNested (f :: rest))
    (hactive : w.isActive a) (hf : ∀ b, f ≠ .pollTimeout a (.expired b)) :
    (w.awaiters a).onTimeout = given := by
  refine h.held hactive fun b hb => ?_
  rcases List.mem_cons.mp hb with hb | hb
  · exact hf b hb.symm
  · exact hn.tail _ hb rfl

/-- The log grows by nothing about the awaiter. -/
theorem countP_eq_of_log {log log' : List (BusObs ε)}
    (hlog : log' = log ∨ ∃ o : BusObs ε, log' = o :: log ∧
      o.startsTimeout a = false ∧ o.deactivates a = false) :
    log'.countP (·.startsTimeout a) = log.countP (·.startsTimeout a) ∧
      log'.any (·.timesOut a) = log.any (·.timesOut a) := by
  rcases hlog with rfl | ⟨o, rfl, hstarts, hends⟩
  · exact ⟨rfl, rfl⟩
  · rw [List.countP_cons_of_neg (Bool.eq_false_iff.mp hstarts), List.any_cons,
      BusObs.timesOut_of_deactivates hends, Bool.false_or]
    exact ⟨rfl, rfl⟩

theorem Life.still (h : Life a given w (f :: rest)) (hn : WellNested (f :: rest))
    (hstill : LifeStill a w w') (hf : f.inTurn a = false)
    (hfs : ∀ g ∈ fs, g.inTurn a = false) : Life a given w' (fs ++ rest) := by
  have hlog := countP_eq_of_log hstill.log
  have hnot (b : Bool) : f ≠ .pollTimeout a (.expired b) := by
    rintro rfl
    exact absurd (hf.symm.trans (decide_eq_true rfl)) Bool.false_ne_true
  refine h.next hn hstill.nextAwaiter
    (fun g hg hturn => absurd hturn (Bool.eq_false_iff.mp (hfs g hg)))
    (fun b hb => ?_) (fun hactive _ => ?_) ?_
  · exact absurd ((hfs _ hb).symm.trans (decide_eq_true rfl)) Bool.false_ne_true
  · rw [hstill.onTimeout]
    rw [World.isActive, hstill.cancelled] at hactive
    exact h.onTimeout hn hactive hnot
  · rw [hlog.1, hlog.2, countP_expiring hfs, ← h.account_cons,
      f.expiring_of_inTurn hf]
    rfl

/-- The frame returns and has changed nothing. -/
theorem Life.pop (h : Life a given w (f :: rest)) (hn : WellNested (f :: rest))
    (hf : ∀ b, f ≠ .pollTimeout a (.expired b)) (hspent : f.expiring a = false) :
    Life a given w rest := by
  have haccount := h.account_cons
  rw [hspent] at haccount
  show Life a given w ([] ++ rest)
  exact h.next hn (Nat.le_refl _) (List.forall_mem_nil _)
    (fun b hb => absurd hb List.not_mem_nil) (fun hactive _ => h.onTimeout hn hactive hf)
    haccount

/-- A turn of the awaiter itself. -/
theorem Life.turn {pc : PollPc} (h : Life a given w (.pollTimeout a pc :: rest))
    (hn : WellNested (.pollTimeout a pc :: rest))
    (honce : w.isActive a → w.log.countP (·.deactivates a) = 0) :
    Life a given (advancePoll w a pc).world
      ((advancePoll w a pc).frames ++ rest) := by
  have haccount := h.account_cons
  have hnever {b : Bool} {fs : List (Frame ε)}
      (hfs : ∀ g ∈ fs, ∀ b, g ≠ .pollTimeout a (.expired b)) :
      .pollTimeout a (.expired b) ∈ fs → b = given := fun hb =>
    absurd rfl (hfs _ hb b)
  have hone {pc : PollPc} (hpc : ∀ b, pc ≠ .expired b) :
      ∀ g ∈ [Frame.pollTimeout (ε := ε) a pc],
        ∀ b, g ≠ .pollTimeout a (.expired b) :=
    List.forall_mem_singleton.mpr fun b hb => hpc b (Frame.pollTimeout.inj hb).2
  cases pc with
  | entry =>
      have hheld (hactive : w.isActive a) : (w.awaiters a).onTimeout = given :=
        h.onTimeout hn hactive (by rintro _ ⟨⟩)
      simp only [advancePoll]
      split
      · next hactive =>
          exact h.next hn (Nat.le_refl _) (fun _ _ _ _ => hactive)
            (fun _ => hnever (hone (by rintro _ ⟨⟩))) (fun hactive _ => hheld hactive) haccount
      · exact h.pop hn (by rintro _ ⟨⟩) rfl
  | token =>
      have hactive : w.isActive a :=
        h.checked _ List.mem_cons_self (decide_eq_true rfl) rfl
      have hheld := h.onTimeout hn hactive (by rintro _ ⟨⟩)
      simp only [advancePoll]
      split
      · exact h.next hn (Nat.le_refl _) (fun _ _ _ _ => hactive)
          (fun _ => hnever (List.forall_mem_singleton.mpr (by rintro _ ⟨⟩))) (fun _ _ => hheld)
          haccount
      · exact h.next hn (Nat.le_refl _) (fun _ _ _ _ => hactive)
          (fun _ => hnever (hone (by rintro _ ⟨⟩))) (fun _ _ => hheld) haccount
  | deadline =>
      have hactive : w.isActive a :=
        h.checked _ List.mem_cons_self (decide_eq_true rfl) rfl
      have hheld := h.onTimeout hn hactive (by rintro _ ⟨⟩)
      simp only [advancePoll]
      split
      · refine h.next hn (Nat.le_refl _) (fun _ _ _ _ => ?_) (fun b hb => ?_)
          (fun _ hb => absurd List.mem_cons_self (hb _)) haccount
        · show !(if a = a then _ else _ : Awaiter).cancelled
          rw [if_pos rfl]
          exact hactive
        · cases List.mem_singleton.mp hb
          exact hheld
      · exact h.pop hn (by rintro _ ⟨⟩) rfl
  | expired b =>
      have hactive : w.isActive a :=
        h.checked _ List.mem_cons_self (decide_eq_true rfl) rfl
      obtain rfl : b = given := h.moved b List.mem_cons_self
      have hnone := any_timesOut_eq_false (honce hactive)
      rw [hnone, Bool.and_false] at haccount
      simp only [advancePoll, cancelThen, if_pos hactive]
      refine h.next hn (Nat.le_refl _) (fun g hg _ hfleeting => ?_)
        (fun b' hb' => ?_) (fun hact => ?_) ?_
      · simp only [List.mem_cons, List.not_mem_nil, or_false] at hg
        rcases hg with rfl | rfl <;> cases hfleeting
      · simp only [List.mem_cons, List.not_mem_nil, or_false] at hb'
        rcases hb' with hb' | hb' <;> cases hb'
      · rw [deactivate_isActive] at hact
        cases hact
      · have hstarts : (w.deactivate a .timeout).log.countP (·.startsTimeout a) =
            w.log.countP (·.startsTimeout a) := List.countP_cons_of_neg (by rintro ⟨⟩)
        have hany : (w.deactivate a .timeout).log.any (·.timesOut a) = true := by
          simp [World.deactivate, World.note, BusObs.timesOut]
        have hcount : [Frame.release (ε := ε) a, .pollTimeout a (.timedOut b)].countP
            (Frame.expiring a) = if b then 1 else 0 := by
          cases b <;> simp [Frame.expiring]
        have hzero : w.log.countP (·.startsTimeout a) = 0 ∧
            rest.countP (Frame.expiring a) = 0 := Nat.add_eq_zero_iff.mp haccount
        rw [hstarts, hany, hcount, Bool.and_true, hzero.1, hzero.2, Nat.zero_add,
          Nat.add_zero]
  | timedOut b =>
      have hheld (hactive : w.isActive a) : (w.awaiters a).onTimeout = given :=
        h.onTimeout hn hactive (by rintro _ ⟨⟩)
      cases b with
      | false => exact h.pop hn (by rintro _ ⟨⟩) rfl
      | true =>
          refine h.next hn (Nat.le_refl _) (fun g hg _ hfleeting => ?_)
            (fun b' hb' => ?_) (fun hactive _ => hheld hactive) ?_
          · simp only [advancePoll, List.mem_cons, List.not_mem_nil, or_false,
              if_true] at hg
            rcases hg with rfl | rfl <;> cases hfleeting
          · simp only [advancePoll, List.mem_cons, List.not_mem_nil, or_false,
              if_true] at hb'
            rcases hb' with hb' | hb' <;> cases hb'
          · have hstarts : (w.note (.timeoutStarted a)).log.countP
                (·.startsTimeout a) = w.log.countP (·.startsTimeout a) + 1 :=
              List.countP_cons_of_pos (decide_eq_true rfl)
            have hany : (w.note (.timeoutStarted a)).log.any (·.timesOut a) =
                w.log.any (·.timesOut a) := rfl
            simp only [advancePoll, if_true]
            rw [hstarts, hany, ← haccount]
            simp [Frame.expiring]
  | calling | reporting => exact h.pop hn (by rintro _ ⟨⟩) rfl

/-- A `cancel()` that is not the turn's. -/
theorem Life.ended (h : Life a given w (f :: rest)) (hn : WellNested (f :: rest))
    {cause : Cause} (hcause : cause ≠ .timeout) (hf : f.inTurn a = false)
    (hfs : ∀ g ∈ fs, g.inTurn a = false) :
    Life a given (w.deactivate a cause) (fs ++ rest) := by
  refine h.next hn (Nat.le_refl _)
    (fun g hg hturn => absurd hturn (Bool.eq_false_iff.mp (hfs g hg)))
    (fun b hb => ?_) (fun hact => ?_) ?_
  · exact absurd ((hfs _ hb).symm.trans (decide_eq_true rfl)) Bool.false_ne_true
  · rw [deactivate_isActive] at hact
    cases hact
  · have hstarts : (w.deactivate a cause).log.countP (·.startsTimeout a) =
        w.log.countP (·.startsTimeout a) := List.countP_cons_of_neg nofun
    have hany : (w.deactivate a cause).log.any (·.timesOut a) =
        w.log.any (·.timesOut a) := by
      cases cause with
      | timeout => exact absurd rfl hcause
      | cancel | matched => rfl
    rw [hstarts, hany, countP_expiring hfs, ← h.account_cons,
      f.expiring_of_inTurn hf]
    rfl

/-- The awaiter is created, or another step passes. -/
theorem Unborn.next (h : Unborn a w (f :: rest)) (hn : w'.isActive a = false ∨
      w'.nextAwaiter = a + 1)
    (hlog : w'.log = w.log ∨ ∃ o : BusObs ε, w'.log = o :: w.log ∧
      o.startsTimeout a = false ∧ o.deactivates a = false)
    (honce : w.log.countP (·.deactivates a) = 0)
    (hfs : ∀ g ∈ fs, g.inTurn a = false) :
    (∃ given, Life a given w' (fs ++ rest)) ∨ Unborn a w' (fs ++ rest) := by
  have hcount := countP_eq_of_log hlog
  have hframes : ∀ g ∈ fs ++ rest, g.inTurn a = false := fun g hg =>
    (List.mem_append.mp hg).elim (hfs g) fun hg =>
      h.frames g (List.mem_cons_of_mem _ hg)
  by_cases hlt : a < w'.nextAwaiter
  · refine .inl ⟨(w'.awaiters a).onTimeout, hlt,
      fun g hg hturn => absurd hturn (Bool.eq_false_iff.mp (hframes g hg)),
      fun b hb => ?_, fun _ _ => rfl, ?_⟩
    · exact absurd ((hframes _ hb).symm.trans (decide_eq_true rfl))
        Bool.false_ne_true
    · rw [hcount.1, hcount.2, h.silent, countP_expiring hframes,
        any_timesOut_eq_false honce, Bool.and_false]
      rfl
  · refine .inr ⟨Nat.le_of_not_lt hlt, hn.resolve_right fun hnext => ?_, hframes,
      hcount.1.trans h.silent⟩
    exact hlt (hnext ▸ Nat.lt_succ_self a)

/-- Every awaiter lives or is still to be created. -/
def Lives (a : Nat) (w : World ε) (fs : List (Frame ε)) : Prop :=
  (∃ given, Life a given w fs) ∨ Unborn a w fs

theorem Life.move (h : Life a given w (f :: rest)) (hn : WellNested (f :: rest))
    (honce : w.isActive a → w.log.countP (·.deactivates a) = 0)
    (hmove : LifeMove a w f w' fs) : Life a given w' (fs ++ rest) := by
  cases hmove with
  | still hstill hf hfs => exact h.still hn hstill hf hfs
  | created ha => exact absurd h.created (ha ▸ Nat.lt_irrefl _)
  | ended cause hcause hactive hw hfs =>
      subst hw
      rcases hcause with ⟨c, rfl, rfl⟩ | ⟨ev, rfl, rfl⟩
      · exact h.ended hn nofun rfl hfs
      · exact h.ended hn nofun rfl hfs
  | turn pc hf hw hfs =>
      subst hf hw hfs
      exact h.turn hn honce

theorem Lives.move (h : Lives a w (f :: rest)) (hn : WellNested (f :: rest))
    (honce : ActiveInv a w) (hmove : LifeMove a w f w' fs) :
    Lives a w' (fs ++ rest) := by
  rcases h with ⟨given, h⟩ | h
  · exact .inl ⟨given, h.move hn honce.active hmove⟩
  have hnever := (honce.fresh h.fresh).2
  cases hmove with
  | still hstill hf hfs =>
      refine h.next (.inl ?_) hstill.log hnever hfs
      rw [World.isActive, hstill.cancelled]
      exact h.inactive
  | created ha hnext hlog hf hfs => exact h.next (.inr hnext) (.inr hlog) hnever hfs
  | ended cause hcause hactive hw hfs =>
      exact absurd (h.inactive.symm.trans hactive) Bool.false_ne_true
  | turn pc hf hw hfs =>
      subst hf hw hfs
      have hpc := h.frames _ List.mem_cons_self
      have hgone (hw : (advancePoll w a pc).world = w)
          (hfs : (advancePoll w a pc).frames = []) :
          Lives a (advancePoll w a pc).world ((advancePoll w a pc).frames ++ rest) := by
        rw [hw, hfs]
        exact h.next (.inl h.inactive) (.inl rfl) hnever (List.forall_mem_nil _)
      cases pc with
      | entry =>
          have hentry : advancePoll w a .entry = { world := w, frames := [] } :=
            if_neg (Bool.eq_false_iff.mp h.inactive)
          exact hgone (by rw [hentry]) (by rw [hentry])
      | calling | reporting => exact hgone rfl rfl
      | _ => exact absurd (hpc.symm.trans (decide_eq_true rfl)) Bool.false_ne_true

/-- An awaiter that ended stays so. -/
theorem LifeMove.inactive (h : LifeMove a w f w' fs) (ha : a < w.nextAwaiter)
    (hinactive : w.isActive a = false) :
    a < w'.nextAwaiter ∧ w'.isActive a = false := by
  cases h with
  | still hstill hf hfs =>
      refine ⟨ha.trans_le hstill.nextAwaiter, ?_⟩
      rw [World.isActive, hstill.cancelled]
      exact hinactive
  | created heq => exact absurd ha (heq ▸ Nat.lt_irrefl _)
  | ended cause hcause hactive hw hfs =>
      exact absurd (hinactive.symm.trans hactive) Bool.false_ne_true
  | turn pc hf hw hfs =>
      subst hw
      have hnot : ¬ w.isActive a := Bool.eq_false_iff.mp hinactive
      cases pc with
      | deadline =>
          simp only [advancePoll]
          split
          · refine ⟨ha, ?_⟩
            show (!(if a = a then _ else _ : Awaiter).cancelled) = false
            rw [if_pos rfl]
            exact hinactive
          · exact ⟨ha, hinactive⟩
      | expired b =>
          simp only [advancePoll, cancelThen, if_neg hnot]
          exact ⟨ha, hinactive⟩
      | entry | token | timedOut =>
          simp only [advancePoll]
          split <;> exact ⟨ha, hinactive⟩
      | calling | reporting => exact ⟨ha, hinactive⟩

/-- The life is over, and nothing of it is still to happen. -/
structure Over (a : Nat) (given timedOut : Bool) (w : World ε)
    (fs : List (Frame ε)) : Prop where
  life : Life a given w fs
  inactive : w.isActive a = false
  spent : fs.countP (Frame.expiring a) = 0
  outcome : w.log.any (·.timesOut a) = timedOut

theorem Over.count {timedOut : Bool} (h : Over a given timedOut w fs) :
    w.log.countP (·.startsTimeout a) = if given && timedOut then 1 else 0 := by
  rw [← h.outcome, ← h.life.account, h.spent]
  rfl

theorem Over.move {timedOut : Bool} (h : Over a given timedOut w (f :: rest))
    (hn : WellNested (f :: rest)) (hmove : LifeMove a w f w' fs) :
    Over a given timedOut w' (fs ++ rest) := by
  have hnot : ¬ w.isActive a := Bool.eq_false_iff.mp h.inactive
  obtain ⟨hfspent, hrest⟩ : f.expiring a = false ∧
      rest.countP (Frame.expiring a) = 0 := by
    have hspent := List.countP_eq_zero.mp h.spent
    exact ⟨Bool.eq_false_iff.mpr (hspent f List.mem_cons_self),
      List.countP_eq_zero.mpr fun g hg => hspent g (List.mem_cons_of_mem _ hg)⟩
  have hlife := h.life.move hn (fun hact => absurd hact hnot) hmove
  have hinactive := (hmove.inactive h.life.created h.inactive).2
  have hgo (hfs : fs.countP (Frame.expiring a) = 0)
      (hany : w'.log.any (·.timesOut a) = w.log.any (·.timesOut a)) :
      Over a given timedOut w' (fs ++ rest) :=
    ⟨hlife, hinactive, by rw [List.countP_append, hfs, hrest], hany.trans h.outcome⟩
  cases hmove with
  | still hstill hf hfs =>
      exact hgo (countP_expiring hfs) (countP_eq_of_log hstill.log).2
  | created heq => exact absurd h.life.created (heq ▸ Nat.lt_irrefl _)
  | ended cause hcause hactive => exact absurd hactive hnot
  | turn pc hf hw hfs =>
      subst hf hw hfs
      have hchecked (hpc : (Frame.pollTimeout (ε := ε) a pc).inTurn a)
          (hfleeting : (Frame.pollTimeout (ε := ε) a pc).depth = .fleeting) : False :=
        hnot (h.life.checked _ List.mem_cons_self hpc hfleeting)
      cases pc with
      | entry =>
          have hentry : advancePoll w a .entry = { world := w, frames := [] } :=
            if_neg hnot
          exact hgo (by rw [hentry]; rfl) (by rw [hentry])
      | token | deadline | expired =>
          exact (hchecked (decide_eq_true rfl) rfl).elim
      | timedOut b =>
          cases b with
          | false => exact hgo rfl rfl
          | true =>
              exact absurd (hfspent.symm.trans (decide_eq_true rfl))
                Bool.false_ne_true
      | calling | reporting => exact hgo rfl rfl

end Life

/-! ## One thread -/

namespace BusSystem

variable [RequestTraits ε] {s s' : BusSystem Unit ε} {act : BusAction Unit ε}
  {as : List (BusAction Unit ε)} {a : Nat} {rest : List (Frame ε)}

theorem stack_cases (h : step s act = some s') :
    (∃ delta, s' =
      { s with world := { s.world with now := s.world.now + delta } }) ∨
    ∃ f below o, s.frames () = f :: below ∧ Moved s act () f o ∧
      s'.world = o.world ∧ s'.frames () = o.frames ++ below ∧
      s'.mode () = o.mode := by
  rcases step_cases h with ⟨delta, rfl, rfl⟩ | ⟨t, f, below, o, ht, hmoved, rfl⟩
  · exact .inl ⟨delta, rfl⟩
  · refine .inr ⟨f, below, o, ht, hmoved, rfl, ?_, ?_⟩
    · show Threads.replaceTop s.frames () o.frames () = _
      rw [Threads.replaceTop_self, ht]
      rfl
    · exact Function.update_self () o.mode s.mode

/-- What holds of an awaiter all its life, and of the frames. -/
structure Sound (s : BusSystem Unit ε) : Prop where
  nested : ∀ t, WellNested (s.frames t)
  once : ∀ a, ActiveInv a s.world
  lives : ∀ a, Lives a s.world (s.frames ())

theorem Sound.step (h : s.Sound) (hstep : step s act = some s') : s'.Sound where
  nested := WellNested.step h.nested hstep
  once a := (h.once a).step hstep
  lives a := by
    rcases stack_cases hstep with
      ⟨delta, rfl⟩ | ⟨f, below, o, hf, hmoved, hw, hfs, -⟩
    · exact (h.lives a).imp
        (fun ⟨given, h⟩ => ⟨given, h.created, h.checked, h.moved, h.held, h.account⟩)
        fun h => ⟨h.fresh, h.inactive, h.frames, h.silent⟩
    · have hn := h.nested ()
      have hlives := h.lives a
      rw [hf] at hn hlives
      rw [hw, hfs]
      exact hlives.move hn (h.once a) (hmoved.lifeMove a)

theorem Reachable.sound (h : s.Reachable) : s.Sound :=
  h.invariant
    { nested := fun _ => .one
      once := fun _ => ⟨fun _ => rfl, fun _ => ⟨rfl, rfl⟩⟩
      lives := fun a => .inr ⟨Nat.zero_le a, rfl,
        List.forall_mem_singleton.mpr rfl, rfl⟩ }
    fun _ _ _ h hstep => h.step hstep

end BusSystem

/-! ## The shape of a poll -/

/-- The frames of the turn of `a`. Only while `on_timeout` or the exception
handler runs, the thread may be throwing. -/
inductive Turn (a : Nat) : List (Frame ε) → Mode → Prop
  | check {mode : Mode} (pc : PollPc) (hpc : pc ≠ .calling) (hpc' : pc ≠ .reporting)
      (hmode : mode ≠ .throwing) : Turn a [.pollTimeout a pc] mode
  | cancel {mode : Mode} (hmode : mode ≠ .throwing) : Turn a [.cancel a .token] mode
  | release {mode : Mode} (after : List (Frame ε))
      (hafter : after = [] ∨ ∃ b, after = [.pollTimeout a (.timedOut b)])
      (hmode : mode ≠ .throwing) : Turn a (.release a :: after) mode
  | within {mode : Mode} (above : List (Frame ε)) (pc : PollPc)
      (hpc : pc = .calling ∨ pc = .reporting) :
      Turn a (above ++ [.pollTimeout a pc]) mode

/-- The frames of a poll above `rest`. -/
inductive InPoll (rest : List (Frame ε)) : List (Frame ε) → Mode → Prop
  | entry {mode : Mode} (hmode : mode ≠ .throwing) :
      InPoll rest (.pollAwaiters :: rest) mode
  | between {mode : Mode} (live : List Nat) (hmode : mode ≠ .throwing) :
      InPoll rest (.polling live :: rest) mode
  | turn {mode : Mode} (a : Nat) (live : List Nat) (above : List (Frame ε))
      (hturn : Turn a above mode) : InPoll rest (above ++ .polling live :: rest) mode
  | ended {mode : Mode} (hmode : mode ≠ .throwing) : InPoll rest rest mode

section InPoll

variable [RequestTraits ε] {s s' : BusSystem Unit ε} {act : BusAction Unit ε}
  {a : Nat} {f : Frame ε} {fs rest : List (Frame ε)} {o : Outcome ε} {mode : Mode}

/-- A frame of the library that runs. -/
theorem advanced_of_moved (h : Moved s act () f o) (hf : ∀ code, f ≠ .user code)
    (hmode : s.mode () ≠ .throwing) :
    ∃ result, advance s.alive s.world result f = some o := by
  cases h with
  | advance hm h => exact ⟨_, h⟩
  | unwind hm h => exact absurd hm hmode
  | call | ret | throw | «catch» => exact absurd rfl (hf _)

/-- A turn goes on, or it returns. -/
theorem Turn.step (h : Turn a (f :: fs) (s.mode ())) (hmoved : Moved s act () f o) :
    Turn a (o.frames ++ fs) o.mode ∨ (o.frames ++ fs = [] ∧ o.mode ≠ .throwing) := by
  generalize hfs : f :: fs = stack at h
  generalize hm : s.mode () = mode at h
  cases h with
  | check pc hpc hpc' hmode =>
      injection hfs with hf hfs
      subst hf hfs hm
      obtain ⟨result, ho⟩ := advanced_of_moved hmoved (by rintro _ ⟨⟩) hmode
      cases ho
      rw [List.append_nil]
      fun_cases advancePoll with
      | case1 | case4 | case5 => exact .inl (.check _ (by rintro ⟨⟩) (by rintro ⟨⟩) (by rintro ⟨⟩))
      | case3 => exact .inl (.cancel (by rintro ⟨⟩))
      | case7 b =>
          unfold cancelThen
          split
          · exact .inl (.release _ (.inr ⟨b, rfl⟩) (by rintro ⟨⟩))
          · exact .inl (.check _ (by rintro ⟨⟩) (by rintro ⟨⟩) (by rintro ⟨⟩))
      | case8 => exact .inl (.within [_] .calling (.inl rfl))
      | case2 | case6 | case9 => exact .inr ⟨rfl, by rintro ⟨⟩⟩
      | case10 => exact absurd rfl hpc
      | case11 => exact absurd rfl hpc'
  | cancel hmode =>
      injection hfs with hf hfs
      subst hf hfs hm
      obtain ⟨result, ho⟩ := advanced_of_moved hmoved (by rintro _ ⟨⟩) hmode
      cases ho
      rw [List.append_nil]
      unfold cancelThen
      split
      · exact .inl (.release [] (.inl rfl) (by rintro ⟨⟩))
      · exact .inr ⟨rfl, by rintro ⟨⟩⟩
  | release after hafter hmode =>
      injection hfs with hf hfs
      subst hf hfs hm
      obtain ⟨result, ho⟩ := advanced_of_moved hmoved (by rintro _ ⟨⟩) hmode
      cases ho
      rcases hafter with rfl | ⟨b, rfl⟩
      · exact .inr ⟨rfl, by rintro ⟨⟩⟩
      · exact .inl (.check _ (by rintro ⟨⟩) (by rintro ⟨⟩) (by rintro ⟨⟩))
  | within above pc hpc =>
      cases above with
      | nil =>
          injection hfs with hf hfs
          subst hf hfs
          rw [List.append_nil]
          cases hmoved with
          | advance hmode h =>
              cases h
              rcases hpc with rfl | rfl <;> exact .inr ⟨rfl, by rintro ⟨⟩⟩
          | unwind hmode h =>
              rcases hpc with rfl | rfl
              · simp only [unwind] at h
                split at h <;> cases h
                · exact .inl (.within [_] .reporting (.inr rfl))
                · exact .inr ⟨rfl, by rintro ⟨⟩⟩
              · cases h
                exact .inr ⟨rfl, by rintro ⟨⟩⟩
      | cons g above =>
          injection hfs with hf hfs
          subst hf hfs
          refine .inl ?_
          rw [List.append_eq, ← List.append_assoc]
          exact .within (o.frames ++ above) pc hpc

omit [RequestTraits ε] in
theorem Turn.exists_cons (h : Turn a fs mode) : ∃ f above, fs = f :: above := by
  cases h with
  | check | cancel | release => exact ⟨_, _, rfl⟩
  | within above pc hpc =>
      cases above with
      | nil => exact ⟨_, _, rfl⟩
      | cons f above => exact ⟨f, above ++ _, rfl⟩

/-- Until it has returned a poll stays a poll. -/
theorem InPoll.step (h : InPoll rest (s.frames ()) (s.mode ()))
    (hinside : s.frames () ≠ rest) (hstep : BusSystem.step s act = some s') :
    InPoll rest (s'.frames ()) (s'.mode ()) := by
  rcases BusSystem.stack_cases hstep with
    ⟨delta, rfl⟩ | ⟨f, below, o, hf, hmoved, -, hfs, hmode'⟩
  · exact h
  rw [hfs, hmode']
  generalize hstack : s.frames () = stack at h hinside
  rw [hf] at hstack
  cases h with
  | entry hmode =>
      injection hstack with hf hbelow
      subst hf hbelow
      obtain ⟨result, ho⟩ := advanced_of_moved hmoved nofun hmode
      cases ho
      exact .between _ nofun
  | between live hmode =>
      injection hstack with hf hbelow
      subst hf hbelow
      obtain ⟨result, ho⟩ := advanced_of_moved hmoved nofun hmode
      cases live with
      | nil =>
          cases ho
          exact .ended nofun
      | cons a live =>
          cases ho
          exact .turn a live [_] (.check .entry nofun nofun nofun)
  | turn a live above hturn =>
      obtain ⟨g, above, rfl⟩ := hturn.exists_cons
      injection hstack with hf hbelow
      subst hf hbelow
      rw [List.append_eq, ← List.append_assoc]
      rcases hturn.step hmoved with hturn | ⟨hnil, hmode⟩
      · exact .turn a live _ hturn
      · rw [hnil]
        exact .between live hmode
  | ended hmode => exact absurd rfl hinside

omit [RequestTraits ε] in
/-- Outside the turns a poll runs. -/
theorem InPoll.running (h : InPoll rest fs mode)
    (hfs : fs = rest ∨ ∃ live, fs = .polling live :: rest) : mode ≠ .throwing := by
  cases h with
  | turn a live above hturn =>
      obtain ⟨f, above, rfl⟩ := hturn.exists_cons
      have hlength : (f :: above ++ Frame.polling live :: rest).length ≤
          rest.length + 1 := by
        rcases hfs with hfs | ⟨live', hfs⟩ <;> rw [hfs]
        · exact Nat.le_succ _
        · exact Nat.le_refl _
      simp only [List.cons_append, List.length_cons, List.length_append] at hlength
      omega
  | entry hmode | between live hmode | ended hmode => exact hmode

end InPoll

namespace BusSystem

variable [RequestTraits ε] {s s' m : BusSystem Unit ε} {act : BusAction Unit ε}
  {as : List (BusAction Unit ε)} {a : Nat} {rest : List (Frame ε)}

theorem Polls.inPoll (h : Polls rest s as s') (hm : Lts.Visits step s as m) :
    InPoll rest (m.frames ()) (m.mode ()) :=
  hm.invariant_of_meets (P := fun m => InPoll rest (m.frames ()) (m.mode ()))
    (fun _ _ _ h hinside hstep => h.step hinside hstep)
    (h.called ▸ .entry h.mode) h.inside

/-! ### Everybody has a turn -/

/-- Who is still to come when the poll goes on as `polling live`. -/
theorem exists_turn {live : List Nat} : ∀ {as : List (BusAction Unit ε)}
    {s : BusSystem Unit ε} {above : List (Frame ε)},
    s.frames () = above ++ .polling live :: rest → Lts.run step s as = some s' →
    s'.frames () = rest → ∀ a ∈ live, ∃ m live', Lts.Visits step s as m ∧
      m.frames () = .pollTimeout a .entry :: .polling live' :: rest := by
  intro as
  induction as generalizing live with
  | nil =>
      intro s above hs hrun hended
      rw [Lts.run_nil, Option.some.injEq] at hrun
      subst hrun
      have hlength := congrArg List.length (hs.symm.trans hended)
      simp only [List.length_append, List.length_cons] at hlength
      omega
  | cons act as ih =>
      intro s above hs hrun hended a ha
      obtain ⟨t, hstep, hrest⟩ := Lts.run_cons_eq_some.mp hrun
      have hlater {live' : List Nat} {above : List (Frame ε)}
          (ht : t.frames () = above ++ .polling live' :: rest) (ha : a ∈ live') :
          ∃ m live', Lts.Visits step s (act :: as) m ∧
            m.frames () = .pollTimeout a .entry :: .polling live' :: rest := by
        obtain ⟨m, live', hm, hframes⟩ := ih ht hrest hended a ha
        exact ⟨m, live', .inr ⟨t, hstep, hm⟩, hframes⟩
      rcases stack_cases hstep with
        ⟨delta, rfl⟩ | ⟨f, below, o, hf, hmoved, -, hfs, -⟩
      · exact hlater hs ha
      rw [hf] at hs
      cases above with
      | cons g above =>
          injection hs with hg hbelow
          subst hg hbelow
          exact hlater (hfs.trans (List.append_assoc ..).symm) ha
      | nil =>
          injection hs with hg hbelow
          subst hg hbelow
          cases hmoved with
          | unwind hmode h => cases h
          | advance hmode h =>
              cases live with
              | nil => cases ha
              | cons b live =>
                  cases h
                  rcases List.mem_cons.mp ha with rfl | ha
                  · exact ⟨t, live, .inr ⟨t, hstep, .self⟩, hfs⟩
                  · exact hlater (show t.frames () = [_] ++ _ from hfs) ha

/-- The copy has everybody who is registered and active. -/
theorem exists_turn_of_called : ∀ {as : List (BusAction Unit ε)}
    {s : BusSystem Unit ε}, s.frames () = .pollAwaiters :: rest →
    s.mode () ≠ .throwing → Lts.run step s as = some s' → s'.frames () = rest →
    a ∈ s.world.registered → s.world.isActive a →
    ∃ m live, Lts.Visits step s as m ∧
      m.frames () = .pollTimeout a .entry :: .polling live :: rest := by
  intro as
  induction as with
  | nil =>
      intro s hs _ hrun hended
      rw [Lts.run_nil, Option.some.injEq] at hrun
      subst hrun
      have hlength := congrArg List.length (hs.symm.trans hended)
      simp only [List.length_cons] at hlength
      omega
  | cons act as ih =>
      intro s hs hmode hrun hended hregistered hactive
      obtain ⟨t, hstep, hrest⟩ := Lts.run_cons_eq_some.mp hrun
      rcases stack_cases hstep with
        ⟨delta, rfl⟩ | ⟨f, below, o, hf, hmoved, -, hfs, -⟩
      · obtain ⟨m, live, hm, hframes⟩ := ih
          (s := { s with world := { s.world with now := s.world.now + delta } })
          hs hmode hrest hended hregistered hactive
        exact ⟨m, live, .inr ⟨_, hstep, hm⟩, hframes⟩
      · rw [hf] at hs
        injection hs with hf hbelow
        subst hf hbelow
        obtain ⟨result, ho⟩ := advanced_of_moved hmoved nofun hmode
        cases ho
        obtain ⟨m, live, hm, hframes⟩ := exists_turn
          (show t.frames () = [] ++ _ from hfs) hrest hended a
          (List.mem_filter.mpr ⟨hregistered, hactive⟩)
        exact ⟨m, live, .inr ⟨t, hstep, hm⟩, hframes⟩

/-! ### Who is due ends -/

/-- The awaiter has ended, or its turn goes on and will end it. -/
structure Ending (a : Nat) (bottom : List (Frame ε)) (s : BusSystem Unit ε) :
    Prop where
  created : a < s.world.nextAwaiter
  ending : s.world.isActive a = false ∨ s.frames () = .cancel a .token :: bottom ∨
    ∃ pc, s.frames () = .pollTimeout a pc :: bottom ∧
      (s.world.dueAt a pc ∨ ∃ b, pc = .expired b)

omit [RequestTraits ε] in
theorem dueAt_later {w : World ε} {pc : PollPc} {delta : Nat} (h : w.dueAt a pc) :
    ({ w with now := w.now + delta } : World ε).dueAt a pc := by
  have hdeadline (hd : w.deadlinePassed a) :
      ({ w with now := w.now + delta } : World ε).deadlinePassed a := by
    unfold World.deadlinePassed at hd ⊢
    split at hd
    · next due hdue =>
        simp only [hdue]
        exact decide_eq_true ((of_decide_eq_true hd).trans (Nat.le_add_right _ _))
    · cases hd
  cases pc with
  | entry | token =>
      rcases Bool.or_eq_true _ _ ▸ h with htoken | hd
      · exact Bool.or_eq_true _ _ ▸ .inl htoken
      · exact Bool.or_eq_true _ _ ▸ .inr (hdeadline hd)
  | deadline => exact hdeadline h
  | _ => cases h

omit [RequestTraits ε] in
theorem cancelThen_inactive {w : World ε} {cause : Cause} {fs : List (Frame ε)} :
    (cancelThen w a cause fs).world.isActive a = false := by
  unfold cancelThen
  split
  · exact deactivate_isActive ..
  · next h => exact Bool.eq_false_iff.mpr h

theorem Ending.step {bottom : List (Frame ε)} (h : Ending a bottom s)
    (hstep : BusSystem.step s act = some s') : Ending a bottom s' := by
  rcases stack_cases hstep with
    ⟨delta, rfl⟩ | ⟨f, below, o, hf, hmoved, hw, hfs, -⟩
  · refine ⟨h.created, h.ending.imp id (.imp id ?_)⟩
    rintro ⟨pc, hframes, hdue⟩
    exact ⟨pc, hframes, hdue.imp dueAt_later id⟩
  have hmove := hmoved.lifeMove a
  by_cases hinactive : s.world.isActive a = false
  · rw [← hw] at hmove
    obtain ⟨hcreated, hinactive⟩ := hmove.inactive h.created hinactive
    exact ⟨hcreated, .inl hinactive⟩
  have hactive : s.world.isActive a := Bool.not_eq_false _ ▸ hinactive
  rcases h.ending with hgone | hframes | ⟨pc, hframes, hdue⟩
  · exact absurd hgone hinactive
  · rw [hf] at hframes
    injection hframes with hf hbelow
    subst hf
    cases hmoved with
    | unwind hmode ho => cases ho
    | advance hmode ho =>
        cases ho
        refine ⟨?_, .inl (hw ▸ cancelThen_inactive)⟩
        rw [hw]
        unfold cancelThen
        split <;> exact h.created
  · rw [hf] at hframes
    injection hframes with hf hbelow
    subst hf hbelow
    cases hmoved with
    | unwind hmode ho =>
        rcases hdue with hdue | ⟨b, rfl⟩
        · cases pc with
          | calling | reporting => cases hdue
          | _ => cases ho
        · cases ho
    | advance hmode ho =>
        cases ho
        have hgo {pc : PollPc} (hw' : s'.world = s.world)
            (hfs' : s'.frames () = .pollTimeout a pc :: below)
            (hdue : s.world.dueAt a pc) : Ending a below s' :=
          ⟨hw' ▸ h.created, .inr (.inr ⟨pc, hfs', .inl (hw' ▸ hdue)⟩)⟩
        cases pc with
        | entry =>
            rcases hdue with hdue | ⟨b, hb⟩
            · simp only [advancePoll, if_pos hactive] at hw hfs
              exact hgo hw hfs hdue
            · cases hb
        | token =>
            rcases hdue with hdue | ⟨b, hb⟩
            · by_cases htoken : s.world.tokenCancelled a
              · simp only [advancePoll, if_pos htoken] at hw hfs
                exact ⟨hw ▸ h.created, .inr (.inl hfs)⟩
              · simp only [advancePoll, if_neg htoken] at hw hfs
                exact hgo hw hfs ((Bool.or_eq_true _ _ ▸ hdue).resolve_left htoken)
            · cases hb
        | deadline =>
            rcases hdue with hdue | ⟨b, hb⟩
            · simp only [advancePoll, if_pos (show s.world.deadlinePassed a from hdue)]
                at hw hfs
              exact ⟨hw ▸ h.created, .inr (.inr ⟨_, hfs, .inr ⟨_, rfl⟩⟩)⟩
            · cases hb
        | expired b =>
            refine ⟨?_, .inl (hw ▸ cancelThen_inactive)⟩
            rw [hw]
            simp only [advancePoll, cancelThen, if_pos hactive]
            exact h.created
        | timedOut | calling | reporting =>
            rcases hdue with hdue | ⟨b, hb⟩
            · cases hdue
            · cases hb

theorem ended_of_due {live : List Nat} {pc : PollPc} {bs : List (BusAction Unit ε)}
    (hcreated : a < m.world.nextAwaiter)
    (hm : m.frames () = .pollTimeout a pc :: .polling live :: rest)
    (hdue : m.world.dueAt a pc) (hrun : Lts.run step m bs = some s')
    (hended : s'.frames () = rest) : s'.world.isActive a = false := by
  have hending : Ending a (.polling live :: rest) s' :=
    Lts.run_invariant (P := Ending a (.polling live :: rest))
      (fun _ _ _ h hstep => h.step hstep)
      ⟨hcreated, .inr (.inr ⟨pc, hm, .inl hdue⟩)⟩ hrun
  have hlength {f : Frame ε} : s'.frames () ≠ f :: .polling live :: rest := by
    intro heq
    have hlength := congrArg List.length (hended.symm.trans heq)
    simp only [List.length_cons] at hlength
    omega
  rcases hending.ending with h | h | ⟨pc, h, -⟩
  · exact h
  · exact absurd h hlength
  · exact absurd h hlength

/-! ### The account over a run -/

theorem Sound.run_life {given : Bool} (hs : s.Sound)
    (h : Life a given s.world (s.frames ()))
    (hrun : Lts.run BusSystem.step s as = some s') :
    s'.Sound ∧ Life a given s'.world (s'.frames ()) := by
  refine Lts.run_invariant
    (P := fun s => s.Sound ∧ Life a given s.world (s.frames ())) ?_ ⟨hs, h⟩ hrun
  rintro s act s' ⟨hs, h⟩ hstep
  refine ⟨hs.step hstep, ?_⟩
  rcases stack_cases hstep with
    ⟨delta, rfl⟩ | ⟨f, below, o, hf, hmoved, hw, hfs, -⟩
  · exact ⟨h.created, h.checked, h.moved, h.held, h.account⟩
  · have hn := hs.nested ()
    rw [hf] at hn h
    rw [hw, hfs]
    exact h.move hn (hs.once a).active (hmoved.lifeMove a)

theorem Sound.run_over {given timedOut : Bool} (hs : s.Sound)
    (h : Over a given timedOut s.world (s.frames ()))
    (hrun : Lts.run BusSystem.step s as = some s') :
    Over a given timedOut s'.world (s'.frames ()) := by
  refine (Lts.run_invariant (P := fun s => s.Sound ∧
    Over a given timedOut s.world (s.frames ())) ?_ ⟨hs, h⟩ hrun).2
  rintro s act s' ⟨hs, h⟩ hstep
  refine ⟨hs.step hstep, ?_⟩
  rcases stack_cases hstep with
    ⟨delta, rfl⟩ | ⟨f, below, o, hf, hmoved, hw, hfs, -⟩
  · exact ⟨⟨h.life.created, h.life.checked, h.life.moved, h.life.held,
      h.life.account⟩, h.inactive, h.spent, h.outcome⟩
  · have hn := hs.nested ()
    rw [hf] at hn h
    rw [hw, hfs]
    exact h.move hn (hmoved.lifeMove a)

omit [RequestTraits ε] in
/-- Who is active when a poll begins has its `on_timeout`, and nothing of its
end lies below. -/
theorem Sound.life_of_active (hs : s.Sound) (hcalled : s.frames () = .pollAwaiters :: rest)
    (hactive : s.world.isActive a) :
    Life a (s.world.awaiters a).onTimeout s.world (s.frames ()) ∧
      rest.countP (Frame.expiring a) = 0 := by
  have hn := hs.nested ()
  rcases hs.lives a with ⟨given, hlife⟩ | hunborn
  · rw [hcalled] at hn hlife ⊢
    have haccount := hlife.account
    rw [any_timesOut_eq_false ((hs.once a).active hactive), Bool.and_false,
      List.countP_cons_of_neg Bool.false_ne_true] at haccount
    rw [hlife.onTimeout hn hactive nofun]
    exact ⟨hlife, (Nat.add_eq_zero_iff.mp haccount).2⟩
  · exact absurd (hunborn.inactive.symm.trans hactive) Bool.false_ne_true

theorem Polls.onTimeout (h : Polls rest s as s') (hs : s.Sound)
    (hactive : s.world.isActive a) (hinactive : s'.world.isActive a = false)
    {bs : List (BusAction Unit ε)} {later : BusSystem Unit ε}
    (hlater : Lts.run step s' bs = some later) :
    later.world.log.countP (·.startsTimeout a) =
      if (s.world.awaiters a).onTimeout && s'.world.log.any (·.timesOut a)
      then 1 else 0 := by
  obtain ⟨hlife, hspent⟩ := hs.life_of_active h.called hactive
  obtain ⟨hs', hlife'⟩ := hs.run_life hlife h.run
  rw [← h.ended] at hspent
  exact (hs'.run_over ⟨hlife', hinactive, hspent, rfl⟩ hlater).count

/-! ### Who is not due stays -/

/-- An awaiter that is not to be ended by a check. -/
structure Keeping (a : Nat) (s : BusSystem Unit ε) : Prop where
  created : a < s.world.nextAwaiter
  frames : ∀ f ∈ s.frames (), f.endsDue a = false
  registered : s.world.isActive a → a ∈ s.world.registered
  logged : s.world.isActive a = false →
    ∃ cause, cause.byProgram ∧ .deactivated a cause ∈ s.world.log

theorem Keeping.step (h : Keeping a s) (hdue : ¬ s.FindsDue a)
    (hstep : BusSystem.step s act = some s') : Keeping a s' := by
  rcases stack_cases hstep with
    ⟨delta, rfl⟩ | ⟨f, below, o, hf, hmoved, hw, hfs, -⟩
  · exact ⟨h.created, h.frames, h.registered, h.logged⟩
  have hframes := h.frames
  rw [hf] at hframes
  obtain ⟨hfdue, hbelow⟩ := List.forall_mem_cons.mp hframes
  have hnotdue : f.findsDue a s.world = false := by
    rw [FindsDue, hf] at hdue
    exact Bool.eq_false_iff.mpr hdue
  have hframes' : ∀ g ∈ s'.frames (), g.endsDue a = false := by
    rw [hfs]
    exact List.forall_mem_append.mpr ⟨hmoved.endsDue hfdue hnotdue, hbelow⟩
  have hmove := hmoved.lifeMove a
  have hpoll := hmoved.pollMove
  rw [← hw] at hmove hpoll
  have hregistered (hactive : s.world.isActive a) : a ∈ s'.world.registered := by
    cases hpoll with
    | same hsame hlog => exact hsame ▸ h.registered hactive
    | polled hf hw =>
        rw [hw]
        exact List.mem_filter.mpr ⟨h.registered hactive, hactive⟩
    | registered b hf hw =>
        rw [hw]
        exact List.mem_append_left _ (h.registered hactive)
  have hcreated : a < s'.world.nextAwaiter := h.created.trans_le hmove.nextAwaiter
  by_cases hactive : s.world.isActive a
  · refine ⟨hcreated, hframes', fun _ => hregistered hactive, fun hinactive => ?_⟩
    obtain ⟨cause, hcause, hmem⟩ := hmove.ends h.created hactive hinactive
    refine ⟨cause, ?_, hmem⟩
    rcases hcause with ⟨c, rfl, rfl⟩ | ⟨ev, rfl, rfl⟩ | ⟨b, rfl⟩
    · cases c with
      | token => exact absurd (hfdue.symm.trans (decide_eq_true rfl)) Bool.false_ne_true
      | call | close => rfl
    · rfl
    · exact absurd (hfdue.symm.trans (decide_eq_true rfl)) Bool.false_ne_true
  · have hinactive : s.world.isActive a = false := Bool.eq_false_iff.mpr hactive
    obtain ⟨cause, hcause, hmem⟩ := h.logged hinactive
    have hgone := (hmove.inactive h.created hinactive).2
    exact ⟨hcreated, hframes',
      fun hact => absurd (hgone.symm.trans hact) Bool.false_ne_true,
      fun _ => ⟨cause, hcause, hmove.mem_log hmem⟩⟩

theorem Polls.kept (h : Polls rest s as s') (hs : s.Sound) :
    Keeps Cause.byProgram s as s' := by
  intro a hregistered hactive hnotdue hexcused
  obtain ⟨hlife, -⟩ := hs.life_of_active h.called hactive
  have hkeeping : Keeping a s' := by
    refine Lts.run_invariant_of_meets
      (fun _ _ _ h hdue hstep => h.step hdue hstep)
      ⟨hlife.created, fun f hf => ?_, fun _ => hregistered,
        fun hgone => absurd (hgone.symm.trans hactive) Bool.false_ne_true⟩
      hnotdue h.run
    rw [h.called] at hf
    have hn := hs.nested ()
    rw [h.called] at hn
    refine f.endsDue_of_waiting ?_
    rcases List.mem_cons.mp hf with rfl | hf
    · rfl
    · exact hn.below nofun nofun f hf
  have hactive' : s'.world.isActive a := by
    refine Bool.not_eq_false _ ▸ fun hgone => ?_
    obtain ⟨cause, hcause, hmem⟩ := hkeeping.logged hgone
    exact hexcused cause hcause hmem
  exact ⟨hactive', hkeeping.registered hactive'⟩

/-- A poll is complete, whatever the callbacks of the program do. -/
theorem Reachable.pollComplete (hs : s.Reachable) (h : Polls rest s as s') :
    PollComplete rest s as s' where
  returned := (h.inPoll (.last h.run)).running (.inl h.ended)
  contained _ live hm hlive := (h.inPoll hm).running (.inr ⟨live, hlive⟩)
  turns _ hregistered hactive :=
    exists_turn_of_called h.called h.mode h.run h.ended hregistered hactive
  due a _ hactive m live pc hm hframes hdue := by
    obtain ⟨hlife, -⟩ := hs.sound.life_of_active h.called hactive
    obtain ⟨bs, cs, hbs, hcs⟩ := hm.cut h.run
    exact ended_of_due (hs.sound.run_life hlife hbs).2.created hframes hdue hcs h.ended
  onTimeout _ _ hactive hinactive _ _ hlater :=
    h.onTimeout hs.sound hactive hinactive hlater
  kept := h.kept hs.sound

end BusSystem

/-- One awaiter has a deadline, another waits for an event. When the deadline has
passed, the program emits an event that nobody waits for. -/
def beforePoll : List (BusAction Unit Nat) :=
  [.call () (.createAwaiter { type := 1, timeout := 1, onTimeout := true } none)] ++
  List.replicate 5 (.advance ()) ++
  [.call () (.createAwaiter { type := 0, callback := false } none)] ++
  List.replicate 5 (.advance ()) ++
  [.tick 1, .call () (.emit { type := 2, payload := 0 })] ++
  List.replicate 2 (.advance ())

/-- `on_timeout` emits the event that the other awaiter waits for, and throws. -/
def emittingPoll : List (BusAction Unit Nat) :=
  List.replicate 8 (.advance ()) ++ [.call () (.emit { type := 0, payload := 0 })] ++
  List.replicate 13 (.advance ()) ++ [.throw ()] ++ List.replicate 4 (.advance ())

namespace BusSystem

theorem polls_emittingPoll :
    ∃ s s' : BusSystem Unit Nat, s.Reachable ∧
      Polls [.user .main] s emittingPoll s' ∧ 1 ∈ s.world.registered ∧
      s.world.isActive 1 ∧ Lts.RunMeets step (fun m _ => ¬ m.FindsDue 1) s emittingPoll ∧
      s'.world.isActive 1 = false ∧
      ∀ c ∈ [Canceller.call, .close], .deactivated 1 (.cancel c) ∉ s'.world.log := by
  obtain ⟨s, hs, hcalled, hmode, hinside, hregistered, hactive, hdue, hrun⟩ :
      ∃ s : BusSystem Unit Nat, Lts.run step {} beforePoll = some s ∧
        s.frames () = [.pollAwaiters, .user .main] ∧ s.mode () ≠ .throwing ∧
        Lts.checks step (fun m _ => decide (m.frames () ≠ [.user .main])) s
          emittingPoll = true ∧
        1 ∈ s.world.registered ∧ s.world.isActive 1 = true ∧
        Lts.checks step (fun m _ => decide (¬ m.FindsDue 1)) s emittingPoll = true ∧
        (Lts.run step s emittingPoll).any (fun s' => decide
          (s'.frames () = [.user .main] ∧ s'.world.isActive 1 = false ∧
            ∀ c ∈ [Canceller.call, .close],
              .deactivated 1 (.cancel c) ∉ s'.world.log)) = true :=
    Lts.exists_run_of_decide (by decide +kernel)
  obtain ⟨s', hs', hended, hinactive, hlog⟩ := Lts.exists_run_of_decide hrun
  exact ⟨s, s', ⟨_, hs⟩, ⟨hcalled, hmode, hs', .of_checks hinside, hended⟩,
    hregistered, hactive, .of_checks hdue, hinactive, hlog⟩

theorem Reachable.pollComplete_emitting :
    ∃ s s' : BusSystem Unit Nat, Polls [.user .main] s emittingPoll s' ∧
      PollComplete [.user .main] s emittingPoll s' := by
  obtain ⟨s, s', hs, hpolls, -⟩ := polls_emittingPoll
  exact ⟨s, s', hpolls, hs.pollComplete hpolls⟩

/-- The other awaiter is never due and nobody cancels it, but its event comes
during the poll. -/
theorem keeps_fails :
    ∃ s s' : BusSystem Unit Nat, s.Reachable ∧
      Polls [.user .main] s emittingPoll s' ∧
      ¬ Keeps Cause.byUser s emittingPoll s' := by
  obtain ⟨s, s', hs, hpolls, hregistered, hactive, hdue, hinactive, hlog⟩ :=
    polls_emittingPoll
  refine ⟨s, s', hs, hpolls, fun hkeeps => ?_⟩
  have hkept := hkeeps 1 hregistered hactive hdue fun cause hcause => by
    cases cause with
    | cancel c =>
        cases c with
        | call => exact hlog .call List.mem_cons_self
        | close => exact hlog .close (List.mem_cons_of_mem _ List.mem_cons_self)
        | token => cases hcause
    | timeout | matched => cases hcause
  exact Bool.false_ne_true (hinactive.symm.trans hkept.1)

end BusSystem

end EventHub
