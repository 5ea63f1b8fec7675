import EventHub.Lib.Wakeup
import EventHub.Loop.Sources
import EventHub.Proofs.BusQueue
import EventHub.Proofs.SchedulerMoves
import EventHub.Proofs.TaskDeadlines

/-!
# What the sources of a loop have in common

Three things are true of every step on the sources that is not one of the
thread that processes them. Counters do not go back; what is owed stays owed
until its notifier is notified; and what was not there before is owed.
-/

namespace EventHub

variable {ι β κ φ ν τ ε : Type}

/-! ## The notifier of a bus -/

section Bus

variable {w : World ε} {f : Frame ε} {o : Outcome ε}

/-- The notifier stays, and what enters the queue is announced next. -/
structure Announced (w : World ε) (o : Outcome ε) : Prop where
  notifier : o.world.notifier = w.notifier
  queue : o.world.nextTicket ≠ w.nextTicket →
    ∃ rest, o.frames = .notifyWorkAvailable :: rest ∧ o.mode = .running false

theorem Announced.same (hnotifier : o.world.notifier = w.notifier)
    (hqueue : o.world.nextTicket = w.nextTicket) : Announced w o :=
  ⟨hnotifier, fun hne => absurd hqueue hne⟩

theorem advanceDispatch_announced (alive : Guard → Bool) (w : World ε) (d : Nat)
    (ev : Event ε) (rest : List CallbackRecord) (pc : DispatchPc) :
    Announced w (advanceDispatch alive w d ev rest pc) := by
  fun_cases advanceDispatch <;> exact .same rfl rfl

theorem cancelThen_announced (w : World ε) (a : Nat) (cause : Cause)
    (rest : List (Frame ε)) : Announced w (cancelThen w a cause rest) := by
  unfold cancelThen
  split <;> exact .same rfl rfl

theorem advanceHandle_announced [RequestTraits ε] (w : World ε) (result : Bool)
    (a : Nat) (ev : Event ε) (pc : HandlePc) :
    Announced w (advanceHandle w result a ev pc) := by
  fun_cases advanceHandle <;>
    first
    | exact .same rfl rfl
    | exact cancelThen_announced _ _ _ _

theorem advancePoll_announced (w : World ε) (a : Nat) (pc : PollPc) :
    Announced w (advancePoll w a pc) := by
  fun_cases advancePoll <;>
    first
    | exact .same rfl rfl
    | exact cancelThen_announced _ _ _ _

theorem advance_announced [RequestTraits ε] {alive : Guard → Bool} {result : Bool}
    (h : advance alive w result f = some o) : Announced w o := by
  cases f with
  | user code => cases h
  | records d ev rest pc =>
      cases h
      exact advanceDispatch_announced ..
  | handleEvent a ev pc =>
      cases h
      exact advanceHandle_announced ..
  | pollTimeout a pc =>
      cases h
      exact advancePoll_announced ..
  | cancel a cause =>
      cases h
      exact cancelThen_announced ..
  | release a =>
      cases h
      unfold World.release
      dsimp only
      split <;> exact .same rfl rfl
  | enqueue ev request =>
      cases h
      exact ⟨rfl, fun _ => ⟨_, rfl, rfl⟩⟩
  | draining rest n => cases rest <;> cases h <;> exact .same rfl rfl
  | polling live => cases live <;> cases h <;> exact .same rfl rfl
  | cancelling awaiters cause => cases awaiters <;> cases h <;> exact .same rfl rfl
  | notifyWorkAvailable =>
      simp only [advance] at h
      split at h <;> cases h <;> exact .same rfl rfl
  | nextRequestId retry request =>
      simp only [advance] at h
      split at h <;> cases h <;> exact .same rfl rfl
  | _ =>
      cases h
      exact .same rfl rfl

theorem unwind_announced (h : unwind w f = some o) : Announced w o := by
  cases f with
  | dispatching q rest n =>
      cases h
      exact .same rfl rfl
  | pollAwaiters =>
      cases h
      exact .same rfl rfl
  | records d ev rest pc =>
      cases pc with
      | calling r =>
          simp only [unwind] at h
          split at h <;> cases h <;> exact .same rfl rfl
      | reporting r =>
          cases h
          exact .same rfl rfl
      | _ => cases h
  | handleEvent a ev pc =>
      cases pc with
      | deciding | calling =>
          cases h
          exact .same rfl rfl
      | _ => cases h
  | pollTimeout a pc =>
      cases pc with
      | calling =>
          simp only [unwind] at h
          split at h <;> cases h <;> exact .same rfl rfl
      | reporting =>
          cases h
          exact .same rfl rfl
      | _ => cases h
  | _ => cases h

theorem Moved.announced [Fintype ι] [DecidableEq ι] [RequestTraits ε]
    {s : BusSystem ι ε} {a : BusAction ι ε} {t : ι} (h : Moved s a t f o)
    (ha : ∀ n, a ≠ .call t (.setNotifier n)) : Announced s.world o := by
  cases h with
  | advance hmode h => exact advance_announced h
  | unwind hmode h => exact unwind_announced h
  | call c hmode =>
      cases c with
      | setNotifier n => exact absurd rfl (ha n)
      | _ => exact .same rfl rfl
  | ret | throw | «catch» => exact .same rfl rfl

theorem Moved.actor [Fintype ι] [DecidableEq ι] [RequestTraits ε]
    {s : BusSystem ι ε} {a : BusAction ι ε} {t : ι} (h : Moved s a t f o) :
    a.actor = some t := by
  cases h <;> rfl

/-- The notification itself leaves the queue alone. -/
theorem Moved.notifies [Fintype ι] [DecidableEq ι] [RequestTraits ε]
    {s : BusSystem ι ε} {a : BusAction ι ε} {t : ι} {result : Bool}
    (h : Moved s a t .notifyWorkAvailable o) (hmode : s.mode t = .running result) :
    o.world.queue = s.world.queue := by
  cases h with
  | advance _ h =>
      unfold EventHub.advance at h
      dsimp only at h
      split at h <;> cases h <;> rfl
  | unwind hthrows =>
      rw [hmode] at hthrows
      cases hthrows

/-- A thread that is not in a call of `process()` only adds to the queue. -/
theorem Moved.queue [Fintype ι] [DecidableEq ι] [RequestTraits ε]
    {s : BusSystem ι ε} {a : BusAction ι ε} {t : ι} (h : Moved s a t f o)
    (hf : f.processing = false) (ha : a ≠ .call t .process) :
    (∀ q ∈ o.world.queue, q ∈ s.world.queue ∨
      q.ticket = s.world.nextTicket ∧
        o.world.nextTicket ≠ s.world.nextTicket) ∧
      ∀ f' ∈ o.frames, f'.processing = false := by
  obtain ⟨w', fs, mode⟩ := o
  rcases h.queueMove with hmove | ⟨ha', -⟩
  · dsimp only at hmove ⊢
    cases hmove with
    | quiet hf' hquiet =>
        refine ⟨fun q hq => .inl ?_, hquiet.frames⟩
        rwa [hquiet.queue] at hq
    | enter ev hf' hfs hw =>
        refine ⟨fun q hq => ?_, hfs⟩
        rw [hw] at hq ⊢
        rcases List.mem_append.mp hq with hq | hq
        · exact .inl hq
        · rw [List.mem_singleton.mp hq]
          exact .inr ⟨rfl, Nat.succ_ne_self _⟩
    | drop hf' hfs hw =>
        refine ⟨fun q hq => ?_, hfs⟩
        rw [hw] at hq
        cases hq
    | take hf' | serve hf' | served hf' | done hf' | threw hf' =>
        rw [hf'] at hf
        cases hf
  · exact absurd ha' ha

end Bus

/-- A bus with a notifier that one thread processes. -/
structure WiredBus (dispatcher : ι) (bus : BusSystem ι ε) : Prop where
  notifier : bus.world.notifier.isSome = true
  processing : ∀ t, t ≠ dispatcher → ∀ f ∈ bus.frames t, f.processing = false

theorem notifying_iff {bus : BusSystem ι ε} {t : ι} : Sources.notifying bus t = true ↔
    ∃ rest result, bus.frames t = .notifyWorkAvailable :: rest ∧
      bus.mode t = .running result := by
  unfold Sources.notifying
  constructor
  · intro h
    split at h
    · next rest result hframes hmode => exact ⟨rest, result, hframes, hmode⟩
    · cases h
  · rintro ⟨rest, result, hframes, hmode⟩
    rw [hframes, hmode]

section WiredBus

variable [Fintype ι] [DecidableEq ι] [RequestTraits ε] {dispatcher t : ι}
  {bus bus' : BusSystem ι ε} {a : BusAction ι ε}

theorem WiredBus.step (h : WiredBus dispatcher bus) (hstep : bus.step a = some bus')
    (hprocess : ∀ t, a = .call t .process → t = dispatcher)
    (hset : ∀ t n, a ≠ .call t (.setNotifier n)) : WiredBus dispatcher bus' := by
  rcases BusSystem.step_cases hstep with
    ⟨delta, rfl, rfl⟩ | ⟨u, f, rest, o, hu, hmoved, rfl⟩
  · exact ⟨h.notifier, h.processing⟩
  · refine ⟨?_, fun t ht f' hf' => ?_⟩
    · show o.world.notifier.isSome = true
      rw [(hmoved.announced (hset u)).notifier]
      exact h.notifier
    · change f' ∈ Threads.replaceTop bus.frames u o.frames t at hf'
      by_cases htu : t = u
      · subst htu
        rw [Threads.replaceTop_self, List.mem_append] at hf'
        have hf := h.processing t ht f (hu ▸ List.mem_cons_self)
        rcases hf' with hf' | hf'
        · exact (hmoved.queue hf fun ha => ht (hprocess t ha)).2 f' hf'
        · exact h.processing t ht f' (List.mem_of_mem_tail hf')
      · rw [Threads.replaceTop_of_ne htu] at hf'
        exact h.processing t ht f' hf'

/-- What another thread than the dispatcher finds in the queue after its step. -/
theorem WiredBus.queue (h : WiredBus dispatcher bus) (hstep : bus.step a = some bus')
    (hprocess : ∀ t, a = .call t .process → t = dispatcher)
    (hother : a.actor ≠ some dispatcher) {q : QueuedEvent ε}
    (hq : q ∈ bus'.world.queue) :
    q ∈ bus.world.queue ∨
      q.ticket = bus.world.nextTicket ∧
        bus'.world.nextTicket ≠ bus.world.nextTicket := by
  rcases BusSystem.step_cases hstep with
    ⟨delta, rfl, rfl⟩ | ⟨u, f, rest, o, hu, hmoved, rfl⟩
  · exact .inl hq
  · have hne : u ≠ dispatcher := fun heq => hother (heq ▸ hmoved.actor)
    have hf := h.processing u hne f (hu ▸ List.mem_cons_self)
    exact (hmoved.queue hf fun ha => hne (hprocess u ha)).1 q hq

theorem queue_of_notifying (hstep : bus.step a = some bus')
    (hthread : a.actor = some t) (hnotify : Sources.notifying bus t = true) :
    bus'.world.queue = bus.world.queue := by
  obtain ⟨rest, result, hframes, hmode⟩ := notifying_iff.mp hnotify
  rcases BusSystem.step_cases hstep with
    ⟨delta, rfl, rfl⟩ | ⟨u, f, rest', o, hu, hmoved, rfl⟩
  · rfl
  · obtain rfl : t = u := Option.some.inj (hthread.symm.trans hmoved.actor)
    obtain rfl : f = .notifyWorkAvailable := by
      rw [hframes] at hu
      exact (List.cons.inj hu).1.symm
    exact hmoved.notifies hmode

/-- Whoever has put something into the queue notifies next. -/
theorem notifying_of_enqueue (hstep : bus.step a = some bus')
    (hthread : a.actor = some t) (hset : ∀ t n, a ≠ .call t (.setNotifier n))
    (hqueue : bus'.world.nextTicket ≠ bus.world.nextTicket) :
    Sources.notifying bus' t = true := by
  rcases BusSystem.step_cases hstep with
    ⟨delta, rfl, rfl⟩ | ⟨u, f, rest, o, hu, hmoved, rfl⟩
  · exact absurd rfl hqueue
  · obtain rfl : t = u := Option.some.inj (hthread.symm.trans hmoved.actor)
    obtain ⟨above, hframes, hmode⟩ := (hmoved.announced (hset t)).queue hqueue
    refine notifying_iff.mpr ⟨above ++ rest, false, ?_, ?_⟩
    · show Threads.replaceTop bus.frames t o.frames t = _
      rw [Threads.replaceTop_self, hframes, hu, List.tail_cons, List.cons_append]
    · show Function.update bus.mode t o.mode t = _
      rw [Function.update_self, hmode]

theorem notifying_of_other (hstep : bus.step a = some bus')
    (hthread : a.actor ≠ some t) :
    Sources.notifying bus' t = Sources.notifying bus t := by
  rcases BusSystem.step_cases hstep with
    ⟨delta, rfl, rfl⟩ | ⟨u, f, rest, o, hu, hmoved, rfl⟩
  · rfl
  · have hne : t ≠ u := fun heq => hthread (heq ▸ hmoved.actor)
    have hframes : (bus.put u o).frames t = bus.frames t :=
      Threads.replaceTop_of_ne hne
    have hmode : (bus.put u o).mode t = bus.mode t := Function.update_of_ne hne ..
    rw [Bool.eq_iff_iff, notifying_iff, notifying_iff, hframes, hmode]

end WiredBus

/-! ## The lists of a manager -/

namespace Scheduler

variable {r r' : Scheduler τ} {a : TaskAction τ} {obs : List TaskObs}

/-- A task that has come to wait in a list is one of the submitted. -/
structure Supplied (r r' : Scheduler τ) (ids : Set Nat) : Prop where
  ready : ∀ e ∈ r'.ready, e ∈ r.ready ∨ e.id ∈ ids
  delayed : ∀ e ∈ r'.delayed, e ∈ r.delayed ∨ e.id ∈ ids

theorem Supplied.refl (r : Scheduler τ) (ids : Set Nat) : Supplied r r ids :=
  ⟨fun _ => .inl, fun _ => .inl⟩

theorem Supplied.of_subset {ids : Set Nat} (hready : ∀ e ∈ r'.ready, e ∈ r.ready)
    (hdelayed : ∀ e ∈ r'.delayed, e ∈ r.delayed) : Supplied r r' ids :=
  ⟨fun e he => .inl (hready e he), fun e he => .inl (hdelayed e he)⟩

theorem Supplied.mono {ids ids' : Set Nat} (h : Supplied r r' ids)
    (hsub : ids ⊆ ids') : Supplied r r' ids' where
  ready e he := (h.ready e he).imp_right fun hid => hsub hid
  delayed e he := (h.delayed e he).imp_right fun hid => hsub hid

theorem Supplied.trans {r'' : Scheduler τ} {ids : Set Nat}
    (h : Supplied r r' ids) (h' : Supplied r' r'' ids) : Supplied r r'' ids where
  ready e he := (h'.ready e he).elim (h.ready e) .inr
  delayed e he := (h'.delayed e he).elim (h.delayed e) .inr

theorem Supplied.submit (r : Scheduler τ) (new : Entry τ) (ready : Bool) :
    Supplied r (r.submit new ready).1 {id | id = r.nextId} where
  ready e he := by
    rcases mem_ready_enqueue.mp (show e ∈ (r.enqueue _ ready).ready from he) with
      ⟨rfl, -⟩ | he
    · exact .inr rfl
    · exact .inl he
  delayed e he := by
    rcases mem_delayed_enqueue.mp (show e ∈ (r.enqueue _ ready).delayed from he) with
      ⟨rfl, -⟩ | he
    · exact .inr rfl
    · exact .inl he

/-- The ids that a submission returns, but for those of refusals. -/
def acceptedIds (ids : List Nat) : Set Nat := {id | id ∈ ids ∧ id ≠ 0}

theorem Supplied.accept (hpos : 0 < r.nextId) (new : Entry τ) (ready : Bool) :
    Supplied r (r.submit new ready).1 (acceptedIds [(r.submit new ready).2]) := by
  refine (Supplied.submit r new ready).mono fun id hid => ?_
  have hnew : id = r.nextId := hid
  subst hnew
  exact ⟨List.mem_singleton.mpr rfl, Nat.ne_of_gt hpos⟩

theorem Supplied.post (hpos : 0 < r.nextId) (task : Option τ)
    (options : TaskOptions) :
    Supplied r (r.post task options).1 (acceptedIds [(r.post task options).2]) := by
  unfold Scheduler.post
  cases task with
  | none => exact .refl r _
  | some task =>
      dsimp only
      split
      · exact .refl r _
      · exact .accept hpos _ _

theorem Supplied.postAt (hpos : 0 < r.nextId) (now due : Int) (task : Option τ)
    (options : TaskOptions) :
    Supplied r (r.postAt now due task options).1
      (acceptedIds [(r.postAt now due task options).2]) := by
  unfold Scheduler.postAt
  cases task with
  | none => exact .refl r _
  | some task =>
      dsimp only
      split
      · exact .refl r _
      · split <;> exact .accept hpos _ _

theorem Supplied.postEveryAfter (hpos : 0 < r.nextId)
    (now now' initialDelay interval : Int) (task : Option τ)
    (options : PeriodicTaskOptions) :
    Supplied r (r.postEveryAfter now now' initialDelay interval task options).1
      (acceptedIds
        [(r.postEveryAfter now now' initialDelay interval task options).2]) := by
  unfold Scheduler.postEveryAfter
  cases task with
  | none => exact .refl r _
  | some task =>
      dsimp only
      split
      · exact .refl r _
      · exact .accept hpos _ _

theorem Supplied.postBatch (options : TaskOptions) (tasks : List (Option τ)) :
    ∀ {r : Scheduler τ}, 0 < r.nextId →
      Supplied r (r.postBatch options tasks).1
        (acceptedIds (r.postBatch options tasks).2) := by
  induction tasks with
  | nil => exact fun {r} _ => .refl r _
  | cons task tasks ih =>
      intro r hpos
      have hpos' : 0 < (r.post task options).1.nextId :=
        Nat.lt_of_lt_of_le hpos (Added.post r task options).nextId
      refine ((Supplied.post hpos task options).mono ?_).trans
        ((ih hpos').mono ?_)
      · rintro id ⟨hid, hne⟩
        exact ⟨List.mem_cons.mpr (.inl (List.mem_singleton.mp hid)), hne⟩
      · rintro id ⟨hid, hne⟩
        exact ⟨List.mem_cons_of_mem _ hid, hne⟩

theorem Supplied.cancel (id : Nat) (ids : Set Nat) :
    Supplied r (r.cancel id).1 ids := by
  rcases r.cancel_result id with ⟨-, hres⟩ | ⟨run, -, hres⟩ | hres
  · rw [hres]
    refine .of_subset (fun e he => ?_) fun e he => (List.mem_filter.mp he).1
    rw [mem_ready_iff] at he ⊢
    obtain ⟨priority, he⟩ := he
    exact ⟨priority, (List.mem_filter.mp he).1⟩
  · rw [hres]
    exact .of_subset (fun _ he => he) fun _ he => he
  · rw [hres]
    exact .refl r ids

theorem Supplied.contextCancel (id : Nat) (ids : Set Nat) :
    Supplied r (r.contextCancel id).1 ids := by
  unfold Scheduler.contextCancel
  split <;> exact .of_subset (fun _ he => he) fun _ he => he

theorem Supplied.contextReschedule (id : Nat) (due : Int) (ids : Set Nat) :
    Supplied r (r.contextReschedule id due).1 ids := by
  unfold Scheduler.contextReschedule
  split
  · exact .refl r ids
  · split <;> exact .of_subset (fun _ he => he) fun _ he => he

/-- A step that is not one of `process()` adds what it logs as submitted. -/
theorem Step.supplied (h : Step r a obs r') (ha : a.consumes = false)
    (hpos : 0 < r.nextId) : Supplied r r' {id | .submitted id ∈ obs} := by
  have hobs : ∀ ids : List Nat, acceptedIds ids ⊆
      {id | .submitted id ∈ TaskSystem.submittedObs ids} := by
    rintro ids id ⟨hid, hne⟩
    exact TaskSystem.submitted_mem_submittedObs.mpr ⟨hne, hid⟩
  cases h
  case post task options => exact (Supplied.post hpos task options).mono (hobs _)
  case postAt now due task options =>
    exact (Supplied.postAt hpos now due task options).mono (hobs _)
  case postEveryAfter now now' initialDelay interval task options =>
    exact (Supplied.postEveryAfter hpos now now' initialDelay interval task
      options).mono (hobs _)
  case postBatch tasks options =>
    exact (Supplied.postBatch options tasks hpos).mono (hobs _)
  case cancelled id _ => exact .cancel id _
  case contextCancel id => exact .contextCancel id _
  case contextReschedule id due => exact .contextReschedule id due _
  case clear ids _ =>
    refine .of_subset (fun e he => ?_) fun e he => ?_
    · obtain ⟨_, he⟩ := mem_ready_iff.mp he
      cases he
    · cases he
  case close | cancelLoaded | cancelMissed | cancelLost | nextDeadline =>
    exact .of_subset (fun _ he => he) fun _ he => he
  all_goals cases ha

end Scheduler

namespace TaskSystem

variable {s s' : TaskSystem τ} {a : TaskAction τ}

theorem mem_accepted {obs : List TaskObs} (hlog : s'.log = obs ++ s.log)
    {id : Nat} : id ∈ Sources.accepted s s' ↔ .submitted id ∈ obs := by
  have hnew : s'.log.take (s'.log.length - s.log.length) = obs := by
    rw [hlog, List.length_append, Nat.add_sub_cancel, List.take_left']
    rfl
  rw [Sources.accepted, hnew, List.mem_filterMap]
  constructor
  · rintro ⟨o, ho, hid⟩
    cases o <;> simp at hid
    exact hid ▸ ho
  · exact fun ho => ⟨_, ho, rfl⟩

/-- The tasks that were not ready before were accepted in the step. -/
theorem Reachable.ready_of_step (hs : s.Reachable) (h : s.step a = some s')
    (ha : a.consumes = false) {id : Nat} (hid : s'.mgr.stateOf id = .queuedReady) :
    s.mgr.stateOf id = .queuedReady ∨ id ∈ Sources.accepted s s' := by
  have hs' : s'.Reachable := hs.trans_run (Lts.run_one h)
  have hinv : s.mgr.Inv s.phase.current s.phase.unrun s.phase.owed := hs.inv
  have hinv' : s'.mgr.Inv s'.phase.current s'.phase.unrun s'.phase.owed := hs'.inv
  obtain ⟨obs, hlog, hstep⟩ := hs.follows h
  obtain ⟨e, he, rfl⟩ := (hinv'.mem_ready (n := s'.processed) id).mpr hid
  rw [mem_accepted hlog]
  refine ((hstep.supplied ha hs.wellFormed.positive).ready e he).imp_left fun he => ?_
  exact (hinv.mem_ready (n := s.processed) e.id).mp ⟨e, he, rfl⟩

theorem Reachable.delayed_of_step (hs : s.Reachable) (h : s.step a = some s')
    (ha : a.consumes = false) {e : Entry τ} (he : s'.Delayed e) :
    s.Delayed e ∨ e.id ∈ Sources.accepted s s' := by
  have hs' : s'.Reachable := hs.trans_run (Lts.run_one h)
  obtain ⟨obs, hlog, hstep⟩ := hs.follows h
  rw [hs'.delayed_iff] at he
  rw [hs.delayed_iff, mem_accepted hlog]
  exact (hstep.supplied ha hs.wellFormed.positive).delayed e he

end TaskSystem

/-! ## What a step on the sources does -/

theorem Submission.notifier_of_covers (w : Wiring ι β κ φ ν)
    (submission : Submission β κ φ) {x : SourceItem β κ φ}
    (h : submission.covers x) : submission.notifier w = x.notifier w := by
  cases submission with
  | event | flag =>
      cases h
      rfl
  | tasks k ids =>
      obtain ⟨id, -, rfl | rfl⟩ := h <;> rfl
  | close k => cases h

namespace Sources

section Counters

variable {s : Sources ι β κ φ ν τ ε}

theorem generation_notified [DecidableEq ν] (n m : ν) :
    (s.notified n).generation m =
      if m = n then s.generation n + 1 else s.generation m := by
  unfold notified
  exact Function.update_apply ..

theorem le_notified [DecidableEq ν] (n m : ν) :
    s.generation m ≤ (s.notified n).generation m := by
  rw [generation_notified]
  split
  · next h =>
      subst h
      exact Nat.le_succ _
  · exact Nat.le_refl _

theorem owing_setOwing [DecidableEq ι] (t u : ι)
    (owing : Option (Submission β κ φ)) :
    (s.setOwing t owing).owing u = if u = t then owing else s.owing u :=
  Function.update_apply ..

theorem owing_of_quiet [DecidableEq ι] [DecidableEq β] {w : Wiring ι β κ φ ν}
    {b : β} {t : ι} {a : BusAction ι ε} (hmay : s.mayStepBus w b t a = true)
    (hquiet : notifying (s.buses b) t = false) : s.owing t = none := by
  unfold mayStepBus at hmay
  cases howing : s.owing t with
  | none => rfl
  | some submission =>
      rw [howing, hquiet] at hmay
      cases submission <;> simp at hmay

/-- A thread that has yet to notify does so. -/
theorem event_of_owing [DecidableEq ι] [DecidableEq β] {w : Wiring ι β κ φ ν}
    {b : β} {t : ι} {a : BusAction ι ε} {submission : Submission β κ φ}
    (hmay : s.mayStepBus w b t a = true) (howing : s.owing t = some submission) :
    ∃ ticket, submission = .event b ticket := by
  unfold mayStepBus at hmay
  rw [howing] at hmay
  cases submission with
  | event b' ticket =>
      simp only [Bool.and_eq_true, decide_eq_true_eq] at hmay
      exact ⟨ticket, by rw [hmay.1.1]⟩
  | _ => simp at hmay

end Counters

variable [DecidableEq ι] [DecidableEq β] [DecidableEq κ] [DecidableEq φ]
  [DecidableEq ν] {w : Wiring ι β κ φ ν} {s s' : Sources ι β κ φ ν τ ε}

inductive Stepped [Fintype ι] [RequestTraits ε] (w : Wiring ι β κ φ ν)
    (s : Sources ι β κ φ ν τ ε) :
    SourceAction ι β κ φ ν τ ε → Sources ι β κ φ ν τ ε → Prop
  /-- Nothing enters the queue, and no thread notifies. -/
  | bus {b : β} {a : BusAction ι ε} {t : ι} {bus : BusSystem ι ε}
      (hthread : a.actor = some t) (hmay : s.mayStepBus w b t a = true)
      (h : (s.buses b).step a = some bus)
      (hquiet : notifying (s.buses b) t = false)
      (hqueue : bus.world.nextTicket = (s.buses b).world.nextTicket) :
      Stepped w s (.bus b a) (s.setBus b bus)
  | enqueue {b : β} {a : BusAction ι ε} {t : ι} {bus : BusSystem ι ε}
      (hthread : a.actor = some t) (hmay : s.mayStepBus w b t a = true)
      (h : (s.buses b).step a = some bus)
      (hquiet : notifying (s.buses b) t = false)
      (hqueue : bus.world.nextTicket ≠ (s.buses b).world.nextTicket) :
      Stepped w s (.bus b a)
        ((s.setBus b bus).setOwing t
          (some (.event b (s.buses b).world.nextTicket)))
  | notifyBus {b : β} {a : BusAction ι ε} {t : ι} {bus : BusSystem ι ε}
      (hthread : a.actor = some t) (hmay : s.mayStepBus w b t a = true)
      (h : (s.buses b).step a = some bus)
      (hnotify : notifying (s.buses b) t = true)
      (hset : (s.buses b).world.notifier.isSome = true) :
      Stepped w s (.bus b a) (((s.setBus b bus).setOwing t none).notified (w.bus b))
  | notifyNone {b : β} {a : BusAction ι ε} {t : ι} {bus : BusSystem ι ε}
      (hthread : a.actor = some t) (hmay : s.mayStepBus w b t a = true)
      (h : (s.buses b).step a = some bus)
      (hnotify : notifying (s.buses b) t = true)
      (hunset : (s.buses b).world.notifier.isSome = false) :
      Stepped w s (.bus b a) ((s.setBus b bus).setOwing t none)
  | tick (b : β) (delta : Nat) {bus : BusSystem ι ε}
      (h : (s.buses b).step (.tick delta) = some bus) :
      Stepped w s (.bus b (.tick delta)) (s.setBus b bus)
  | task {t : ι} {k : κ} {a : TaskAction τ} {manager : TaskSystem τ}
      (hfree : s.owing t = none) (hconsumer : a.consumes = true → t = w.consumer k)
      (h : (s.managers k).step a = some manager) :
      Stepped w s (.task t k a)
        ({ s with managers := Function.update s.managers k manager }.setOwing t
          (submission k (s.managers k) manager))
  | raise {t : ι} {f : φ} (hfree : s.owing t = none) :
      Stepped w s (.raise t f)
        ({ s with flags := Function.update s.flags f true }.setOwing t
          (some (.flag f)))
  | lower {t : ι} {f : φ} (hfree : s.owing t = none) :
      Stepped w s (.lower t f)
        { s with flags := Function.update s.flags f false }
  | mark {t : ι} {f : φ} (howner : w.owner f = some t) :
      Stepped w s (.mark t f)
        { s with flags := Function.update s.flags f true }
  | notify {t : ι} {submission : Submission β κ φ}
      (howing : s.owing t = some submission)
      (hkind : ∀ b ticket, submission ≠ .event b ticket) :
      Stepped w s (.notify t)
        ((s.setOwing t none).notified (submission.notifier w))
  | ring {t : ι} {n : ν} (hfree : s.owing t = none) :
      Stepped w s (.ring t n) (s.notified n)

variable [Fintype ι] [RequestTraits ε] {a : SourceAction ι β κ φ ν τ ε}

theorem stepped_afterBus {b : β} {a : BusAction ι ε} {t : ι}
    {bus : BusSystem ι ε} (hthread : a.actor = some t)
    (hmay : s.mayStepBus w b t a = true) (h : (s.buses b).step a = some bus) :
    Stepped w s (.bus b a) (s.afterBus w b t bus) := by
  unfold afterBus
  dsimp only
  split
  · next hnotify =>
      split
      · next hset => exact .notifyBus hthread hmay h hnotify hset
      · next hunset =>
          exact .notifyNone hthread hmay h hnotify (Bool.eq_false_of_not_eq_true hunset)
  · next hquiet =>
      have hquiet := Bool.eq_false_of_not_eq_true hquiet
      split
      · next hqueue => exact .bus hthread hmay h hquiet hqueue
      · next hqueue => exact .enqueue hthread hmay h hquiet hqueue

theorem stepped (h : s.step w a = some s') : Stepped w s a s' := by
  cases a with
  | bus b a =>
      simp only [step] at h
      split at h
      · next t hthread =>
          split at h
          · next hmay =>
              obtain ⟨bus, hbus, rfl⟩ := Option.map_eq_some_iff.mp h
              exact stepped_afterBus hthread hmay hbus
          · cases h
      · next hthread =>
          obtain ⟨bus, hbus, rfl⟩ := Option.map_eq_some_iff.mp h
          cases a with
          | tick delta => exact .tick b delta hbus
          | _ => cases hthread
  | task t k a =>
      simp only [step] at h
      split at h
      · next hmay =>
          obtain ⟨manager, hmanager, rfl⟩ := Option.map_eq_some_iff.mp h
          obtain ⟨hfree, hconsumer⟩ := Bool.and_eq_true_iff.mp hmay
          refine .task (Option.isNone_iff_eq_none.mp hfree) (fun ha => ?_) hmanager
          rw [ha] at hconsumer
          simpa using hconsumer
      · cases h
  | raise t f =>
      simp only [step] at h
      split at h
      · next hfree =>
          cases h
          exact .raise (Option.isNone_iff_eq_none.mp hfree)
      · cases h
  | lower t f =>
      simp only [step] at h
      split at h
      · next hfree =>
          cases h
          exact .lower (Option.isNone_iff_eq_none.mp hfree)
      · cases h
  | mark t f =>
      simp only [step] at h
      split at h
      · next howner =>
          cases h
          exact .mark howner
      · cases h
  | notify t =>
      simp only [step] at h
      split at h
      · cases h
      · cases h
      · next submission hkind howing =>
          cases h
          exact .notify howing hkind
  | ring t n =>
      simp only [step] at h
      split at h
      · next hfree =>
          cases h
          exact .ring (Option.isNone_iff_eq_none.mp hfree)
      · cases h

/-- The counters do not go back. -/
theorem Stepped.generation_le (h : Stepped w s a s') (n : ν) :
    s.generation n ≤ s'.generation n := by
  cases h with
  | notifyBus | notify | ring => exact le_notified (s := _) _ n
  | _ => exact Nat.le_refl _

/-- A debt is paid by a notification of the notifier in question. -/
theorem Stepped.paid (h : Stepped w s a s')
    (hset : ∀ b, (s.buses b).world.notifier.isSome = true) {x : SourceItem β κ φ}
    (hx : s.owed x) :
    s'.owed x ∨ s.generation (x.notifier w) < s'.generation (x.notifier w) := by
  obtain ⟨t, submission, howing, hcovers⟩ := hx
  -- a thread that owes nothing may change what it owes
  have hkeep : ∀ {s₁ : Sources ι β κ φ ν τ ε} {u : ι} (new),
      s₁.owing = s.owing → s.owing u = none → (s₁.setOwing u new).owed x := by
    intro s₁ u new hsame hu
    refine ⟨t, submission, ?_, hcovers⟩
    have hne : t ≠ u := by
      rintro rfl
      rw [howing] at hu
      cases hu
    rw [owing_setOwing, if_neg hne, hsame]
    exact howing
  cases h with
  | bus | tick | lower | mark | ring => exact .inl ⟨t, submission, howing, hcovers⟩
  | enqueue hthread hmay h hquiet hqueue =>
      refine .inl (hkeep _ rfl ?_)
      exact owing_of_quiet hmay hquiet
  | task hfree | raise hfree => exact .inl (hkeep _ rfl hfree)
  | @notifyBus b a u bus hthread hmay h hnotify =>
      by_cases htu : t = u
      · subst htu
        obtain ⟨ticket, rfl⟩ := event_of_owing hmay howing
        have hx : x = .event b ticket := hcovers
        subst hx
        right
        show _ < (Sources.notified _ (w.bus b)).generation (w.bus b)
        rw [generation_notified, if_pos rfl]
        exact Nat.lt_succ_self _
      · left
        refine ⟨t, submission, ?_, hcovers⟩
        show ((s.setBus b bus).setOwing u none).owing t = _
        rw [owing_setOwing, if_neg htu]
        exact howing
  | notifyNone hthread hmay h hnotify hunset =>
      rw [hset] at hunset
      cases hunset
  | @notify u other howing' hkind =>
      by_cases htu : t = u
      · subst htu
        obtain rfl : submission = other := Option.some.inj (howing.symm.trans howing')
        right
        rw [← submission.notifier_of_covers w hcovers]
        show _ < (Sources.notified _ (submission.notifier w)).generation _
        rw [generation_notified, if_pos rfl]
        exact Nat.lt_succ_self _
      · left
        refine ⟨t, submission, ?_, hcovers⟩
        show (s.setOwing u none).owing t = _
        rw [owing_setOwing, if_neg htu]
        exact howing

/-- The sources of a loop that is set up: every bus has a notifier and one thread
that processes it, and a thread that owes the notification of an event is about
to give it. -/
structure Wired (w : Wiring ι β κ φ ν) (s : Sources ι β κ φ ν τ ε) : Prop where
  buses : ∀ b, WiredBus (w.dispatcher b) (s.buses b)
  managers : ∀ k, (s.managers k).Reachable
  owing : ∀ t b ticket, s.owing t = some (.event b ticket) →
    notifying (s.buses b) t = true

omit [DecidableEq κ] [DecidableEq φ] [DecidableEq ν] [Fintype ι]
  [RequestTraits ε] in
theorem process_of_may {b : β} {t : ι} {a : BusAction ι ε}
    (hmay : s.mayStepBus w b t a = true) (u : ι) (ha : a = .call u .process)
    (hthread : a.actor = some t) : u = w.dispatcher b := by
  subst ha
  obtain rfl : u = t := Option.some.inj hthread
  unfold mayStepBus at hmay
  simpa using (Bool.and_eq_true_iff.mp hmay).2

omit [DecidableEq κ] [DecidableEq φ] [DecidableEq ν] [Fintype ι]
  [RequestTraits ε] in
theorem setNotifier_of_may {b : β} {t : ι} {a : BusAction ι ε}
    (hmay : s.mayStepBus w b t a = true) (u : ι) (n : Option Nat) :
    a ≠ .call u (.setNotifier n) := by
  rintro rfl
  unfold mayStepBus at hmay
  simp at hmay

omit [DecidableEq κ] [DecidableEq φ] [DecidableEq ν] in
theorem Wired.setBus (h : s.Wired w) {b : β} {a : BusAction ι ε}
    {bus : BusSystem ι ε} (hstep : (s.buses b).step a = some bus)
    (hprocess : ∀ t, a = .call t .process → t = w.dispatcher b)
    (hset : ∀ t n, a ≠ .call t (.setNotifier n)) (b' : β) :
    WiredBus (w.dispatcher b') ((s.setBus b bus).buses b') := by
  show WiredBus _ (Function.update s.buses b bus b')
  by_cases hb : b' = b
  · subst hb
    rw [Function.update_self]
    exact (h.buses b').step hstep hprocess hset
  · rw [Function.update_of_ne hb]
    exact h.buses b'

omit [DecidableEq κ] [DecidableEq φ] [DecidableEq ν] in
/-- The stacks of a thread do not change when another takes a step. -/
theorem Wired.notifying_setBus (h : s.Wired w) {b : β} {a : BusAction ι ε}
    {bus : BusSystem ι ε} (hstep : (s.buses b).step a = some bus) {t : ι}
    (hother : a.actor ≠ some t) {b' : β} {ticket : Nat}
    (howing : s.owing t = some (.event b' ticket)) :
    notifying ((s.setBus b bus).buses b') t = true := by
  have hold := h.owing t b' ticket howing
  show notifying (Function.update s.buses b bus b') t = true
  by_cases hb : b' = b
  · subst hb
    rw [Function.update_self, notifying_of_other hstep hother]
    exact hold
  · rw [Function.update_of_ne hb]
    exact hold

theorem Wired.step (h : s.Wired w) (hstep : Stepped w s a s') : s'.Wired w := by
  have hfree : ∀ {s₁ : Sources ι β κ φ ν τ ε} {u : ι} (new),
      (∀ b ticket, new ≠ some (.event b ticket)) → s₁.buses = s.buses →
      s₁.owing = s.owing → ∀ t b ticket,
      (s₁.setOwing u new).owing t = some (.event b ticket) →
      notifying (s₁.buses b) t = true := by
    intro s₁ u new hnew hbuses howings t b ticket howing
    rw [owing_setOwing] at howing
    split at howing
    · exact absurd howing (hnew b ticket)
    · rw [hbuses]
      exact h.owing t b ticket (howings ▸ howing)
  cases hstep with
  | @bus b a t bus hthread hmay hbus hquiet hqueue =>
      refine ⟨h.setBus hbus (fun u ha => process_of_may hmay u ha hthread)
        (setNotifier_of_may hmay), h.managers, fun u b' ticket howing => ?_⟩
      refine h.notifying_setBus hbus (fun heq => ?_) howing
      obtain rfl : t = u := Option.some.inj (hthread.symm.trans heq)
      have hnone := owing_of_quiet hmay hquiet
      change s.owing t = _ at howing
      rw [hnone] at howing
      cases howing
  | @enqueue b a t bus hthread hmay hbus hquiet hqueue =>
      refine ⟨h.setBus hbus (fun u ha => process_of_may hmay u ha hthread)
        (setNotifier_of_may hmay), h.managers, fun u b' ticket howing => ?_⟩
      rw [owing_setOwing] at howing
      split at howing
      · next hu =>
          subst hu
          cases howing
          show notifying (Function.update s.buses b bus b) u = true
          rw [Function.update_self]
          exact notifying_of_enqueue hbus hthread (setNotifier_of_may hmay) hqueue
      · next hu =>
          refine h.notifying_setBus hbus (fun heq => hu ?_) howing
          exact Option.some.inj (heq.symm.trans hthread)
  | @notifyBus b a t bus hthread hmay hbus _ _
  | @notifyNone b a t bus hthread hmay hbus _ _ =>
      refine ⟨h.setBus hbus (fun u ha => process_of_may hmay u ha hthread)
        (setNotifier_of_may hmay), h.managers, fun u b' ticket howing => ?_⟩
      change ((s.setBus b bus).setOwing t none).owing u = _ at howing
      rw [owing_setOwing] at howing
      split at howing
      · cases howing
      · next hu =>
          refine h.notifying_setBus hbus (fun heq => hu ?_) howing
          exact Option.some.inj (heq.symm.trans hthread)
  | @tick b delta bus hbus =>
      refine ⟨h.setBus hbus (fun _ ha => by cases ha) (fun _ _ ha => by cases ha),
        h.managers, fun u b' ticket howing => ?_⟩
      exact h.notifying_setBus hbus (fun heq => by cases heq) howing
  | @task t k a manager _ _ hmanager =>
      refine ⟨h.buses, fun k' => ?_, hfree _ (fun b ticket heq => ?_) rfl rfl⟩
      · show (Function.update s.managers k manager k').Reachable
        by_cases hk : k' = k
        · subst hk
          rw [Function.update_self]
          exact (h.managers k').trans_run (Lts.run_one hmanager)
        · rw [Function.update_of_ne hk]
          exact h.managers k'
      · unfold submission at heq
        split at heq
        · cases heq
        · split at heq <;> cases heq
  | raise => exact ⟨h.buses, h.managers, hfree _ (fun _ _ heq => by cases heq) rfl rfl⟩
  | notify => exact ⟨h.buses, h.managers, hfree _ (fun _ _ heq => by cases heq) rfl rfl⟩
  | lower | mark | ring => exact ⟨h.buses, h.managers, h.owing⟩

omit [DecidableEq β] [DecidableEq φ] [DecidableEq ν] [Fintype ι]
  [RequestTraits ε] in
theorem supplied_ready (hwired : s.Wired w) {t : ι} {k : κ} {a : TaskAction τ}
    {manager : TaskSystem τ} (hconsumer : a.consumes = true → t = w.consumer k)
    (hstep : (s.managers k).step a = some manager) {early : Int → Prop}
    {k' : κ} {id : Nat}
    (hx : ({ s with managers := Function.update s.managers k manager }.setOwing t
      (submission k (s.managers k) manager)).item early (.ready k' id))
    (hother : a.consumes = true → some t ≠ some (w.consumer k')) :
    s.item early (.ready k' id) ∨
      ({ s with managers := Function.update s.managers k manager }.setOwing t
        (submission k (s.managers k) manager)).owed (.ready k' id) := by
  change (Function.update s.managers k manager k').mgr.stateOf id = _ at hx
  by_cases hk : k' = k
  · subst hk
    rw [Function.update_self] at hx
    have ha : a.consumes = false :=
      Bool.eq_false_of_not_eq_true fun ha => hother ha (congrArg some (hconsumer ha))
    refine ((hwired.managers k').ready_of_step hstep ha hx).imp_right fun hid => ?_
    refine ⟨t, .tasks k' (accepted (s.managers k') manager), ?_, id, hid, .inl rfl⟩
    rw [owing_setOwing, if_pos rfl, submission, if_pos (List.ne_nil_of_mem hid)]
  · rw [Function.update_of_ne hk] at hx
    exact .inl hx

omit [DecidableEq β] [DecidableEq φ] [DecidableEq ν] [Fintype ι]
  [RequestTraits ε] in
theorem supplied_delayed (hwired : s.Wired w) {t : ι} {k : κ} {a : TaskAction τ}
    {manager : TaskSystem τ} (hconsumer : a.consumes = true → t = w.consumer k)
    (hstep : (s.managers k).step a = some manager) {early : Int → Prop}
    {k' : κ} {id : Nat}
    (hx : ({ s with managers := Function.update s.managers k manager }.setOwing t
      (submission k (s.managers k) manager)).item early (.delayed k' id))
    (hother : a.consumes = true → some t ≠ some (w.consumer k')) :
    s.item early (.delayed k' id) ∨
      ({ s with managers := Function.update s.managers k manager }.setOwing t
        (submission k (s.managers k) manager)).owed (.delayed k' id) := by
  obtain ⟨e, he, rfl, hstate, hearly⟩ := hx
  change e ∈ (Function.update s.managers k manager k').mgr.delayedHeap at he
  change (Function.update s.managers k manager k').mgr.stateOf e.id = _ at hstate
  by_cases hk : k' = k
  · subst hk
    rw [Function.update_self] at he hstate
    have ha : a.consumes = false :=
      Bool.eq_false_of_not_eq_true fun ha => hother ha (congrArg some (hconsumer ha))
    rcases (hwired.managers k').delayed_of_step hstep ha ⟨he, hstate⟩ with
      ⟨he, hstate⟩ | hid
    · exact .inl ⟨e, he, rfl, hstate, hearly⟩
    · refine .inr
        ⟨t, .tasks k' (accepted (s.managers k') manager), ?_, e.id, hid, .inr rfl⟩
      rw [owing_setOwing, if_pos rfl, submission, if_pos (List.ne_nil_of_mem hid)]
  · rw [Function.update_of_ne hk] at he hstate
    exact .inl ⟨e, he, rfl, hstate, hearly⟩

/-- What has not been there before is owed, unless the thread that processes the
source has put it back itself. -/
theorem Stepped.supplied (h : Stepped w s a s') (hwired : s.Wired w)
    {early : Int → Prop} {x : SourceItem β κ φ} (hx : s'.item early x)
    (hother : a.consumes = true → ∀ t, x.processor w = some t → a.actor ≠ some t) :
    s.item early x ∨ s'.owed x := by
  cases h with
  | @bus b a t bus hthread hmay hbus hquiet hqueue =>
      cases x with
      | event b' ticket =>
          obtain ⟨q, hq, rfl⟩ := hx
          change q ∈ (Function.update s.buses b bus b').world.queue at hq
          by_cases hb : b' = b
          · subst hb
            rw [Function.update_self] at hq
            rcases (hwired.buses b').queue hbus
              (fun u ha => process_of_may hmay u ha hthread)
              (hother rfl _ rfl) hq with hq | ⟨-, hne⟩
            · exact .inl ⟨q, hq, rfl⟩
            · exact absurd hqueue hne
          · rw [Function.update_of_ne hb] at hq
            exact .inl ⟨q, hq, rfl⟩
      | _ => exact .inl hx
  | @enqueue b a t bus hthread hmay hbus hquiet hqueue =>
      cases x with
      | event b' ticket =>
          obtain ⟨q, hq, rfl⟩ := hx
          change q ∈ (Function.update s.buses b bus b').world.queue at hq
          by_cases hb : b' = b
          · subst hb
            rw [Function.update_self] at hq
            rcases (hwired.buses b').queue hbus
              (fun u ha => process_of_may hmay u ha hthread)
              (hother rfl _ rfl) hq with hq | ⟨hticket, -⟩
            · exact .inl ⟨q, hq, rfl⟩
            · refine .inr ⟨t, .event b' (s.buses b').world.nextTicket, ?_, ?_⟩
              · rw [owing_setOwing, if_pos rfl]
              · show SourceItem.event b' q.ticket = _
                rw [hticket]
          · rw [Function.update_of_ne hb] at hq
            exact .inl ⟨q, hq, rfl⟩
      | _ => exact .inl hx
  | @notifyBus b a t bus hthread hmay hbus hnotify _
  | @notifyNone b a t bus hthread hmay hbus hnotify _ =>
      cases x with
      | event b' ticket =>
          obtain ⟨q, hq, rfl⟩ := hx
          change q ∈ (Function.update s.buses b bus b').world.queue at hq
          by_cases hb : b' = b
          · subst hb
            rw [Function.update_self, queue_of_notifying hbus hthread hnotify] at hq
            exact .inl ⟨q, hq, rfl⟩
          · rw [Function.update_of_ne hb] at hq
            exact .inl ⟨q, hq, rfl⟩
      | _ => exact .inl hx
  | @tick b delta bus hbus =>
      cases x with
      | event b' ticket =>
          obtain ⟨q, hq, rfl⟩ := hx
          change q ∈ (Function.update s.buses b bus b').world.queue at hq
          by_cases hb : b' = b
          · subst hb
            cases hbus
            rw [Function.update_self] at hq
            exact .inl ⟨q, hq, rfl⟩
          · rw [Function.update_of_ne hb] at hq
            exact .inl ⟨q, hq, rfl⟩
      | _ => exact .inl hx
  | @task t k a manager hfree hconsumer hmanager =>
      cases x with
      | ready k' id =>
          exact supplied_ready hwired hconsumer hmanager hx fun ha => hother ha _ rfl
      | delayed k' id =>
          exact supplied_delayed hwired hconsumer hmanager hx fun ha => hother ha _ rfl
      | _ => exact .inl hx
  | @raise t f _ =>
      cases x with
      | flag f' =>
          by_cases hf : f' = f
          · subst hf
            refine .inr ⟨t, .flag f', ?_, rfl⟩
            rw [owing_setOwing, if_pos rfl]
          · change Function.update s.flags f true f' = true at hx
            rw [Function.update_of_ne hf] at hx
            exact .inl hx
      | _ => exact .inl hx
  | @lower t f _ =>
      cases x with
      | flag f' =>
          change Function.update s.flags f false f' = true at hx
          by_cases hf : f' = f
          · subst hf
            rw [Function.update_self] at hx
            cases hx
          · rw [Function.update_of_ne hf] at hx
            exact .inl hx
      | _ => exact .inl hx
  | @mark t f howner =>
      cases x with
      | flag f' =>
          by_cases hf : f' = f
          · subst hf
            exact absurd rfl (hother rfl t howner)
          · change Function.update s.flags f true f' = true at hx
            rw [Function.update_of_ne hf] at hx
            exact .inl hx
      | _ => exact .inl hx
  | notify | ring => exact .inl hx

end Sources

end EventHub
