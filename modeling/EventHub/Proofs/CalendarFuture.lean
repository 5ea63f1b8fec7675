import EventHub.Proofs.CalendarPublish

/-!
# Every rule has a future

Between the calls of the scheduler a registered rule names a task that waits.
Whoever works for a rule queues its next occurrence or takes the rule out, but
for two ways to leave it: the provider throws where `schedule_after_run` asks
it, and `schedule_one` publishes a task that has run in the meantime.
-/

namespace EventHub

open CalendarFrame Threads

variable {ι : Type}

namespace CalendarFrame

/-- The frame will queue an occurrence of rule `r`, or take the rule out. -/
def busy (r : Nat) : CalendarFrame → Bool
  | .starting _ rule => rule = some r
  | .adding q _ | .scheduleOne q .. | .publish q .. | .runDue q _
  | .markCompleted q | .cancelRule q false => q = r
  | .running run pc => run.rule = r ∧ pc ≠ .cancelled
  | _ => false

/-- No call of the scheduler, and no `run_due`. -/
def betweenCalls : CalendarFrame → Bool
  | .user _ | .process | .starting _ none => true
  | _ => false

/-- The rule and the task that `schedule_one` is about to publish. -/
def announces : CalendarFrame → Option (Nat × Nat)
  | .publish r _ _ i _ => some (r, i)
  | _ => none

/-- The rule for which `schedule_after_run` asks the provider. -/
def plansFor : CalendarFrame → Option Nat
  | .running run pc => if pc.asks then some run.rule else none
  | _ => none

/-- `cancel_all` has taken the rule and not yet come to it. -/
def holds (r : Nat) : CalendarFrame → Bool
  | .cancellingAll rest _ => r ∈ rest
  | _ => false

variable {r : Nat} {g : CalendarFrame}

theorem busy_of_plain (h : g.plain) : g.busy r = false := by
  cases g <;> first | rfl | cases h

theorem holds_of_plain (h : g.plain) : g.holds r = false := by
  cases g <;> first | rfl | cases h

theorem cancels_of_plain {i : Nat} (h : g.plain) : g.cancels i = false := by
  cases g <;> first | rfl | cases h

theorem not_busy_of_betweenCalls (h : g.betweenCalls) : g.busy r = false := by
  cases g <;> first | rfl | cases h | skip
  case starting i rule =>
    cases rule with
    | none => rfl
    | some q => cases h

theorem not_closes_of_betweenCalls (h : g.betweenCalls) : g.closes r = false := by
  cases g <;> first | rfl | cases h

end CalendarFrame

/-- Nobody takes a task out of the manager behind the scheduler's back. -/
def CalendarAction.leavesTasks : CalendarAction ι → Prop
  | .call _ (.cancelTask _) | .call _ (.manager .clearPending) => False
  | _ => True

instance (a : CalendarAction ι) : Decidable a.leavesTasks := by
  unfold CalendarAction.leavesTasks
  split <;> infer_instance

namespace CalendarSystem

/-- No call of the scheduler and no `run_due` is in progress. -/
def Settled (s : CalendarSystem ι) : Prop :=
  ∀ t, ∀ f ∈ s.frames t, f.betweenCalls

/-- Every rule is alive then, and names a task that is queued. -/
def FutureKept (s : CalendarSystem ι) : Prop :=
  s.Settled → ∀ r ∈ s.world.registered,
    (s.world.states r).cancelled = false ∧
      (s.world.states r).scheduledTaskId ≠ 0 ∧
      s.world.tasks.waits (s.world.states r).scheduledTaskId

/-- What `schedule_one` publishes still waits, or somebody else works for the
rule. -/
def PublishesInTime [DecidableEq ι] (s : CalendarSystem ι) (t : ι)
    (f : CalendarFrame) : Prop :=
  ∀ x ∈ f.announces, s.world.gone x.1 = false →
    s.world.tasks.waits x.2 ∨
      Threads.Exists (busy x.1) (replaceTop s.frames t [])

instance [Fintype ι] [DecidableEq ι] (s : CalendarSystem ι) (t : ι)
    (f : CalendarFrame) : Decidable (s.PublishesInTime t f) :=
  inferInstanceAs (Decidable (∀ x ∈ f.announces, _))

/-- An exception of the provider leaves `schedule_after_run` only when the rule
is gone. -/
def ThrowsForGone (s : CalendarSystem ι) (t : ι) (f : CalendarFrame) : Prop :=
  s.mode t = .throwing → ∀ r ∈ f.plansFor, s.world.gone r

instance (s : CalendarSystem ι) (t : ι) (f : CalendarFrame) :
    Decidable (s.ThrowsForGone t f) :=
  inferInstanceAs (Decidable (s.mode t = .throwing → ∀ r ∈ f.plansFor, _))

/-- Task `i` was queued for an occurrence of rule `r`. -/
def OccurrenceOf (s : CalendarSystem ι) (r i : Nat) : Prop :=
  ∃ o ∈ s.world.job i, o.rule = r

end CalendarSystem

section Move

variable {a : CalendarAction ι} {mode : CalendarMode} {w w' : CalendarWorld}
  {f : CalendarFrame} {fs : List CalendarFrame} {r i : Nat}

/-- Who works for a rule goes on, or is done with it. -/
theorem CalendarMove.busy (h : CalendarMove a mode w f w' fs) (hf : f.busy r) :
    (∃ g ∈ fs, g.busy r) ∨ r ∉ w'.registered ∨ w.gone r ∨
      (∃ i, f.announces = some (r, i) ∧ w.gone r = false ∧
        w'.tasks = w.tasks ∧ (w'.states r).scheduledTaskId = i) ∨
      f.plansFor = some r ∧ mode = .throwing := by
  have hone {g : CalendarFrame} (hg : g.busy r) : ∃ g' ∈ [g], g'.busy r :=
    ⟨g, List.mem_singleton_self g, hg⟩
  cases h
  case plain hf' => rw [busy_of_plain hf'] at hf; cases hf
  case otherSettled => cases hf
  case settled | announced | askedFirst | missedFirst | abandoned | plannedFirst |
      unpostedAfterRun | posted =>
    exact .inl (hone (by simpa [CalendarFrame.busy] using hf))
  case unposted => exact .inl (hone (by simpa [CalendarFrame.busy] using hf))
  case unpublished hgone | unpublishedAfterRun hgone | dropped hgone =>
    have hq := of_decide_eq_true hf
    exact .inr (.inr (.inl (hq ▸ hgone)))
  case published q planned observed j caller hkept info hinfo =>
    have hq : q = r := of_decide_eq_true hf
    subst hq
    refine .inr (.inr (.inr (.inl ⟨j, rfl, hkept, rfl, ?_⟩)))
    rw [CalendarWorld.emit_states, CalendarWorld.publish_states_self]
  case consumed q j hkept =>
    have hq : q = r := of_decide_eq_true hf
    exact .inl (hone (by simp [CalendarFrame.busy, hq]))
  case emitted run pc pc' event hpc observed =>
    have hrule : run.rule = r := (of_decide_eq_true hf).1
    refine .inl (hone ?_)
    cases pc <;> cases hpc <;> simp [CalendarFrame.busy, hrule]
  case entered run | stopped run observed | counted run observed hkept |
      askedNext run | askedAgain run next | missedNext run next info hinfo =>
    have hrule : run.rule = r := (of_decide_eq_true hf).1
    exact .inl (hone (by simp [CalendarFrame.busy, hrule]))
  case walked run pc pc' hkept hpc =>
    have hrule : run.rule = r := (of_decide_eq_true hf).1
    refine .inl (hone ?_)
    cases hpc <;> simp [CalendarFrame.busy, hrule]
  case exhausted run pc hpc | plannedNext run pc hpc planned observed immediate =>
    have hrule : run.rule = r := (of_decide_eq_true hf).1
    exact .inl (hone (by simp [CalendarFrame.busy, hrule]))
  case rethrown run | finished run =>
    have hrule : run.rule = r := (of_decide_eq_true hf).1
    exact .inr (.inl (hrule ▸ Finset.notMem_erase _ _))
  case lastEmitted run => simp [CalendarFrame.busy] at hf
  case escaped run pc hmode hpc =>
    have hrule : run.rule = r := (of_decide_eq_true hf).1
    exact .inr (.inr (.inr (.inr ⟨by simp [plansFor, hpc, hrule], hmode⟩)))
  case completed q =>
    have hq : q = r := of_decide_eq_true hf
    exact .inr (.inl (hq ▸ Finset.notMem_erase _ _))
  case cancelIgnored q hno =>
    have hq : q = r := of_decide_eq_true hf
    refine .inr (.inr (.inl ?_))
    rcases hno with hno | hno <;> simp [CalendarWorld.gone, ← hq, hno]
  case cancelTaken q called hr hkept hqueued |
      cancelTakenAlone q called hr hkept hqueued =>
    cases called with
    | true => cases hf
    | false =>
        have hq : q = r := of_decide_eq_true hf
        exact .inr (.inl (hq ▸ Finset.notMem_erase _ _))
  all_goals cases hf

/-- A task waits until it is cancelled or started. -/
theorem CalendarMove.stillWaits (h : CalendarMove a mode w f w' fs)
    (hinv : w.tasks.Inv) (hi : i < w.tasks.mgr.nextId) (hw : w.tasks.waits i) :
    w'.tasks.waits i ∨ ¬ a.leavesTasks ∨
      (∃ loaded, w.tasks.cancelling = some (i, loaded)) ∨
      .starting i ((w.job i).map Occurrence.rule) ∈ fs := by
  have hother {act : TaskAction Unit} {tasks : TaskSystem Unit}
      (hstep : w.tasks.step act = some tasks) (hclear : act ≠ .clearPending)
      (hstart : act = .processStart → tasks.phase.current = none) :
      tasks.waits i ∨ ¬ a.leavesTasks ∨
        (∃ loaded, w.tasks.cancelling = some (i, loaded)) ∨
        .starting i ((w.job i).map Occurrence.rule) ∈ fs := by
    cases (TaskSystem.step_waited hinv hi hstep).waiting with
    | kept heq => exact .inl (heq.trans hw)
    | cleared ha _ => exact absurd ha hclear
    | cancelled _ hc _ => exact .inr (.inr (.inl ⟨_, hc⟩))
    | started ha hcurrent _ _ _ => cases (hstart ha).symm.trans hcurrent
    | again _ _ _ hst _ =>
        unfold TaskSystem.waits at hw
        rw [hst] at hw
        cases hw
  cases h
  case started entry unrun tasks hphase h hwon =>
    obtain ⟨hcurrent, -, -⟩ := TaskSystem.step_processStart hphase h hwon
    cases (TaskSystem.step_waited hinv hi h).waiting with
    | kept heq => exact .inl (heq.trans hw)
    | cleared ha _ => cases ha
    | cancelled ha _ _ => cases ha
    | started _ hcurrent' hid _ _ =>
        cases hcurrent.symm.trans hcurrent'
        subst hid
        exact .inr (.inr (.inr List.mem_cons_self))
    | again ha _ _ _ _ => cases ha
  case passed tasks h hlost =>
    exact hother h nofun fun _ => Option.isNone_iff_eq_none.mp hlost
  case produced act tasks ha hact h =>
    by_cases hclear : act = .clearPending
    · obtain ⟨t, rfl⟩ := ha
      rw [hclear]
      exact .inr (.inl id)
    · exact hother h hclear (by rintro rfl; cases hact)
  case processed hact h | threw hact h =>
    exact hother h (by rintro rfl; rcases hact with hact | hact <;> cases hact)
      (by rintro rfl; rcases hact with hact | hact <;> cases hact)
  case nothingBegan h | began h _ | loaded h _ | unloaded h _ | exchanged h |
      returned h | settled h | otherSettled h | unposted h |
      unpostedAfterRun h _ | posted h _ _ =>
    exact hother h nofun nofun
  all_goals exact .inl hw

/-- Only a new rule comes without a frame that works for it. -/
theorem CalendarMove.registered_busy (h : CalendarMove a mode w f w' fs)
    (hr : r ∈ w'.registered) : r ∈ w.registered ∨ ∃ g ∈ fs, g.busy r := by
  cases h
  case registered options hopen =>
    rcases Finset.mem_insert.mp hr with rfl | hr
    · exact .inr ⟨_, List.mem_singleton_self _, decide_eq_true rfl⟩
    · exact .inl hr
  case rethrown | finished | completed | cancelTaken | cancelTakenAlone =>
    exact .inl (Finset.mem_of_mem_erase hr)
  case allTaken => cases hr
  all_goals exact .inl hr

/-- What `cancel_all` holds was registered when it took it. -/
theorem CalendarMove.holds (h : CalendarMove a mode w f w' fs)
    {g : CalendarFrame} (hg : g ∈ fs) (hr : g.holds r) :
    f.holds r ∨ w'.registered = ∅ := by
  have hnone (hfs : fs.countP (CalendarFrame.holds r) = 0) :
      f.holds r ∨ w'.registered = ∅ :=
    absurd hr (List.countP_eq_zero.mp hfs g hg)
  cases h
  case allTaken => exact .inr rfl
  case onePicked rest rules q hq hqueued =>
    rcases List.mem_cons.mp hg with rfl | hg
    · cases hr
    · rcases List.mem_pair.mp hg with rfl | rfl
      · cases hr
      · exact .inl (decide_eq_true (Finset.mem_of_mem_erase (of_decide_eq_true hr)))
  case onePickedAlone rest rules q hq hqueued =>
    rcases List.mem_pair.mp hg with rfl | rfl
    · cases hr
    · exact .inl (decide_eq_true (Finset.mem_of_mem_erase (of_decide_eq_true hr)))
  all_goals exact hnone (by rfl)

/-- A task is cancelled for a rule that is taken, or at the wish of the
program. -/
theorem CalendarMove.cancels_new (h : CalendarMove a mode w f w' fs)
    {g : CalendarFrame} (hg : g ∈ fs) (hi : g.cancels i) :
    ¬ a.leavesTasks ∨ (∃ r, f.publishes r i ∧ w.gone r) ∨
      ∃ r, (w.states r).scheduledTaskId = i ∧ i ≠ 0 ∧
        (f.holds r ∨ r ∉ w'.registered) := by
  have hnone (hfs : fs.countP (CalendarFrame.cancels i) = 0) :
      ¬ a.leavesTasks ∨ (∃ r, f.publishes r i ∧ w.gone r) ∨
        ∃ r, (w.states r).scheduledTaskId = i ∧ i ≠ 0 ∧
          (f.holds r ∨ r ∉ w'.registered) :=
    absurd hi (List.countP_eq_zero.mp hfs g hg)
  cases h
  case cancelTaskCalled j ha =>
    obtain ⟨t, rfl⟩ := ha
    exact .inl id
  case unpublished r planned observed j hgone |
      unpublishedAfterRun r planned observed j hgone =>
    rcases List.mem_pair.mp hg with rfl | rfl
    · have hj : j = i := of_decide_eq_true hi
      exact .inr (.inl ⟨r, by simp [CalendarFrame.publishes, hj], hgone⟩)
    · cases hi
  case cancelTaken r called hr hkept hqueued =>
    rcases List.mem_pair.mp hg with rfl | rfl
    · have hj : (w.states r).scheduledTaskId = i := of_decide_eq_true hi
      exact .inr (.inr ⟨r, hj, hj ▸ hqueued, .inr (Finset.notMem_erase _ _)⟩)
    · cases hi
  case onePicked rest rules r hr hqueued =>
    rcases List.mem_cons.mp hg with rfl | hg
    · have hj : (w.states r).scheduledTaskId = i := of_decide_eq_true hi
      exact .inr (.inr ⟨r, hj, hj ▸ hqueued, .inl (decide_eq_true hr)⟩)
    · rcases List.mem_pair.mp hg with rfl | rfl <;> cases hi
  all_goals exact hnone (by rfl)

/-- The manager takes up a cancellation with its frame. -/
theorem CalendarMove.cancelling_new (h : CalendarMove a mode w f w' fs)
    (hinv : w.tasks.Inv) (hloaded : w.tasks.Loaded) {loaded : State}
    (hc : w'.tasks.cancelling = some (i, loaded)) :
    w.tasks.cancelling = some (i, loaded) ∨ f.cancels i := by
  have hother {act : TaskAction Unit} {tasks : TaskSystem Unit}
      (hstep : w.tasks.step act = some tasks) (hload : ∀ k, act ≠ .cancelLoad k)
      (hc : tasks.cancelling = some (i, loaded)) :
      w.tasks.cancelling = some (i, loaded) ∨ f.cancels i := by
    by_cases hexchange : act = .cancelExchange
    · subst hexchange
      rw [(TaskSystem.step_cancelExchange hloaded hstep).2.1] at hc
      cases hc
    · rw [TaskSystem.step_cancelling hload hexchange hstep] at hc
      exact .inl hc
  cases h
  case loaded j called tasks h hheld | unloaded j called tasks h hfree =>
    obtain ⟨-, -, hsome | ⟨hnone, -⟩⟩ := TaskSystem.step_cancelLoad hinv h
    · cases hsome.symm.trans hc
      exact .inr (decide_eq_true rfl)
    · cases hnone.symm.trans hc
  case produced act tasks ha hact h =>
    exact hother h (by rintro k rfl; cases hact) hc
  case processed hact h | threw hact h =>
    exact hother h (by rintro k rfl; rcases hact with hact | hact <;> cases hact) hc
  case nothingBegan h | began h _ | exchanged h | returned h | settled h |
      otherSettled h | unposted h | unpostedAfterRun h _ | posted h _ _ |
      started h _ | passed h _ =>
    exact hother h nofun hc
  all_goals exact .inl hc

end Move

namespace CalendarSystem

/-- What names of tasks are for, and that every rule is attended to. -/
structure FutureInv (s : CalendarSystem ι) : Prop where
  named : ∀ r, (s.world.states r).scheduledTaskId ≠ 0 →
    s.OccurrenceOf r (s.world.states r).scheduledTaskId
  publishing : Forall (fun g => ∀ r i, g.publishes r i → i ≠ 0 ∧ s.OccurrenceOf r i)
    s.frames
  held : Forall (fun g => ∀ r, g.holds r → s.world.gone r) s.frames
  /-- Only tasks of rules that are gone are taken back. -/
  withdrawn : ∀ i, s.Withdrawing i → ∃ r, s.OccurrenceOf r i ∧ s.world.gone r
  future : ∀ r ∈ s.world.registered, Threads.Exists (busy r) s.frames ∨
    (s.world.states r).scheduledTaskId ≠ 0 ∧
      s.world.tasks.waits (s.world.states r).scheduledTaskId

theorem FutureInv.init : FutureInv ({} : CalendarSystem ι) where
  named r hr := absurd rfl hr
  publishing t g hg r i hi := by
    rw [List.mem_singleton.mp hg] at hi
    cases hi
  held t g hg r hr := by
    rw [List.mem_singleton.mp hg] at hr
    cases hr
  withdrawn i hi := by
    rcases hi with ⟨t, ht⟩ | ⟨loaded, hc⟩
    · cases ht
    · cases hc
  future := by nofun

section

variable [DecidableEq ι] {s s' : CalendarSystem ι} {a : CalendarAction ι} {t : ι}
  {f : CalendarFrame} {fs : List CalendarFrame} {r i : Nat}

/-- The other frames stay. -/
theorem Stepped.exists_rest {p : CalendarFrame → Bool} (h : Stepped s a t f fs s')
    (hex : Threads.Exists p (replaceTop s.frames t [])) :
    Threads.Exists p s'.frames := by
  obtain ⟨rest, gs, -, -, hs'⟩ := h.top
  obtain ⟨u, hu⟩ := hex
  refine ⟨u, ?_⟩
  rw [hs']
  by_cases hut : u = t
  · subst hut
    rw [replaceTop_self, List.nil_append] at hu
    rw [replaceTop_self, List.any_append, hu, Bool.or_true]
  · rw [replaceTop_of_ne hut] at hu
    rwa [replaceTop_of_ne hut]

/-- A task that is an occurrence has been handed out. -/
theorem Reachable.handedOut (hs : s.Reachable) {o : Occurrence}
    (ho : o ∈ s.world.job i) : i < s.world.tasks.mgr.nextId := by
  have hall : ∀ i, ∀ o ∈ s.world.job i, i < s.world.tasks.mgr.nextId := by
    refine Reachable.induction
      (P := fun s => ∀ i, ∀ o ∈ s.world.job i, i < s.world.tasks.mgr.nextId) hs (by nofun) ?_
    intro s a t f fs s' hs ih hst i o ho
    rcases hst.move.jobs hs.tasks.inv with ⟨hjobs, -⟩ |
      ⟨q, planned, observed, immediate, caller, j, rfl, rfl, hj, hnew, tasks, hw⟩
    · exact (hst.move.handedOut hs.tasks.inv (ih i o (hjobs ▸ ho))).1
    · by_cases hij : i = j
      · exact hij ▸ hnew.known
      · rw [hw] at ho
        have hold : o ∈ s.world.job i := (Function.update_of_ne hij ..).symm.trans ho
        exact (hst.move.handedOut hs.tasks.inv (ih i o hold)).1
  exact hall i o ho

theorem OccurrenceOf.step (ho : s.OccurrenceOf r i) (hs : s.Reachable)
    (hst : Stepped s a t f fs s') : s'.OccurrenceOf r i := by
  obtain ⟨o, ho, hrule⟩ := ho
  rcases hst.move.jobs hs.tasks.inv with ⟨hjobs, -⟩ |
    ⟨q, planned, observed, immediate, caller, j, rfl, rfl, hj, hnew, tasks, hw⟩
  · exact ⟨o, hjobs ▸ ho, hrule⟩
  · have hij : i ≠ j := ((hs.handedOut ho).trans_le hnew.fresh).ne
    refine ⟨o, ?_, hrule⟩
    rw [hw]
    exact (Function.update_of_ne hij ..).trans ho

theorem OccurrenceOf.gone_step (ho : s.OccurrenceOf r i) (hs : s.Reachable)
    (hst : Stepped s a t f fs s') (hgone : s.world.gone r) : s'.world.gone r := by
  obtain ⟨o, ho, rfl⟩ := ho
  exact hst.move.gone (hs.known.jobs i o ho) hgone

theorem FutureInv.named_step (h : s.FutureInv) (hs : s.Reachable)
    (hst : Stepped s a t f fs s') (hr : (s'.world.states r).scheduledTaskId ≠ 0) :
    s'.OccurrenceOf r (s'.world.states r).scheduledTaskId := by
  rcases hst.move.schedule r with ⟨hsame, -⟩ |
    ⟨planned, observed, i, caller, rfl, hi, -⟩ | ⟨hzero, -⟩
  · rw [hsame] at hr ⊢
    exact (h.named r hr).step hs hst
  · rw [hi]
    exact (hst.of_forall h.publishing r i (by simp [publishes])).2.step hs hst
  · exact absurd hzero hr

theorem FutureInv.publishing_step (h : s.FutureInv) (hs : s.Reachable)
    (hst : Stepped s a t f fs s') :
    Forall (fun g => ∀ r i, g.publishes r i → i ≠ 0 ∧ s'.OccurrenceOf r i)
      s'.frames := by
  refine hst.forall (h.publishing.imp fun g hg r i hi => ?_) (fun g hg r i hi => ?_)
    fun g hg r i hi => ?_
  · exact (hg r i hi).imp_right fun ho => ho.step hs hst
  · cases (publishes_of_plain hg).symm.trans hi
  · rcases hst.move.jobs hs.tasks.inv with ⟨-, -, hnone⟩ |
      ⟨q, planned, observed, immediate, caller, j, rfl, rfl, hj, hnew, tasks, hw⟩
    · exact absurd hi (List.countP_eq_zero.mp (hnone r i) g hg)
    · rw [List.mem_singleton.mp hg] at hi
      simp only [publishes, Bool.and_eq_true, decide_eq_true_eq] at hi
      obtain ⟨rfl, rfl⟩ := hi
      refine ⟨hj, ⟨{ rule := _, plannedUtcMs := planned }, ?_, rfl⟩⟩
      rw [hw]
      exact Function.update_self ..

/-- What `cancel_all` holds is gone. -/
theorem FutureInv.held_step (h : s.FutureInv) (hs : s.Reachable)
    (hst : Stepped s a t f fs s') :
    Forall (fun g => ∀ r, g.holds r → s'.world.gone r) s'.frames := by
  have hknown (g : CalendarFrame) (hg : ∀ r ∈ g.rules, r < s.world.nextId) (r : Nat)
      (hr : g.holds r) : r < s.world.nextId := by
    refine hg r ?_
    cases g <;> first | cases hr | skip
    exact Finset.mem_union_left _ (of_decide_eq_true hr)
  have hold : Forall (fun g => ∀ r, g.holds r → s'.world.gone r) s.frames :=
    fun u g hg r hr =>
      hst.move.gone (hknown g (hs.known.frames u g hg) r hr) (h.held u g hg r hr)
  refine hst.forall hold (fun g hg r hr => ?_) fun g hg r hr => ?_
  · cases (holds_of_plain hg).symm.trans hr
  · rcases hst.move.holds hg hr with hf | hnone
    · exact hst.of_forall hold r hf
    · simp [CalendarWorld.gone, hnone]

theorem FutureInv.withdrawn_step (h : s.FutureInv) (hs : s.Reachable)
    (hst : Stepped s a t f fs s') (ha : a.leavesTasks) (hi : s'.Withdrawing i) :
    ∃ r, s'.OccurrenceOf r i ∧ s'.world.gone r := by
  have hold (hi : s.Withdrawing i) : ∃ r, s'.OccurrenceOf r i ∧ s'.world.gone r := by
    obtain ⟨r, ho, hgone⟩ := h.withdrawn i hi
    exact ⟨r, ho.step hs hst, ho.gone_step hs hst hgone⟩
  rcases hi with hex | ⟨loaded, hc⟩
  · rcases hst.exists_or (fun g => cancels_of_plain (g := g)) hex with
      hex | ⟨g, hg, hcancels⟩
    · exact hold (.inl hex)
    · rcases hst.move.cancels_new hg hcancels with
        hcalled | ⟨r, hpub, hgone⟩ | ⟨r, rfl, hne, hwhy⟩
      · exact absurd ha hcalled
      · have ho := (hst.of_forall h.publishing r i hpub).2
        exact ⟨r, ho.step hs hst, ho.gone_step hs hst hgone⟩
      · have ho := h.named r hne
        refine ⟨r, ho.step hs hst, ?_⟩
        rcases hwhy with hheld | hout
        · exact ho.gone_step hs hst (hst.of_forall h.held r hheld)
        · simp [CalendarWorld.gone, hout]
  · rcases hst.move.cancelling_new hs.tasks.inv hs.tasks.loaded hc with hc | hf
    · exact hold (.inr ⟨loaded, hc⟩)
    · obtain ⟨rest, gs, ht, -, -⟩ := hst.top
      refine hold (.inl ⟨t, ?_⟩)
      simp [ht, hf]

/-- A rule that is gone and registered is being taken out. -/
theorem Reachable.busy_of_gone (hs : s.Reachable) (hr : r ∈ s.world.registered)
    (hgone : s.world.gone r) : Threads.Exists (busy r) s.frames := by
  rcases hs.live.gone hr with hkept | ⟨u, hu⟩
  · cases hkept.symm.trans hgone
  · refine ⟨u, ?_⟩
    obtain ⟨g, hg, hcloses⟩ := List.any_eq_true.mp hu
    refine List.any_eq_true.mpr ⟨g, hg, ?_⟩
    cases g <;> try cases hcloses
    case running run pc =>
      cases pc <;> first | cases hcloses | skip
      all_goals simpa [closes, busy] using hcloses

theorem FutureInv.future_step (h : s.FutureInv) (hs : s.Reachable)
    (hs' : s'.Reachable) (hst : Stepped s a t f fs s') (ha : a.leavesTasks)
    (htime : AtTop PublishesInTime s a) (hthrow : AtTop ThrowsForGone s a)
    (hr' : r ∈ s'.world.registered) :
    Threads.Exists (busy r) s'.frames ∨
      (s'.world.states r).scheduledTaskId ≠ 0 ∧
        s'.world.tasks.waits (s'.world.states r).scheduledTaskId := by
  by_cases hgone' : s'.world.gone r
  · exact .inl (hs'.busy_of_gone hr' hgone')
  rcases hst.move.registered_busy hr' with hr | ⟨g, hg, hbusy⟩
  swap
  · exact .inl (hst.exists_new hg hbusy)
  have hkept : ¬ s.world.gone r :=
    fun hgone => hgone' (hst.move.gone (hs.known.registered r hr) hgone)
  cases hf : f.busy r with
  | true =>
      have hplain : f.plain = false := by
        refine Bool.eq_false_iff.mpr fun hp => ?_
        cases (busy_of_plain hp).symm.trans hf
      rcases hst.move.busy hf with ⟨g, hg, hbusy⟩ | hout | hgone |
        ⟨i, hpub, hopen, htasks, hi⟩ | ⟨hask, hmode⟩
      · exact .inl (hst.exists_new hg hbusy)
      · exact absurd hr' hout
      · exact absurd hgone hkept
      · rcases hst.meets htime hplain _ hpub hopen with hw | hex
        · refine .inr ⟨?_, ?_⟩
          · rw [hi]
            refine (hst.of_forall h.publishing r i ?_).1
            cases f <;> cases hpub
            simp [publishes]
          · rw [hi, htasks]
            exact hw
        · exact .inl (hst.exists_rest hex)
      · exact absurd (hst.meets hthrow hplain hmode r hask) hkept
  | false =>
      rcases h.future r hr with hex | ⟨hne, hw⟩
      · exact .inl (hst.exists_of hex hf)
      · obtain ⟨o, ho, hrule⟩ := h.named r hne
        rcases hst.move.schedule r with ⟨hsame, -⟩ |
          ⟨planned, observed, j, caller, rfl, -⟩ | ⟨-, hnew | ⟨j, rfl⟩⟩
        · rw [hsame]
          rcases hst.move.stillWaits hs.tasks.inv (hs.handedOut ho) hw with
            hw' | hcalled | hc | hmem
          · exact .inr ⟨hne, hw'⟩
          · exact absurd ha hcalled
          · obtain ⟨q, ⟨o', ho', hq⟩, hgone⟩ := h.withdrawn _ (.inr hc)
            cases (Option.mem_def.mp ho').symm.trans (Option.mem_def.mp ho)
            rw [← hq, hrule] at hgone
            exact absurd hgone hkept
          · refine .inl (hst.exists_new hmem ?_)
            rw [Option.mem_def.mp ho]
            simp [busy, hrule]
        · simp [busy] at hf
        · exact absurd hnew (hs.known.registered r hr).ne
        · simp [busy] at hf

theorem FutureInv.step (h : s.FutureInv) (hs : s.Reachable) (hs' : s'.Reachable)
    (hst : Stepped s a t f fs s') (ha : a.leavesTasks)
    (htime : AtTop PublishesInTime s a) (hthrow : AtTop ThrowsForGone s a) :
    s'.FutureInv where
  named _ := h.named_step hs hst
  publishing := h.publishing_step hs hst
  held := h.held_step hs hst
  withdrawn _ := h.withdrawn_step hs hst ha
  future _ := h.future_step hs hs' hst ha htime hthrow

/-- Between the calls nobody works for a rule, so its task waits. -/
theorem FutureInv.kept (h : s.FutureInv) (hs : s.Reachable) : s.FutureKept := by
  intro hsettled r hr
  have hfree {p : CalendarFrame → Bool} (hp : ∀ g, g.betweenCalls → p g = false) :
      ¬ Threads.Exists p s.frames :=
    not_exists_iff.mpr fun t g hg => hp g (hsettled t g hg)
  have hkept : s.world.gone r = false :=
    (hs.live.gone hr).resolve_right (hfree fun g => not_closes_of_betweenCalls)
  obtain ⟨hne, hw⟩ :=
    (h.future r hr).resolve_left (hfree fun g => not_busy_of_betweenCalls)
  refine ⟨?_, hne, hw⟩
  simp only [CalendarWorld.gone, Bool.or_eq_false_iff] at hkept
  exact hkept.1.2

theorem run_futureInv {as : List (CalendarAction ι)}
    (hrun : Lts.run CalendarSystem.step {} as = some s)
    (htasks : ∀ a ∈ as, a.leavesTasks)
    (htime : Lts.RunMeets CalendarSystem.step (AtTop PublishesInTime) {} as)
    (hthrow : Lts.RunMeets CalendarSystem.step (AtTop ThrowsForGone) {} as) :
    s.Reachable ∧ s.FutureInv :=
  Lts.run_invariant_of_meets (P := fun s => s.Reachable ∧ s.FutureInv)
    (fun s a s' hs hcond hs' => by
      obtain ⟨t, f, fs, hst⟩ := step_stepped hs'
      have hreach : s'.Reachable := Lts.Reachable.trans_run hs.1 (Lts.run_one hs')
      exact ⟨hreach, hs.2.step hs.1 hreach hst hcond.1 hcond.2.1 hcond.2.2⟩)
    ⟨Lts.Reachable.refl _, .init⟩ ((Lts.RunMeets.of_mem htasks).and (htime.and hthrow))
    hrun

/-- In every run in which nobody takes tasks out of the manager, no exception of
the provider leaves `schedule_after_run` of a rule that is still there, and no
rule is left with a task that was published too late, every rule has a future. -/
theorem run_futureKept {as : List (CalendarAction ι)}
    (hrun : Lts.run CalendarSystem.step {} as = some s)
    (htasks : ∀ a ∈ as, a.leavesTasks)
    (htime : Lts.RunMeets CalendarSystem.step (AtTop PublishesInTime) {} as)
    (hthrow : Lts.RunMeets CalendarSystem.step (AtTop ThrowsForGone) {} as) :
    s.FutureKept := by
  obtain ⟨hs, h⟩ := run_futureInv hrun htasks htime hthrow
  exact h.kept hs

end

/-- The callback returns, and the provider throws when it is asked for the next
occurrence; the program handles the exception. -/
def calendarProviderThrows : List (CalendarAction Unit) :=
  [.ret () none] ++ calendarAdvances () 4 ++ [.ret () none] ++
  calendarAdvances () 4 ++ [.throw ()] ++ calendarAdvances () 2 ++
  [.ret () none] ++ calendarAdvances () 2

/-- The rule stays in the core without a task. -/
theorem futureKept_fails : ∃ s : CalendarSystem Unit,
    Lts.run CalendarSystem.step {} (calendarAddDue () ++ calendarRunDue () ++
      calendarCallback () ++ calendarProviderThrows) = some s ∧
      (∀ a ∈ calendarAddDue () ++ calendarRunDue () ++ calendarCallback () ++
        calendarProviderThrows, a.leavesTasks) ∧ ¬ s.FutureKept := by
  obtain ⟨s, hs, hframes, hr, hzero⟩ : ∃ s : CalendarSystem Unit,
      Lts.run CalendarSystem.step {} (calendarAddDue () ++ calendarRunDue () ++
        calendarCallback () ++ calendarProviderThrows) = some s ∧
      s.frames () = [.user .main] ∧ 1 ∈ s.world.registered ∧
      (s.world.states 1).scheduledTaskId = 0 :=
    Lts.exists_run_of_decide (by decide)
  refine ⟨s, hs, by decide, fun h => (h (fun t f hf => ?_) 1 hr).2.1 hzero⟩
  rw [hframes] at hf
  rw [List.mem_singleton.mp hf]
  rfl

/-- The rule goes on. -/
theorem run_futureKept_goesOn : ∃ s : CalendarSystem Unit,
    Lts.run CalendarSystem.step {} (calendarAddDue () ++ calendarRunDue () ++
      calendarCallback () ++ calendarGoesOn) = some s ∧
      s.world.registered = {1} ∧ s.FutureKept := by
  obtain ⟨s, hs, hregistered⟩ : ∃ s : CalendarSystem Unit,
      Lts.run CalendarSystem.step {} (calendarAddDue () ++ calendarRunDue () ++
        calendarCallback () ++ calendarGoesOn) = some s ∧ s.world.registered = {1} :=
    Lts.exists_run_of_decide (by decide)
  exact ⟨s, hs, hregistered, run_futureKept hs (by decide) (.of_checks (by decide))
    (.of_checks (by decide))⟩

end CalendarSystem

end EventHub
