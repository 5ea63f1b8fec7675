import EventHub.Proofs.CalendarThreads

/-!
# One task for each rule

A rule is worked for by one frame at a time, from the call of `add_rule` or the
start of its task to the call of `schedule_one` that queues the next; and while
a task of the rule waits, by none. A task that its own callback has rescheduled
would wait again when its successor is queued already, so the runs considered
are those in which that does not happen.
-/

namespace EventHub

open CalendarFrame Threads

variable {ι : Type}

namespace CalendarFrame

/-- The frame will queue an occurrence of rule `r`, or works on one. -/
def occupies (r : Nat) : CalendarFrame → Bool
  | .adding q _ | .scheduleOne q .. | .runDue q _ => q = r
  | .starting _ rule => rule = some r
  | .running run _ => run.rule = r
  | _ => false

theorem occupies_of_plain {r : Nat} {g : CalendarFrame} (h : g.plain) :
    g.occupies r = false := by
  cases g <;> first | rfl | cases h

/-- The frame will queue an occurrence of rule `r`, or has just done so. -/
def queues (r : Nat) : CalendarFrame → Bool
  | .adding q _ | .scheduleOne q .. | .publish q .. => q = r
  | .running run _ => run.rule = r
  | _ => false

/-- Task `i` was started for an occurrence of rule `r`, which `run_due` has not
taken. -/
def enters (r i : Nat) : CalendarFrame → Bool
  | .starting j rule => j = i && rule = some r
  | .runDue q j => q = r && j = i
  | _ => false

/-- `schedule_one` has queued task `i` and is about to publish it. -/
def publishes (r i : Nat) : CalendarFrame → Bool
  | .publish q _ _ j _ => q = r && j = i
  | _ => false

/-- The rule and the task of a call of `run_due`. -/
def takes : CalendarFrame → Option (Nat × Nat)
  | .runDue r i => some (r, i)
  | _ => none

theorem eq_runDue_of_takes {g : CalendarFrame} {x : Nat × Nat}
    (h : x ∈ g.takes) : g = .runDue x.1 x.2 := by
  cases g
  case runDue r i =>
    cases h
    rfl
  all_goals cases h

theorem queues_of_plain {r : Nat} {g : CalendarFrame} (h : g.plain) :
    g.queues r = false := by
  cases g <;> first | rfl | cases h

theorem occupies_of_enters {r i : Nat} {g : CalendarFrame} (h : g.enters r i) :
    g.occupies r := by
  cases g
  case starting | runDue =>
    simp only [enters, Bool.and_eq_true, decide_eq_true_eq] at h
    simp [occupies, h]
  all_goals cases h

/-- What queues an occurrence of a rule works for it, until it publishes. -/
theorem occupies_or_publishes {r : Nat} {g : CalendarFrame} (h : g.queues r) :
    g.occupies r ∨ ∃ i, g.publishes r i := by
  cases g
  case publish q planned observed i caller =>
    refine .inr ⟨i, ?_⟩
    simpa [publishes] using of_decide_eq_true h
  case adding | scheduleOne | running => exact .inl h
  all_goals cases h

theorem mem_rules_of_queues {r : Nat} {g : CalendarFrame} (h : g.queues r) :
    r ∈ g.rules := by
  cases g
  case adding | scheduleOne | publish | running =>
    exact Finset.mem_singleton.mpr (of_decide_eq_true h).symm
  all_goals cases h

theorem mem_rules_of_occupies {r : Nat} {g : CalendarFrame}
    (h : g.occupies r) : r ∈ g.rules := by
  cases g
  case starting i rule =>
    exact Option.mem_toFinset.mpr (of_decide_eq_true h)
  case adding | scheduleOne | runDue | running =>
    exact Finset.mem_singleton.mpr (of_decide_eq_true h).symm
  all_goals cases h

end CalendarFrame

section Move

variable {a : CalendarAction ι} {mode : CalendarMode} {w w' : CalendarWorld}
  {f : CalendarFrame} {fs : List CalendarFrame}

/-- A step starts a task that waited. -/
def CalendarWorld.Starts (w w' : CalendarWorld) (r : Nat) : Prop :=
  ∃ i planned, w.job i = some { rule := r, plannedUtcMs := planned } ∧
    w.tasks.waits i ∧ w'.tasks.waits i = false

/-- A frame that works for a rule comes in the place of another, for a new
rule, or when a task is started. -/
theorem CalendarMove.occupies (h : CalendarMove a mode w f w' fs) (r : Nat) :
    fs.countP (occupies r) ≤ [f].countP (occupies r) ∨
      fs.countP (occupies r) = 1 ∧
        (r = w.nextId ∧ w'.nextId = w.nextId + 1 ∨ w.Starts w' r) := by
  cases h
  case started entry unrun tasks hphase h hwon =>
    cases hjob : w.job entry.id with
    | none => exact .inl (Nat.zero_le _)
    | some o =>
        by_cases hr : o.rule = r
        · obtain ⟨-, hw, hw'⟩ := TaskSystem.step_processStart hphase h hwon
          refine .inr ⟨?_, .inr ⟨entry.id, o.plannedUtcMs, ?_, hw, hw'⟩⟩
          · simp [CalendarFrame.occupies, hr]
          · rw [hjob, ← hr]
        · refine .inl (Nat.le_of_eq ?_)
          simp [CalendarFrame.occupies, hr]
  case registered =>
    by_cases hr : w.nextId = r
    · exact .inr ⟨by simp [CalendarFrame.occupies, hr], .inl ⟨hr.symm, rfl⟩⟩
    · exact .inl (Nat.le_of_eq (by simp [CalendarFrame.occupies, hr]))
  case settled i q tasks h =>
    refine .inl (Nat.le_of_eq ?_)
    simp [CalendarFrame.occupies]
  case consumed | announced | askedFirst | missedFirst | plannedFirst | emitted |
      entered | walked | stopped | counted | finished | askedNext | askedAgain |
      missedNext | plannedNext =>
    exact .inl (Nat.le_refl _)
  all_goals exact .inl (Nat.zero_le _)

theorem CalendarMove.queues (h : CalendarMove a mode w f w' fs) (r : Nat) :
    fs.countP (queues r) ≤ [f].countP (queues r) ∨
      fs.countP (queues r) = 1 ∧
        (r = w.nextId ∧ w'.nextId = w.nextId + 1 ∨
          w.gone r = false ∧ ∃ i, f = .runDue r i) := by
  cases h
  case registered =>
    by_cases hr : w.nextId = r
    · exact .inr ⟨by simp [CalendarFrame.queues, hr], .inl ⟨hr.symm, rfl⟩⟩
    · exact .inl (Nat.le_of_eq (by simp [CalendarFrame.queues, hr]))
  case consumed q i hkept =>
    by_cases hr : q = r
    · exact .inr ⟨by simp [CalendarFrame.queues, hr], .inr ⟨hr ▸ hkept, i, by rw [hr]⟩⟩
    · exact .inl (Nat.le_of_eq (by simp [CalendarFrame.queues, hr]))
  case posted | announced | askedFirst | missedFirst | plannedFirst | emitted |
      entered | walked | stopped | counted | finished | askedNext | askedAgain |
      missedNext | plannedNext =>
    exact .inl (Nat.le_refl _)
  all_goals exact .inl (Nat.zero_le _)

/-- A task enters `run_due` when it is started. -/
theorem CalendarMove.enters (h : CalendarMove a mode w f w' fs)
    {g : CalendarFrame} (hg : g ∈ fs) {r i : Nat} (hi : g.enters r i) :
    f = .starting i (some r) ∨ ∃ o ∈ w.job i, o.rule = r ∧ w.tasks.waits i := by
  have hnone (hfs : fs.countP (CalendarFrame.enters r i) = 0) :
      f = .starting i (some r) ∨ ∃ o ∈ w.job i, o.rule = r ∧ w.tasks.waits i :=
    absurd hi (List.countP_eq_zero.mp hfs g hg)
  cases h
  case started entry unrun tasks hphase h hwon =>
    rcases List.mem_pair.mp hg with rfl | rfl
    · simp only [CalendarFrame.enters, Bool.and_eq_true, decide_eq_true_eq,
        Option.map_eq_some_iff] at hi
      obtain ⟨rfl, o, ho, rfl⟩ := hi
      exact .inr ⟨o, ho, rfl, (TaskSystem.step_processStart hphase h hwon).2.1⟩
    · cases hi
  case settled j q tasks h =>
    rw [List.mem_singleton.mp hg] at hi
    simp only [CalendarFrame.enters, Bool.and_eq_true, decide_eq_true_eq] at hi
    exact .inl (by rw [hi.1, hi.2])
  case consumed | announced | askedFirst | missedFirst | plannedFirst | emitted |
      entered | walked | stopped | counted | finished | askedNext | askedAgain |
      missedNext | plannedNext | posted =>
    rw [List.mem_singleton.mp hg] at hi
    cases hi
  all_goals exact hnone (by rfl)

/-- The published occurrence of a rule changes when one is published, and when
it is taken. -/
theorem CalendarMove.schedule (h : CalendarMove a mode w f w' fs) (q : Nat) :
    ((w'.states q).scheduledTaskId = (w.states q).scheduledTaskId ∧
        (w'.states q).plannedUtcMs = (w.states q).plannedUtcMs) ∨
      (∃ planned observed i caller, f = .publish q planned observed i caller ∧
        (w'.states q).scheduledTaskId = i ∧
        (w'.states q).plannedUtcMs = planned) ∨
      (w'.states q).scheduledTaskId = 0 ∧
        (q = w.nextId ∨ ∃ i, f = .runDue q i) := by
  have hboth {x y : CalendarState}
      (hx : (x.scheduledTaskId, x.plannedUtcMs) =
        (y.scheduledTaskId, y.plannedUtcMs)) :
      x.scheduledTaskId = y.scheduledTaskId ∧ x.plannedUtcMs = y.plannedUtcMs :=
    Prod.mk.inj hx
  cases h
  case registered options hopen =>
    by_cases hq : q = w.nextId
    · refine .inr (.inr ⟨?_, .inl hq⟩)
      rw [hq, CalendarWorld.register_states_self]
    · rw [CalendarWorld.register_states_of_ne hq]
      exact .inl ⟨rfl, rfl⟩
  case posted =>
    exact .inl (hboth (CalendarWorld.occupy_congr
      (fun x => (x.scheduledTaskId, x.plannedUtcMs)) (fun _ => rfl) q))
  case published r planned observed i caller hkept info hinfo =>
    by_cases hq : q = r
    · subst hq
      refine .inr (.inl ⟨planned, observed, i, caller, rfl, ?_⟩)
      rw [CalendarWorld.emit_states, CalendarWorld.publish_states_self]
      exact ⟨rfl, rfl⟩
    · rw [CalendarWorld.emit_states, CalendarWorld.publish_states_of_ne hq]
      exact .inl ⟨rfl, rfl⟩
  case consumed r i hkept =>
    by_cases hq : q = r
    · subst hq
      refine .inr (.inr ⟨?_, .inr ⟨i, rfl⟩⟩)
      rw [CalendarWorld.consume_states_self]
    · rw [CalendarWorld.consume_states_of_ne hq]
      exact .inl ⟨rfl, rfl⟩
  case stopped | counted =>
    exact .inl (hboth (CalendarWorld.setState_congr
      (fun x => (x.scheduledTaskId, x.plannedUtcMs)) (by rfl) q))
  case rethrown | finished | completed | cancelTaken | cancelTakenAlone =>
    exact .inl (hboth (CalendarWorld.markCompleted_congr
      (fun x => (x.scheduledTaskId, x.plannedUtcMs)) (fun _ => rfl) q))
  case allTaken =>
    exact .inl (hboth (CalendarWorld.takeAll_congr
      (fun x => (x.scheduledTaskId, x.plannedUtcMs)) (fun _ => rfl) q))
  all_goals exact .inl ⟨rfl, rfl⟩

/-- `schedule_one` publishes its task, unless the rule is gone. -/
theorem CalendarMove.publishes (h : CalendarMove a mode w f w' fs) {r i : Nat}
    (hf : f.publishes r i) : w.gone r ∨ (w'.states r).scheduledTaskId = i := by
  cases h
  case published q planned observed j caller hkept info hinfo =>
    simp only [CalendarFrame.publishes, Bool.and_eq_true, decide_eq_true_eq] at hf
    obtain ⟨rfl, rfl⟩ := hf
    refine .inr ?_
    rw [CalendarWorld.emit_states, CalendarWorld.publish_states_self]
  case unpublished hgone | unpublishedAfterRun hgone =>
    simp only [CalendarFrame.publishes, Bool.and_eq_true, decide_eq_true_eq] at hf
    exact .inl (hf.1 ▸ hgone)
  case plain hf' => cases f <;> first | cases hf | cases hf'
  all_goals cases hf

/-- A task comes to wait when it is posted, or after its callback has
returned. -/
theorem CalendarMove.waits (h : CalendarMove a mode w f w' fs)
    (hinv : w.tasks.Inv) {i : Nat} (hi : i < w.tasks.mgr.nextId)
    (hw : w'.tasks.waits i) :
    w.tasks.waits i ∨ f = .process ∧ mode ≠ .throwing ∧
      ∃ entry, w.tasks.phase.current = some entry ∧ entry.id = i ∧
        w.tasks.mgr.stateOf i = .executing ∧ w.tasks.mgr.closed = false ∧
        ((w.tasks.mgr.control i).rescheduleRequested ∨
          (w.tasks.mgr.control i).periodic) := by
  have hother {act : TaskAction Unit} {tasks : TaskSystem Unit}
      (hstep : w.tasks.step act = some tasks) (hw : tasks.waits i)
      (hact : ∀ now now', act ≠ .callbackReturned now now') :
      w.tasks.waits i := by
    rcases TaskSystem.waits_of_step hinv hi hstep hw with hw | ⟨⟨now, now', heq⟩, -⟩
    · exact hw
    · exact absurd heq (hact now now')
  cases h
  case returned tasks hmode now now' h =>
    rcases TaskSystem.waits_of_step hinv hi h hw with hw | ⟨-, hagain⟩
    · exact .inl hw
    · exact .inr ⟨rfl, hmode, hagain⟩
  case produced act tasks ha hact h =>
    refine .inl (hother h hw fun now now' heq => ?_)
    rw [heq] at hact
    cases hact
  case processed hact h | threw hact h =>
    refine .inl (hother h hw fun now now' heq => ?_)
    rcases hact with hact | hact <;> cases hact.symm.trans heq
  case nothingBegan h | began h _ | loaded h _ | unloaded h _ | exchanged h |
      started h _ | passed h _ | settled h | otherSettled h | unposted h |
      unpostedAfterRun h _ | posted h _ _ =>
    exact .inl (hother h hw nofun)
  all_goals exact .inl hw

theorem CalendarMove.handedOut (h : CalendarMove a mode w f w' fs)
    (hinv : w.tasks.Inv) {i : Nat} (hi : i < w.tasks.mgr.nextId) :
    i < w'.tasks.mgr.nextId ∧
      (w'.tasks.mgr.control i).periodic = (w.tasks.mgr.control i).periodic := by
  rcases h.tasks with heq | ⟨act, hact⟩
  · rw [heq]
    exact ⟨hi, rfl⟩
  · exact ⟨hi.trans_le (TaskSystem.step_nextId hinv hact),
      (TaskSystem.step_waited hinv hi hact).periodic⟩

/-- Only a task that is posted gets a delay. -/
theorem CalendarMove.delays (h : CalendarMove a mode w f w' fs)
    (hnone : ∀ r i, fs.countP (CalendarFrame.publishes r i) = 0) :
    w'.delays = w.delays := by
  cases h
  case posted r planned observed immediate caller tasks now due options i h hid hi =>
    exact absurd (hnone r i) (by simp [CalendarFrame.publishes])
  all_goals rfl

/-- Either a task is posted for an occurrence, or no job changes. -/
theorem CalendarMove.jobs (h : CalendarMove a mode w f w' fs) (hinv : w.tasks.Inv) :
    (w'.job = w.job ∧
        (∀ q < w.nextId, (w'.states q).posted = (w.states q).posted) ∧
        ∀ r i, fs.countP (CalendarFrame.publishes r i) = 0) ∨
      ∃ r planned observed immediate caller i,
        f = .scheduleOne r planned observed immediate caller ∧
        fs = [.publish r planned observed i caller] ∧ i ≠ 0 ∧
        TaskSystem.Posted w.tasks w'.tasks i ∧
        ∃ tasks, w' = CalendarWorld.occupy { w with tasks := tasks } r planned
          (scheduleDelay planned observed immediate) i := by
  cases h
  case posted r planned observed immediate caller tasks now due options i h hid hi =>
    subst hid
    exact .inr ⟨r, planned, observed, immediate, caller, _, rfl, rfl, hi,
      TaskSystem.step_postAt hinv h hi, tasks, rfl⟩
  case registered =>
    refine .inl ⟨rfl, fun q hq => ?_, fun _ _ => rfl⟩
    rw [CalendarWorld.register_states_of_ne (Nat.ne_of_lt hq)]
  case published =>
    exact .inl ⟨rfl, fun q _ =>
      CalendarWorld.publish_congr (·.posted) (fun _ => rfl) q, fun _ _ => rfl⟩
  case consumed =>
    exact .inl ⟨rfl, fun q _ =>
      CalendarWorld.consume_congr (·.posted) (fun _ => rfl) q, fun _ _ => rfl⟩
  case stopped | counted =>
    exact .inl ⟨rfl, fun q _ =>
      CalendarWorld.setState_congr (·.posted) (by rfl) q, fun _ _ => rfl⟩
  case rethrown | finished | completed | cancelTaken | cancelTakenAlone =>
    exact .inl ⟨rfl, fun q _ =>
      CalendarWorld.markCompleted_congr (·.posted) (fun _ => rfl) q, fun _ _ => rfl⟩
  case allTaken =>
    exact .inl ⟨rfl, fun q _ =>
      CalendarWorld.takeAll_congr (·.posted) (fun _ => rfl) q, fun _ _ => rfl⟩
  all_goals exact .inl ⟨rfl, fun _ _ => rfl, fun _ _ => rfl⟩

end Move

namespace CalendarSystem

/-- The callback of an occurrence has not asked to run again when it returns. -/
def RunsOnce (s : CalendarSystem ι) (t : ι) (f : CalendarFrame) : Prop :=
  f = .process → s.mode t ≠ .throwing →
    ∀ entry ∈ s.world.tasks.phase.current, s.world.job entry.id ≠ none →
      s.world.tasks.mgr.stateOf entry.id = .executing →
        s.world.tasks.mgr.closed = false →
          (s.world.tasks.mgr.control entry.id).rescheduleRequested = false

instance (s : CalendarSystem ι) (t : ι) (f : CalendarFrame) :
    Decidable (s.RunsOnce t f) :=
  inferInstanceAs (Decidable (f = .process → _))

/-- A rule is worked for once, or one task of it waits. -/
structure SingleTask [Fintype ι] (s : CalendarSystem ι) : Prop where
  frames : ∀ r, total (occupies r) s.frames ≤ 1
  waiting : ∀ i, ∀ o ∈ s.world.job i, s.world.tasks.waits i →
    total (occupies o.rule) s.frames = 0 ∧ (s.world.states o.rule).posted = i
  handedOut : ∀ i, ∀ o ∈ s.world.job i, i < s.world.tasks.mgr.nextId
  oneShot : ∀ i, ∀ o ∈ s.world.job i,
    (s.world.tasks.mgr.control i).periodic = false

section

variable [Fintype ι] [DecidableEq ι] {s s' : CalendarSystem ι}
  {a : CalendarAction ι} {t : ι} {f : CalendarFrame} {fs : List CalendarFrame}

omit [DecidableEq ι] in
theorem SingleTask.init : SingleTask ({} : CalendarSystem ι) where
  frames r := by
    have hnone : total (occupies r) (fun _ : ι => [CalendarFrame.user .main]) = 0 :=
      total_eq_zero_iff.mpr fun t f hf => by
        rw [List.mem_singleton.mp hf]
        rfl
    exact hnone.trans_le (Nat.zero_le _)
  waiting := by nofun
  handedOut := by nofun
  oneShot := by nofun

omit [DecidableEq ι] in
/-- A rule that is not made yet has no frames. -/
theorem Known.total_eq_zero (h : s.Known) {r : Nat} (hr : s.world.nextId ≤ r)
    {p : CalendarFrame → Bool} (hp : ∀ g, p g → r ∈ g.rules) :
    total p s.frames = 0 := by
  refine total_eq_zero_iff.mpr (h.frames.imp fun g hg => ?_)
  refine Bool.eq_false_iff.mpr fun hpg => ?_
  exact absurd (hg r (hp g hpg)) (Nat.not_lt.mpr hr)

theorem SingleTask.frames_step (h : s.SingleTask) (hs : s.Reachable)
    (hst : Stepped s a t f fs s') (r : Nat) :
    total (occupies r) s'.frames ≤ 1 := by
  have hcount := hst.total fun g => occupies_of_plain (r := r) (g := g)
  have hone := h.frames r
  rcases hst.move.occupies r with hle | ⟨hnew, ⟨hr, -⟩ | ⟨i, planned, hjob, hw, -⟩⟩
  · omega
  · have hzero := hs.known.total_eq_zero (p := occupies r) hr.ge
      fun g => mem_rules_of_occupies
    omega
  · have hzero := (h.waiting i _ hjob hw).1
    dsimp only at hzero
    omega

/-- A task that waited and still waits. -/
theorem SingleTask.waiting_step (h : s.SingleTask) (hs : s.Reachable)
    (hst : Stepped s a t f fs s') {i : Nat} {o : Occurrence}
    (ho : o ∈ s.world.job i) (hw : s.world.tasks.waits i)
    (hw' : s'.world.tasks.waits i) :
    total (occupies o.rule) s'.frames = 0 := by
  have hcount := hst.total fun g => occupies_of_plain (r := o.rule) (g := g)
  obtain ⟨hzero, hposted⟩ := h.waiting i o ho hw
  rcases hst.move.occupies o.rule with
    hle | ⟨-, ⟨hr, -⟩ | ⟨j, planned, hjob, hwj, hwj'⟩⟩
  · omega
  · have := hs.known.jobs i o ho
    omega
  · -- the task that is started is the one that waits
    have hj : (s.world.states o.rule).posted = j := (h.waiting j _ hjob hwj).2
    rw [← hj, hposted, hw'] at hwj'
    cases hwj'

/-- No occurrence comes to wait again. -/
theorem SingleTask.waits_of (h : s.SingleTask) (hs : s.Reachable)
    (hst : Stepped s a t f fs s') (hcond : AtTop RunsOnce s a) {i : Nat}
    {o : Occurrence} (ho : o ∈ s.world.job i) (hw' : s'.world.tasks.waits i) :
    s.world.tasks.waits i := by
  rcases hst.move.waits hs.tasks.inv (h.handedOut i o ho) hw' with
    hw | ⟨rfl, hmode, entry, hcurrent, rfl, hexec, hopen, hreq | hper⟩
  · exact hw
  · have hno := hst.meets hcond rfl rfl hmode entry hcurrent
      (Option.ne_none_iff_exists'.mpr ⟨o, ho⟩) hexec hopen
    rw [hno] at hreq
    cases hreq
  · rw [h.oneShot _ o ho] at hper
    cases hper

/-- A task keeps its occurrence. -/
theorem SingleTask.job_of (h : s.SingleTask) (hs : s.Reachable)
    (hst : Stepped s a t f fs s') {i : Nat} {o : Occurrence}
    (ho : o ∈ s.world.job i) : o ∈ s'.world.job i := by
  rcases hst.move.jobs hs.tasks.inv with ⟨hjobs, -⟩ |
    ⟨r, planned, observed, immediate, caller, j, rfl, rfl, hj, hnew, tasks, hw⟩
  · rwa [hjobs]
  · have hlt := (h.handedOut i o ho).trans_le hnew.fresh
    rw [hw]
    exact (Function.update_of_ne (Nat.ne_of_lt hlt) ..).trans ho

theorem SingleTask.step (h : s.SingleTask) (hs : s.Reachable)
    (hst : Stepped s a t f fs s') (hcond : AtTop RunsOnce s a) :
    s'.SingleTask := by
  have hinv := hs.tasks.inv
  have hold {i : Nat} {o : Occurrence} (ho : o ∈ s.world.job i)
      (hw' : s'.world.tasks.waits i) : s.world.tasks.waits i :=
    h.waits_of hs hst hcond ho hw'
  rcases hst.move.jobs hinv with ⟨hjobs, hposted, -⟩ |
    ⟨r, planned, observed, immediate, caller, i, rfl, rfl, hi, hnew, tasks, hw⟩
  · refine
      { frames := h.frames_step hs hst
        waiting := fun i o ho hw' => ?_
        handedOut := fun i o ho => ?_
        oneShot := fun i o ho => ?_ }
    all_goals rw [hjobs] at ho
    · refine ⟨h.waiting_step hs hst ho (hold ho hw') hw', ?_⟩
      rw [hposted _ (hs.known.jobs i o ho)]
      exact (h.waiting i o ho (hold ho hw')).2
    · exact (hst.move.handedOut hinv (h.handedOut i o ho)).1
    · rw [(hst.move.handedOut hinv (h.handedOut i o ho)).2]
      exact h.oneShot i o ho
  · have hjob : s'.world.job i = some { rule := r, plannedUtcMs := planned } := by
      rw [hw]
      exact Function.update_self ..
    have hjobs {j : Nat} (hj : j ≠ i) : s'.world.job j = s.world.job j := by
      rw [hw]
      exact Function.update_of_ne hj ..
    have hcount := hst.total fun g => occupies_of_plain (r := r) (g := g)
    have hone := h.frames r
    simp only [List.countP_cons, List.countP_nil, occupies, decide_true,
      if_true, Bool.false_eq_true, if_false] at hcount
    refine
      { frames := h.frames_step hs hst
        waiting := fun j o ho hw' => ?_
        handedOut := fun j o ho => ?_
        oneShot := fun j o ho => ?_ }
    all_goals by_cases hj : j = i
    · subst hj
      rw [hjob] at ho
      cases ho
      refine ⟨by dsimp only; omega, ?_⟩
      rw [hw]
      exact congrArg CalendarState.posted CalendarWorld.occupy_states_self
    · rw [hjobs hj] at ho
      have hzero := h.waiting j o ho (hold ho hw')
      refine ⟨h.waiting_step hs hst ho (hold ho hw') hw', ?_⟩
      have hne : o.rule ≠ r := by
        rintro rfl
        omega
      rw [hw, CalendarWorld.occupy_states_of_ne hne]
      exact hzero.2
    · subst hj
      exact hnew.known
    · rw [hjobs hj] at ho
      exact (hst.move.handedOut hinv (h.handedOut j o ho)).1
    · subst hj
      exact hnew.periodic
    · rw [hjobs hj] at ho
      rw [(hst.move.handedOut hinv (h.handedOut j o ho)).2]
      exact h.oneShot j o ho

end

/-! ## The task that a rule names -/

/-- `run_due` takes the occurrence of the task it was started for. -/
def TakesNamed (s : CalendarSystem ι) (_ : ι) (f : CalendarFrame) : Prop :=
  ∀ x ∈ f.takes, s.world.gone x.1 = false →
    (s.world.states x.1).scheduledTaskId = x.2

instance (s : CalendarSystem ι) (t : ι) (f : CalendarFrame) :
    Decidable (s.TakesNamed t f) :=
  inferInstanceAs (Decidable (∀ x ∈ f.takes, _))

/-- A task of the rule is the one it names, or will be. -/
def NamedFor (s : CalendarSystem ι) (r i : Nat) : Prop :=
  s.world.gone r ∨ (s.world.states r).scheduledTaskId = i ∨
    Threads.Exists (publishes r i) s.frames

/-- What is known of a task before `run_due` looks for its rule. -/
def Entering (s : CalendarSystem ι) (r i : Nat) : Prop :=
  (∃ o ∈ s.world.job i, o.rule = r) ∧ (s.world.states r).posted = i ∧
    s.NamedFor r i

/-- A task is queued that is not published. -/
def Unpublished (s : CalendarSystem ι) : CalendarFrame → Prop
  | .publish r planned _ i _ =>
      i ≠ 0 ∧ s.world.job i = some { rule := r, plannedUtcMs := planned } ∧
        (s.world.states r).posted = i ∧ (s.world.states r).scheduledTaskId ≠ i
  | _ => True

structure NamedTask [Fintype ι] (s : CalendarSystem ι) : Prop where
  frames : ∀ r, total (queues r) s.frames ≤ 1
  zero : s.world.job 0 = none
  named : ∀ r, (s.world.states r).scheduledTaskId ≠ 0 →
    s.world.job (s.world.states r).scheduledTaskId =
      some { rule := r, plannedUtcMs := (s.world.states r).plannedUtcMs }
  publishing : Forall s.Unpublished s.frames
  entering : Forall (fun f => ∀ r i, f.enters r i → s.Entering r i) s.frames
  waiting : ∀ i, ∀ o ∈ s.world.job i, s.world.tasks.waits i →
    s.NamedFor o.rule i

section

variable [Fintype ι] [DecidableEq ι] {s s' : CalendarSystem ι}
  {a : CalendarAction ι} {t : ι} {f : CalendarFrame} {fs : List CalendarFrame}

omit [DecidableEq ι] in
theorem NamedTask.init : NamedTask ({} : CalendarSystem ι) where
  frames r := by
    have hnone : total (queues r) (fun _ : ι => [CalendarFrame.user .main]) = 0 :=
      total_eq_zero_iff.mpr fun t f hf => by
        rw [List.mem_singleton.mp hf]
        rfl
    exact hnone.trans_le (Nat.zero_le _)
  zero := rfl
  named := fun r hr => absurd rfl hr
  publishing t f hf := by
    rw [List.mem_singleton.mp hf]
    trivial
  entering t f hf := by
    rw [List.mem_singleton.mp hf]
    nofun
  waiting := by nofun

/-- What a rule names stays named until it is taken. -/
theorem NamedTask.namedFor (h : s.NamedTask) (hst : Stepped s a t f fs s')
    {r i : Nat} (hr : r < s.world.nextId)
    (hposted : (s.world.states r).posted = i) (hno : ∀ j, f ≠ .runDue r j)
    (hnamed : s.NamedFor r i) : s'.NamedFor r i := by
  rcases hnamed with hgone | hname | hex
  · exact .inl (hst.move.gone hr hgone)
  · rcases hst.move.schedule r with ⟨hsame, -⟩ |
      ⟨planned, observed, j, caller, rfl, hj, -⟩ | ⟨-, hnew | ⟨j, hf⟩⟩
    · exact .inr (.inl (hsame.trans hname))
    · -- the task that is published is the newest one
      have hj' : (s.world.states r).posted = j :=
        (hst.of_forall h.publishing).2.2.1
      exact .inr (.inl (hj.trans (hj'.symm.trans hposted)))
    · omega
    · exact absurd hf (hno j)
  · cases hf : f.publishes r i with
    | true =>
        rcases hst.move.publishes hf with hgone | hname
        · exact .inl (hst.move.gone hr hgone)
        · exact .inr (.inl hname)
    | false => exact .inr (.inr (hst.exists_of hex hf))

omit [Fintype ι] in
/-- The newest task of a rule stays the newest until the next is queued. -/
theorem posted_of (hs : s.Reachable) (hst : Stepped s a t f fs s') {r : Nat}
    (hr : r < s.world.nextId) (hno : ¬ (f.occupies r ∧ f.queues r)) :
    (s'.world.states r).posted = (s.world.states r).posted := by
  rcases hst.move.jobs hs.tasks.inv with ⟨-, hposted, -⟩ |
    ⟨q, planned, observed, immediate, caller, i, rfl, rfl, hi, hnew, tasks, hw⟩
  · exact hposted r hr
  · have hq : r ≠ q := by
      rintro rfl
      exact hno ⟨decide_eq_true rfl, decide_eq_true rfl⟩
    rw [hw, CalendarWorld.occupy_states_of_ne hq]

theorem NamedTask.publishing_step (h : s.NamedTask) (hsingle : s.SingleTask)
    (hs : s.Reachable) (hst : Stepped s a t f fs s') :
    Forall s'.Unpublished s'.frames := by
  refine hst.forall_put ?_ (fun g hg => ?_) fun g hg => ?_
  · intro u g hg
    have hun := Stepped.rest h.publishing u g hg
    have hknown := Stepped.rest hs.known.frames u g hg
    cases g <;> try trivial
    case publish r planned observed i caller =>
      have hr : r < s.world.nextId := hknown r (Finset.mem_singleton_self r)
      obtain ⟨hi, hjob, hposted, hname⟩ := hun
      have hno (hf : f.queues r) : False := by
        have halone := hst.alone (h.frames r) hf u _ hg
        exact absurd halone (by simp [queues])
      refine ⟨hi, hsingle.job_of hs hst hjob, ?_, ?_⟩
      · rw [posted_of hs hst hr fun hf => hno hf.2]
        exact hposted
      · rcases hst.move.schedule r with ⟨hsame, -⟩ |
          ⟨planned', observed', j, caller', rfl, -, -⟩ | ⟨hzero, -⟩
        · rwa [hsame]
        · exact (hno (decide_eq_true rfl)).elim
        · rw [hzero]
          exact hi.symm
  · cases g <;> trivial
  · rcases hst.move.jobs hs.tasks.inv with ⟨-, -, hnone⟩ |
      ⟨r, planned, observed, immediate, caller, i, rfl, rfl, hi, hnew, tasks, hw⟩
    · cases g <;> try trivial
      case publish r planned observed i caller =>
        have hno := List.countP_eq_zero.mp (hnone r i) _ hg
        exact absurd (by simp [publishes]) hno
    · rw [List.mem_singleton.mp hg]
      refine ⟨hi, ?_, ?_, fun hname => ?_⟩
      · rw [hw]
        exact Function.update_self ..
      · rw [hw]
        exact congrArg CalendarState.posted CalendarWorld.occupy_states_self
      · rw [hw, CalendarWorld.occupy_states_self] at hname
        change (s.world.states r).scheduledTaskId = i at hname
        have hjob := h.named r (by rw [hname]; exact hi)
        rw [hname] at hjob
        have hlt := (hsingle.handedOut i _ hjob).trans_le hnew.fresh
        exact Nat.lt_irrefl _ hlt

theorem NamedTask.frames_step (h : s.NamedTask) (hsingle : s.SingleTask)
    (hs : s.Reachable) (hst : Stepped s a t f fs s') (hcond : AtTop TakesNamed s a) (r : Nat) :
    total (queues r) s'.frames ≤ 1 := by
  have hcount := hst.total fun g => queues_of_plain (r := r) (g := g)
  have hone := h.frames r
  rcases hst.move.queues r with hle | ⟨hnew, ⟨hr, -⟩ | ⟨hkept, i, rfl⟩⟩
  · omega
  · have hzero := hs.known.total_eq_zero (p := queues r) hr.ge
      fun g => mem_rules_of_queues
    omega
  · -- a task that is not published would be the one that is taken
    have hname : (s.world.states r).scheduledTaskId = i :=
      hst.meets hcond rfl _ rfl hkept
    have hposted : (s.world.states r).posted = i :=
      (hst.of_forall h.entering r i (by simp [enters])).2.1
    have hfree : Forall (fun g => g.queues r = false) (replaceTop s.frames t []) := by
      intro u g hg
      refine Bool.eq_false_iff.mpr fun hq => ?_
      rcases occupies_or_publishes hq with hocc | ⟨j, hpub⟩
      · have halone := hst.alone (hsingle.frames r) (decide_eq_true rfl) u g hg
        cases halone.symm.trans hocc
      · have hun := Stepped.rest h.publishing u g hg
        cases g <;> try cases hpub
        case publish q planned observed k caller =>
          simp only [CalendarFrame.publishes, Bool.and_eq_true,
            decide_eq_true_eq] at hpub
          obtain ⟨rfl, rfl⟩ := hpub
          exact hun.2.2.2 (by rw [hname, ← hun.2.2.1, hposted])
    have hrest := hst.total_rest (queues r)
    rw [total_eq_zero_iff.mpr hfree] at hrest
    omega

theorem NamedTask.entering_of (h : s.NamedTask) (hsingle : s.SingleTask)
    (hs : s.Reachable) (hst : Stepped s a t f fs s') {r i : Nat}
    (hentering : s.Entering r i) (hno : ¬ (f.occupies r ∧ f.queues r))
    (hno' : ∀ j, f ≠ .runDue r j) : s'.Entering r i := by
  obtain ⟨⟨o, ho, rfl⟩, hposted, hnamed⟩ := hentering
  have hr := hs.known.jobs i o ho
  refine ⟨⟨o, hsingle.job_of hs hst ho, rfl⟩, ?_, ?_⟩
  · rw [posted_of hs hst hr hno]
    exact hposted
  · exact h.namedFor hst hr hposted hno' hnamed

theorem NamedTask.entering_step (h : s.NamedTask) (hsingle : s.SingleTask)
    (hs : s.Reachable) (hst : Stepped s a t f fs s') :
    Forall (fun g => ∀ r i, g.enters r i → s'.Entering r i) s'.frames := by
  refine hst.forall_put ?_ (fun g hg r i hi => ?_) fun g hg r i hi => ?_
  · intro u g hg r i hi
    have hfree (hf : f.occupies r) : False := by
      have halone := hst.alone (hsingle.frames r) hf u g hg
      cases halone.symm.trans (occupies_of_enters hi)
    exact h.entering_of hsingle hs hst (Stepped.rest h.entering u g hg r i hi)
      (fun hf => hfree hf.1)
      (by rintro j rfl; exact hfree (decide_eq_true rfl))
  · cases g <;> first | cases hi | cases hg
  · rcases hst.move.enters hg hi with rfl | ⟨o, ho, rfl, hw⟩
    · exact h.entering_of hsingle hs hst
        (hst.of_forall h.entering r i (by simp [enters])) (fun hf => nomatch hf.2)
        nofun
    · obtain ⟨hzero, hposted⟩ := hsingle.waiting i o ho hw
      have hfree : f.occupies o.rule = false :=
        hst.of_forall (total_eq_zero_iff.mp hzero)
      refine h.entering_of hsingle hs hst
        ⟨⟨o, ho, rfl⟩, hposted, h.waiting i o ho hw⟩ (fun hf => ?_) ?_
      · rw [hfree] at hf
        cases hf.1
      · rintro j rfl
        exact absurd (decide_eq_true rfl) (Bool.eq_false_iff.mp hfree)

theorem NamedTask.waiting_step (h : s.NamedTask) (hsingle : s.SingleTask)
    (hs : s.Reachable) (hst : Stepped s a t f fs s') (hcond : AtTop RunsOnce s a)
    {i : Nat} {o : Occurrence} (ho : o ∈ s'.world.job i)
    (hw' : s'.world.tasks.waits i) : s'.NamedFor o.rule i := by
  have hold (ho : o ∈ s.world.job i) : s'.NamedFor o.rule i := by
    have hw := hsingle.waits_of hs hst hcond ho hw'
    obtain ⟨hzero, hposted⟩ := hsingle.waiting i o ho hw
    have hfree : f.occupies o.rule = false :=
      hst.of_forall (total_eq_zero_iff.mp hzero)
    refine h.namedFor hst (hs.known.jobs i o ho) hposted ?_ (h.waiting i o ho hw)
    rintro j rfl
    exact absurd (decide_eq_true rfl) (Bool.eq_false_iff.mp hfree)
  rcases hst.move.jobs hs.tasks.inv with ⟨hjobs, -⟩ |
    ⟨r, planned, observed, immediate, caller, j, rfl, rfl, hj, hnew, tasks, hw⟩
  · exact hold (hjobs ▸ ho)
  · by_cases hij : i = j
    · subst hij
      rw [hw] at ho
      cases (Function.update_self ..).symm.trans ho
      exact .inr (.inr (hst.exists_new (List.mem_singleton_self _)
        (by simp [publishes])))
    · rw [hw] at ho
      exact hold ((Function.update_of_ne hij ..).symm.trans ho)

theorem NamedTask.step (h : s.NamedTask) (hsingle : s.SingleTask)
    (hs : s.Reachable) (hst : Stepped s a t f fs s') (hcond : AtTop RunsOnce s a)
    (hcond' : AtTop TakesNamed s a) : s'.NamedTask where
  frames := h.frames_step hsingle hs hst hcond'
  zero := by
    rcases hst.move.jobs hs.tasks.inv with ⟨hjobs, -⟩ |
      ⟨r, planned, observed, immediate, caller, j, rfl, rfl, hj, hnew, tasks, hw⟩
    · rw [hjobs]
      exact h.zero
    · rw [hw]
      exact (Function.update_of_ne hj.symm ..).trans h.zero
  named r hr := by
    rcases hst.move.schedule r with ⟨hsame, hplanned⟩ |
      ⟨planned, observed, i, caller, rfl, hi, hplanned⟩ | ⟨hzero, -⟩
    · rw [hsame] at hr ⊢
      rw [hplanned]
      exact hsingle.job_of hs hst (h.named r hr)
    · rw [hi, hplanned]
      exact hsingle.job_of hs hst (hst.of_forall h.publishing).2.1
    · exact absurd hzero hr
  publishing := h.publishing_step hsingle hs hst
  entering := h.entering_step hsingle hs hst
  waiting _ _ := h.waiting_step hsingle hs hst hcond

/-- What `run_due` takes is what its task was queued for. -/
theorem NamedTask.takes (h : s.NamedTask) (hst : Stepped s a t f fs s')
    (hcond : AtTop TakesNamed s a) {r i : Nat} (hf : f = .runDue r i)
    (hkept : s.world.gone r = false) :
    (s.world.states r).scheduledTaskId = i ∧ s.world.job i =
      some { rule := r, plannedUtcMs := (s.world.states r).plannedUtcMs } := by
  subst hf
  have hname : (s.world.states r).scheduledTaskId = i :=
    hst.meets hcond rfl _ rfl hkept
  have hi : i ≠ 0 := by
    rintro rfl
    obtain ⟨⟨o, ho, -⟩, -⟩ := hst.of_forall h.entering r 0 (by simp [enters])
    cases h.zero.symm.trans ho
  have hjob := h.named r (by rwa [hname])
  rw [hname] at hjob
  exact ⟨hname, hjob⟩

end

end CalendarSystem

end EventHub
