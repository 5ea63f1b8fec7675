import EventHub.Proofs.SchedulerOrigin
import EventHub.Proofs.TaskRuns

/-!
# What becomes of a task when its callback ends

The running task of the eager scheduler holds what its context and `cancel`
have been asked for since the callback started, so the outcome can be read off
the log: a cancellation that was accepted outweighs every reschedule, of the
reschedules the last one counts, and the end of the callback decides with
these two whether the id is queued once more or never seen again.
-/

namespace EventHub

open TaskManager

variable {τ : Type}

/-! ## The log since the start -/

variable {id : Nat} {obs log : List TaskObs}

theorem withdrawn_append (id : Nat) (obs log : List TaskObs) :
    withdrawn id (obs ++ log) = (withdrawn id obs || withdrawn id log) :=
  List.any_append

theorem sinceStart_append (h : .started id ∉ obs) (log : List TaskObs) :
    sinceStart id (obs ++ log) = obs ++ sinceStart id log :=
  List.takeWhile_append_of_pos fun o ho => by
    rw [decide_eq_true_eq]
    exact fun heq => h (heq ▸ ho)

theorem sinceStart_cons {o : TaskObs} (h : o ≠ .started id)
    (log : List TaskObs) : sinceStart id (o :: log) = o :: sinceStart id log :=
  List.takeWhile_cons_of_pos (decide_eq_true h)

theorem sinceStart_started (id : Nat) (log : List TaskObs) :
    sinceStart id (.started id :: log) = [] :=
  List.takeWhile_cons_of_neg (by simp)

theorem lastReschedule_append
    (h : ∀ o ∈ obs, o.reschedules id = false) (log : List TaskObs) :
    lastReschedule id (obs ++ log) = lastReschedule id log := by
  induction obs with
  | nil => rfl
  | cons o obs ih =>
      rw [List.forall_mem_cons] at h
      cases o
      case rescheduleReturned j due result =>
        rw [List.cons_append, lastReschedule, if_neg (Bool.not_eq_true _ ▸ h.1)]
        exact ih h.2
      all_goals exact ih h.2

/-! ## The running task -/

namespace Scheduler

variable {r r' : Scheduler τ} {a : TaskAction τ}

/-- The running task holds what the log says since its callback started. -/
def Asked (r : Scheduler τ) (log : List TaskObs) : Prop :=
  ∀ run, r.current = some run →
    run.cancelled = withdrawn run.entry.id (sinceStart run.entry.id log) ∧
    (run.cancelled = false →
      run.reschedule = lastReschedule run.entry.id (sinceStart run.entry.id log))

/-- A step that leaves the running task alone, and says nothing of it. -/
theorem Asked.quiet (h : r.Asked log) (hcurrent : r'.current = r.current)
    (hquiet : ∀ run, r.current = some run → ∀ o ∈ obs,
      o ≠ .started run.entry.id ∧ o.withdraws run.entry.id = false ∧
        o.reschedules run.entry.id = false) : r'.Asked (obs ++ log) := by
  intro run hrun
  rw [hcurrent] at hrun
  obtain ⟨hcancelled, hreschedule⟩ := h run hrun
  have hobs := hquiet run hrun
  have hstart : .started run.entry.id ∉ obs := fun hmem => (hobs _ hmem).1 rfl
  have hwithdraw : withdrawn run.entry.id obs = false :=
    List.any_eq_false.mpr fun o ho => by simp [(hobs o ho).2.1]
  rw [sinceStart_append hstart, withdrawn_append, hwithdraw, Bool.false_or,
    lastReschedule_append fun o ho => (hobs o ho).2.2]
  exact ⟨hcancelled, hreschedule⟩

theorem Asked.ended (h : r'.current = none) : r'.Asked log := by
  intro run hrun
  rw [h] at hrun
  cases hrun

theorem Asked.cancelRunning {run : RunningTask τ} {o : TaskObs}
    (hstart : o ≠ .started run.entry.id) (hwithdraw : o.withdraws run.entry.id) :
    (r.cancelRunning run).Asked (o :: log) := by
  intro run' hrun'
  cases hrun'
  refine ⟨?_, fun h => nomatch h⟩
  show true = withdrawn run.entry.id (sinceStart run.entry.id (o :: log))
  rw [sinceStart_cons hstart]
  simp [withdrawn, hwithdraw]

/-- The three outcomes of `cancel`. -/
theorem cancel_result (r : Scheduler τ) (id : Nat) :
    r.waits id ∧ r.cancel id = (r.remove id, true) ∨
      (∃ run, r.running id = some run ∧
        r.cancel id = (r.cancelRunning run, true)) ∨
      r.cancel id = (r, false) := by
  unfold cancel
  split
  · next hwaits => exact .inl ⟨hwaits, rfl⟩
  · split
    · next run hrun =>
        split
        · exact .inr (.inl ⟨run, hrun, rfl⟩)
        · exact .inr (.inr rfl)
    · exact .inr (.inr rfl)

theorem waits_iff {id : Nat} :
    r.waits id ↔ ∃ entry ∈ r.queued ++ r.batch, entry.id = id := by
  simp only [waits, queued, ready, List.any_eq_true, decide_eq_true_eq]

/-- The running task waits in no list. -/
theorem ne_current (hnodup : (r.all.map Entry.id).Nodup) {run : RunningTask τ}
    (hcurrent : r.current = some run) {entry : Entry τ}
    (h : entry ∈ r.queued ++ r.batch) : entry.id ≠ run.entry.id := by
  rw [all, hcurrent, List.map_append, List.nodup_append] at hnodup
  exact hnodup.2.2 _ (List.mem_map_of_mem h) _ (by simp)

/-- A submission says nothing of the running task. -/
theorem Asked.submitted (h : r.Asked log) (hcurrent : r'.current = r.current)
    (ids : List Nat) : r'.Asked (TaskSystem.submittedObs ids ++ log) := by
  refine h.quiet hcurrent fun run _ o ho => ?_
  obtain ⟨j, -, -, rfl⟩ := TaskSystem.mem_submittedObs.mp ho
  exact ⟨nofun, rfl, rfl⟩

/-- Nor does an observation of another kind. -/
theorem Asked.note (h : r.Asked log) (hcurrent : r'.current = r.current)
    {o : TaskObs} (hquiet : ∀ run, r.current = some run →
      o ≠ .started run.entry.id ∧ o.withdraws run.entry.id = false ∧
        o.reschedules run.entry.id = false) : r'.Asked (o :: log) := by
  show r'.Asked ([o] ++ log)
  refine h.quiet hcurrent fun run hrun _ ho => ?_
  rw [List.mem_singleton.mp ho]
  exact hquiet run hrun

theorem Asked.cancel (h : r.Asked log) (hnodup : (r.all.map Entry.id).Nodup)
    (id : Nat) (hwon : (r.cancel id).2 = true) :
    (r.cancel id).1.Asked (.cancelReturned id true :: log) := by
  rcases r.cancel_result id with ⟨hwaits, hres⟩ | ⟨run, hrun, hres⟩ | hres
  · rw [hres]
    refine h.note rfl fun run hrun => ?_
    obtain ⟨entry, hmem, rfl⟩ := waits_iff.mp hwaits
    have hne := ne_current hnodup hrun hmem
    exact ⟨by rintro ⟨⟩, by simp [TaskObs.withdraws, hne], rfl⟩
  · obtain ⟨-, hid, -⟩ := running_eq_some.mp hrun
    rw [hres]
    exact .cancelRunning (by rintro ⟨⟩) (by simp [TaskObs.withdraws, hid])
  · rw [hres] at hwon
    cases hwon

theorem Asked.contextCancel (h : r.Asked log) (id : Nat) :
    (r.contextCancel id).1.Asked
      (.contextCancelReturned id (r.contextCancel id).2 :: log) := by
  unfold Scheduler.contextCancel
  cases hrun : r.running id with
  | some run =>
      obtain ⟨-, hid, -⟩ := running_eq_some.mp hrun
      exact .cancelRunning (by rintro ⟨⟩) (by simp [TaskObs.withdraws, hid])
  | none =>
      refine h.note rfl fun run _ => ⟨by rintro ⟨⟩, ?_, rfl⟩
      simp [TaskObs.withdraws]

theorem Asked.reschedule (h : r.Asked log) {run : RunningTask τ}
    (hcurrent : r.current = some run) (due : Int) :
    ({ r with current := some { run with reschedule := some due } } :
      Scheduler τ).Asked (.rescheduleReturned run.entry.id due true :: log) := by
  intro run' hrun'
  cases hrun'
  have hsince := sinceStart_cons
    (show TaskObs.rescheduleReturned run.entry.id due true ≠
      .started run.entry.id from TaskObs.noConfusion) log
  obtain ⟨hcancelled, -⟩ := h run hcurrent
  dsimp only
  rw [hsince]
  refine ⟨hcancelled, fun _ => ?_⟩
  simp [lastReschedule]

theorem Asked.contextReschedule (h : r.Asked log) (id : Nat) (due : Int) :
    (r.contextReschedule id due).1.Asked
      (.rescheduleReturned id due (r.contextReschedule id due).2 :: log) := by
  have hrefused : r.Asked (.rescheduleReturned id due false :: log) :=
    h.note rfl fun run _ => ⟨nofun, rfl, by simp [TaskObs.reschedules]⟩
  unfold Scheduler.contextReschedule
  split
  · exact hrefused
  · cases hrun : r.running id with
    | some run =>
        obtain ⟨hcurrent, rfl, -⟩ := running_eq_some.mp hrun
        exact h.reschedule hcurrent due
    | none => exact hrefused

theorem Asked.step (h : r.Asked log) (hnodup : (r.all.map Entry.id).Nodup)
    (hstep : Step r a obs r') : r'.Asked (obs ++ log) := by
  have hquiet : ∀ j id, (TaskObs.cancelReturned id false) ≠ .started j ∧
      (TaskObs.cancelReturned id false).withdraws j = false ∧
      (TaskObs.cancelReturned id false).reschedules j = false :=
    fun j id => ⟨by rintro ⟨⟩, by simp [TaskObs.withdraws], rfl⟩
  cases hstep
  case post task options => exact h.submitted (Added.post r task options).current _
  case postAt now due task options =>
    exact h.submitted (Added.postAt r now due task options).current _
  case postEveryAfter =>
    exact h.submitted (Beside.postEveryAfter r _ _ _ _ _ _).current _
  case postBatch tasks options =>
    exact h.submitted (Added.postBatch options tasks r).current _
  case cancelMissed id _ => exact h.note rfl fun run _ => hquiet run.entry.id id
  case cancelLost id _ => exact h.note rfl fun run _ => hquiet run.entry.id id
  case cancelled id hwon => exact h.cancel hnodup id hwon
  case contextCancel id => exact h.contextCancel id
  case contextReschedule id due => exact h.contextReschedule id due
  case clear ids hids =>
    refine h.quiet rfl fun run hrun o ho => ?_
    rw [List.mem_reverse, List.mem_map] at ho
    obtain ⟨j, hj, rfl⟩ := ho
    obtain ⟨entry, hmem, rfl⟩ := (hids j).mp hj
    have hne := ne_current hnodup hrun (List.mem_append_left _ hmem)
    exact ⟨by rintro ⟨⟩, by simp [TaskObs.withdraws, hne], rfl⟩
  case start entry batch _ _ =>
    intro run hrun
    cases hrun
    show false = withdrawn entry.id (sinceStart entry.id (.started entry.id :: log)) ∧
      (false = false → none = lastReschedule entry.id
        (sinceStart entry.id (.started entry.id :: log)))
    rw [sinceStart_started]
    exact ⟨rfl, fun _ => rfl⟩
  case beginNothing => exact h.note rfl fun _ _ => ⟨by rintro ⟨⟩, rfl, rfl⟩
  case ended => exact h.note rfl fun _ _ => ⟨by rintro ⟨⟩, rfl, rfl⟩
  case returned => exact .ended rfl
  case threw => exact .ended rfl
  case escaped hcurrent => exact .ended hcurrent
  all_goals exact h

/-! ## Starts -/

/-- The id is handed out, and no entry of it is left. -/
def Gone (r : Scheduler τ) (id : Nat) : Prop :=
  id < r.nextId ∧ ∀ entry ∈ r.all, entry.id ≠ id

theorem Step.started_mem (h : Step r a obs r') (hstart : .started id ∈ obs) :
    ∃ entry ∈ r.batch, entry.id = id := by
  have hsubmitted (ids : List Nat) : .started id ∉ TaskSystem.submittedObs ids :=
    TaskSystem.started_not_mem_submittedObs id ids
  cases h
  case start entry batch _ hbatch =>
    rw [List.mem_singleton] at hstart
    cases hstart
    exact ⟨entry, hbatch ▸ List.mem_cons_self, rfl⟩
  case clear ids _ => simp at hstart
  case post | postAt | postEveryAfter | postBatch => exact absurd hstart (hsubmitted _)
  all_goals
    first
    | exact absurd hstart List.not_mem_nil
    | exact absurd (List.mem_singleton.mp hstart) TaskObs.noConfusion

theorem Gone.step (h : r.Gone id) (hpos : 0 < r.nextId)
    (hstep : Step r a obs r') : r'.Gone id ∧ .started id ∉ obs := by
  refine ⟨⟨Nat.lt_of_lt_of_le h.1 hstep.grows.1, fun entry hmem => ?_⟩,
    fun hstart => ?_⟩
  · cases hstep.origin hpos entry hmem with
    | kept hold => exact h.2 entry hold
    | posted hid => exact fun heq => absurd h.1 (by omega)
    | postedEvery _ _ _ _ _ _ hentry =>
        rw [hentry]
        exact fun heq => absurd h.1 (by dsimp only at heq; omega)
    | again _ hcurrent _ _ _ _ _ hentry =>
        have hrun := h.2 _ (current_mem_all _ _ hcurrent)
        rw [hentry]
        exact hrun
  · obtain ⟨entry, hmem, hid⟩ := hstep.started_mem hstart
    exact h.2 entry (r.batch_mem_all entry hmem) hid

/-- Before the next call of `process()` nothing enters the batch. -/
theorem Step.batch_subset (h : Step r a obs r')
    (ha : ∀ now maxTasks, a ≠ .processBegin now maxTasks) :
    ∀ entry ∈ r'.batch, entry ∈ r.batch := by
  intro entry hmem
  cases h
  case post task options => exact (Added.post r task options).batch ▸ hmem
  case postAt now due task options =>
    exact (Added.postAt r now due task options).batch ▸ hmem
  case postBatch tasks options =>
    exact (Added.postBatch options tasks r).batch ▸ hmem
  case postEveryAfter =>
    exact (Beside.postEveryAfter r _ _ _ _ _ _).batch ▸ hmem
  case cancelled id _ =>
    rcases r.cancel_result id with ⟨-, hres⟩ | ⟨run, -, hres⟩ | hres
    all_goals rw [hres] at hmem
    · exact (List.mem_filter.mp hmem).1
    · exact hmem
    · exact hmem
  case contextCancel id =>
    unfold Scheduler.contextCancel at hmem
    split at hmem <;> exact hmem
  case contextReschedule id due =>
    unfold Scheduler.contextReschedule at hmem
    repeat' split at hmem
    all_goals exact hmem
  case begin now maxTasks _ _ _ => exact absurd rfl (ha now maxTasks)
  case start first batch _ hbatch => exact hbatch ▸ List.mem_cons_of_mem _ hmem
  case returned now now' run _ =>
    unfold conclude finish enqueue at hmem
    dsimp only at hmem
    repeat' split at hmem
    all_goals exact hmem
  case escaped _ => cases hmem
  all_goals exact hmem

/-! ## The end of a callback -/

theorem Step.returned_inv {now now' : Int}
    (h : Step r (.callbackReturned now now') obs r') :
    ∃ run, r.current = some run ∧ obs = [.returned run.entry.id] ∧
      r' = r.conclude now now' run := by
  cases h with
  | returned _ _ hcurrent => exact ⟨_, hcurrent, rfl, rfl⟩

theorem Step.threw_inv (h : Step r .callbackThrew obs r') :
    ∃ run, r.current = some run ∧ obs = [.threw run.entry.id] ∧
      r' = { r with current := none } := by
  cases h with
  | threw hcurrent => exact ⟨_, hcurrent, rfl, rfl⟩

theorem finish_ended (r : Scheduler τ) (now now' : Int) {run : RunningTask τ}
    (hend : run.cancelled = true ∨ r.closed = true ∨
      run.reschedule = none ∧ run.entry.periodic = false) :
    r.finish now now' run = r := by
  unfold finish
  rcases hend with hc | hc | ⟨hreschedule, hperiodic⟩
  · simp [hc]
  · simp [hc]
  · simp [hreschedule, hperiodic]

theorem finish_again (r : Scheduler τ) (now now' : Int) {run : RunningTask τ}
    {due : Int} (hlive : run.cancelled = false) (hopen : r.closed = false)
    (hdue : run.reschedule = some due ∨ run.reschedule = none ∧
      run.entry.periodic = true ∧
        due = TaskManager.nextPeriodicDue run.entry now) :
    r.finish now now' run =
      { r.enqueue { run.entry with seq := r.nextSeq, due := due,
                                   plannedDue := due } (due ≤ now') with
        nextSeq := r.nextSeq + 1 } := by
  unfold finish
  rcases hdue with hreschedule | ⟨hreschedule, hperiodic, rfl⟩
  · simp [hlive, hopen, hreschedule]
  · simp [hlive, hopen, hreschedule, hperiodic]

theorem mem_queued_enqueue (r : Scheduler τ) (entry : Entry τ) (ready : Bool) :
    entry ∈ (r.enqueue entry ready).queued := by
  unfold enqueue queued Scheduler.ready
  cases ready
  · simp [List.mem_orderedInsert]
  · cases entry.priority <;> simp

/-- A callback has ended and the task is not queued again. -/
theorem Gone.conclude {run : RunningTask τ} (hnodup : (r.all.map Entry.id).Nodup)
    (hknown : ∀ entry ∈ r.all, entry.id < r.nextId)
    (hcurrent : r.current = some run) (now now' : Int)
    (hend : run.cancelled = true ∨ r.closed = true ∨
      run.reschedule = none ∧ run.entry.periodic = false) :
    (r.conclude now now' run).Gone run.entry.id := by
  unfold Scheduler.conclude
  rw [r.finish_ended now now' hend]
  refine ⟨hknown _ (r.current_mem_all _ hcurrent), fun entry hmem => ?_⟩
  refine ne_current hnodup hcurrent ?_
  simpa [all, queued, ready] using hmem

theorem Gone.threw {run : RunningTask τ} (hnodup : (r.all.map Entry.id).Nodup)
    (hknown : ∀ entry ∈ r.all, entry.id < r.nextId)
    (hcurrent : r.current = some run) :
    ({ r with current := none } : Scheduler τ).Gone run.entry.id := by
  refine ⟨hknown _ (r.current_mem_all _ hcurrent), fun entry hmem => ?_⟩
  refine ne_current hnodup hcurrent ?_
  simpa [all, queued, ready] using hmem

end Scheduler

namespace TaskSystem

variable {s s' : TaskSystem τ}

theorem Reachable.asked (hs : s.Reachable) : s.scheduler.Asked s.log :=
  hs.invariant_follows (fun r log => r.Asked log) nofun
    fun _ _ _ _ ht hP h => hP.step ht.wellFormed.nodup h

/-- The id has ended for good: it is out of the index and no run starts it
again. -/
structure Terminal (s : TaskSystem τ) (id : Nat) : Prop where
  state : s.mgr.stateOf id = .cancelled ∨ s.mgr.stateOf id = .completed
  index : id ∉ s.mgr.index
  silent : ∀ acts s', Lts.run step s acts = some s' →
    starts id s'.log = starts id s.log

/-- The id waits exactly once, for `due`, and nothing but another call of
`process()` starts it. -/
structure QueuedFor (s : TaskSystem τ) (id : Nat) (due : Int) : Prop where
  once : s.QueuedOnce id
  due : ∃ entry, ((∃ priority, entry ∈ s.mgr.ready priority) ∨
    entry ∈ s.mgr.delayedHeap) ∧
      entry.id = id ∧ entry.due = due ∧ entry.plannedDue = due
  silent : ∀ acts s', (∀ a ∈ acts, ∀ now maxTasks, a ≠ .processBegin now maxTasks) →
    Lts.run step s acts = some s' → starts id s'.log = starts id s.log

theorem run_gone {acts : List (TaskAction τ)} (hs : s.Reachable)
    (h : s.scheduler.Gone id) (hrun : Lts.run step s acts = some s') :
    s'.scheduler.Gone id ∧ starts id s'.log = starts id s.log := by
  obtain ⟨obs, hlog, hgone, hsilent⟩ := run_follows (C := fun _ => True) hs
    (fun r obs => r.Gone id ∧ .started id ∉ obs) ⟨h, List.not_mem_nil⟩
    (fun t t' a obs new ht _ _ hP hstep => by
      obtain ⟨hgone, hnew⟩ := hP.1.step ht.inv.positive hstep
      exact ⟨hgone, fun hmem => (List.mem_append.mp hmem).elim hnew hP.2⟩)
    (fun _ _ => trivial) hrun
  rw [hlog]
  exact ⟨hgone, starts_append hsilent _⟩

theorem Reachable.terminal (hs : s.Reachable) (h : s.scheduler.Gone id) :
    s.Terminal id := by
  have hinv : s.mgr.Inv s.phase.current s.phase.unrun s.phase.owed := hs.inv
  have hacc := hinv.accounted id
  have hcopies : copies s.phase.current.toList id = 0 := by
    cases hcurrent : s.phase.current with
    | none => rfl
    | some entry =>
        have hrun : s.scheduler.current = some (s.mgr.runningTask entry) := by
          simp only [scheduler, scheduler_current, hcurrent]
          rfl
        have hne : entry.id ≠ id := h.2 _ (Scheduler.current_mem_all _ _ hrun)
        exact List.countP_eq_zero.mpr (by simpa using hne)
  have hwaits : (s.mgr.stateOf id).waiting = false := by
    rw [Bool.eq_false_iff]
    intro hw
    obtain ⟨entry, hmem, hid⟩ := Scheduler.waits_iff.mp
      ((hinv.waits_iff (n := s.processed) id).mpr hw)
    exact h.2 entry (List.mem_append_left _ hmem) hid
  refine ⟨?_, ?_, fun acts s' hrun => (run_gone hs h hrun).2⟩
  · cases hst : s.mgr.stateOf id
    case cancelled => exact .inl rfl
    case completed => exact .inr rfl
    case executing =>
        rw [hst] at hacc
        have := hacc.2.2.2.1
        omega
    all_goals
      rw [hst] at hwaits
      cases hwaits
  · intro hindex
    cases hst : s.mgr.stateOf id <;> rw [hst] at hacc hwaits
    case cancelled =>
        have := hacc.1.mp hindex
        omega
    case completed => exact hacc.1 hindex
    case executing =>
        have := hacc.2.2.2.1
        omega
    all_goals cases hwaits

theorem Reachable.queuedFor (hs : s.Reachable) {entry : Entry τ}
    (hmem : entry ∈ s.scheduler.queued) (hplanned : entry.plannedDue = entry.due) :
    s.QueuedFor entry.id entry.due := by
  have hinv : s.mgr.Inv s.phase.current s.phase.unrun s.phase.owed := hs.inv
  have hacc := hinv.accounted entry.id
  have hnodup := hs.wellFormed.nodup
  rw [Scheduler.all, List.append_assoc, List.map_append, List.nodup_append]
    at hnodup
  have hapart : ∀ other ∈ s.scheduler.batch, other.id ≠ entry.id :=
    fun other hother heq => hnodup.2.2 _ (List.mem_map_of_mem hmem) _
      (List.mem_map_of_mem (List.mem_append_left _ hother)) heq.symm
  refine ⟨?_, ?_, fun acts s' hacts hrun => ?_⟩
  · have hqueued := (hinv.mem_queued (n := s.processed) entry.id).mp
      ⟨entry, hmem, rfl⟩
    cases hst : s.mgr.stateOf entry.id <;> rw [hst] at hacc hqueued
    case queuedReady =>
        exact ⟨.inl hst, by rw [hacc.2.1, hacc.2.2.1]⟩
    case queuedDelayed =>
        exact ⟨.inr hst, by rw [hacc.2.1, hacc.2.2.1]⟩
    all_goals exact absurd ⟨by decide, by decide⟩ hqueued
  · refine ⟨entry, ?_, rfl, rfl, hplanned⟩
    simp only [Scheduler.queued, Scheduler.ready, List.mem_append] at hmem
    rcases hmem with ((h | h) | h) | h
    · exact .inl ⟨_, (List.mem_filter.mp h).1⟩
    · exact .inl ⟨_, (List.mem_filter.mp h).1⟩
    · exact .inl ⟨_, (List.mem_filter.mp h).1⟩
    · exact .inr (List.mem_filter.mp h).1
  · obtain ⟨obs, hlog, -, hsilent⟩ := run_follows
      (C := fun a => ∀ now maxTasks, a ≠ .processBegin now maxTasks) hs
      (fun r obs => (∀ other ∈ r.batch, other.id ≠ entry.id) ∧
        .started entry.id ∉ obs) ⟨hapart, List.not_mem_nil⟩
      (fun t t' a obs new _ _ ha hP hstep => by
        refine ⟨fun other h => hP.1 other (hstep.batch_subset ha other h),
          fun hstart => ?_⟩
        rcases List.mem_append.mp hstart with hnew | hold
        · obtain ⟨other, hother, hid⟩ := hstep.started_mem hnew
          exact hP.1 other hother hid
        · exact hP.2 hold)
      hacts hrun
    rw [hlog]
    exact starts_append hsilent _

/-! ## The outcome -/

/-- What the end of the callback of `entry` does to the task, and what its
context may still ask for, by what the log says since the callback started. -/
structure CallbackOutcome (s : TaskSystem τ) (entry : Entry τ) : Prop where
  threw : ∀ s', s.step .callbackThrew = some s' → s'.Terminal entry.id
  cancelled : withdrawn entry.id (sinceStart entry.id s.log) →
    ∀ now now' s', s.step (.callbackReturned now now') = some s' →
      s'.Terminal entry.id
  closed : s.mgr.closed →
    ∀ now now' s', s.step (.callbackReturned now now') = some s' →
      s'.Terminal entry.id
  rescheduled : ∀ due, withdrawn entry.id (sinceStart entry.id s.log) = false →
    s.mgr.closed = false →
    lastReschedule entry.id (sinceStart entry.id s.log) = some due →
    ∀ now now' s', s.step (.callbackReturned now now') = some s' →
      s'.QueuedFor entry.id due
  periodic : withdrawn entry.id (sinceStart entry.id s.log) = false →
    s.mgr.closed = false →
    lastReschedule entry.id (sinceStart entry.id s.log) = none →
    entry.periodic →
    ∀ now now' s', s.step (.callbackReturned now now') = some s' →
      s'.QueuedFor entry.id (nextPeriodicDue entry now)
  completed : withdrawn entry.id (sinceStart entry.id s.log) = false →
    lastReschedule entry.id (sinceStart entry.id s.log) = none →
    entry.periodic = false →
    ∀ now now' s', s.step (.callbackReturned now now') = some s' →
      s'.Terminal entry.id ∧ s'.mgr.stateOf entry.id = .completed
  refused : withdrawn entry.id (sinceStart entry.id s.log) →
    (s.mgr.cancelFromContext entry.id).2 = false ∧
      (∀ due, (s.mgr.rescheduleFromContext entry.id due).2 = false) ∧
      s.mgr.isCancelledForContext entry.id = true

/-- The callback of `entry` is on the stack. -/
theorem current_of_running {entry : Entry τ} {unrun : List (Entry τ)}
    (hphase : s.phase = .running entry unrun) :
    s.scheduler.current = some (s.mgr.runningTask entry) := by
  simp only [scheduler, scheduler_current, hphase]
  rfl

theorem Reachable.concluded {entry : Entry τ} {unrun : List (Entry τ)}
    (hs : s.Reachable) (hphase : s.phase = .running entry unrun)
    {now now' : Int} (hstep : s.step (.callbackReturned now now') = some s') :
    s'.Reachable ∧ s'.log = .returned entry.id :: s.log ∧
      s'.scheduler = s.scheduler.conclude now now' (s.mgr.runningTask entry) := by
  obtain ⟨obs, hlog, hfollows⟩ := hs.follows hstep
  obtain ⟨run, hrun, rfl, hr⟩ := hfollows.returned_inv
  rw [current_of_running hphase] at hrun
  cases hrun
  exact ⟨hs.trans_run (Lts.run_one hstep), hlog, hr⟩

/-- The callback has returned and the task is queued again for `due`. -/
theorem Reachable.queuedFor_again {entry : Entry τ} {unrun : List (Entry τ)}
    (hs : s.Reachable) (hphase : s.phase = .running entry unrun) {due : Int}
    (hlive : (s.mgr.runningTask entry).cancelled = false)
    (hopen : s.mgr.closed = false) {now now' : Int}
    (hdue : (s.mgr.runningTask entry).reschedule = some due ∨
      (s.mgr.runningTask entry).reschedule = none ∧ entry.periodic = true ∧
        due = nextPeriodicDue entry now)
    (hstep : s.step (.callbackReturned now now') = some s') :
    s'.QueuedFor entry.id due := by
  obtain ⟨hs', -, hr⟩ := hs.concluded hphase hstep
  have hfinish := Scheduler.finish_again s.scheduler now now' hlive hopen hdue
  have hmem := Scheduler.mem_queued_enqueue s.scheduler
    { entry with seq := s.scheduler.nextSeq, due := due, plannedDue := due }
    (due ≤ now')
  have hqueued : s'.scheduler.queued = (s.scheduler.enqueue
      { entry with seq := s.scheduler.nextSeq, due := due, plannedDue := due }
      (due ≤ now')).queued := by
    rw [hr, Scheduler.conclude, hfinish]
    rfl
  exact hs'.queuedFor (hqueued ▸ hmem) rfl

theorem Reachable.terminal_ended {entry : Entry τ} {unrun : List (Entry τ)}
    (hs : s.Reachable) (hphase : s.phase = .running entry unrun)
    {now now' : Int}
    (hend : (s.mgr.runningTask entry).cancelled = true ∨ s.mgr.closed = true ∨
      (s.mgr.runningTask entry).reschedule = none ∧ entry.periodic = false)
    (hstep : s.step (.callbackReturned now now') = some s') :
    s'.Terminal entry.id := by
  obtain ⟨hs', -, hr⟩ := hs.concluded hphase hstep
  have hwf := hs.wellFormed
  refine hs'.terminal ?_
  rw [hr]
  exact .conclude hwf.nodup hwf.known (current_of_running hphase) now now' hend

theorem Reachable.gone_threw {entry : Entry τ} {unrun : List (Entry τ)}
    (hs : s.Reachable) (hphase : s.phase = .running entry unrun)
    (hstep : s.step .callbackThrew = some s') : s'.scheduler.Gone entry.id := by
  have hcurrent := current_of_running hphase
  have hwf := hs.wellFormed
  obtain ⟨obs, -, hfollows⟩ := hs.follows hstep
  obtain ⟨run, hrun, -, hr⟩ := hfollows.threw_inv
  rw [hcurrent] at hrun
  cases hrun
  rw [hr]
  exact .threw hwf.nodup hwf.known hcurrent

/-- The outcome of a callback is that of the operations performed while it was
running, whatever they were and whoever performed them. -/
theorem Reachable.callbackOutcome {entry : Entry τ} {unrun : List (Entry τ)}
    (hs : s.Reachable) (hphase : s.phase = .running entry unrun) :
    s.CallbackOutcome entry := by
  have hinv : s.mgr.Inv s.phase.current s.phase.unrun s.phase.owed := hs.inv
  have hcurrent := current_of_running hphase
  obtain ⟨hcancelled, hreschedule⟩ := hs.asked _ hcurrent
  change (s.mgr.runningTask entry).cancelled =
    withdrawn entry.id (sinceStart entry.id s.log) at hcancelled
  rw [hcancelled] at hreschedule
  constructor
  · intro s' hstep
    have hs' : s'.Reachable := hs.trans_run (Lts.run_one hstep)
    exact hs'.terminal (hs.gone_threw hphase hstep)
  · exact fun hwithdrawn now now' s' hstep =>
      hs.terminal_ended hphase (.inl (hcancelled.trans hwithdrawn)) hstep
  · exact fun hclosed now now' s' hstep =>
      hs.terminal_ended hphase (.inr (.inl hclosed)) hstep
  · exact fun due hlive hopen hdue now now' s' hstep =>
      hs.queuedFor_again hphase (hcancelled.trans hlive) hopen
        (.inl ((hreschedule hlive).trans hdue)) hstep
  · exact fun hlive hopen hnone hperiodic now now' s' hstep =>
      hs.queuedFor_again hphase (hcancelled.trans hlive) hopen
        (.inr ⟨(hreschedule hlive).trans hnone, hperiodic, rfl⟩) hstep
  · intro hlive hnone hperiodic now now' s' hstep
    have hend := hs.terminal_ended hphase
      (.inr (.inr ⟨(hreschedule hlive).trans hnone, hperiodic⟩)) hstep
    refine ⟨hend, hend.state.resolve_left fun hst => ?_⟩
    obtain ⟨hs', hlog, -⟩ := hs.concluded hphase hstep
    have hwithdrawn := (hs'.logged entry.id).withdrawn.mpr hst
    rw [hlog] at hwithdrawn
    have hstate : s.mgr.stateOf entry.id = .cancelled :=
      (hs.logged entry.id).withdrawn.mp hwithdrawn
    have hfalse := hcancelled.trans hlive
    rw [runningTask, hstate] at hfalse
    cases hfalse
  · intro hwithdrawn
    have hst : s.mgr.stateOf entry.id = .cancelled :=
      of_decide_eq_true (hcancelled.trans hwithdrawn)
    refine ⟨?_, fun due => ?_, ?_⟩
    · simp [cancelFromContext, hst]
    · simp [rescheduleFromContext, hst]
    · rw [hinv.scheduler_contextIsCancelled (n := s.processed)]
      have hrun : s.scheduler.contextIsCancelled entry.id = true := by
        rw [Scheduler.contextIsCancelled, hcurrent]
        simp [runningTask, hst]
      exact hrun

/-- A periodic task that reschedules itself twice and then cancels itself. -/
theorem callbackOutcome_cancelled : ∃ s : TaskSystem Unit,
    Lts.run step {} [.postEveryAfter 0 0 0 5 (some ()) {}, .processBegin 0 7,
      .processStart, .processSettle, .contextReschedule 1 9,
      .contextReschedule 1 3, .contextCancel 1] = some s ∧
      s.CallbackOutcome { id := 1, seq := 1, periodic := true, interval := 5,
                          task := () } := by
  obtain ⟨s, hs, hphase⟩ : ∃ s : TaskSystem Unit,
      Lts.run step {} [.postEveryAfter 0 0 0 5 (some ()) {}, .processBegin 0 7,
        .processStart, .processSettle, .contextReschedule 1 9,
        .contextReschedule 1 3, .contextCancel 1] = some s ∧
      s.phase = .running { id := 1, seq := 1, periodic := true, interval := 5,
                           task := () } [] :=
    Lts.exists_run_of_decide (by decide)
  exact ⟨s, hs, Reachable.callbackOutcome ⟨_, hs⟩ hphase⟩

end TaskSystem

end EventHub
