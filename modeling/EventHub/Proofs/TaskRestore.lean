import EventHub.Proofs.SchedulerOrigin
import EventHub.Proofs.TaskOutcome
import EventHub.Proofs.TaskWaiting

/-!
# A call of `process()` that an exception leaves

While a call is going on, each ready list loses the tasks that are cancelled
and gains at its end what is submitted or put back, in the order of the
sequence numbers. The exception that escapes puts the rest of the batch in
front. So each list is, when the call has thrown, the rest of the batch, then
what the batch left behind, then what the call has added.
-/

namespace EventHub

open TaskManager

variable {τ : Type}

namespace Scheduler

variable {r r' : Scheduler τ} {a : TaskAction τ} {obs : List TaskObs}

/-! ## One list in one step -/

/-- `queue'` is `queue` without the withdrawn tasks and with tasks at the end
whose numbers are new and in order. -/
def Grown (first : Nat) (obs : List TaskObs) (queue queue' : List (Entry τ)) :
    Prop :=
  ∃ new, queue' = (queue.filter fun entry => !withdrawn entry.id obs) ++ new ∧
    (∀ entry ∈ new, first ≤ entry.seq) ∧
    new.Pairwise fun lhs rhs => lhs.seq < rhs.seq

theorem Grown.same {first : Nat} {queue : List (Entry τ)}
    (h : ∀ entry ∈ queue, withdrawn entry.id obs = false) :
    Grown first obs queue queue := by
  refine ⟨[], ?_, List.forall_mem_nil _, .nil⟩
  rw [List.append_nil, List.filter_eq_self.mpr fun entry hmem => by
    rw [h entry hmem]; rfl]

theorem Grown.pushed {first : Nat} {queue : List (Entry τ)} {entry : Entry τ}
    (h : ∀ entry ∈ queue, withdrawn entry.id obs = false)
    (hseq : first ≤ entry.seq) :
    Grown first obs queue (queue ++ [entry]) := by
  refine ⟨[entry], ?_, by simpa using hseq, List.pairwise_singleton ..⟩
  rw [List.filter_eq_self.mpr fun entry hmem => by rw [h entry hmem]; rfl]

theorem Grown.trans {first next : Nat} {obs' : List TaskObs}
    {queue queue' queue'' : List (Entry τ)} (h : Grown first obs queue queue')
    (h' : Grown next obs' queue' queue'') (hle : first ≤ next)
    (hlt : ∀ entry ∈ queue', entry.seq < next) :
    Grown first (obs' ++ obs) queue queue'' := by
  obtain ⟨new, rfl, hnew, hsorted⟩ := h
  obtain ⟨new', rfl, hnew', hsorted'⟩ := h'
  refine ⟨(new.filter fun entry => !withdrawn entry.id obs') ++ new', ?_, ?_, ?_⟩
  · rw [List.filter_append, List.append_assoc, List.filter_filter]
    congr 1
    refine List.filter_congr fun entry _ => ?_
    rw [withdrawn_append, Bool.not_or]
  · intro entry hmem
    rcases List.mem_append.mp hmem with hmem | hmem
    · exact hnew entry (List.mem_filter.mp hmem).1
    · exact hle.trans (hnew' entry hmem)
  · rw [List.pairwise_append]
    refine ⟨hsorted.sublist List.filter_sublist, hsorted', ?_⟩
    intro entry hmem entry' hmem'
    have hold := hlt entry (List.mem_append_right _ (List.mem_filter.mp hmem).1)
    exact Nat.lt_of_lt_of_le hold (hnew' entry' hmem')

theorem queue_enqueue (r : Scheduler τ) (entry : Entry τ) (ready : Bool)
    (priority : TaskPriority) :
    (r.enqueue entry ready).queue priority =
      r.queue priority ++ if ready ∧ priority = entry.priority then [entry] else [] := by
  unfold enqueue
  cases ready
  · simp
  · by_cases hp : priority = entry.priority
    · subst hp
      simp
    · simp [hp]

theorem Grown.enqueue (entry : Entry τ) (ready : Bool)
    (hseq : entry.seq = r.nextSeq) (priority : TaskPriority)
    (h : ∀ entry ∈ r.queue priority, withdrawn entry.id obs = false) :
    Grown r.nextSeq obs (r.queue priority)
      ((r.enqueue entry ready).queue priority) := by
  rw [queue_enqueue]
  split
  · exact .pushed h hseq.ge
  · rw [List.append_nil]
    exact .same h

theorem Grown.submit (r : Scheduler τ) (entry : Entry τ) (ready : Bool)
    (priority : TaskPriority) :
    Grown r.nextSeq [] (r.queue priority)
      ((r.submit entry ready).1.queue priority) :=
  .enqueue { entry with id := r.nextId, seq := r.nextSeq } ready rfl priority
    fun _ _ => rfl

theorem Grown.post (r : Scheduler τ) (task : Option τ) (options : TaskOptions)
    (priority : TaskPriority) :
    Grown r.nextSeq [] (r.queue priority)
      ((r.post task options).1.queue priority) := by
  unfold Scheduler.post
  cases task with
  | none => exact .same fun _ _ => rfl
  | some task =>
      dsimp only
      split
      · exact .same fun _ _ => rfl
      · exact .submit r _ _ priority

theorem Grown.postBatch (options : TaskOptions) (priority : TaskPriority)
    (tasks : List (Option τ)) :
    ∀ r : Scheduler τ, (∀ entry ∈ r.all, entry.seq < r.nextSeq) →
      Grown r.nextSeq [] (r.queue priority)
        ((r.postBatch options tasks).1.queue priority) := by
  induction tasks with
  | nil => exact fun r _ => .same fun _ _ => rfl
  | cons task tasks ih =>
      intro r hseq
      have hadded := Added.post r task options
      have hseq' : ∀ entry ∈ (r.post task options).1.all,
          entry.seq < (r.post task options).1.nextSeq := by
        intro entry hmem
        rcases hadded.all entry hmem with hold | ⟨-, ⟨-, hlt⟩, -⟩
        · exact Nat.lt_of_lt_of_le (hseq entry hold) hadded.nextSeq
        · exact hlt
      exact (Grown.post r task options priority).trans (ih _ hseq')
        hadded.nextSeq fun entry hmem => hseq' entry (queue_mem_all _ entry hmem)

/-- The observations of a submission withdraw nothing. -/
theorem Grown.submitted {first : Nat} {queue queue' : List (Entry τ)}
    (h : Grown first [] queue queue') (ids : List Nat) :
    Grown first (TaskSystem.submittedObs ids) queue queue' := by
  obtain ⟨new, hqueue, hnew⟩ := h
  refine ⟨new, hqueue.trans ?_, hnew⟩
  congr 1
  refine List.filter_congr fun entry _ => ?_
  rw [TaskSystem.withdrawn_submittedObs]
  rfl

theorem Grown.cancel (hnodup : (r.all.map Entry.id).Nodup) {id : Nat}
    (hwon : (r.cancel id).2 = true) (priority : TaskPriority) :
    Grown r.nextSeq [.cancelReturned id true] (r.queue priority)
      ((r.cancel id).1.queue priority) := by
  rcases r.cancel_result id with ⟨-, hres⟩ | ⟨run, hrun, hres⟩ | hres
  · rw [hres]
    refine ⟨[], ?_, List.forall_mem_nil _, .nil⟩
    rw [List.append_nil]
    refine List.filter_congr fun entry _ => ?_
    simp [withdrawn, TaskObs.withdraws, eq_comm]
  · rw [hres]
    obtain ⟨hcurrent, rfl, -⟩ := running_eq_some.mp hrun
    refine .same fun entry hmem => ?_
    have hqueued : entry ∈ r.queued ++ r.batch := by
      cases priority <;> simp [queued, ready, hmem]
    have hne := ne_current hnodup hcurrent hqueued
    simp [withdrawn, TaskObs.withdraws, Ne.symm hne]
  · rw [hres] at hwon
    cases hwon

theorem Grown.contextCancel (hnodup : (r.all.map Entry.id).Nodup) (id : Nat)
    (priority : TaskPriority) :
    Grown r.nextSeq [.contextCancelReturned id (r.contextCancel id).2]
      (r.queue priority) ((r.contextCancel id).1.queue priority) := by
  unfold Scheduler.contextCancel
  cases hrun : r.running id with
  | none => exact .same fun _ _ => by simp [withdrawn, TaskObs.withdraws]
  | some run =>
      obtain ⟨hcurrent, rfl, -⟩ := running_eq_some.mp hrun
      refine .same fun entry hmem => ?_
      have hqueued : entry ∈ r.queued ++ r.batch := by
        cases priority <;> simp [queued, ready, hmem]
      have hne := ne_current hnodup hcurrent hqueued
      simp [withdrawn, TaskObs.withdraws, Ne.symm hne]

theorem Step.grown (h : Step r a obs r') (hnodup : (r.all.map Entry.id).Nodup)
    (hseq : ∀ entry ∈ r.all, entry.seq < r.nextSeq)
    (ha : ∀ now maxTasks, a ≠ .processBegin now maxTasks)
    (ha' : a ≠ .exceptionEscaped) (priority : TaskPriority) :
    Grown r.nextSeq obs (r.queue priority) (r'.queue priority) := by
  cases h
  case post task options => exact (Grown.post r task options priority).submitted _
  case postAt now due task options =>
    refine Grown.submitted ?_ _
    unfold Scheduler.postAt
    cases task with
    | none => exact .same fun _ _ => rfl
    | some task =>
        dsimp only
        split
        · exact .same fun _ _ => rfl
        · split <;> exact .submit r _ _ priority
  case postEveryAfter now now' initialDelay interval task options =>
    refine Grown.submitted ?_ _
    unfold Scheduler.postEveryAfter
    cases task with
    | none => exact .same fun _ _ => rfl
    | some task =>
        dsimp only
        split
        · exact .same fun _ _ => rfl
        · exact .submit r _ _ priority
  case postBatch tasks options =>
    exact (Grown.postBatch options priority tasks r hseq).submitted _
  case cancelled id hwon => exact .cancel hnodup hwon priority
  case contextCancel id => exact .contextCancel hnodup id priority
  case contextReschedule id due =>
    unfold Scheduler.contextReschedule
    repeat' split
    all_goals exact .same fun _ _ => rfl
  case clear ids hids =>
    refine ⟨[], ?_, List.forall_mem_nil _, .nil⟩
    rw [List.append_nil]
    refine (List.filter_eq_nil_iff.mpr fun entry hmem => ?_).symm
    have hqueued : entry ∈ r.queued := by
      cases priority <;> simp [queued, ready, hmem]
    have hid := (hids entry.id).mpr ⟨entry, hqueued, rfl⟩
    simp [withdrawn, TaskObs.withdraws, hid]
  case begin now maxTasks _ _ _ => exact absurd rfl (ha now maxTasks)
  case escaped => exact absurd rfl ha'
  case returned now now' run _ =>
    show Grown r.nextSeq _ (r.queue priority)
      ((r.finish now now' run).queue priority)
    unfold finish
    dsimp only
    repeat' split
    all_goals
      first
      | exact .same fun _ _ => rfl
      | exact .enqueue _ _ rfl priority fun _ _ => rfl
  all_goals
    exact .same fun _ _ => by simp [withdrawn, TaskObs.withdraws]

/-! ## Which entries are of the call -/

/-- What a callback that has returned leaves: the entries that were waiting,
and its own if it is put back. -/
theorem mem_conclude {now now' : Int} {run : RunningTask τ} {entry : Entry τ}
    (h : entry ∈ (r.conclude now now' run).all) :
    entry ∈ r.queued ++ r.batch ∨
      entry.id = run.entry.id ∧ entry.seq = r.nextSeq := by
  have hended : r.conclude now now' run =
      ({ r with current := none, processed := r.processed + 1 } :
        Scheduler τ).finish now now' run :=
    (TaskSystem.finish_congr r none (r.processed + 1) now now' run).symm
  have hall : ({ r with current := none, processed := r.processed + 1 } :
      Scheduler τ).all = r.queued ++ r.batch := List.append_nil _
  rw [hended] at h
  unfold finish at h
  dsimp only at h
  repeat' split at h
  all_goals
    first
    | exact .inl (hall ▸ h)
    | rcases mem_all_enqueue h with rfl | h
      · exact .inr ⟨rfl, rfl⟩
      · exact .inl (hall ▸ h)

theorem Added.submitted_fresh {ids : List Nat} (h : Added r r' ids) {id : Nat}
    (hid : .submitted id ∈ TaskSystem.submittedObs ids) : r.nextId ≤ id := by
  obtain ⟨hne, hmem⟩ := TaskSystem.submitted_mem_submittedObs.mp hid
  exact (h.fresh id hmem).resolve_left hne

theorem Step.escaped_inv (h : Step r .exceptionEscaped obs r') :
    obs = [.processThrew] ∧ r' = r.restore := by
  cases h with
  | escaped => exact ⟨rfl, rfl⟩

theorem Step.submitted_fresh (h : Step r a obs r') {id : Nat}
    (hid : .submitted id ∈ obs) : r.nextId ≤ id := by
  cases h
  case post task options => exact (Added.post r task options).submitted_fresh hid
  case postAt now due task options =>
    exact (Added.postAt r now due task options).submitted_fresh hid
  case postBatch tasks options =>
    exact (Added.postBatch options tasks r).submitted_fresh hid
  case postEveryAfter now now' initialDelay interval task options =>
    obtain ⟨hne, hmem⟩ := TaskSystem.submitted_mem_submittedObs.mp hid
    rw [List.mem_singleton] at hmem
    unfold Scheduler.postEveryAfter at hmem
    cases task with
    | none => exact absurd hmem hne
    | some task =>
        dsimp only at hmem
        split at hmem
        · exact absurd hmem hne
        · exact hmem.ge
  case clear ids _ => simp at hid
  all_goals simp at hid

theorem Step.returned_mem (h : Step r a obs r') {id : Nat}
    (hid : .returned id ∈ obs) :
    ∃ now now' run, r.current = some run ∧ run.entry.id = id ∧
      r' = r.conclude now now' run := by
  cases h
  case returned now now' run hcurrent =>
    rw [List.mem_singleton] at hid
    cases hid
    exact ⟨now, now', run, hcurrent, rfl, rfl⟩
  case post | postAt | postEveryAfter | postBatch =>
    obtain ⟨j, -, -, heq⟩ := TaskSystem.mem_submittedObs.mp hid
    cases heq
  all_goals simp at hid

/-- Since `first` was the next sequence number, exactly the tasks that `obs`
shows to be submitted or to have returned have got one. -/
def Numbered (first : Nat) (obs : List TaskObs) (r : Scheduler τ) : Prop :=
  first ≤ r.nextSeq ∧ ∀ entry ∈ r.all,
    first ≤ entry.seq ↔ .submitted entry.id ∈ obs ∨ .returned entry.id ∈ obs

theorem Numbered.step {first : Nat} (h : Numbered first obs r)
    (hwf : TaskSystem.WellFormed r) {new : List TaskObs}
    (hstep : Step r a new r') : Numbered first (new ++ obs) r' := by
  refine ⟨h.1.trans hstep.grows.2, fun entry hmem => ?_⟩
  by_cases hnew : .submitted entry.id ∈ new ∨ .returned entry.id ∈ new
  · -- the entry has just got its number
    refine iff_of_true ?_ ?_
    · cases hstep.origin hwf.positive entry hmem with
      | kept hold =>
          rcases hnew with hnew | hnew
          · have hfresh := hstep.submitted_fresh hnew
            have hknown := hwf.known entry hold
            omega
          · obtain ⟨now, now', run, hcurrent, hid, rfl⟩ := hstep.returned_mem hnew
            rcases mem_conclude hmem with hwaits | ⟨-, hseq⟩
            · exact absurd hid.symm (ne_current hwf.nodup hcurrent hwaits)
            · exact h.1.trans hseq.ge
      | posted _ _ hseq => exact h.1.trans hseq
      | postedEvery _ _ _ _ _ _ hentry => rw [hentry]; exact h.1
      | again _ _ _ _ _ _ _ hentry => rw [hentry]; exact h.1
    · exact hnew.imp (List.mem_append_left _) (List.mem_append_left _)
  · have hsame : (.submitted entry.id ∈ new ++ obs ∨
        .returned entry.id ∈ new ++ obs) ↔
          .submitted entry.id ∈ obs ∨ .returned entry.id ∈ obs := by
      rw [not_or] at hnew
      rw [List.mem_append, List.mem_append, or_iff_right hnew.1,
        or_iff_right hnew.2]
    rw [hsame]
    cases hstep.origin hwf.positive entry hmem with
    | kept hold => exact h.2 entry hold
    | posted _ _ _ _ hobs => exact absurd (.inl hobs) hnew
    | postedEvery _ _ _ _ _ hobs _ => exact absurd (.inl hobs) hnew
    | again _ _ _ _ _ _ hobs _ => exact absurd (.inr hobs) hnew

end Scheduler

/-! ## The counters, between two calls -/

namespace TaskManager

variable {m : TaskManager τ} {n : Nat}

/-- The entries of a ready queue that `process()` would take. -/
def readyList (m : TaskManager τ) (priority : TaskPriority) : List (Entry τ) :=
  (m.ready priority).filter fun entry => m.stateOf entry.id = .queuedReady

/-- The entries of the heap that are still to become ready. -/
def delayedList (m : TaskManager τ) : List (Entry τ) :=
  m.delayedHeap.filter fun entry => m.stateOf entry.id = .queuedDelayed

variable {cur : Option (Entry τ)} {unrun : List (Entry τ)} {owed : Int}

theorem Inv.queue_eq_readyList (h : m.Inv cur unrun owed)
    (priority : TaskPriority) :
    (m.scheduler cur unrun n).queue priority = m.readyList priority :=
  List.filter_congr fun entry hmem => by
    rw [Bool.eq_iff_iff, h.live_ready hmem, decide_eq_true_eq]

theorem Inv.delayed_eq_delayedList (h : m.Inv cur unrun owed) :
    (m.scheduler cur unrun n).delayed = m.delayedList :=
  List.filter_congr fun entry hmem => by
    rw [Bool.eq_iff_iff, h.live_delayed hmem, decide_eq_true_eq]

/-- As many ids are queued as there are entries to take. -/
theorem card_eq_length {entries : List (Entry τ)} {p : Nat → Prop}
    [DecidablePred p] (hnodup : (entries.map Entry.id).Nodup)
    (hp : ∀ id, (∃ entry ∈ entries, entry.id = id) ↔ id < m.nextId ∧ p id) :
    ({id ∈ Finset.range m.nextId | p id} : Finset Nat).card = entries.length := by
  have hset : ({id ∈ Finset.range m.nextId | p id} : Finset Nat) =
      (entries.map Entry.id).toFinset := by
    ext id
    rw [Finset.mem_filter, Finset.mem_range, List.mem_toFinset, List.mem_map]
    exact (hp id).symm
  rw [hset, List.toFinset_card_of_nodup hnodup, List.length_map]

theorem Inv.mem_ready (h : m.Inv cur unrun owed) (id : Nat) :
    (∃ entry ∈ (m.scheduler cur unrun n).ready, entry.id = id) ↔
      m.stateOf id = .queuedReady := by
  constructor
  · rintro ⟨entry, hmem, rfl⟩
    simp only [Scheduler.ready, h.queue_eq_readyList, readyList,
      List.mem_append, List.mem_filter, decide_eq_true_eq] at hmem
    rcases hmem with (⟨-, hst⟩ | ⟨-, hst⟩) | ⟨-, hst⟩ <;> exact hst
  · intro hst
    obtain ⟨entry, hmem, hid⟩ := (h.mem_queued (n := n) id).mpr
      (by rw [hst]; exact fun hkept => hkept.1 rfl)
    refine ⟨entry, (List.mem_append.mp hmem).resolve_right fun hdelayed => ?_, hid⟩
    rw [h.delayed_eq_delayedList, delayedList, List.mem_filter,
      decide_eq_true_eq, hid, hst] at hdelayed
    cases hdelayed.2

theorem Inv.readyCount_eq (h : m.Inv cur unrun owed) :
    m.readyCount = ((m.readyList .high).length + (m.readyList .normal).length +
      (m.readyList .low).length : Nat) := by
  have hnodup := h.nodup_all (n := 0)
  rw [Scheduler.all, Scheduler.queued, List.append_assoc, List.append_assoc,
    List.map_append, List.nodup_append] at hnodup
  have hcard := card_eq_length (m := m) (p := fun id => m.stateOf id = .queuedReady)
    hnodup.1 fun id => by
      rw [h.mem_ready]
      exact ⟨fun hst => ⟨h.lt_nextId (by rw [hst]; decide), hst⟩, And.right⟩
  rw [h.readyCount, TaskSystem.tally_eq_card m fun id =>
    TaskSystem.readyWeight_eq _ _, hcard, Scheduler.ready]
  simp only [h.queue_eq_readyList, List.length_append]

/-- Between two calls nothing but the queued tasks is pending. -/
theorem Inv.pendingCount_eq (h : m.Inv none [] 0) :
    m.pendingCount = ((m.readyList .high).length + (m.readyList .normal).length +
      (m.readyList .low).length + m.delayedList.length : Nat) := by
  have hnodup := h.nodup_all (n := 0)
  rw [Scheduler.all, List.append_assoc, List.map_append, List.nodup_append]
    at hnodup
  have hcard := card_eq_length (m := m)
    (p := fun id => m.stateOf id = .queuedReady ∨ m.stateOf id = .queuedDelayed ∨
      m.stateOf id = .readySnapshot ∨
        m.stateOf id = .executing ∧ (m.control id).periodic)
    hnodup.1 fun id => by
      have hacc := h.accounted id
      rw [h.mem_queued]
      constructor
      · intro hqueued
        cases hst : m.stateOf id <;> rw [hst] at hqueued
        case queuedReady => exact ⟨h.lt_nextId (by rw [hst]; decide), .inl rfl⟩
        case queuedDelayed =>
            exact ⟨h.lt_nextId (by rw [hst]; decide), .inr (.inl rfl)⟩
        all_goals exact absurd ⟨by decide, by decide⟩ hqueued
      · rintro ⟨-, hst | hst | hst | ⟨hst, -⟩⟩ <;> rw [hst] at hacc ⊢
        · exact fun hkept => hkept.1 rfl
        · exact fun hkept => hkept.2 rfl
        · exact absurd hacc.2.2.2.2 (by simp)
        · exact absurd hacc.2.2.2.1 (by simp)
  rw [h.pendingCount, TaskSystem.tally_eq_card m fun id =>
    TaskSystem.pendingWeight_eq _ _, hcard, Scheduler.queued, Scheduler.ready]
  simp only [h.queue_eq_readyList, h.delayed_eq_delayedList, List.length_append]
  rw [Int.add_zero]

end TaskManager

/-! ## The call -/

namespace TaskSystem

variable {s s' : TaskSystem τ} {a : TaskAction τ}

/-- The step does not end the call of `process()`. -/
def Continues (a : TaskAction τ) : Prop := a ≠ .processEnd ∧ a ≠ .exceptionEscaped

/-- While a call goes on, no other begins, and of the batch there is left what
is left of it. -/
theorem step_batch (ha : Continues a) (hbusy : s.phase ≠ .idle)
    (h : s.step a = some s') :
    (∀ now maxTasks, a ≠ .processBegin now maxTasks) ∧ s'.phase ≠ .idle ∧
      s'.phase.batch <:+ s.phase.batch := by
  by_cases hproduces : a.produces
  · obtain ⟨hphase, -, -⟩ := step_of_produces hproduces h
    refine ⟨?_, hphase ▸ hbusy, hphase ▸ List.suffix_rfl⟩
    rintro now maxTasks rfl
    cases hproduces
  · cases a
    case processBegin now maxTasks => exact absurd (step_processBegin h).1 hbusy
    case processEnd => exact absurd rfl ha.1
    case exceptionEscaped => exact absurd rfl ha.2
    case cancelExchange =>
      change s.stepExchange = some s' at h
      unfold stepExchange at h
      split at h
      · cases h
        exact ⟨by rintro _ _ ⟨⟩, hbusy, List.suffix_rfl⟩
      · cases h
    case cancelLoad id =>
      unfold TaskSystem.step at h
      dsimp only at h
      split at h
      · simp only [stepLocked] at h
        split at h <;> cases h <;> exact ⟨by rintro _ _ ⟨⟩, hbusy, List.suffix_rfl⟩
      · cases h
    case processStart =>
      simp only [TaskSystem.step, stepFree] at h
      split at h
      · next entry unrun hphase =>
          rw [hphase]
          split at h
          · cases h
            exact ⟨by rintro _ _ ⟨⟩, by rintro ⟨⟩, List.suffix_rfl⟩
          · cases h
            exact ⟨by rintro _ _ ⟨⟩, by rintro ⟨⟩, List.suffix_cons entry unrun⟩
      · cases h
    case processSettle =>
      simp only [TaskSystem.step, stepFree] at h
      split at h
      · next hphase =>
          rw [hphase]
          cases h
          exact ⟨by rintro _ _ ⟨⟩, by rintro ⟨⟩, List.suffix_rfl⟩
      · cases h
    case exceptionHandled =>
      simp only [TaskSystem.step, stepFree] at h
      split at h
      · next hphase =>
          rw [hphase]
          cases h
          exact ⟨by rintro _ _ ⟨⟩, by rintro ⟨⟩, List.suffix_rfl⟩
      · cases h
    case callbackReturned now now' =>
      simp only [TaskSystem.step, stepLocked] at h
      split at h
      · split at h
        · next entry unrun hphase =>
            rw [hphase]
            cases h
            exact ⟨by rintro _ _ ⟨⟩, by rintro ⟨⟩, List.suffix_cons entry unrun⟩
        · cases h
      · cases h
    case callbackThrew =>
      simp only [TaskSystem.step, stepLocked] at h
      split at h
      · split at h
        · next entry unrun hphase =>
            rw [hphase]
            cases h
            exact ⟨by rintro _ _ ⟨⟩, by rintro ⟨⟩, List.suffix_cons entry unrun⟩
        · cases h
      · cases h
    all_goals exact absurd rfl hproduces

theorem run_batch {acts : List (TaskAction τ)} (hacts : ∀ a ∈ acts, Continues a) :
    ∀ {s s' : TaskSystem τ}, s.phase ≠ .idle →
      Lts.run step s acts = some s' →
      (∀ a ∈ acts, ∀ now maxTasks, a ≠ .processBegin now maxTasks) ∧
        s'.phase ≠ .idle ∧ s'.phase.batch <:+ s.phase.batch := by
  induction acts with
  | nil =>
      intro s s' hbusy hrun
      cases hrun
      exact ⟨List.forall_mem_nil _, hbusy, List.suffix_rfl⟩
  | cons a acts ih =>
      intro s s' hbusy hrun
      rw [List.forall_mem_cons] at hacts
      obtain ⟨t, ht, hrest⟩ := Lts.run_cons_eq_some.mp hrun
      obtain ⟨ha, hbusy', hsuffix⟩ := step_batch hacts.1 hbusy ht
      obtain ⟨hacts', hbusy'', hsuffix'⟩ := ih hacts.2 hbusy' hrest
      exact ⟨List.forall_mem_cons.mpr ⟨ha, hacts'⟩, hbusy'',
        hsuffix'.trans hsuffix⟩

/-- While an exception is reported the consumer does nothing else. -/
theorem step_reporting {unrun : List (Entry τ)} (ha : a ≠ .exceptionHandled)
    (ha' : Continues a) (hphase : s.phase = .reporting unrun)
    (h : s.step a = some s') : s'.phase = .reporting unrun := by
  by_cases hproduces : a.produces
  · exact (step_of_produces hproduces h).1.trans hphase
  · cases a
    case exceptionHandled => exact absurd rfl ha
    case exceptionEscaped => exact absurd rfl ha'.2
    case processEnd => exact absurd rfl ha'.1
    case cancelExchange =>
      change s.stepExchange = some s' at h
      unfold stepExchange at h
      split at h
      · cases h
        exact hphase
      · cases h
    case cancelLoad id =>
      unfold TaskSystem.step at h
      dsimp only at h
      split at h
      · simp only [stepLocked] at h
        split at h <;> cases h <;> exact hphase
      · cases h
    case processStart | processSettle =>
      simp only [TaskSystem.step, stepFree, hphase] at h
      cases h
    case processBegin | callbackReturned | callbackThrew =>
      simp only [TaskSystem.step, stepLocked, hphase, ite_self] at h
      cases h
    all_goals exact absurd rfl hproduces

theorem run_reporting {unrun : List (Entry τ)} {acts : List (TaskAction τ)}
    (hacts : ∀ a ∈ acts, a ≠ .exceptionHandled ∧ Continues a) :
    ∀ {s s' : TaskSystem τ}, s.phase = .reporting unrun →
      Lts.run step s acts = some s' → s'.phase = .reporting unrun := by
  induction acts with
  | nil =>
      intro s s' hphase hrun
      cases hrun
      exact hphase
  | cons a acts ih =>
      intro s s' hphase hrun
      rw [List.forall_mem_cons] at hacts
      obtain ⟨t, ht, hrest⟩ := Lts.run_cons_eq_some.mp hrun
      exact ih hacts.2 (step_reporting hacts.1.1 hacts.1.2 hphase ht) hrest

/-- What a call that goes on does to the ready lists. -/
theorem run_grown {acts : List (TaskAction τ)} (hs : s.Reachable)
    (hbusy : s.phase ≠ .idle) (hacts : ∀ a ∈ acts, Continues a)
    (hrun : Lts.run step s acts = some s') :
    ∃ obs, s'.log = obs ++ s.log ∧
      (∀ priority, Scheduler.Grown s.scheduler.nextSeq obs
        (s.scheduler.queue priority) (s'.scheduler.queue priority)) ∧
      Scheduler.Numbered s.scheduler.nextSeq obs s'.scheduler := by
  have hwf := hs.wellFormed
  have hbegin := (run_batch hacts hbusy hrun).1
  refine run_follows (C := fun a =>
    (∀ now maxTasks, a ≠ .processBegin now maxTasks) ∧ Continues a) hs
    (fun r obs => (∀ priority, Scheduler.Grown s.scheduler.nextSeq obs
      (s.scheduler.queue priority) (r.queue priority)) ∧
        Scheduler.Numbered s.scheduler.nextSeq obs r) ?_ ?_
    (fun a ha => ⟨hbegin a ha, hacts a ha⟩) hrun
  · refine ⟨fun priority => .same fun _ _ => rfl, Nat.le_refl _, fun entry hmem => ?_⟩
    exact iff_of_false (Nat.not_le_of_lt (hwf.seq entry hmem)) (by simp)
  · rintro t t' a obs new ht - ⟨ha, ha'⟩ ⟨hgrown, hnumbered⟩ hstep
    have hwf' := ht.wellFormed
    refine ⟨fun priority => (hgrown priority).trans
      (hstep.grown hwf'.nodup hwf'.seq ha ha'.2 priority) hnumbered.1
      fun entry hmem => hwf'.seq entry (Scheduler.queue_mem_all _ entry hmem), ?_⟩
    exact hnumbered.step hwf' hstep

/-- A call of `process()` that takes `batch` and that the exception of `entry`
leaves, with `unrun` behind it in the batch: `s` is the state after the first
critical section and `s'` the one in which the call has thrown. The callbacks,
the handler and every other thread may do anything in between. -/
structure FailedCall (s s' : TaskSystem τ) (batch : List (Entry τ))
    (entry : Entry τ) (unrun : List (Entry τ)) : Prop where
  began : ∃ (s₀ : TaskSystem τ) (now : Int) (maxTasks : Nat), s₀.Reachable ∧
    s₀.step (.processBegin now maxTasks) = some s
  taken : s.phase = .scanning batch
  threw : ∃ acts t t' acts' t'', (∀ a ∈ acts, Continues a) ∧
    Lts.run step s acts = some t ∧ t.phase = .running entry unrun ∧
    t.step .callbackThrew = some t' ∧
    (∀ a ∈ acts', a ≠ .exceptionHandled ∧ Continues a) ∧
    Lts.run step t' acts' = some t'' ∧
    t''.step .exceptionEscaped = some s'

/-- The failing task is finished, the tasks behind it that were not cancelled
are ready again, and each ready list is those tasks, then what the batch had
left, then what the call has submitted or put back. -/
structure BatchRestored (s s' : TaskSystem τ) (batch : List (Entry τ))
    (entry : Entry τ) (unrun : List (Entry τ)) : Prop where
  position : ∃ done, batch = done ++ entry :: unrun
  failed : s'.Terminal entry.id
  restored : ∀ e ∈ unrun, withdrawn e.id s'.log = false →
    s'.mgr.stateOf e.id = .queuedReady
  lists : ∃ obs, s'.log = obs ++ s.log ∧ ∀ priority, ∃ new,
    s'.mgr.readyList priority =
      (unrun.filter fun e => e.priority = priority ∧
        s'.mgr.stateOf e.id = .queuedReady) ++
      ((s.mgr.ready priority).filter fun e =>
        s'.mgr.stateOf e.id = .queuedReady) ++ new ∧
    (new.Pairwise fun lhs rhs => lhs.seq < rhs.seq) ∧
    ∀ e ∈ s'.mgr.readyList priority,
      e ∈ new ↔ .submitted e.id ∈ obs ∨ .returned e.id ∈ obs
  readyCount : s'.mgr.readyCount = ((s'.mgr.readyList .high).length +
    (s'.mgr.readyList .normal).length + (s'.mgr.readyList .low).length : Nat)
  pendingCount : s'.mgr.pendingCount = ((s'.mgr.readyList .high).length +
    (s'.mgr.readyList .normal).length + (s'.mgr.readyList .low).length +
      s'.mgr.delayedList.length : Nat)

/-- A task that is not withdrawn is live. -/
theorem Reachable.live_iff (hs : s.Reachable) (e : Entry τ) :
    s.mgr.live e = !withdrawn e.id s.log := by
  have hw : withdrawn e.id s.log ↔ s.mgr.stateOf e.id = .cancelled :=
    (hs.logged e.id).withdrawn
  rw [live, Bool.eq_iff_iff, decide_eq_true_eq, Bool.not_eq_true',
    ← Bool.not_eq_true, hw]

/-- A task of the rest of the batch that was not withdrawn is ready again. -/
theorem Reachable.state_restored {unrun : List (Entry τ)} (hs : s.Reachable)
    (hs' : s'.Reachable) (hreporting : s.phase = .reporting unrun)
    (hrestored : s'.scheduler = s.scheduler.restore) :
    ∀ e ∈ unrun, withdrawn e.id s.log = false →
      s'.mgr.stateOf e.id = .queuedReady := by
  intro e he hlive
  have hinv' : s'.mgr.Inv s'.phase.current s'.phase.unrun s'.phase.owed := hs'.inv
  have hbatch : e ∈ s.scheduler.batch := by
    simp only [scheduler, hreporting]
    refine List.mem_filter.mpr ⟨he, ?_⟩
    rw [hs.live_iff, hlive]
    rfl
  have hmem : e ∈ s'.scheduler.queue e.priority := by
    rw [hrestored]
    exact List.mem_append_left _ (List.mem_filter.mpr ⟨hbatch, decide_eq_true rfl⟩)
  exact (hinv'.live_ready (List.mem_filter.mp hmem).1).mp
    (List.mem_filter.mp hmem).2

/-- One ready list after the escape: `s` is the state after the first critical
section and `t` the one before the exception escapes. -/
theorem Reachable.list_restored {t : TaskSystem τ} {batch unrun : List (Entry τ)}
    {obs : List TaskObs} (hs : s.Reachable) (ht : t.Reachable)
    (hs' : s'.Reachable) (htaken : s.phase = .scanning batch)
    (hunrun : ∀ e ∈ unrun, e ∈ batch) (hreporting : t.phase = .reporting unrun)
    (hrestored : s'.scheduler = t.scheduler.restore)
    (hlog' : s'.log = .processThrew :: t.log) (hlog : t.log = obs ++ s.log)
    (priority : TaskPriority)
    (hgrown : Scheduler.Grown s.scheduler.nextSeq obs
      (s.scheduler.queue priority) (t.scheduler.queue priority))
    (hnumbered : Scheduler.Numbered s.scheduler.nextSeq obs t.scheduler) :
    ∃ new, s'.mgr.readyList priority =
        (unrun.filter fun e => e.priority = priority ∧
          s'.mgr.stateOf e.id = .queuedReady) ++
        ((s.mgr.ready priority).filter fun e =>
          s'.mgr.stateOf e.id = .queuedReady) ++ new ∧
      (new.Pairwise fun lhs rhs => lhs.seq < rhs.seq) ∧
      ∀ e ∈ s'.mgr.readyList priority, e ∈ new ↔
        .submitted e.id ∈ obs ∨ .returned e.id ∈ obs := by
  have hinv' : s'.mgr.Inv s'.phase.current s'.phase.unrun s'.phase.owed := hs'.inv
  have hwf := hs.wellFormed
  have hlist : ∀ priority, s'.scheduler.queue priority =
      s'.mgr.readyList priority := hinv'.queue_eq_readyList
  have hstate : ∀ priority, ∀ e ∈ s'.scheduler.queue priority,
      s'.mgr.stateOf e.id = .queuedReady := by
    intro priority e hmem
    rw [hlist] at hmem
    exact of_decide_eq_true (List.mem_filter.mp hmem).2
  have hwithdrawn (e : Entry τ) : withdrawn e.id s'.log =
      (withdrawn e.id obs || withdrawn e.id s.log) := by
    rw [hlog', hlog, ← withdrawn_append]
    rfl
  have hlive (e : Entry τ) (hst : s'.mgr.stateOf e.id = .queuedReady) :
      withdrawn e.id obs = false ∧ withdrawn e.id s.log = false := by
    rw [← Bool.or_eq_false_iff, ← hwithdrawn, ← Bool.not_eq_true']
    rw [← hs'.live_iff e, live, hst]
    rfl
  have hbatch : t.scheduler.batch = unrun.filter t.mgr.live := by
    simp only [scheduler, hreporting]
    rfl
  have hqueue (priority : TaskPriority) : s'.scheduler.queue priority =
      ((unrun.filter t.mgr.live).filter fun e => e.priority = priority) ++
        t.scheduler.queue priority := by
    rw [hrestored, ← hbatch]
    rfl
  obtain ⟨new, hnew, hseq, hsorted⟩ := hgrown
  -- the part of the batch
  have hfront : ((unrun.filter t.mgr.live).filter fun e => e.priority = priority) =
      unrun.filter fun e => e.priority = priority ∧
        s'.mgr.stateOf e.id = .queuedReady := by
    rw [List.filter_filter]
    refine List.filter_congr fun e hmem => ?_
    rw [Bool.eq_iff_iff, Bool.and_eq_true, decide_eq_true_eq, decide_eq_true_eq]
    refine and_congr_right fun hp => ⟨fun hl => ?_, fun hst => ?_⟩
    · refine hstate priority e ?_
      rw [hqueue, List.mem_append, List.mem_filter, List.mem_filter]
      exact .inl ⟨⟨hmem, hl⟩, decide_eq_true hp⟩
    · rw [ht.live_iff, hlog, withdrawn_append]
      obtain ⟨h1, h2⟩ := hlive e hst
      rw [h1, h2]
      rfl
  -- what the batch had left
  have hleft : ((s.scheduler.queue priority).filter fun e => !withdrawn e.id obs) =
      (s.mgr.ready priority).filter fun e =>
        s'.mgr.stateOf e.id = .queuedReady := by
    show ((s.mgr.ready priority).filter s.mgr.live).filter _ = _
    rw [List.filter_filter]
    refine List.filter_congr fun e hmem => ?_
    rw [Bool.eq_iff_iff, Bool.and_eq_true, decide_eq_true_eq, hs.live_iff]
    refine ⟨fun hl => ?_, fun hst => ?_⟩
    · refine hstate priority e ?_
      rw [hqueue, hnew, List.mem_append, List.mem_append]
      refine .inr (.inl (List.mem_filter.mpr ⟨List.mem_filter.mpr ⟨hmem, ?_⟩, hl.1⟩))
      rw [hs.live_iff]
      exact hl.2
    · obtain ⟨h1, h2⟩ := hlive e hst
      rw [h1, h2]
      exact ⟨rfl, rfl⟩
  have hsplit : s'.mgr.readyList priority =
      (unrun.filter fun e => e.priority = priority ∧
        s'.mgr.stateOf e.id = .queuedReady) ++
      ((s.mgr.ready priority).filter fun e =>
        s'.mgr.stateOf e.id = .queuedReady) ++ new := by
    rw [← hlist, hqueue, hnew, hfront, hleft, List.append_assoc]
  refine ⟨new, hsplit, hsorted, fun e hmem => ⟨fun he => ?_, fun hobs => ?_⟩⟩
  · have hall : e ∈ t.scheduler.all := by
      have hmem' : e ∈ t.scheduler.queue priority :=
        hnew ▸ List.mem_append_right _ he
      exact Scheduler.queue_mem_all _ e hmem'
    exact (hnumbered.2 e hall).mp (hseq e he)
  · have hall : e ∈ t.scheduler.all := by
      rw [← hlist, hqueue, List.mem_append] at hmem
      rcases hmem with hmem | hmem
      · rw [← hbatch] at hmem
        exact Scheduler.batch_mem_all _ e (List.mem_filter.mp hmem).1
      · exact Scheduler.queue_mem_all _ e hmem
    have hlate := (hnumbered.2 e hall).mpr hobs
    rw [hsplit, List.mem_append, List.mem_append, List.mem_filter,
      List.mem_filter, decide_eq_true_eq, decide_eq_true_eq] at hmem
    rcases hmem with (⟨hmem, -, hst⟩ | ⟨hmem, hst⟩) | hmem
    · have hold : e ∈ s.scheduler.batch := by
        simp only [scheduler, htaken]
        refine List.mem_filter.mpr ⟨hunrun e hmem, ?_⟩
        rw [hs.live_iff, (hlive e hst).2]
        rfl
      exact absurd (hwf.seq e (Scheduler.batch_mem_all _ e hold))
        (Nat.not_lt_of_le hlate)
    · have hold : e ∈ s.scheduler.queue priority := by
        refine List.mem_filter.mpr ⟨hmem, ?_⟩
        rw [hs.live_iff, (hlive e hst).2]
        rfl
      exact absurd (hwf.seq e (Scheduler.queue_mem_all _ e hold))
        (Nat.not_lt_of_le hlate)
    · exact hmem

theorem FailedCall.batchRestored {batch unrun : List (Entry τ)} {entry : Entry τ}
    (h : FailedCall s s' batch entry unrun) :
    BatchRestored s s' batch entry unrun := by
  obtain ⟨⟨s₀, now, maxTasks, hs₀, hbegin⟩, htaken, acts, t, t', acts', t'', hacts,
    hrun, hrunning, hthrew, hacts', hrun', hescaped⟩ := h
  have hs : s.Reachable := hs₀.trans_run (Lts.run_one hbegin)
  have ht : t.Reachable := hs.trans_run hrun
  have ht' : t'.Reachable := ht.trans_run (Lts.run_one hthrew)
  have ht'' : t''.Reachable := ht'.trans_run hrun'
  have hs' : s'.Reachable := ht''.trans_run (Lts.run_one hescaped)
  have hbusy : s.phase ≠ .idle := by rw [htaken]; rintro ⟨⟩
  -- the consumer
  have hsuffix := (run_batch hacts hbusy hrun).2.2
  rw [htaken, hrunning] at hsuffix
  obtain ⟨done, hdone⟩ := hsuffix
  have hreporting : t'.phase = .reporting unrun := by
    simp only [TaskSystem.step, stepLocked, hrunning] at hthrew
    split at hthrew
    · cases hthrew
      rfl
    · cases hthrew
  have hreporting' := run_reporting hacts' hreporting hrun'
  have hidle : s'.phase = .idle := (step_ends (.inr rfl) hescaped).2
  -- the lists up to the escape
  have hcontinues : ∀ a ∈ acts ++ .callbackThrew :: acts', Continues a := by
    intro a ha
    rcases List.mem_append.mp ha with ha | ha
    · exact hacts a ha
    · rcases List.mem_cons.mp ha with rfl | ha
      · exact ⟨by rintro ⟨⟩, by rintro ⟨⟩⟩
      · exact (hacts' a ha).2
  have hall : Lts.run step s (acts ++ .callbackThrew :: acts') = some t'' := by
    rw [Lts.run_append hrun]
    exact Lts.run_cons_eq_some.mpr ⟨t', hthrew, hrun'⟩
  obtain ⟨obs, hlog, hgrown, hnumbered⟩ := run_grown hs hbusy hcontinues hall
  obtain ⟨last, hlast, hfollows⟩ := ht''.follows hescaped
  obtain ⟨rfl, hrestored⟩ := hfollows.escaped_inv
  have hlists := fun priority => hs.list_restored ht'' hs' htaken
    (fun e he => by
      rw [show batch = done ++ entry :: unrun from hdone.symm]
      exact List.mem_append_right _ (List.mem_cons_of_mem _ he))
    hreporting' hrestored hlast hlog priority (hgrown priority) hnumbered
  have hinv' : s'.mgr.Inv s'.phase.current s'.phase.unrun s'.phase.owed := hs'.inv
  have hfailed : s'.Terminal entry.id := by
    have hgone := (run_gone ht' (ht.gone_threw hrunning hthrew) hrun').1
    exact hs'.terminal (run_gone ht'' hgone (Lts.run_one hescaped)).1
  constructor
  · exact ⟨done, hdone.symm⟩
  · exact hfailed
  · intro e he hlive
    rw [hlast] at hlive
    exact ht''.state_restored hs' hreporting' hrestored e he hlive
  · refine ⟨.processThrew :: obs, by rw [hlast, hlog]; rfl, fun priority => ?_⟩
    obtain ⟨new, hsplit, hsorted, hmem⟩ := hlists priority
    refine ⟨new, hsplit, hsorted, fun e he => (hmem e he).trans ?_⟩
    simp
  · exact hinv'.readyCount_eq
  · rw [hidle] at hinv'
    exact TaskManager.Inv.pendingCount_eq hinv'

/-- Three tasks in the batch; the second one throws after the first has posted
a fourth and cancelled the third, and the handler posts a fifth. -/
theorem batchRestored_cancelled : ∃ s s' : TaskSystem Unit,
    BatchRestored s s' [{ id := 1, seq := 1, task := () },
        { id := 2, seq := 2, task := () }, { id := 3, seq := 3, task := () }]
      { id := 2, seq := 2, task := () } [{ id := 3, seq := 3, task := () }] := by
  let acts : List (TaskAction Unit) := [.processStart, .processSettle,
    .post (some ()) {}, .cancelLoad 3, .cancelExchange, .callbackReturned 0 0,
    .processStart, .processSettle]
  have hcall : ((Lts.run step {} [.post (some ()) {}, .post (some ()) {},
      .post (some ()) {}]).any fun s₀ =>
    (s₀.step (.processBegin 0 7)).any fun s =>
      decide (s.phase = .scanning [{ id := 1, seq := 1, task := () },
        { id := 2, seq := 2, task := () }, { id := 3, seq := 3, task := () }]) &&
      (Lts.run step s acts).any fun t =>
        decide (t.phase = .running { id := 2, seq := 2, task := () }
          [{ id := 3, seq := 3, task := () }]) &&
        (t.step .callbackThrew).any fun t' =>
          (Lts.run step t' [.post (some ()) {}]).any fun t'' =>
            (t''.step .exceptionEscaped).isSome) = true := by
    decide
  simp only [Option.any_eq_true, Bool.and_eq_true, decide_eq_true_eq] at hcall
  obtain ⟨s₀, hs₀, s, hs, htaken, t, ht, hrunning, t', ht', t'', ht'', hsome⟩ :=
    hcall
  obtain ⟨s', hs'⟩ := Option.isSome_iff_exists.mp hsome
  refine ⟨s, s', FailedCall.batchRestored
    ⟨⟨s₀, 0, 7, ⟨_, hs₀⟩, hs⟩, htaken, acts, t, t', [.post (some ()) {}], t'',
      ?_, ht, hrunning, ht', ?_, ht'', hs'⟩⟩
  · simp [acts, Continues]
  · simp [Continues]

end TaskSystem

end EventHub
