import EventHub.Lib.Mealy
import EventHub.Lib.OrderedList
import EventHub.Spec.Scheduler
import EventHub.Proofs.TaskHeap
import EventHub.Proofs.TaskHistory

/-!
# A manager answers like the eager scheduler

The scheduler's state is what is left of the manager's when the cancelled
entries are skipped. Every other change of state keeps an entry from being
cancelled or not, so for most operations the filter is the same before and
after and only the lists move. `cancel` is the one that changes it, and there
the scheduler takes the entry out.
-/

namespace EventHub

open TaskManager

variable {τ : Type}

/-! ## The calls of a session are runs -/

namespace TaskSystem

/-- A state between two calls of the thread. -/
structure Served (s : TaskSystem τ) : Prop where
  reachable : s.Reachable
  unlocked : s.cancelling = none
  between : s.phase = .idle ∨ ∃ entry unrun, s.phase = .running entry unrun

theorem Served.then {s s' : TaskSystem τ} (h : s.Served)
    (acts : List (TaskAction τ)) (hrun : Lts.run step s acts = some s')
    (hunlocked : s'.cancelling = none)
    (hbetween : s'.phase = .idle ∨
      ∃ entry unrun, s'.phase = .running entry unrun) : s'.Served :=
  ⟨h.reachable.trans_run hrun, hunlocked, hbetween⟩

theorem advance_run (unrun : List (Entry τ)) :
    ∀ s : TaskSystem τ, s.phase = .scanning unrun → s.cancelling = none →
      ∃ acts, Lts.run step s acts = some (advance unrun s).1 ∧
        (advance unrun s).1.cancelling = none ∧
        ((advance unrun s).1.phase = .idle ∨
          ∃ entry unrun', (advance unrun s).1.phase = .running entry unrun') := by
  induction unrun with
  | nil =>
      intro s hph hc
      refine ⟨[.processEnd], ?_, hc, Or.inl rfl⟩
      simp only [Lts.run, step, stepFree, hph, Option.bind_some]
      rfl
  | cons entry unrun ih =>
      intro s hph hc
      rw [advance]
      cases hstart : s.mgr.start entry with
      | some mgr =>
          refine ⟨[.processStart, .processSettle], ?_, hc,
            Or.inr ⟨entry, unrun, rfl⟩⟩
          simp only [Lts.run, step, stepFree, hph, hstart, Option.bind_some]
      | none =>
          obtain ⟨acts, hrun, hc', hbetween⟩ :=
            ih { s with phase := .scanning unrun } rfl hc
          refine ⟨.processStart :: acts, ?_, hc', hbetween⟩
          simp only [Lts.run, step, stepFree, hph, hstart, Option.bind_some]
          exact hrun

/-- `cancel` in one piece is its two halves in a row. -/
theorem cancel_run {s : TaskSystem τ} (hc : s.cancelling = none) (id : Nat) :
    ∃ acts, Lts.run step s acts =
      some { s with mgr := (s.mgr.cancel id).1
                    log := .cancelReturned id (s.mgr.cancel id).2 :: s.log } := by
  unfold TaskManager.cancel
  by_cases hid : id ≠ 0 ∧ id ∈ s.mgr.index
  · refine ⟨[.cancelLoad id, .cancelExchange], ?_⟩
    simp only [Lts.run, step, stepLocked, stepExchange, hc, Option.isNone_none,
      if_true, hid, ne_eq, not_false_eq_true, and_self, Option.bind_some,
      if_false]
  · refine ⟨[.cancelLoad id], ?_⟩
    simp only [Lts.run, step, stepLocked, hc, Option.isNone_none, if_true,
      if_neg hid, Option.bind_some]
    congr 1
    split
    · rfl
    · next h0 => rw [if_neg fun hmem => hid ⟨h0, hmem⟩]

theorem Served.serve {s s' : TaskSystem τ} {c : Call τ} {r : Reply}
    (h : s.Served) (hserve : s.serve c = some (s', r)) : s'.Served := by
  have hc := h.unlocked
  cases c <;> simp only [TaskSystem.serve] at hserve
  case process now maxTasks =>
    split at hserve
    · next hph =>
        split at hserve
        · next hmax =>
            injection hserve with hserve
            injection hserve with hserve
            subst hserve
            refine h.then [.processBegin now maxTasks] ?_ hc
              (Or.inl hph)
            simp [Lts.run, step, stepLocked, hc, hph, hmax]
        · next hmax =>
            injection hserve with hserve
            have hs := congrArg Prod.fst hserve
            obtain ⟨acts, hrun, hc', hbetween⟩ := advance_run
              (s.mgr.beginProcess now maxTasks).1
              { s with
                mgr := (s.mgr.beginProcess now maxTasks).2
                phase := .scanning (s.mgr.beginProcess now maxTasks).1
                processed := 0 } rfl hc
            rw [hs] at hrun hc' hbetween
            refine h.then (.processBegin now maxTasks :: acts) ?_ hc'
              hbetween
            simpa [Lts.run, step, stepLocked, hc, hph, hmax] using hrun
    · contradiction
  case callbackReturned now now' =>
    split at hserve
    · next entry unrun hph =>
        injection hserve with hserve
        have hs := congrArg Prod.fst hserve
        obtain ⟨acts, hrun, hc', hbetween⟩ := advance_run unrun
          { s with
            mgr := s.mgr.finishAfterSuccess now now' entry
            phase := .scanning unrun
            processed := s.processed + 1
            log := .returned entry.id :: s.log } rfl hc
        rw [hs] at hrun hc' hbetween
        refine h.then (.callbackReturned now now' :: acts) ?_ hc'
          hbetween
        simpa [Lts.run, step, stepLocked, hc, hph] using hrun
    · contradiction
  case cancel id =>
    injection hserve with hserve
    injection hserve with hserve
    subst hserve
    obtain ⟨acts, hrun⟩ := cancel_run hc id
    exact h.then _ hrun hc h.between
  case contextIsCancelled id =>
    injection hserve with hserve
    injection hserve with hserve
    subst hserve
    exact h
  case post task options =>
    injection hserve with hserve
    injection hserve with hserve
    subst hserve
    refine h.then [.post task options] ?_ hc h.between
    simp [Lts.run, step, stepLocked, hc]
  case postAt now due task options =>
    injection hserve with hserve
    injection hserve with hserve
    subst hserve
    refine h.then [.postAt now due task options] ?_ hc h.between
    simp [Lts.run, step, stepLocked, hc]
  case postEveryAfter now now' initialDelay interval task options =>
    injection hserve with hserve
    injection hserve with hserve
    subst hserve
    refine h.then [.postEveryAfter now now' initialDelay interval
      task options] ?_ hc h.between
    simp [Lts.run, step, stepLocked, hc]
  case postBatch tasks options =>
    injection hserve with hserve
    injection hserve with hserve
    subst hserve
    refine h.then [.postBatch tasks options] ?_ hc h.between
    simp [Lts.run, step, stepLocked, hc]
  case close =>
    injection hserve with hserve
    injection hserve with hserve
    subst hserve
    refine h.then [.close] ?_ hc h.between
    simp [Lts.run, step, stepLocked, hc]
  case contextCancel id =>
    injection hserve with hserve
    injection hserve with hserve
    subst hserve
    refine h.then [.contextCancel id] ?_ hc h.between
    simp [Lts.run, step, stepLocked, hc]
  case contextReschedule id due =>
    injection hserve with hserve
    injection hserve with hserve
    subst hserve
    refine h.then [.contextReschedule id due] ?_ hc h.between
    simp [Lts.run, step, stepLocked, hc]
  case nextDeadline =>
    injection hserve with hserve
    injection hserve with hserve
    subst hserve
    refine h.then [.nextDeadline] ?_ hc h.between
    simp [Lts.run, step, stepLocked, hc]

end TaskSystem

/-! ## The state of the scheduler -/

namespace TaskManager

/-- The entry has not been cancelled. -/
def live (m : TaskManager τ) (entry : Entry τ) : Bool :=
  m.stateOf entry.id ≠ .cancelled

/-- The running task, as its control describes it. -/
def runningTask (m : TaskManager τ) (entry : Entry τ) : RunningTask τ :=
  { entry := entry
    cancelled := m.stateOf entry.id = .cancelled
    reschedule :=
      if (m.control entry.id).rescheduleRequested then
        some (m.control entry.id).rescheduleDue
      else none }

/-- What is left when the cancelled entries are skipped. -/
@[simps]
def scheduler (m : TaskManager τ) (cur : Option (Entry τ))
    (unrun : List (Entry τ)) (processed : Nat) : Scheduler τ :=
  { queue := fun priority => (m.ready priority).filter m.live
    delayed := m.delayedHeap.filter m.live
    batch := unrun.filter m.live
    current := cur.map m.runningTask
    processed := processed
    nextId := m.nextId
    nextSeq := m.nextSeq
    closed := m.closed }

variable {m m' : TaskManager τ} {cur : Option (Entry τ)}
  {unrun : List (Entry τ)} {owed : Int} {n : Nat}

theorem live_congr (h : ∀ j, m'.stateOf j = .cancelled ↔
    m.stateOf j = .cancelled) : m'.live = m.live := by
  funext entry
  unfold live
  simp only [ne_eq, h]

theorem map_runningTask_congr
    (h : ∀ entry ∈ cur, m'.control entry.id = m.control entry.id) :
    cur.map m'.runningTask = cur.map m.runningTask := by
  cases cur with
  | none => rfl
  | some entry =>
      have heq := h entry rfl
      rw [Option.map_some, Option.map_some]
      unfold runningTask stateOf
      rw [heq]

/-- Moving waiting entries cancels nothing. -/
theorem Reshuffled.live (h : Reshuffled m m') : m'.live = m.live := by
  refine live_congr fun j => ?_
  rcases h.moved j with heq | ⟨hold, hnew⟩
  · rw [heq]
  · constructor
    · intro hc
      rw [hc] at hnew
      cases hnew
    · intro hc
      rw [hc] at hold
      cases hold

/-- Where an entry lies and that it is live give its state. -/
theorem Inv.live_ready (h : m.Inv cur unrun owed) {priority : TaskPriority}
    {entry : Entry τ} (hmem : entry ∈ m.ready priority) :
    m.live entry ↔ m.stateOf entry.id = .queuedReady := by
  have hpos : 0 < readyCopies m.ready entry.id := by
    have := copies_pos hmem
    cases priority <;> simp only [readyCopies] <;> omega
  have hacc := h.accounted entry.id
  simp only [live, ne_eq, decide_not, Bool.not_eq_true', decide_eq_false_iff_not]
  constructor
  · exact fun hne => by_contra fun hst => hne (hacc.cancelled_of_ready hpos hst)
  · exact fun hst => by rw [hst]; decide

theorem Inv.live_delayed (h : m.Inv cur unrun owed) {entry : Entry τ}
    (hmem : entry ∈ m.delayedHeap) :
    m.live entry ↔ m.stateOf entry.id = .queuedDelayed := by
  have hacc := h.accounted entry.id
  simp only [live, ne_eq, decide_not, Bool.not_eq_true', decide_eq_false_iff_not]
  constructor
  · exact fun hne => by_contra fun hst =>
      hne (hacc.cancelled_of_delayed (copies_pos hmem) hst)
  · exact fun hst => by rw [hst]; decide

theorem Inv.live_unrun (h : m.Inv cur unrun owed) {entry : Entry τ}
    (hmem : entry ∈ unrun) :
    m.live entry ↔ m.stateOf entry.id = .readySnapshot := by
  have hacc := h.accounted entry.id
  simp only [live, ne_eq, decide_not, Bool.not_eq_true', decide_eq_false_iff_not]
  constructor
  · exact fun hne => by_contra fun hst =>
      hne (hacc.cancelled_of_unrun (copies_pos hmem) hst)
  · exact fun hst => by rw [hst]; decide

theorem Inv.dead_delayed (h : m.Inv cur unrun owed) {entry : Entry τ}
    (hmem : entry ∈ m.delayedHeap) : m.dead entry = !m.live entry := by
  have hne : m.stateOf entry.id ≠ .completed := h.held (Or.inr (Or.inl hmem))
  simp [dead, live, hne]

end TaskManager

/-! ## Submissions -/

namespace TaskManager

variable {m m' : TaskManager τ} {cur : Option (Entry τ)}
  {unrun : List (Entry τ)} {owed : Int} {n : Nat}

theorem Inv.live_allocate (h : m.Inv cur unrun owed) {state : State}
    {periodic : Bool} (hstate : state ≠ .cancelled) :
    (m.allocate state periodic).live = m.live := by
  refine live_congr fun j => ?_
  rw [stateOf_allocate]
  split
  · next hj =>
      rw [hj, h.freshId, h.fresh m.nextId (Nat.le_refl _)]
      exact ⟨fun hc => absurd hc hstate, fun hc => by cases hc⟩
  · rfl

theorem Inv.current_allocate (h : m.Inv cur unrun owed) {state : State}
    {periodic : Bool} :
    cur.map (m.allocate state periodic).runningTask = cur.map m.runningTask := by
  refine map_runningTask_congr fun entry hcur => ?_
  have hlt : entry.id < m.nextId :=
    h.lt_nextId (h.held (Or.inr (Or.inr (Or.inl hcur))))
  rw [control_allocate, h.freshId, if_neg (by omega)]

/-- A new entry is live. -/
theorem Inv.live_fresh (h : m.Inv cur unrun owed) {entry : Entry τ}
    (hid : entry.id = m.nextId) : m.live entry := by
  have hfresh := h.fresh m.nextId (Nat.le_refl _)
  simp [live, hid, hfresh]

theorem filter_update (ready : TaskPriority → List (Entry τ))
    (p : Entry τ → Bool) (priority : TaskPriority) (queue : List (Entry τ)) :
    (fun q => (Function.update ready priority queue q).filter p) =
      Function.update (fun q => (ready q).filter p) priority
        (queue.filter p) := by
  funext q
  by_cases hq : q = priority
  · rw [hq, Function.update_self, Function.update_self]
  · rw [Function.update_of_ne hq, Function.update_of_ne hq]

/-- A live entry at the end of its ready queue. -/
theorem scheduler_pushBackReady {entry : Entry τ} (hlive : m.live entry) :
    (m.pushBackReady entry).scheduler cur unrun n =
      (m.scheduler cur unrun n).enqueue entry true := by
  refine Scheduler.ext ?_ rfl rfl rfl rfl rfl rfl rfl
  show (fun q => (Function.update m.ready entry.priority
    (m.ready entry.priority ++ [entry]) q).filter m.live) = _
  rw [filter_update, List.filter_append, List.filter_singleton, hlive]
  rfl

theorem scheduler_pushDelayed {entry : Entry τ} (hlive : m.live entry)
    (hord : HeapOrdered m.delayedHeap) :
    (m.pushDelayed entry).scheduler cur unrun n =
      (m.scheduler cur unrun n).enqueue entry false :=
  Scheduler.ext rfl (List.filter_orderedInsert hlive hord) rfl rfl rfl rfl rfl rfl

theorem Inv.scheduler_allocate (h : m.Inv cur unrun owed) {state : State}
    {periodic : Bool} (hstate : state ≠ .cancelled) :
    (m.allocate state periodic).scheduler cur unrun n =
      { m.scheduler cur unrun n with
        nextId := m.nextId + 1, nextSeq := m.nextSeq + 1 } := by
  have hlive : (m.allocate state periodic).live = m.live :=
    h.live_allocate hstate
  refine Scheduler.ext ?_ ?_ ?_ h.current_allocate rfl ?_ rfl rfl
  · funext priority
    simp only [scheduler_queue, hlive, allocate_ready]
  · simp only [scheduler_delayed, hlive, allocate_delayedHeap]
  · simp only [scheduler_batch, hlive]
  · simp only [scheduler_nextId, allocate_nextId, h.freshId]

/-- A submission is the scheduler's when its entry goes where the scheduler
puts it. -/
theorem Inv.scheduler_submit (h : m.Inv cur unrun owed) (entry : Entry τ)
    {state : State} (hstate : state ≠ .cancelled) (periodic ready : Bool)
    (hm' : m'.scheduler cur unrun n =
      ((m.allocate state periodic).scheduler cur unrun n).enqueue
        { entry with id := m.nextId, seq := m.nextSeq } ready) :
    (m'.scheduler cur unrun n, m.freshId) =
      (m.scheduler cur unrun n).submit entry ready := by
  rw [hm', h.scheduler_allocate hstate, h.freshId]
  cases ready <;> rfl

theorem Inv.live_submitted (h : m.Inv cur unrun owed) {state : State}
    {periodic : Bool} (hstate : state ≠ .cancelled) {entry : Entry τ}
    (hid : entry.id = m.freshId) : (m.allocate state periodic).live entry := by
  rw [h.live_allocate hstate]
  exact h.live_fresh (hid.trans h.freshId)

theorem Inv.scheduler_enqueueReadyLocked (h : m.Inv cur unrun owed) (task : τ)
    (options : TaskOptions) :
    ((m.enqueueReadyLocked task options).1.scheduler cur unrun n,
        (m.enqueueReadyLocked task options).2) =
      (m.scheduler cur unrun n).submit
        { priority := options.priority, task := task } true := by
  refine h.scheduler_submit _ (show State.queuedReady ≠ .cancelled by decide)
    false true ?_
  rw [← h.freshId]
  exact scheduler_pushBackReady (h.live_submitted (by decide) rfl)

theorem Inv.scheduler_enqueueDelayedLocked (h : m.Inv cur unrun owed)
    (hord : HeapOrdered m.delayedHeap) (due : Int) (task : τ)
    (options : TaskOptions) :
    ((m.enqueueDelayedLocked due task options).1.scheduler cur unrun n,
        (m.enqueueDelayedLocked due task options).2) =
      (m.scheduler cur unrun n).submit
        { priority := options.priority, due := due, task := task } false := by
  refine h.scheduler_submit _ (show State.queuedDelayed ≠ .cancelled by decide)
    false false ?_
  rw [← h.freshId]
  exact scheduler_pushDelayed (h.live_submitted (by decide) rfl) hord

theorem Inv.scheduler_enqueuePeriodicLocked (h : m.Inv cur unrun owed)
    (hord : HeapOrdered m.delayedHeap) (now due interval : Int) (task : τ)
    (options : PeriodicTaskOptions) :
    ((m.enqueuePeriodicLocked now due interval task options).1.scheduler
          cur unrun n,
        (m.enqueuePeriodicLocked now due interval task options).2) =
      (m.scheduler cur unrun n).submit
        { priority := options.priority, due := due, periodic := true,
          interval := interval, periodicSchedule := options.schedule,
          plannedDue := due, task := task } (due ≤ now) := by
  unfold TaskManager.enqueuePeriodicLocked
  by_cases hdue : due ≤ now
  · rw [if_pos hdue, decide_eq_true hdue]
    refine h.scheduler_submit _ (show State.queuedReady ≠ .cancelled by decide)
      true true ?_
    rw [← h.freshId]
    exact scheduler_pushBackReady (h.live_submitted (by decide) rfl)
  · rw [if_neg hdue, decide_eq_false hdue]
    refine h.scheduler_submit _ (show State.queuedDelayed ≠ .cancelled by decide)
      true false ?_
    rw [← h.freshId]
    exact scheduler_pushDelayed (h.live_submitted (by decide) rfl) hord

theorem Inv.scheduler_post (h : m.Inv cur unrun owed) (task : Option τ)
    (options : TaskOptions) :
    ((m.post task options).1.scheduler cur unrun n,
        (m.post task options).2) =
      (m.scheduler cur unrun n).post task options := by
  cases task with
  | none => rfl
  | some task =>
      simp only [TaskManager.post, Scheduler.post, scheduler_closed]
      split
      · rfl
      · exact h.scheduler_enqueueReadyLocked task options

theorem Inv.scheduler_postAt (h : m.Inv cur unrun owed)
    (hord : HeapOrdered m.delayedHeap) (now due : Int) (task : Option τ)
    (options : TaskOptions) :
    ((m.postAt now due task options).1.scheduler cur unrun n,
        (m.postAt now due task options).2) =
      (m.scheduler cur unrun n).postAt now due task options := by
  cases task with
  | none => rfl
  | some task =>
      simp only [TaskManager.postAt, Scheduler.postAt, scheduler_closed]
      split
      · rfl
      · split
        · exact h.scheduler_enqueueReadyLocked task options
        · exact h.scheduler_enqueueDelayedLocked hord due task options

theorem Inv.scheduler_postEveryAfter (h : m.Inv cur unrun owed)
    (hord : HeapOrdered m.delayedHeap) (now now' initialDelay interval : Int)
    (task : Option τ) (options : PeriodicTaskOptions) :
    ((m.postEveryAfter now now' initialDelay interval task options).1.scheduler
          cur unrun n,
        (m.postEveryAfter now now' initialDelay interval task options).2) =
      (m.scheduler cur unrun n).postEveryAfter now now' initialDelay
        interval task options := by
  cases task with
  | none => rfl
  | some task =>
      simp only [TaskManager.postEveryAfter, Scheduler.postEveryAfter,
        scheduler_closed]
      by_cases hinterval : interval ≤ 0
      · rw [if_pos hinterval, if_pos (Or.inl hinterval)]
      · by_cases hclosed : m.closed
        · rw [if_neg hinterval, if_pos hclosed, if_pos (Or.inr hclosed)]
        · rw [if_neg hinterval, if_neg hclosed, if_neg (not_or.mpr ⟨hinterval, hclosed⟩)]
          exact h.scheduler_enqueuePeriodicLocked hord _ _ _ task options

/-- In an open manager the loop of `post_batch` posts the tasks one by one. -/
theorem Inv.scheduler_postBatchLoop (options : TaskOptions)
    (tasks : List (Option τ)) :
    ∀ {m : TaskManager τ}, m.Inv cur unrun owed → m.closed = false →
      ((TaskManager.postBatchLoop options tasks m).1.scheduler cur unrun
            n,
          (TaskManager.postBatchLoop options tasks m).2) =
        (m.scheduler cur unrun n).postBatch options tasks := by
  induction tasks with
  | nil => exact fun _ _ => rfl
  | cons task tasks ih =>
      intro m h hopen
      have hpost := h.scheduler_post (n := n) task options
      cases task with
      | none =>
          have hrest := ih h hopen
          rw [Scheduler.postBatch, ← hpost]
          simp only [TaskManager.post, ← hrest]
          rfl
      | some task =>
          have hrest := ih (h.enqueueReadyLocked task options) hopen
          rw [Scheduler.postBatch, ← hpost]
          simp only [TaskManager.post, hopen, Bool.false_eq_true, if_false,
            ← hrest]
          rfl

theorem Scheduler.postBatch_closed {r : Scheduler τ} (hclosed : r.closed)
    (options : TaskOptions) (tasks : List (Option τ)) :
    r.postBatch options tasks = (r, tasks.map fun _ => 0) := by
  induction tasks with
  | nil => rfl
  | cons task tasks ih =>
      have hpost : r.post task options = (r, 0) := by
        cases task <;> simp [Scheduler.post, hclosed]
      rw [Scheduler.postBatch, hpost]
      simp only [ih, List.map_cons]

theorem Inv.scheduler_postBatch (h : m.Inv cur unrun owed)
    (tasks : List (Option τ)) (options : TaskOptions) :
    ((m.postBatch tasks options).1.scheduler cur unrun n,
        (m.postBatch tasks options).2) =
      (m.scheduler cur unrun n).postBatch options tasks := by
  unfold TaskManager.postBatch
  split
  · next hclosed => rw [Scheduler.postBatch_closed hclosed]
  · next hopen =>
      exact Inv.scheduler_postBatchLoop options tasks h (by simpa using hopen)

/-! ## Cancellation -/

/-- Cancelling one control takes its entries out of what is live. -/
theorem filter_live_cancelled {id : Nat}
    (hstate : ∀ j, m'.stateOf j = if j = id then .cancelled else m.stateOf j)
    (entries : List (Entry τ)) :
    entries.filter m'.live =
      (entries.filter m.live).filter fun entry => entry.id ≠ id := by
  rw [List.filter_filter]
  refine List.filter_congr fun entry _ => ?_
  unfold live
  rw [hstate]
  by_cases hid : entry.id = id <;> simp [hid]

theorem filter_absent {id : Nat} {entries : List (Entry τ)}
    (h : copies entries id = 0) (p : Entry τ → Bool) :
    ((entries.filter p).filter fun entry => entry.id ≠ id) =
      entries.filter p := by
  refine List.filter_eq_self.mpr fun entry hentry => ?_
  have hmem := (List.mem_filter.mp hentry).1
  simp only [copies, List.countP_eq_zero, decide_eq_true_eq] at h
  exact decide_eq_true (h entry hmem)

theorem exists_of_copies (entries : List (Entry τ)) (id : Nat)
    (h : 0 < copies entries id) : ∃ entry ∈ entries, entry.id = id := by
  obtain ⟨entry, hmem, hid⟩ := List.countP_pos_iff.mp h
  exact ⟨entry, hmem, by simpa using hid⟩

/-- The tasks that wait in the scheduler are those whose control does. -/
theorem Inv.waits_iff (h : m.Inv cur unrun owed) (id : Nat) :
    (m.scheduler cur unrun n).waits id ↔ (m.stateOf id).waiting := by
  have hacc := h.accounted id
  simp only [Scheduler.waits, scheduler_queue, scheduler_delayed,
    scheduler_batch, List.any_eq_true, List.mem_append, List.mem_filter,
    decide_eq_true_eq]
  constructor
  · rintro ⟨entry, ((((⟨hmem, hl⟩ | ⟨hmem, hl⟩) | ⟨hmem, hl⟩) | ⟨hmem, hl⟩) |
      ⟨hmem, hl⟩), rfl⟩
    · rw [(h.live_ready hmem).mp hl]; rfl
    · rw [(h.live_ready hmem).mp hl]; rfl
    · rw [(h.live_ready hmem).mp hl]; rfl
    · rw [(h.live_delayed hmem).mp hl]; rfl
    · rw [(h.live_unrun hmem).mp hl]; rfl
  · intro hw
    have hlive : ∀ entry : Entry τ, entry.id = id → m.live entry := by
      rintro entry rfl
      unfold live
      cases hst : m.stateOf entry.id <;> simp_all [State.waiting]
    cases hst : m.stateOf id
    all_goals rw [hst] at hacc hw
    case executing | cancelled | completed => cases hw
    case queuedReady =>
      have hready := hacc.2.1
      unfold readyCopies at hready
      rcases Nat.eq_zero_or_pos (copies (m.ready .high) id) with h1 | h1
      · rcases Nat.eq_zero_or_pos (copies (m.ready .normal) id) with h2 | h2
        · obtain ⟨entry, hmem, hid⟩ :=
            exists_of_copies (m.ready .low) id (by omega)
          exact ⟨entry, Or.inl (Or.inl (Or.inr ⟨hmem, hlive entry hid⟩)), hid⟩
        · obtain ⟨entry, hmem, hid⟩ := exists_of_copies _ _ h2
          exact ⟨entry, Or.inl (Or.inl (Or.inl (Or.inr ⟨hmem, hlive entry hid⟩))),
            hid⟩
      · obtain ⟨entry, hmem, hid⟩ := exists_of_copies _ _ h1
        exact ⟨entry, Or.inl (Or.inl (Or.inl (Or.inl ⟨hmem, hlive entry hid⟩))),
          hid⟩
    case queuedDelayed =>
      obtain ⟨entry, hmem, hid⟩ := exists_of_copies
        m.delayedHeap id (by rw [hacc.2.2.1]; decide)
      exact ⟨entry, Or.inl (Or.inr ⟨hmem, hlive entry hid⟩), hid⟩
    case readySnapshot =>
      obtain ⟨entry, hmem, hid⟩ := exists_of_copies
        unrun id (by rw [hacc.2.2.2.2]; decide)
      exact ⟨entry, Or.inr ⟨hmem, hlive entry hid⟩, hid⟩

/-- An executing control belongs to the current entry. -/
theorem Inv.current_of_executing (h : m.Inv cur unrun owed) {id : Nat}
    (hst : m.stateOf id = .executing) : ∃ entry, cur = some entry ∧ entry.id = id := by
  have hacc := h.accounted id
  rw [hst] at hacc
  obtain ⟨entry, hmem, hid⟩ := exists_of_copies
    cur.toList id (by rw [hacc.2.2.2.1]; decide)
  exact ⟨entry, Option.mem_toList.mp hmem, hid⟩

theorem Inv.running_executing (h : m.Inv cur unrun owed) {id : Nat}
    (hst : m.stateOf id = .executing) :
    ∃ entry, cur = some entry ∧ entry.id = id ∧
      (m.scheduler cur unrun n).running id = some (m.runningTask entry) := by
  obtain ⟨entry, rfl, rfl⟩ := h.current_of_executing hst
  refine ⟨entry, rfl, rfl, ?_⟩
  simp [Scheduler.running, scheduler_current, runningTask, hst]

theorem Inv.running_other (h : m.Inv cur unrun owed) {id : Nat}
    (hst : m.stateOf id ≠ .executing) :
    (m.scheduler cur unrun n).running id = none := by
  cases cur with
  | none => rfl
  | some entry =>
      rw [Scheduler.running, scheduler_current, Option.map_some,
        Option.filter_eq_none_iff]
      rintro run hrun
      cases hrun
      simp only [runningTask, Bool.and_eq_true, Bool.not_eq_true',
        decide_eq_false_iff_not, not_and, not_not]
      intro hid
      obtain rfl := of_decide_eq_true hid
      rcases h.current_state with hc | hc
      · exact absurd hc hst
      · exact hc

/-- A waiting task is cancelled: its entry is out. -/
theorem Inv.scheduler_cancelled_waiting (h : m.Inv cur unrun owed) {id : Nat}
    (hw : (m.stateOf id).waiting) :
    (m.cancelled id (m.stateOf id)).scheduler cur unrun n =
      (m.scheduler cur unrun n).remove id := by
  have hwd : Withdrew m (m.cancelled id (m.stateOf id)) id :=
    .cancelled rfl (Or.inl hw)
  have hstate : ∀ j, (m.cancelled id (m.stateOf id)).stateOf j =
      if j = id then .cancelled else m.stateOf j := by
    intro j
    split
    · next hj => rw [hj, hwd.state]
    · next hj => exact congrArg Control.state (hwd.other j hj)
  have hfilter := filter_live_cancelled hstate
  have hcur : cur.map (m.cancelled id (m.stateOf id)).runningTask =
      cur.map m.runningTask := by
    refine map_runningTask_congr fun entry hcur => hwd.other _ ?_
    rintro rfl
    subst hcur
    rcases h.current_state with hst | hst
    all_goals
      rw [hst] at hw
      cases hw
  cases hst : m.stateOf id <;> rw [hst] at hfilter hw hcur <;> try cases hw
  all_goals
    exact Scheduler.ext (funext fun p => hfilter _) (hfilter _) (hfilter _) hcur
      rfl rfl rfl rfl

/-- The running task is cancelled: the lists do not hold it. -/
theorem Inv.scheduler_cancelled_running {entry : Entry τ}
    (h : m.Inv (some entry) unrun owed) (hst : m.stateOf entry.id = .executing)
    (hcontrol : ∀ j, m'.control j =
      if j = entry.id then
        { m.control j with state := .cancelled, rescheduleRequested := false }
      else m.control j)
    (hready : m'.ready = m.ready) (hdelayed : m'.delayedHeap = m.delayedHeap)
    (hid : m'.nextId = m.nextId) (hseq : m'.nextSeq = m.nextSeq)
    (hclosed : m'.closed = m.closed) :
    m'.scheduler (some entry) unrun n =
      (m.scheduler (some entry) unrun n).cancelRunning
        (m.runningTask entry) := by
  have hstate : ∀ j, m'.stateOf j =
      if j = entry.id then .cancelled else m.stateOf j := by
    intro j
    unfold stateOf
    rw [hcontrol]
    split <;> rfl
  have hacc := h.accounted entry.id
  rw [hst] at hacc
  obtain ⟨-, h1, h2, -, h3⟩ := hacc
  have hkeep : ∀ entries : List (Entry τ), copies entries entry.id = 0 →
      entries.filter m'.live = entries.filter m.live := by
    intro entries hzero
    rw [filter_live_cancelled hstate, filter_absent hzero]
  refine Scheduler.ext ?_ ?_ (hkeep unrun h3) ?_ rfl hid hseq hclosed
  · funext priority
    show (m'.ready priority).filter m'.live = (m.ready priority).filter m.live
    rw [hready]
    refine hkeep _ ?_
    unfold readyCopies at h1
    cases priority <;> omega
  · show m'.delayedHeap.filter m'.live = m.delayedHeap.filter m.live
    rw [hdelayed]
    exact hkeep _ h2
  · show some (m'.runningTask entry) = some { m.runningTask entry with
      cancelled := true, reschedule := none }
    unfold runningTask
    rw [hstate, hcontrol]
    simp

theorem Inv.scheduler_cancel (h : m.Inv cur unrun owed) (id : Nat) :
    ((m.cancel id).1.scheduler cur unrun n, (m.cancel id).2) =
      (m.scheduler cur unrun n).cancel id := by
  have hacc := h.accounted id
  unfold Scheduler.cancel
  by_cases hw : (m.stateOf id).waiting
  · have hne := h.ne_zero (State.waiting_ne_completed hw)
    have hremove := h.scheduler_cancelled_waiting (n := n) hw
    rw [if_pos ((h.waits_iff id).mpr hw), ← hremove]
    unfold TaskManager.cancel
    cases hst : m.stateOf id <;> rw [hst] at hacc hw <;> try cases hw
    all_goals
      rw [if_neg hne, if_pos hacc.1]
      simp only [TaskManager.cancelLoaded, hst, if_true]
  · rw [if_neg (fun hwaits => hw ((h.waits_iff id).mp hwaits))]
    by_cases hst : m.stateOf id = .executing
    · obtain ⟨entry, rfl, rfl, hrun⟩ :=
        h.running_executing (n := n) hst
      have hne : entry.id ≠ 0 := h.ne_zero (by rw [hst]; decide)
      have hper := h.periodic entry (by simp [Holds])
      rw [hst] at hacc
      rw [hrun]
      simp only [TaskManager.cancel, if_neg hne, if_pos hacc.1,
        TaskManager.cancelLoaded, hst, ← hper, runningTask]
      cases hp : entry.periodic
      · simp
      · simp only [Bool.not_true, Bool.false_eq_true, if_false, if_true]
        congr 1
        refine h.scheduler_cancelled_running hst ?_ rfl rfl rfl rfl rfl
        intro j
        show ((m.setState entry.id .cancelled).dropReschedule entry.id).control j = _
        rw [control_dropReschedule, control_setState]
        split <;> rfl
    · rw [h.running_other hst]
      have hres : m.cancel id = (m, false) := by
        unfold TaskManager.cancel
        cases hs : m.stateOf id <;> simp_all [TaskManager.cancelLoaded, State.waiting]
      rw [hres]

theorem Inv.scheduler_contextCancel (h : m.Inv cur unrun owed) (id : Nat) :
    ((m.cancelFromContext id).1.scheduler cur unrun n,
        (m.cancelFromContext id).2) =
      (m.scheduler cur unrun n).contextCancel id := by
  have hacc := h.accounted id
  unfold Scheduler.contextCancel
  by_cases hst : m.stateOf id = .executing
  · obtain ⟨entry, rfl, rfl, hrun⟩ :=
      h.running_executing (n := n) hst
    have hne : entry.id ≠ 0 := h.ne_zero (by rw [hst]; decide)
    rw [hst] at hacc
    rw [hrun]
    simp only [TaskManager.cancelFromContext, if_neg hne, if_pos hacc.1, hst,
      if_true]
    congr 1
    cases (m.control entry.id).periodic
    all_goals
      refine h.scheduler_cancelled_running hst ?_ rfl rfl rfl rfl rfl
      intro j
      show ((m.setState entry.id .cancelled).dropReschedule entry.id).control j = _
      rw [control_dropReschedule, control_setState]
      split <;> rfl
  · rw [h.running_other hst]
    have hres : m.cancelFromContext id = (m, false) := by
      simp [TaskManager.cancelFromContext, hst]
    rw [hres]

theorem Inv.scheduler_contextIsCancelled (h : m.Inv cur unrun owed)
    (id : Nat) :
    m.isCancelledForContext id =
      (m.scheduler cur unrun n).contextIsCancelled id := by
  have hacc := h.accounted id
  unfold TaskManager.isCancelledForContext Scheduler.contextIsCancelled
  rw [Bool.eq_iff_iff, scheduler_current, Option.any_map, Option.any_eq_true]
  constructor
  · intro hc
    have hst : m.stateOf id = .cancelled := by
      split at hc
      · cases hc
      · split at hc
        · exact of_decide_eq_true hc
        · cases hc
    have hindex : id ∈ m.index := by
      by_contra hnot
      simp [hnot] at hc
    rw [hst] at hacc
    obtain ⟨entry, hmem, rfl⟩ := exists_of_copies cur.toList id (by rw [hacc.1.mp hindex]; decide)
    refine ⟨entry, Option.mem_toList.mp hmem, ?_⟩
    simp [runningTask, hst]
  · rintro ⟨entry, hcur, hrun⟩
    simp only [runningTask, Bool.and_eq_true] at hrun
    obtain ⟨hid, hst⟩ := hrun
    obtain rfl := of_decide_eq_true hid
    replace hst := of_decide_eq_true hst
    have hne : entry.id ≠ 0 := h.ne_zero (by rw [hst]; decide)
    obtain rfl : cur = some entry := hcur
    rw [hst] at hacc
    obtain ⟨hindex, hle⟩ := hacc
    have hcopy : copies (some entry).toList entry.id = 1 := by simp
    simp [hne, hindex.mpr hcopy, hst]

theorem Inv.scheduler_contextReschedule (h : m.Inv cur unrun owed) (id : Nat)
    (due : Int) :
    ((m.rescheduleFromContext id due).1.scheduler cur unrun n,
        (m.rescheduleFromContext id due).2) =
      (m.scheduler cur unrun n).contextReschedule id due := by
  have hacc := h.accounted id
  unfold TaskManager.rescheduleFromContext Scheduler.contextReschedule
  rw [scheduler_closed]
  by_cases hst : m.stateOf id = .executing
  · obtain ⟨entry, rfl, rfl, hrun⟩ :=
      h.running_executing (n := n) hst
    have hne : entry.id ≠ 0 := h.ne_zero (by rw [hst]; decide)
    rw [hst] at hacc
    rw [hrun, if_neg hne, if_pos hacc.1, if_pos hst]
    split
    · rfl
    · congr 1
      have hlive : (m.requestReschedule entry.id due).live = m.live :=
        live_congr fun j => by rw [stateOf_requestReschedule]
      refine Scheduler.ext ?_ ?_ ?_ ?_ rfl rfl rfl rfl
      · funext priority
        exact congrArg (List.filter · (m.ready priority)) hlive
      · exact congrArg (List.filter · m.delayedHeap) hlive
      · exact congrArg (List.filter · unrun) hlive
      · show some ((m.requestReschedule entry.id due).runningTask entry) =
          some { m.runningTask entry with reschedule := some due }
        unfold runningTask
        rw [stateOf_requestReschedule, control_requestReschedule, if_pos rfl]
        rfl
  · rw [h.running_other hst]
    simp only [hst, if_false, ite_self]

theorem prune_live {heap : List (Entry τ)}
    (hdead : ∀ entry ∈ heap, m.dead entry = !m.live entry) :
    (heap.dropWhile m.dead).filter m.live = heap.filter m.live ∧
      (heap.dropWhile m.dead).head? = (heap.filter m.live).head? := by
  induction heap with
  | nil => exact ⟨rfl, rfl⟩
  | cons entry heap ih =>
      rw [List.forall_mem_cons] at hdead
      rw [List.dropWhile_cons, hdead.1]
      cases hlive : m.live entry
      · rw [List.filter_cons_of_neg (by rw [hlive]; decide)]
        exact ih hdead.2
      · rw [List.filter_cons_of_pos hlive]
        exact ⟨List.filter_cons_of_pos hlive, rfl⟩

theorem Inv.scheduler_nextDeadline (h : m.Inv cur unrun owed) :
    m.nextDeadline.1.scheduler cur unrun n =
        m.scheduler cur unrun n ∧
      m.nextDeadline.2 =
        (m.scheduler cur unrun n).delayed.head?.map Entry.due := by
  obtain ⟨hfilter, hhead⟩ := prune_live fun entry hmem => h.dead_delayed hmem
  refine ⟨Scheduler.ext rfl hfilter rfl rfl rfl rfl rfl rfl, ?_⟩
  rw [scheduler_delayed, ← hhead]
  rfl

/-! ## `process()` -/

theorem Inv.scheduler_promoteEntry {entry : Entry τ} {heap : List (Entry τ)}
    (h : (m.setDelayed (entry :: heap)).Inv cur unrun owed)
    (hlive : m.live entry) :
    ((m.promoteEntry entry).setDelayed heap).scheduler none unrun n =
      ((m.setDelayed heap).scheduler none unrun n).enqueue entry
        true := by
  have hfront : entry ∈ (m.setDelayed (entry :: heap)).delayedHeap :=
    List.mem_cons_self
  have hst : m.stateOf entry.id = .queuedDelayed := (h.live_delayed hfront).mp hlive
  have hset : (m.setState entry.id .queuedReady).live = m.live :=
    (Reshuffled.setState (by rw [hst]; rfl) rfl).live
  unfold TaskManager.promoteEntry
  rw [if_pos hst]
  have hready : ((m.setState entry.id .queuedReady).setDelayed heap).live entry := by
    change (m.setState entry.id .queuedReady).live entry = true
    rw [hset]
    exact hlive
  refine Eq.trans (scheduler_pushBackReady hready) ?_
  congr 1
  refine Scheduler.ext ?_ ?_ ?_ rfl rfl rfl rfl rfl
  · funext priority
    exact congrArg (List.filter · (m.ready priority)) hset
  · exact congrArg (List.filter · heap) hset
  · exact congrArg (List.filter · unrun) hset

/-- Promoting the front of the delayed list, when it is due, and then the
rest. -/
theorem Scheduler.promote_enqueue {r : Scheduler τ} {entry : Entry τ}
    {delayed : List (Entry τ)} {now : Int} (hr : r.delayed = delayed)
    (hdue : entry.due ≤ now) :
    (r.enqueue entry true).promote now =
      { r with delayed := entry :: delayed }.promote now := by
  subst hr
  have hnot : ¬ now < entry.due := by omega
  refine Scheduler.ext ?_ ?_ rfl rfl rfl rfl rfl rfl
  · funext priority
    by_cases hp : entry.priority = priority
    · subst hp
      simp [Scheduler.promote, Scheduler.enqueue, hdue]
    · simp [Scheduler.promote, Scheduler.enqueue, hdue, hp, Ne.symm hp]
  · simp [Scheduler.promote, Scheduler.enqueue, hnot]

/-- Nothing is due when the front of the ordered list is not. -/
theorem Scheduler.promote_of_not_due {r : Scheduler τ} {now : Int}
    (h : ∀ entry ∈ r.delayed, now < entry.due) : r.promote now = r := by
  have hnone : (r.delayed.filter fun entry => entry.due ≤ now) = [] := by
    rw [List.filter_eq_nil_iff]
    intro entry hmem
    have := h entry hmem
    simpa using this
  refine Scheduler.ext ?_ ?_ rfl rfl rfl rfl rfl rfl
  · funext priority
    simp [Scheduler.promote, hnone]
  · refine List.filter_eq_self.mpr fun entry hmem => ?_
    simpa using h entry hmem

theorem Inv.scheduler_promoteLoop {now : Int} {heap : List (Entry τ)} :
    ∀ {m : TaskManager τ}, (m.setDelayed heap).Inv none unrun owed →
      HeapOrdered heap →
      (TaskManager.promoteLoop now heap m).scheduler none unrun n =
        ((m.setDelayed heap).scheduler none unrun n).promote now := by
  induction heap with
  | nil =>
      intro m _ _
      refine (Scheduler.promote_of_not_due fun entry hmem => ?_).symm
      cases hmem
  | cons entry heap ih =>
      intro m h hord
      have hfront : entry ∈ (m.setDelayed (entry :: heap)).delayedHeap :=
        List.mem_cons_self
      have hdead := h.dead_delayed hfront
      have hord' : HeapOrdered heap := hord.suffix (List.suffix_cons entry heap)
      rw [TaskManager.promoteLoop]
      change m.dead entry = !m.live entry at hdead
      rw [hdead]
      cases hlive : m.live entry
      · -- a cancelled front is in neither
        have hne : m.stateOf entry.id ≠ .queuedDelayed := by
          intro hst
          have := (h.live_delayed hfront).mpr hst
          change m.live entry = true at this
          rw [hlive] at this
          cases this
        rw [Bool.not_false, if_pos rfl, ih (h.dropDelayed hne) hord']
        congr 1
        refine Scheduler.ext rfl ?_ rfl rfl rfl rfl rfl rfl
        show heap.filter m.live = (entry :: heap).filter m.live
        rw [List.filter_cons_of_neg (by rw [hlive]; decide)]
      · rw [Bool.not_true, if_neg Bool.false_ne_true]
        have hcons : (entry :: heap).filter m.live =
            entry :: heap.filter m.live := List.filter_cons_of_pos hlive
        split
        · next hdue =>
            rw [ih h.promoteEntry hord', h.scheduler_promoteEntry hlive,
              Scheduler.promote_enqueue rfl hdue]
            congr 1
            exact Scheduler.ext rfl hcons.symm rfl rfl rfl rfl rfl rfl
        · next hdue =>
            refine (Scheduler.promote_of_not_due ?_).symm
            intro e he
            rcases List.mem_cons.mp (List.mem_filter.mp he).1 with rfl | hmem
            · omega
            · have := (List.rel_of_pairwise_cons hord hmem).due_le
              omega

theorem Inv.takeLoop_spec {maxTasks : Nat} {priority : TaskPriority}
    {queue : List (Entry τ)} :
    ∀ {batch : List (Entry τ)} {m : TaskManager τ},
      (m.setQueue priority queue).Inv cur batch owed →
      batch.length ≤ maxTasks →
      let r := TaskManager.takeLoop maxTasks queue batch m
      r.1.filter m.live =
          (queue.filter m.live).drop (maxTasks - batch.length) ∧
        r.2.1 =
          batch ++ (queue.filter m.live).take (maxTasks - batch.length) := by
  induction queue with
  | nil => exact fun _ _ => by simp [TaskManager.takeLoop]
  | cons entry queue ih =>
      intro batch m h hle
      rw [TaskManager.takeLoop]
      have hmem : entry ∈ (m.setQueue priority (entry :: queue)).ready priority := by
        simp
      have hstate := h.live_ready hmem
      change m.live entry = true ↔ m.stateOf entry.id = .queuedReady at hstate
      split
      · next hfull => simp [hfull]
      · next hroom =>
          split
          · next hst =>
              have hset : ((m.setState entry.id
                  .readySnapshot).decrementReadyCount).live = m.live :=
                (Reshuffled.setState (by rw [hst]; rfl) rfl).live
              have hspec := ih (h.takeEntry hst) (by simp; omega)
              rw [hset] at hspec
              have hk : maxTasks - batch.length =
                  (maxTasks - (batch ++ [entry]).length) + 1 := by
                rw [List.length_append, List.length_singleton]
                omega
              rw [List.filter_cons_of_pos (hstate.mpr hst), hk,
                List.drop_succ_cons, List.take_succ_cons]
              refine ⟨hspec.1, hspec.2.trans ?_⟩
              rw [List.append_assoc, List.singleton_append]
          · next hst =>
              rw [List.filter_cons_of_neg (fun hl => hst (hstate.mp hl))]
              exact ih (h.dropReady hst) hle

/-- What taking from a queue leaves alone. -/
theorem takeLoop_frame (maxTasks : Nat) (queue : List (Entry τ)) :
    ∀ (batch : List (Entry τ)) (m : TaskManager τ),
      (takeLoop maxTasks queue batch m).2.2.ready = m.ready ∧
        (takeLoop maxTasks queue batch m).2.2.nextSeq = m.nextSeq := by
  induction queue with
  | nil => exact fun _ _ => ⟨rfl, rfl⟩
  | cons entry queue ih =>
      intro batch m
      rw [takeLoop]
      split
      · exact ⟨rfl, rfl⟩
      · split
        · exact ih _ _
        · exact ih _ _

/-- The scheduler's part of taking from one list. -/
def takeFrom (maxTasks : Nat) (priority : TaskPriority) (r : Scheduler τ) :
    Scheduler τ :=
  let room := maxTasks - r.batch.length
  { r with
    batch := r.batch ++ (r.queue priority).take room
    queue := Function.update r.queue priority ((r.queue priority).drop room) }

theorem Inv.scheduler_takeQueue (maxTasks : Nat) {batch : List (Entry τ)}
    (h : m.Inv none batch owed) (hle : batch.length ≤ maxTasks)
    (hlive : ∀ entry ∈ batch, m.live entry) (priority : TaskPriority) :
    let r := TaskManager.takeQueue maxTasks priority batch m
    r.2.scheduler none r.1 n =
        takeFrom maxTasks priority (m.scheduler none batch n) ∧
      r.1.length ≤ maxTasks ∧ ∀ entry ∈ r.1, r.2.live entry := by
  have hself := h
  rw [← setQueue_self m priority] at hself
  obtain ⟨hleft, hbatch⟩ := hself.takeLoop_spec hle
  have hmove := Reshuffled.takeLoop maxTasks (m.ready priority) batch m
  have hheap := delayedHeap_takeLoop maxTasks (m.ready priority) batch m
  obtain ⟨hready, hseq⟩ := takeLoop_frame maxTasks (m.ready priority) batch m
  have hbatch_live : batch.filter m.live = batch := List.filter_eq_self.mpr hlive
  have hall : ∀ entry ∈ (TaskManager.takeLoop maxTasks (m.ready priority) batch
      m).2.1, m.live entry := by
    intro entry hmem
    rw [hbatch, List.mem_append] at hmem
    rcases hmem with hmem | hmem
    · exact hlive entry hmem
    · exact (List.mem_filter.mp (List.mem_of_mem_take hmem)).2
  have hlive' := hmove.live
  refine ⟨Scheduler.ext ?_ ?_ ?_ rfl rfl hmove.nextId hseq hmove.closed, ?_, ?_⟩
  · show (fun p => ((Function.update (TaskManager.takeLoop maxTasks
      (m.ready priority) batch m).2.2.ready priority (TaskManager.takeLoop
      maxTasks (m.ready priority) batch m).1) p).filter
      (TaskManager.takeLoop maxTasks (m.ready priority) batch m).2.2.live) = _
    rw [hlive', hready, filter_update, hleft, takeFrom, scheduler_batch,
      hbatch_live]
    rfl
  · show (TaskManager.takeLoop maxTasks (m.ready priority) batch
      m).2.2.delayedHeap.filter (TaskManager.takeLoop maxTasks
      (m.ready priority) batch m).2.2.live = _
    rw [hlive', hheap]
    rfl
  · show (TaskManager.takeLoop maxTasks (m.ready priority) batch
      m).2.1.filter (TaskManager.takeLoop maxTasks (m.ready priority) batch
      m).2.2.live = _
    rw [hlive', List.filter_eq_self.mpr hall, hbatch, takeFrom, scheduler_batch,
      hbatch_live]
    rfl
  · show (TaskManager.takeLoop maxTasks (m.ready priority) batch
      m).2.1.length ≤ maxTasks
    rw [hbatch, List.length_append, List.length_take]
    omega
  · intro entry hmem
    show (TaskManager.takeLoop maxTasks (m.ready priority) batch m).2.2.live entry
    rw [hlive']
    exact hall entry hmem

/-- Three lists in a row are one list. -/
theorem takeFrom_all {r : Scheduler τ} {maxTasks : Nat} (hr : r.batch = []) :
    takeFrom maxTasks .low (takeFrom maxTasks .normal
      (takeFrom maxTasks .high r)) = r.take maxTasks := by
  refine Scheduler.ext ?_ rfl ?_ rfl rfl rfl rfl rfl
  · funext priority
    cases priority
    all_goals
      simp [takeFrom, Scheduler.take, hr, List.length_take, Nat.sub_sub]
      try congr 1
      try omega
  · have hhigh : ∀ a, maxTasks - min maxTasks a = maxTasks - a := by
      intro a
      omega
    have hboth : ∀ a b, maxTasks - (min maxTasks a + min (maxTasks - a) b) =
        maxTasks - a - b := by
      intro a b
      omega
    simp [takeFrom, Scheduler.take, Scheduler.ready, hr, List.take_append,
      List.length_take, hhigh, hboth, Nat.sub_sub]

theorem Inv.scheduler_beginProcess (h : m.Inv none [] owed)
    (hord : HeapOrdered m.delayedHeap) (now : Int) (maxTasks : Nat) :
    (m.beginProcess now maxTasks).2.scheduler none (m.beginProcess now maxTasks).1
        n =
      ((m.scheduler none [] n).promote now).take maxTasks := by
  have hpromote : (m.promoteDueLocked now).scheduler none [] n =
      (m.scheduler none [] n).promote now :=
    Inv.scheduler_promoteLoop h hord
  have h0 := h.promoteDueLocked now
  obtain ⟨h1, hle1, hl1⟩ := h0.scheduler_takeQueue (n := n) maxTasks
    (Nat.zero_le _) (by simp) .high
  have hinv1 := h0.takeQueue maxTasks .high
  obtain ⟨h2, hle2, hl2⟩ := hinv1.scheduler_takeQueue (n := n)
    maxTasks hle1 hl1 .normal
  have hinv2 := hinv1.takeQueue maxTasks .normal
  obtain ⟨h3, -, -⟩ := hinv2.scheduler_takeQueue (n := n)
    maxTasks hle2 hl2 .low
  refine Eq.trans h3 ?_
  rw [h2, h1, ← hpromote]
  exact takeFrom_all rfl

/-! ## The callbacks -/

/-- Starting and ending cancel nothing. -/
theorem live_setState {id : Nat} {state : State}
    (hold : m.stateOf id ≠ .cancelled) (hnew : state ≠ .cancelled) :
    (m.setState id state).live = m.live := by
  refine live_congr fun j => ?_
  rw [stateOf_setState]
  split
  · next hj =>
      rw [hj]
      exact ⟨fun hc => absurd hc hnew, fun hc => absurd hc hold⟩
  · rfl

theorem live_dropReschedule (m : TaskManager τ) (id : Nat) :
    (m.dropReschedule id).live = m.live :=
  live_congr fun j => by rw [stateOf_dropReschedule]

/-- Between two callbacks the scheduler sees of the controls only which
entries are live. -/
theorem scheduler_congr (hready : m'.ready = m.ready)
    (hdelayed : m'.delayedHeap = m.delayedHeap) (hlive : m'.live = m.live)
    (hid : m'.nextId = m.nextId) (hseq : m'.nextSeq = m.nextSeq)
    (hclosed : m'.closed = m.closed) :
    m'.scheduler none unrun n = m.scheduler none unrun n := by
  refine Scheduler.ext ?_ ?_ ?_ rfl rfl hid hseq hclosed
  · simp only [scheduler, hready, hlive]
  · simp only [scheduler, hdelayed, hlive]
  · simp only [scheduler, hlive]

variable (unrun n) in
/-- An entry put back under a new sequence number; `m₁` is the manager with
the control moved on, of which the scheduler sees nothing. -/
theorem scheduler_requeue {entry : Entry τ} (m₁ : TaskManager τ) (due : Int)
    (hready : m₁.ready = m.ready) (hdelayed : m₁.delayedHeap = m.delayedHeap)
    (hlive : m₁.live = m.live) (hid : m₁.nextId = m.nextId)
    (hseq : m₁.nextSeq = m.nextSeq) (hclosed : m₁.closed = m.closed)
    (hentry : m.live entry) (hord : HeapOrdered m.delayedHeap) (ready : Bool) :
    (if ready then
        (m₁.advanceSeq.pushBackReady { entry with
          seq := m₁.nextSeq, due := due, plannedDue := due }).incrementReadyCount
      else m₁.advanceSeq.pushDelayed { entry with
          seq := m₁.nextSeq, due := due, plannedDue := due }).scheduler none
        unrun n =
      { (m.scheduler none unrun n).enqueue
          { entry with seq := m.nextSeq, due := due, plannedDue := due } ready with
        nextSeq := m.nextSeq + 1 } := by
  have hbase : m₁.advanceSeq.scheduler none unrun n =
      { m.scheduler none unrun n with nextSeq := m.nextSeq + 1 } := by
    have hlive' : m₁.advanceSeq.live = m.live := hlive
    refine Scheduler.ext ?_ ?_ ?_ rfl rfl hid (congrArg (· + 1) hseq) hclosed
    · simp only [scheduler, advanceSeq_ready, hready, hlive']
    · simp only [scheduler, advanceSeq_delayedHeap, hdelayed, hlive']
    · simp only [scheduler, hlive']
  have hentry' : m₁.advanceSeq.live { entry with
      seq := m.nextSeq, due := due, plannedDue := due } :=
    (congrFun hlive entry).trans hentry
  rw [hseq]
  cases ready
  · have hord' : HeapOrdered m₁.advanceSeq.delayedHeap := by
      rw [advanceSeq_delayedHeap, hdelayed]
      exact hord
    exact (scheduler_pushDelayed hentry' hord').trans (by rw [hbase]; rfl)
  · exact (scheduler_pushBackReady hentry').trans (by rw [hbase]; rfl)

theorem scheduler_enqueueExistingLocked {entry : Entry τ}
    (hst : m.stateOf entry.id = .executing) (hord : HeapOrdered m.delayedHeap)
    (now due : Int) :
    (m.enqueueExistingLocked now entry due).scheduler none unrun n =
      { (m.scheduler none unrun n).enqueue
          { entry with seq := m.nextSeq, due := due, plannedDue := due }
          (due ≤ now) with
        nextSeq := m.nextSeq + 1 } := by
  have hne : m.stateOf entry.id ≠ .cancelled := by rw [hst]; decide
  have hentry : m.live entry := by simp [live, hne]
  have hset : (m.setState entry.id
      (if due ≤ now then .queuedReady else .queuedDelayed)).live = m.live :=
    live_setState hne (by split <;> decide)
  unfold TaskManager.enqueueExistingLocked
  rw [if_pos hst]
  -- whether the task is counted as pending again is not visible
  cases hp : entry.periodic
  all_goals
    have hrequeue := fun m₁ hr hd hl hi hs hc =>
      scheduler_requeue unrun n m₁ due hr hd hl hi hs hc hentry hord (due ≤ now)
    simp only [hp, decide_eq_true_eq] at hrequeue
    exact hrequeue _ rfl rfl hset rfl rfl rfl

theorem Inv.scheduler_finishAfterSuccess {entry : Entry τ}
    (h : m.Inv (some entry) unrun owed) (hord : HeapOrdered m.delayedHeap)
    (now now' : Int) :
    (m.finishAfterSuccess now now' entry).scheduler none unrun n =
      (m.scheduler none unrun n).finish now now'
        (m.runningTask entry) := by
  have hdrop := live_dropReschedule m entry.id
  unfold TaskManager.finishAfterSuccess Scheduler.finish
  rcases h.current_state with hst | hst
  · have hne : m.stateOf entry.id ≠ .cancelled := by rw [hst]; decide
    have hdone : (m.setState entry.id .completed).live = m.live :=
      live_setState hne (by decide)
    rw [if_neg hne, if_neg (not_not.mpr hst)]
    simp only [runningTask, hne, decide_false, Bool.false_or, scheduler_closed]
    split
    · refine scheduler_congr ?_ ?_ ?_ ?_ ?_ ?_
      all_goals
        unfold TaskManager.complete
        cases entry.periodic
      all_goals try rfl
      all_goals exact (live_dropReschedule _ _).trans hdone
    · by_cases hreq : (m.control entry.id).rescheduleRequested
      · rw [if_pos hreq, if_pos hreq]
        have hst' : (m.dropReschedule entry.id).stateOf entry.id = .executing := by
          rw [stateOf_dropReschedule]
          exact hst
        have hdropped : (m.dropReschedule entry.id).scheduler none unrun n =
            m.scheduler none unrun n :=
          scheduler_congr rfl rfl hdrop rfl rfl rfl
        rw [scheduler_enqueueExistingLocked hst' hord, hdropped]
        rfl
      · rw [if_neg hreq, if_neg hreq]
        dsimp only
        split
        · exact scheduler_enqueueExistingLocked hst hord _ _
        · exact scheduler_congr rfl rfl hdone rfl rfl rfl
  · rw [if_pos hst]
    simp only [runningTask, hst, decide_true, Bool.true_or, if_true]
    exact scheduler_congr rfl rfl hdrop rfl rfl rfl

end TaskManager

/-! ## The refinement -/

namespace TaskSystem

/-- The scheduler's state in a state between two calls. -/
def scheduler (s : TaskSystem τ) : Scheduler τ :=
  s.mgr.scheduler s.phase.current s.phase.unrun s.processed

/-- The next task to start does not depend on the one that has ended. -/
theorem next_current (r : Scheduler τ) (current : Option (RunningTask τ)) :
    ({ r with current := current } : Scheduler τ).next = r.next := by
  unfold Scheduler.next
  cases r.batch <;> rfl

theorem finish_congr (r : Scheduler τ) (current : Option (RunningTask τ))
    (processed : Nat) (now now' : Int) (run : RunningTask τ) :
    ({ r with current := current, processed := processed } :
        Scheduler τ).finish now now' run =
      { r.finish now now' run with
        current := current, processed := processed } := by
  unfold Scheduler.finish Scheduler.enqueue
  dsimp only
  repeat' split
  all_goals rfl

theorem scheduler_advance (unrun : List (Entry τ)) :
    ∀ s : TaskSystem τ, s.Reachable → s.phase = .scanning unrun →
      ((advance unrun s).1.scheduler, (advance unrun s).2) =
        (s.mgr.scheduler none unrun s.processed).next := by
  induction unrun with
  | nil => exact fun _ _ _ => rfl
  | cons entry unrun ih =>
      intro s hs hph
      have hinv : s.mgr.Inv s.phase.current s.phase.unrun s.phase.owed := hs.inv
      rw [hph] at hinv
      have hfront : entry ∈ entry :: unrun := List.mem_cons_self
      have hstate := TaskManager.Inv.live_unrun hinv hfront
      rw [advance]
      by_cases hst : s.mgr.stateOf entry.id = .readySnapshot
      · have hstart : s.mgr.start entry =
            some (s.mgr.setState entry.id .executing) := if_pos hst
        have hne : s.mgr.stateOf entry.id ≠ .cancelled := by rw [hst]; decide
        have hlive : (s.mgr.setState entry.id .executing).live = s.mgr.live :=
          live_setState hne (by decide)
        have hreq : (s.mgr.control entry.id).rescheduleRequested = false :=
          ((hs.logged entry.id).waiting
            (by change (s.mgr.stateOf entry.id).waiting = true; rw [hst]; rfl)).1
        have hset : ((s.mgr.setState entry.id .executing).settleStart entry).scheduler
            (some entry) unrun s.processed =
              (s.mgr.setState entry.id .executing).scheduler (some entry) unrun
                s.processed := by
          unfold settleStart
          split <;> rfl
        rw [hstart]
        simp only [scheduler, Phase.current, Phase.unrun, hset]
        have hbatch : (entry :: unrun).filter s.mgr.live =
            entry :: unrun.filter s.mgr.live :=
          List.filter_cons_of_pos (hstate.mpr hst)
        simp only [Scheduler.next, scheduler_batch, hbatch]
        congr 1
        refine Scheduler.ext ?_ ?_ ?_ ?_ rfl rfl rfl rfl
        · simp only [TaskManager.scheduler, hlive, setState_ready]
        · simp only [TaskManager.scheduler, hlive, setState_delayedHeap]
        · simp only [TaskManager.scheduler, hlive]
        · simp [TaskManager.scheduler, runningTask, control_setState, hreq]
      · have hstart : s.mgr.start entry = none := if_neg hst
        have hskip : s.step .processStart =
            some { s with phase := .scanning unrun } := by
          simp only [step, stepFree, hph, hstart]
        have hfilter : (entry :: unrun).filter s.mgr.live =
            unrun.filter s.mgr.live :=
          List.filter_cons_of_neg fun hl => hst (hstate.mp hl)
        rw [hstart]
        refine (ih { s with phase := .scanning unrun }
          (hs.trans_run (Lts.run_one hskip)) rfl).trans ?_
        congr 1
        exact Scheduler.ext rfl rfl hfilter.symm rfl rfl rfl rfl rfl

/-- The scheduler follows every call, and replies alike. -/
theorem Served.refines {s : TaskSystem τ} (h : s.Served) (c : Call τ) :
    s.scheduler.serve c = (s.serve c).map fun r => (r.1.scheduler, r.2) := by
  have hinv : s.mgr.Inv s.phase.current s.phase.unrun s.phase.owed :=
    h.reachable.inv
  have hord := h.reachable.heapOrdered
  cases c with
  | post task options =>
      have heq := hinv.scheduler_post (n := s.processed) task options
      simp only [Scheduler.serve, scheduler, ← heq]
      rfl
  | postAt now due task options =>
      have heq := hinv.scheduler_postAt (n := s.processed) hord now due
        task options
      simp only [Scheduler.serve, scheduler, ← heq]
      rfl
  | postEveryAfter now now' initialDelay interval task options =>
      have heq := hinv.scheduler_postEveryAfter (n := s.processed) hord
        now now' initialDelay interval task options
      simp only [Scheduler.serve, scheduler, ← heq]
      rfl
  | postBatch tasks options =>
      have heq := hinv.scheduler_postBatch (n := s.processed) tasks options
      simp only [Scheduler.serve, scheduler, ← heq]
      rfl
  | close => rfl
  | cancel id =>
      have heq := hinv.scheduler_cancel (n := s.processed) id
      simp only [Scheduler.serve, scheduler, ← heq]
      rfl
  | contextCancel id =>
      have heq := hinv.scheduler_contextCancel (n := s.processed) id
      simp only [Scheduler.serve, scheduler, ← heq]
      rfl
  | contextIsCancelled id =>
      have heq := hinv.scheduler_contextIsCancelled (n := s.processed) id
      simp only [Scheduler.serve, scheduler, ← heq]
      rfl
  | contextReschedule id due =>
      have heq := hinv.scheduler_contextReschedule (n := s.processed) id
        due
      simp only [Scheduler.serve, scheduler, ← heq]
      rfl
  | nextDeadline =>
      obtain ⟨hsame, hdue⟩ :=
        hinv.scheduler_nextDeadline (n := s.processed)
      simp only [Scheduler.serve, scheduler, ← hdue]
      rw [← hsame]
      rfl
  | process now maxTasks =>
      rcases h.between with hph | ⟨entry, unrun, hph⟩
      · by_cases hmax : maxTasks = 0
        · simp only [Scheduler.serve, TaskSystem.serve, scheduler, hph, hmax]
          rfl
        · rw [hph] at hinv
          have hbegin := TaskManager.Inv.scheduler_beginProcess
            (n := 0) hinv hord now maxTasks
          have hstep : s.step (.processBegin now maxTasks) =
              some { s with mgr := (s.mgr.beginProcess now maxTasks).2
                            phase := .scanning (s.mgr.beginProcess now maxTasks).1
                            processed := 0 } := by
            simp [step, stepLocked, h.unlocked, hph, hmax]
          have hnext := scheduler_advance _ _
            (h.reachable.trans_run (Lts.run_one hstep)) rfl
          simp only [hbegin] at hnext
          simp only [Scheduler.serve, TaskSystem.serve, scheduler, hph, hmax,
            if_false, Option.map_some]
          exact congrArg some hnext.symm
      · simp only [Scheduler.serve, TaskSystem.serve, scheduler, hph]
        rfl
  | callbackReturned now now' =>
      rcases h.between with hph | ⟨entry, unrun, hph⟩
      · simp only [Scheduler.serve, TaskSystem.serve, scheduler, hph]
        rfl
      · rw [hph] at hinv
        have hcur : s.mgr.Inv (some entry) unrun 0 := hinv
        have hfinish := hcur.scheduler_finishAfterSuccess
          (n := s.processed + 1) hord now now'
        have hstep : s.step (.callbackReturned now now') =
            some { s with mgr := s.mgr.finishAfterSuccess now now' entry
                          phase := .scanning unrun
                          processed := s.processed + 1
                          log := .returned entry.id :: s.log } := by
          simp [step, stepLocked, h.unlocked, hph]
        have hnext := scheduler_advance _ _
          (h.reachable.trans_run (Lts.run_one hstep)) rfl
        have hended := finish_congr
          (s.mgr.scheduler (some entry) unrun s.processed) none
          (s.processed + 1) now now' (s.mgr.runningTask entry)
        simp only [hfinish] at hnext
        simp only [Scheduler.serve, TaskSystem.serve, scheduler, hph,
          Option.map_some]
        refine congrArg some (Eq.trans ?_ hnext.symm)
        rw [← next_current _ none]
        exact congrArg Scheduler.next hended.symm

theorem Served.initial : ({} : TaskSystem τ).Served :=
  ⟨Lts.Reachable.refl _, rfl, Or.inl rfl⟩

theorem Served.step_refines : ∀ (s : TaskSystem τ) (c : Call τ), s.Served →
    s.scheduler.serve c = (s.serve c).map fun r => (r.1.scheduler, r.2) :=
  fun _ c h => h.refines c

/-- The state of the scheduler after any list of calls is that of a manager. -/
theorem exists_served {calls : List (Call τ)} {r : Scheduler τ}
    {replies : List Reply}
    (h : Mealy.run Scheduler.serve {} calls = some (r, replies)) :
    ∃ s : TaskSystem τ, s.Served ∧ s.scheduler = r := by
  have hrun := Mealy.run_eq (f := scheduler) Served.step_refines
    (fun _ _ _ _ h hserve => h.serve hserve) calls ({} : TaskSystem τ) .initial
  change Mealy.run Scheduler.serve {} calls = _ at hrun
  rw [hrun, Option.map_eq_some_iff] at h
  obtain ⟨⟨s, replies'⟩, hs, heq⟩ := h
  cases heq
  exact ⟨s, Mealy.run_invariant (fun _ _ _ _ h hserve => h.serve hserve)
    .initial hs, rfl⟩

end TaskSystem

end EventHub
