import Mathlib.Order.Bounds.Basic
import EventHub.Proofs.TaskRestore

/-!
# Deadline queries see through cancelled entries

The heap may hold cancelled entries anywhere, and only its top is ever looked
at. Because it is in order, what a query finds there is what it would find in a
heap without them, and pruning the top is something no later step can tell.
-/

namespace EventHub

variable {τ : Type}

/-! ## Promotion in one piece -/

namespace TaskManager

variable {m m' : TaskManager τ}

theorem dead_promoteEntry (m : TaskManager τ) (entry : Entry τ) :
    (m.promoteEntry entry).dead = m.dead := by
  unfold promoteEntry
  split
  · next hst =>
      funext e
      simp only [dead, stateOf_incrementReadyCount, pushBackReady,
        stateOf_setQueue, stateOf_setState]
      split
      · next he => rw [he, hst]; rfl
      · rfl
  · rfl

theorem promoteEntry_setDelayed (m : TaskManager τ) (heap : List (Entry τ))
    (entry : Entry τ) : (m.setDelayed heap).promoteEntry entry =
      (m.promoteEntry entry).setDelayed heap := by
  unfold promoteEntry
  rw [stateOf_setDelayed]
  split <;> rfl

theorem foldl_promoteEntry_setDelayed (heap due : List (Entry τ)) :
    ∀ m : TaskManager τ, due.foldl promoteEntry (m.setDelayed heap) =
      (due.foldl promoteEntry m).setDelayed heap := by
  induction due with
  | nil => exact fun _ => rfl
  | cons entry due ih =>
      intro m
      rw [List.foldl_cons, List.foldl_cons, promoteEntry_setDelayed, ih]

/-- The loop walks over dead and due entries and promotes the live ones of
them. -/
theorem promoteLoop_eq (now : Int) (heap : List (Entry τ)) :
    ∀ m : TaskManager τ, promoteLoop now heap m =
      (((heap.takeWhile fun e => !!m.dead e || decide (e.due ≤ now)).filter
        fun e => !m.dead e).foldl promoteEntry m).setDelayed
          (heap.dropWhile fun e => !!m.dead e || decide (e.due ≤ now)) := by
  induction heap with
  | nil => exact fun _ => rfl
  | cons entry heap ih =>
      intro m
      rw [promoteLoop]
      by_cases hdead : m.dead entry
      · simp [hdead, ih m]
      · by_cases hdue : entry.due ≤ now
        · simp [hdead, hdue, ih, dead_promoteEntry]
        · simp [hdead, hdue]

/-- The tasks that `promote_due_locked` finds due. -/
def dueEntries (m : TaskManager τ) (now : Int) : List (Entry τ) :=
  m.delayedHeap.filter fun e => !m.dead e && decide (e.due ≤ now)

theorem promoteDueLocked_eq (hord : HeapOrdered m.delayedHeap) (now : Int) :
    m.promoteDueLocked now =
      ((m.dueEntries now).foldl promoteEntry m).setDelayed
        (m.delayedHeap.dropWhile fun e => !!m.dead e || decide (e.due ≤ now)) := by
  have hdue : ∀ a b : Entry τ, a.popsBefore b → decide (b.due ≤ now) →
      decide (a.due ≤ now) := by
    intro a b hab hb
    rw [decide_eq_true_eq] at hb ⊢
    exact Int.le_trans hab.due_le hb
  unfold promoteDueLocked dueEntries
  rw [promoteLoop_eq, List.filter_takeWhile_or (p := fun e => !m.dead e) hdue hord]

/-- Promoting tasks that are delayed, one after another. -/
theorem foldl_promoteEntry (due : List (Entry τ)) : ∀ m : TaskManager τ,
    (∀ e ∈ due, m.stateOf e.id = .queuedDelayed) → (due.map Entry.id).Nodup →
    (∀ priority, (due.foldl promoteEntry m).ready priority =
      m.ready priority ++ due.filter fun e => e.priority = priority) ∧
    (∀ id, (due.foldl promoteEntry m).stateOf id =
      if id ∈ due.map Entry.id then .queuedReady else m.stateOf id) ∧
    (due.foldl promoteEntry m).readyCount = m.readyCount + due.length := by
  induction due with
  | nil => exact fun m _ _ => ⟨by simp, by simp, by simp⟩
  | cons entry due ih =>
      intro m hst hnodup
      rw [List.map_cons, List.nodup_cons] at hnodup
      have hentry := hst entry List.mem_cons_self
      have hfirst : m.promoteEntry entry = ((m.setState entry.id .queuedReady
          ).pushBackReady entry).incrementReadyCount := by
        rw [promoteEntry, if_pos hentry]
      have hrest : ∀ e ∈ due, (m.promoteEntry entry).stateOf e.id =
          .queuedDelayed := by
        intro e he
        have hne : e.id ≠ entry.id :=
          fun heq => hnodup.1 (heq ▸ List.mem_map_of_mem he)
        rw [hfirst]
        simp [hne, hst e (List.mem_cons_of_mem _ he)]
      obtain ⟨hready, hstate, hcount⟩ := ih _ hrest hnodup.2
      rw [List.foldl_cons]
      refine ⟨fun priority => ?_, fun id => ?_, ?_⟩
      · rw [hready, hfirst]
        by_cases hp : entry.priority = priority
        · subst hp
          simp
        · simp [hp, Function.update_of_ne (Ne.symm hp)]
      · rw [hstate, hfirst, List.map_cons]
        by_cases hid : id = entry.id <;> simp [hid]
      · rw [hcount, hfirst, List.length_cons]
        simp only [pushBackReady, incrementReadyCount_readyCount,
          setQueue_readyCount, setState_readyCount]
        omega

/-! ## What a heap with fewer dead entries changes -/

/-- The operation on the heap of one manager, and the same one on the heap of
another: nothing, or one push. -/
def Carried (m m' : TaskManager τ) (heap heap' : List (Entry τ)) : Prop :=
  m'.delayedHeap = m.delayedHeap ∧ heap' = heap ∨
    ∃ entry, m'.delayedHeap = pushHeap m.delayedHeap entry ∧
      heap' = pushHeap heap entry

theorem Carried.filter {heap heap' : List (Entry τ)}
    (h : Carried m m' heap heap') (hord : HeapOrdered m.delayedHeap)
    (hord' : HeapOrdered heap)
    (hsame : heap.filter m.live = m.delayedHeap.filter m.live) :
    heap'.filter m.live = m'.delayedHeap.filter m.live := by
  rcases h with ⟨h1, h2⟩ | ⟨entry, h1, h2⟩ <;> rw [h1, h2]
  · exact hsame
  · exact List.filter_orderedInsert_congr hord' hord hsame entry

theorem post_setDelayed (m : TaskManager τ) (heap : List (Entry τ))
    (task : Option τ) (options : TaskOptions) :
    (m.setDelayed heap).post task options =
      ((m.post task options).1.setDelayed heap, (m.post task options).2) ∧
    (m.post task options).1.delayedHeap = m.delayedHeap := by
  unfold post
  cases task with
  | none => exact ⟨rfl, rfl⟩
  | some task =>
      by_cases hclosed : m.closed
      · simp [hclosed]
      · simp only [setDelayed_closed, if_neg hclosed]
        exact ⟨rfl, rfl⟩

theorem postAt_setDelayed (m : TaskManager τ) (heap : List (Entry τ))
    (now due : Int) (task : Option τ) (options : TaskOptions) :
    ∃ heap', (m.setDelayed heap).postAt now due task options =
        ((m.postAt now due task options).1.setDelayed heap',
          (m.postAt now due task options).2) ∧
      Carried m (m.postAt now due task options).1 heap heap' := by
  unfold postAt
  cases task with
  | none => exact ⟨heap, rfl, .inl ⟨rfl, rfl⟩⟩
  | some task =>
      cases hclosed : m.closed <;> simp only [hclosed, setDelayed_closed,
        Bool.false_eq_true, if_true, if_false]
      case true => exact ⟨heap, rfl, .inl ⟨rfl, rfl⟩⟩
      case false =>
        by_cases hdue : due ≤ now
        · simp only [if_pos hdue]
          exact ⟨heap, rfl, .inl ⟨rfl, rfl⟩⟩
        · simp only [if_neg hdue]
          exact ⟨_, rfl, .inr ⟨_, rfl, rfl⟩⟩

theorem enqueuePeriodicLocked_setDelayed (m : TaskManager τ)
    (heap : List (Entry τ)) (now due interval : Int) (task : τ)
    (options : PeriodicTaskOptions) :
    ∃ heap', (m.setDelayed heap).enqueuePeriodicLocked now due interval task
        options =
        ((m.enqueuePeriodicLocked now due interval task options).1.setDelayed
          heap', (m.enqueuePeriodicLocked now due interval task options).2) ∧
      Carried m (m.enqueuePeriodicLocked now due interval task options).1 heap
        heap' := by
  unfold enqueuePeriodicLocked
  by_cases hdue : due ≤ now
  · simp only [if_pos hdue]
    exact ⟨heap, rfl, .inl ⟨rfl, rfl⟩⟩
  · simp only [if_neg hdue]
    exact ⟨_, rfl, .inr ⟨_, rfl, rfl⟩⟩

theorem postEveryAfter_setDelayed (m : TaskManager τ) (heap : List (Entry τ))
    (now now' initialDelay interval : Int) (task : Option τ)
    (options : PeriodicTaskOptions) :
    ∃ heap', (m.setDelayed heap).postEveryAfter now now' initialDelay interval
        task options =
        ((m.postEveryAfter now now' initialDelay interval task
          options).1.setDelayed heap',
          (m.postEveryAfter now now' initialDelay interval task options).2) ∧
      Carried m (m.postEveryAfter now now' initialDelay interval task options).1
        heap heap' := by
  unfold postEveryAfter
  cases task with
  | none => exact ⟨heap, rfl, .inl ⟨rfl, rfl⟩⟩
  | some task =>
      cases hclosed : m.closed <;> simp only [hclosed, setDelayed_closed,
        Bool.false_eq_true, if_true, if_false]
      case true => exact ⟨heap, by split <;> rfl, .inl ⟨by split <;> rfl, rfl⟩⟩
      case false =>
        by_cases hinterval : interval ≤ 0
        · simp only [if_pos hinterval]
          exact ⟨heap, rfl, .inl ⟨rfl, rfl⟩⟩
        · simp only [if_neg hinterval]
          exact enqueuePeriodicLocked_setDelayed m heap _ _ _ _ _

theorem postBatchLoop_setDelayed (heap : List (Entry τ)) (options : TaskOptions)
    (tasks : List (Option τ)) : ∀ m : TaskManager τ,
    postBatchLoop options tasks (m.setDelayed heap) =
      ((postBatchLoop options tasks m).1.setDelayed heap,
        (postBatchLoop options tasks m).2) := by
  induction tasks with
  | nil => exact fun _ => rfl
  | cons task tasks ih =>
      intro m
      cases task with
      | none => simp only [postBatchLoop, ih]
      | some task =>
          have henqueue : (m.setDelayed heap).enqueueReadyLocked task options =
              ((m.enqueueReadyLocked task options).1.setDelayed heap,
                (m.enqueueReadyLocked task options).2) := rfl
          simp only [postBatchLoop, henqueue, ih]

theorem postBatch_setDelayed (m : TaskManager τ) (heap : List (Entry τ))
    (tasks : List (Option τ)) (options : TaskOptions) :
    (m.setDelayed heap).postBatch tasks options =
      ((m.postBatch tasks options).1.setDelayed heap,
        (m.postBatch tasks options).2) := by
  unfold postBatch
  rw [setDelayed_closed]
  split
  · rfl
  · exact postBatchLoop_setDelayed heap options tasks m

theorem cancelLoaded_setDelayed (m : TaskManager τ) (heap : List (Entry τ))
    (id : Nat) (loaded : State) : (m.setDelayed heap).cancelLoaded id loaded =
      ((m.cancelLoaded id loaded).1.setDelayed heap,
        (m.cancelLoaded id loaded).2) := by
  unfold cancelLoaded
  rw [stateOf_setDelayed]
  cases loaded
  case cancelled => rfl
  case completed => rfl
  case executing =>
    show (if !(m.control id).periodic then _ else _) = _
    dsimp only
    split
    · rfl
    · split <;> rfl
  all_goals
    dsimp only
    split <;> rfl

theorem cancelFromContext_setDelayed (m : TaskManager τ)
    (heap : List (Entry τ)) (id : Nat) :
    (m.setDelayed heap).cancelFromContext id =
      ((m.cancelFromContext id).1.setDelayed heap, (m.cancelFromContext id).2) := by
  unfold cancelFromContext
  rw [stateOf_setDelayed, setDelayed_index, setDelayed_control]
  split
  · rfl
  · split
    · split
      · dsimp only
        split <;> rfl
      · rfl
    · rfl

theorem rescheduleFromContext_setDelayed (m : TaskManager τ)
    (heap : List (Entry τ)) (id : Nat) (due : Int) :
    (m.setDelayed heap).rescheduleFromContext id due =
      ((m.rescheduleFromContext id due).1.setDelayed heap,
        (m.rescheduleFromContext id due).2) := by
  unfold rescheduleFromContext
  rw [stateOf_setDelayed, setDelayed_index, setDelayed_closed]
  split
  · rfl
  · split
    · rfl
    · split
      · split <;> rfl
      · rfl

theorem start_setDelayed (m : TaskManager τ) (heap : List (Entry τ))
    (entry : Entry τ) : (m.setDelayed heap).start entry =
      (m.start entry).map fun m' => m'.setDelayed heap := by
  unfold start
  rw [stateOf_setDelayed]
  split <;> rfl

theorem settleStart_setDelayed (m : TaskManager τ) (heap : List (Entry τ))
    (entry : Entry τ) : (m.setDelayed heap).settleStart entry =
      (m.settleStart entry).setDelayed heap := by
  unfold settleStart
  split <;> rfl

theorem enqueueExistingLocked_setDelayed (m : TaskManager τ)
    (heap : List (Entry τ)) (now : Int) (entry : Entry τ) (due : Int) :
    ∃ heap', (m.setDelayed heap).enqueueExistingLocked now entry due =
        (m.enqueueExistingLocked now entry due).setDelayed heap' ∧
      Carried m (m.enqueueExistingLocked now entry due) heap heap' := by
  unfold enqueueExistingLocked
  rw [stateOf_setDelayed]
  split
  · cases entry.periodic <;> dsimp only <;> split
    · exact ⟨heap, rfl, .inl ⟨rfl, rfl⟩⟩
    · exact ⟨_, rfl, .inr ⟨_, rfl, rfl⟩⟩
    · exact ⟨heap, rfl, .inl ⟨rfl, rfl⟩⟩
    · exact ⟨_, rfl, .inr ⟨_, rfl, rfl⟩⟩
  · exact ⟨heap, rfl, .inl ⟨rfl, rfl⟩⟩

theorem complete_setDelayed (m : TaskManager τ) (heap : List (Entry τ))
    (entry : Entry τ) : (m.setDelayed heap).complete entry =
      (m.complete entry).setDelayed heap := by
  unfold complete
  cases entry.periodic <;> rfl

theorem finishAfterSuccess_setDelayed (m : TaskManager τ)
    (heap : List (Entry τ)) (now now' : Int) (entry : Entry τ) :
    ∃ heap', (m.setDelayed heap).finishAfterSuccess now now' entry =
        (m.finishAfterSuccess now now' entry).setDelayed heap' ∧
      Carried m (m.finishAfterSuccess now now' entry) heap heap' := by
  unfold finishAfterSuccess
  rw [stateOf_setDelayed, setDelayed_closed, setDelayed_control]
  split
  · exact ⟨heap, rfl, .inl ⟨rfl, rfl⟩⟩
  · split
    · exact ⟨heap, rfl, .inl ⟨rfl, rfl⟩⟩
    · split
      · refine ⟨heap, ?_, .inl ⟨delayedHeap_complete m entry, rfl⟩⟩
        rw [complete_setDelayed]
        rfl
      · split
        · exact enqueueExistingLocked_setDelayed (m.dropReschedule entry.id) heap
            now' entry _
        · split
          · exact enqueueExistingLocked_setDelayed m heap now' entry _
          · exact ⟨heap, rfl, .inl ⟨rfl, rfl⟩⟩

theorem finishAfterException_setDelayed (m : TaskManager τ)
    (heap : List (Entry τ)) (entry : Entry τ) :
    (m.setDelayed heap).finishAfterException entry =
      (m.finishAfterException entry).setDelayed heap := by
  unfold finishAfterException
  have hdrop : (m.setDelayed heap).dropReschedule entry.id =
      (m.dropReschedule entry.id).setDelayed heap := rfl
  rw [hdrop]
  dsimp only
  rw [stateOf_setDelayed]
  split
  · exact complete_setDelayed _ heap entry
  · split <;> rfl

theorem restoreUnrun_setDelayed (m : TaskManager τ) (heap : List (Entry τ))
    (batch : List (Entry τ)) : (m.setDelayed heap).restoreUnrun batch =
      (m.restoreUnrun batch).setDelayed heap := by
  induction batch with
  | nil => rfl
  | cons entry batch ih =>
      show restoreEntry entry ((m.setDelayed heap).restoreUnrun batch) =
        (restoreEntry entry (m.restoreUnrun batch)).setDelayed heap
      rw [ih]
      unfold restoreEntry
      rw [stateOf_setDelayed]
      split <;> rfl

/-- One entry of the heap in `clear_pending` that is not delayed is passed
over, and nothing on the way makes it delayed. -/
theorem foldl_clearDelayedEntry (m : TaskManager τ) (heap : List (Entry τ)) :
    ∀ r : TaskManager τ × List Nat,
      (∀ id, r.1.stateOf id = .queuedDelayed → m.stateOf id = .queuedDelayed) →
      heap.foldl clearDelayedEntry r = (heap.filter fun e =>
        m.stateOf e.id = .queuedDelayed).foldl clearDelayedEntry r := by
  induction heap with
  | nil => exact fun _ _ => rfl
  | cons entry heap ih =>
      intro r hr
      have hkeeps : ∀ id, (clearDelayedEntry r entry).1.stateOf id =
          .queuedDelayed → m.stateOf id = .queuedDelayed := by
        intro id hid
        unfold clearDelayedEntry at hid
        split at hid
        · refine hr id ?_
          simp only [cancelled, stateOf_eraseIndex, stateOf_decrementPendingCount,
            stateOf_setState] at hid
          split at hid
          · cases hid
          · exact hid
        · exact hr id hid
      rw [List.foldl_cons, ih _ hkeeps]
      by_cases hst : m.stateOf entry.id = .queuedDelayed
      · rw [List.filter_cons, if_pos (decide_eq_true hst), List.foldl_cons]
      · have hpassed : clearDelayedEntry r entry = r := by
          unfold clearDelayedEntry
          rw [if_neg fun hq => hst (hr _ hq)]
        rw [List.filter_cons, if_neg (by simpa using hst), hpassed]

theorem clearQueue_setDelayed (heap : List (Entry τ)) (priority : TaskPriority)
    (r : TaskManager τ × List Nat) :
    clearQueue priority (r.1.setDelayed heap, r.2) =
      ((clearQueue priority r).1.setDelayed heap, (clearQueue priority r).2) := by
  have hloop : ∀ (queue : List (Entry τ)) (r : TaskManager τ × List Nat),
      queue.foldl clearReadyEntry (r.1.setDelayed heap, r.2) =
        ((queue.foldl clearReadyEntry r).1.setDelayed heap,
          (queue.foldl clearReadyEntry r).2) := by
    intro queue
    induction queue with
    | nil => exact fun _ => rfl
    | cons entry queue ih =>
        intro r
        have hentry : clearReadyEntry (r.1.setDelayed heap, r.2) entry =
            ((clearReadyEntry r entry).1.setDelayed heap,
              (clearReadyEntry r entry).2) := by
          unfold clearReadyEntry
          rw [stateOf_setDelayed]
          split <;> rfl
        rw [List.foldl_cons, List.foldl_cons, hentry, ih]
  unfold clearQueue
  rw [setDelayed_ready, hloop]
  rfl

/-- Clearing a ready list delays nothing and leaves the heap. -/
theorem clearQueue_delayed (priority : TaskPriority)
    (r : TaskManager τ × List Nat) :
    (∀ id, (clearQueue priority r).1.stateOf id = .queuedDelayed →
      r.1.stateOf id = .queuedDelayed) ∧
    (clearQueue priority r).1.delayedHeap = r.1.delayedHeap := by
  have hloop : ∀ (queue : List (Entry τ)) (r : TaskManager τ × List Nat),
      (∀ id, (queue.foldl clearReadyEntry r).1.stateOf id = .queuedDelayed →
        r.1.stateOf id = .queuedDelayed) ∧
      (queue.foldl clearReadyEntry r).1.delayedHeap = r.1.delayedHeap := by
    intro queue
    induction queue with
    | nil => exact fun _ => ⟨fun _ h => h, rfl⟩
    | cons entry queue ih =>
        intro r
        have hentry : (∀ id, (clearReadyEntry r entry).1.stateOf id =
              .queuedDelayed → r.1.stateOf id = .queuedDelayed) ∧
            (clearReadyEntry r entry).1.delayedHeap = r.1.delayedHeap := by
          unfold clearReadyEntry
          split
          · refine ⟨fun id hid => ?_, rfl⟩
            simp only [cancelled, stateOf_eraseIndex, stateOf_decrementPendingCount,
              stateOf_decrementReadyCount, stateOf_setState] at hid
            split at hid
            · cases hid
            · exact hid
          · exact ⟨fun _ h => h, rfl⟩
        exact ⟨fun id hid => hentry.1 id ((ih _).1 id hid),
          (ih _).2.trans hentry.2⟩
  exact hloop _ _

/-- Whatever dead entries the heap holds, `clear_pending` does the same. -/
theorem clearPending_setDelayed {heap : List (Entry τ)}
    (h : (heap.filter fun e => m.stateOf e.id = .queuedDelayed) =
      m.delayedHeap.filter fun e => m.stateOf e.id = .queuedDelayed) :
    (m.setDelayed heap).clearPending = m.clearPending := by
  obtain ⟨hstate₁, hheap₁⟩ := clearQueue_delayed .high (m, [])
  obtain ⟨hstate₂, hheap₂⟩ :=
    clearQueue_delayed .normal (clearQueue .high (m, []))
  obtain ⟨hstate₃, hheap₃⟩ :=
    clearQueue_delayed .low (clearQueue .normal (clearQueue .high (m, [])))
  have hstate := fun id hid => hstate₁ id (hstate₂ id (hstate₃ id hid))
  have hheap := (hheap₃.trans hheap₂).trans hheap₁
  unfold clearPending
  rw [show ((m.setDelayed heap, []) : TaskManager τ × List Nat) =
      (((m, []) : TaskManager τ × List Nat).1.setDelayed heap, []) from rfl,
    clearQueue_setDelayed, clearQueue_setDelayed, clearQueue_setDelayed]
  generalize clearQueue .low (clearQueue .normal (clearQueue .high (m, []))) = r
    at hstate hheap ⊢
  have hloop : ∀ (l : List (Entry τ)) (r : TaskManager τ × List Nat),
      l.foldl clearDelayedEntry (r.1.setDelayed heap, r.2) =
        ((l.foldl clearDelayedEntry r).1.setDelayed heap,
          (l.foldl clearDelayedEntry r).2) := by
    intro l
    induction l with
    | nil => exact fun _ => rfl
    | cons entry l ih =>
        intro r
        have hentry : clearDelayedEntry (r.1.setDelayed heap, r.2) entry =
            ((clearDelayedEntry r entry).1.setDelayed heap,
              (clearDelayedEntry r entry).2) := by
          unfold clearDelayedEntry
          rw [stateOf_setDelayed]
          split <;> rfl
        rw [List.foldl_cons, List.foldl_cons, hentry, ih]
  unfold clearDelayed
  rw [setDelayed_delayedHeap, hloop, foldl_clearDelayedEntry m heap r hstate, h,
    ← foldl_clearDelayedEntry m m.delayedHeap r hstate, hheap]
  rfl

/-! ## The calls that look at the heap -/

theorem takeLoop_setDelayed (maxTasks : Nat) (heap queue : List (Entry τ)) :
    ∀ (batch : List (Entry τ)) (m : TaskManager τ),
      takeLoop maxTasks queue batch (m.setDelayed heap) =
        ((takeLoop maxTasks queue batch m).1,
          (takeLoop maxTasks queue batch m).2.1,
          (takeLoop maxTasks queue batch m).2.2.setDelayed heap) := by
  induction queue with
  | nil => exact fun _ _ => rfl
  | cons entry queue ih =>
      intro batch m
      rw [takeLoop, takeLoop, stateOf_setDelayed]
      split
      · rfl
      · split
        · exact ih (batch ++ [entry])
            (m.setState entry.id .readySnapshot).decrementReadyCount
        · exact ih batch m

theorem takeQueue_setDelayed (maxTasks : Nat) (priority : TaskPriority)
    (heap batch : List (Entry τ)) (m : TaskManager τ) :
    takeQueue maxTasks priority batch (m.setDelayed heap) =
      ((takeQueue maxTasks priority batch m).1,
        (takeQueue maxTasks priority batch m).2.setDelayed heap) := by
  unfold takeQueue
  rw [setDelayed_ready, takeLoop_setDelayed]
  rfl

theorem takeReadyBatchLocked_setDelayed (m : TaskManager τ)
    (heap : List (Entry τ)) (maxTasks : Nat) :
    (m.setDelayed heap).takeReadyBatchLocked maxTasks =
      ((m.takeReadyBatchLocked maxTasks).1,
        (m.takeReadyBatchLocked maxTasks).2.setDelayed heap) := by
  unfold takeReadyBatchLocked
  simp only [takeQueue_setDelayed]

/-- Two heaps that hold the same live entries give the same batch and hold the
same live entries afterwards. -/
theorem beginProcess_setDelayed {heap : List (Entry τ)}
    (hord : HeapOrdered m.delayedHeap) (hord' : HeapOrdered heap)
    (h : (heap.filter fun e => !m.dead e) =
      m.delayedHeap.filter fun e => !m.dead e) (now : Int) (maxTasks : Nat) :
    ∃ heap', (m.setDelayed heap).beginProcess now maxTasks =
        ((m.beginProcess now maxTasks).1,
          (m.beginProcess now maxTasks).2.setDelayed heap') ∧
      heap' <:+ heap ∧
      (heap'.filter fun e => !m.dead e) =
        (m.beginProcess now maxTasks).2.delayedHeap.filter fun e => !m.dead e := by
  have hdue : ∀ a b : Entry τ, a.popsBefore b → decide (b.due ≤ now) →
      decide (a.due ≤ now) := by
    intro a b hab hb
    rw [decide_eq_true_eq] at hb ⊢
    exact Int.le_trans hab.due_le hb
  have hentries : (m.setDelayed heap).dueEntries now = m.dueEntries now := by
    have hsplit : ∀ l : List (Entry τ),
        (l.filter fun e => !m.dead e && decide (e.due ≤ now)) =
          (l.filter fun e => !m.dead e).filter fun e => decide (e.due ≤ now) := by
      intro l
      rw [List.filter_filter]
      exact List.filter_congr fun e _ => Bool.and_comm _ _
    show (heap.filter fun e => !m.dead e && decide (e.due ≤ now)) =
      m.delayedHeap.filter fun e => !m.dead e && decide (e.due ≤ now)
    rw [hsplit, hsplit, h]
  have hpromote : (m.setDelayed heap).promoteDueLocked now =
      (m.promoteDueLocked now).setDelayed
        (heap.dropWhile fun e => !!m.dead e || decide (e.due ≤ now)) := by
    rw [promoteDueLocked_eq hord', promoteDueLocked_eq hord, hentries,
      foldl_promoteEntry_setDelayed]
    rfl
  refine ⟨heap.dropWhile fun e => !!m.dead e || decide (e.due ≤ now), ?_,
    List.dropWhile_suffix _, ?_⟩
  · unfold beginProcess
    rw [hpromote, takeReadyBatchLocked_setDelayed]
  · rw [delayedHeap_beginProcess, promoteDueLocked_eq hord, setDelayed_delayedHeap,
      List.filter_dropWhile_or (p := fun e => !m.dead e) hdue hord',
      List.filter_dropWhile_or (p := fun e => !m.dead e) hdue hord]
    have hsplit : ∀ l : List (Entry τ),
        (l.filter fun e => !m.dead e && !decide (e.due ≤ now)) =
          (l.filter fun e => !m.dead e).filter fun e => !decide (e.due ≤ now) := by
      intro l
      rw [List.filter_filter]
      exact List.filter_congr fun e _ => Bool.and_comm _ _
    rw [hsplit, hsplit, h]

end TaskManager

namespace TaskSystem

open TaskManager

variable {s s' t : TaskSystem τ}

/-- The same state with another heap. -/
def withHeap (s : TaskSystem τ) (heap : List (Entry τ)) : TaskSystem τ :=
  { s with mgr := s.mgr.setDelayed heap }

/-- What a step does to two states that differ in the heap only. -/
def Parallel (s s' : TaskSystem τ) (t' : Option (TaskSystem τ)) : Prop :=
  ∃ heap', t' = some (s'.withHeap heap') ∧
    heap'.filter s.mgr.live = s'.mgr.delayedHeap.filter s.mgr.live

theorem stepFree_withHeap {a : TaskAction τ} {heap : List (Entry τ)}
    (hsame : heap.filter s.mgr.live = s.mgr.delayedHeap.filter s.mgr.live)
    (h : s.stepFree a = some s') : Parallel s s' ((s.withHeap heap).stepFree a) := by
  have hheap := stepFree_heap h
  refine ⟨heap, ?_, by rw [hheap]; exact hsame⟩
  cases a <;> simp only [stepFree] at h <;> try contradiction
  case processStart =>
    split at h
    · next entry unrun hph =>
        simp only [stepFree, withHeap, hph, start_setDelayed]
        split at h
        · next m hm =>
            rw [hm]
            cases h
            rfl
        · next hm =>
            rw [hm]
            cases h
            rfl
    · contradiction
  case processSettle =>
    split at h
    · next entry unrun hph =>
        cases h
        simp only [stepFree, withHeap, hph, settleStart_setDelayed]
    · contradiction
  case exceptionHandled =>
    split at h
    · next unrun hph =>
        cases h
        simp only [stepFree, withHeap, hph]
    · contradiction
  case processEnd =>
    split at h
    · next hph =>
        cases h
        simp only [stepFree, withHeap, hph]
    · contradiction

theorem stepExchange_withHeap {heap : List (Entry τ)}
    (hsame : heap.filter s.mgr.live = s.mgr.delayedHeap.filter s.mgr.live)
    (h : s.stepExchange = some s') : Parallel s s' (s.withHeap heap).stepExchange := by
  unfold stepExchange at h
  split at h
  · next id loaded hc =>
      rw [Option.some.injEq] at h
      subst h
      refine ⟨heap, ?_, ?_⟩
      · simp only [stepExchange, withHeap, hc, cancelLoaded_setDelayed]
      · rw [delayedHeap_cancelLoaded]
        exact hsame
  · contradiction

theorem stepLocked_withHeap {a : TaskAction τ} {heap : List (Entry τ)}
    (hs : s.Reachable) (ht : (s.withHeap heap).Reachable)
    (hsame : heap.filter s.mgr.live = s.mgr.delayedHeap.filter s.mgr.live)
    (h : s.stepLocked a = some s') :
    Parallel s s' ((s.withHeap heap).stepLocked a) := by
  have hord := hs.heapOrdered
  have hord' : HeapOrdered heap := ht.heapOrdered
  have hinv : s.mgr.Inv s.phase.current s.phase.unrun s.phase.owed := hs.inv
  have hinv' : (s.mgr.setDelayed heap).Inv s.phase.current s.phase.unrun
    s.phase.owed := ht.inv
  have hdead : (heap.filter fun e => !s.mgr.dead e) =
      s.mgr.delayedHeap.filter fun e => !s.mgr.dead e := by
    have hleft : (heap.filter fun e => !s.mgr.dead e) = heap.filter s.mgr.live :=
      List.filter_congr fun e he => by
        rw [show s.mgr.dead e = !s.mgr.live e from hinv'.dead_delayed he,
          Bool.not_not]
    have hright : (s.mgr.delayedHeap.filter fun e => !s.mgr.dead e) =
        s.mgr.delayedHeap.filter s.mgr.live :=
      List.filter_congr fun e he => by rw [hinv.dead_delayed he, Bool.not_not]
    rw [hleft, hright, hsame]
  cases a <;> simp only [stepLocked] at h <;> try contradiction
  case post task options =>
    cases h
    obtain ⟨heq, hheap⟩ := post_setDelayed s.mgr heap task options
    refine ⟨heap, ?_, ?_⟩
    · simp only [stepLocked, withHeap, heq]
      rfl
    · show _ = (s.mgr.post task options).1.delayedHeap.filter _
      rw [hheap]
      exact hsame
  case postAt now due task options =>
    cases h
    obtain ⟨heap', heq, hcarried⟩ :=
      postAt_setDelayed s.mgr heap now due task options
    refine ⟨heap', ?_, hcarried.filter hord hord' hsame⟩
    simp only [stepLocked, withHeap, heq]
    rfl
  case postEveryAfter now now' initialDelay interval task options =>
    cases h
    obtain ⟨heap', heq, hcarried⟩ := postEveryAfter_setDelayed s.mgr heap now
      now' initialDelay interval task options
    refine ⟨heap', ?_, hcarried.filter hord hord' hsame⟩
    simp only [stepLocked, withHeap, heq]
    rfl
  case postBatch tasks options =>
    cases h
    refine ⟨heap, ?_, ?_⟩
    · simp only [stepLocked, withHeap, postBatch_setDelayed]
      rfl
    · show _ = (s.mgr.postBatch tasks options).1.delayedHeap.filter _
      rw [delayedHeap_postBatch]
      exact hsame
  case close =>
    cases h
    exact ⟨heap, rfl, hsame⟩
  case cancelLoad id =>
    refine ⟨heap, ?_, ?_⟩
    · simp only [stepLocked, withHeap, setDelayed_index, stateOf_setDelayed]
      by_cases hid : id ≠ 0 ∧ id ∈ s.mgr.index
      · rw [if_pos hid] at h ⊢
        cases h
        rfl
      · rw [if_neg hid] at h ⊢
        cases h
        rfl
    · split at h <;> cases h <;> exact hsame
  case contextCancel id =>
    cases h
    refine ⟨heap, ?_, ?_⟩
    · simp only [stepLocked, withHeap, cancelFromContext_setDelayed]
    · rw [delayedHeap_cancelFromContext]
      exact hsame
  case contextReschedule id due =>
    cases h
    refine ⟨heap, ?_, ?_⟩
    · simp only [stepLocked, withHeap, rescheduleFromContext_setDelayed]
    · rw [delayedHeap_rescheduleFromContext]
      exact hsame
  case clearPending =>
    cases h
    have hdelayed : (heap.filter fun e => s.mgr.stateOf e.id = .queuedDelayed) =
        s.mgr.delayedHeap.filter fun e => s.mgr.stateOf e.id = .queuedDelayed := by
      have hleft : (heap.filter fun e => s.mgr.stateOf e.id = .queuedDelayed) =
          heap.filter s.mgr.live :=
        List.filter_congr fun e he => by
          rw [Bool.eq_iff_iff, decide_eq_true_eq]
          exact (hinv'.live_delayed he).symm
      have hright : (s.mgr.delayedHeap.filter fun e =>
          s.mgr.stateOf e.id = .queuedDelayed) =
            s.mgr.delayedHeap.filter s.mgr.live :=
        List.filter_congr fun e he => by
          rw [Bool.eq_iff_iff, decide_eq_true_eq]
          exact (hinv.live_delayed he).symm
      rw [hleft, hright, hsame]
    refine ⟨[], ?_, rfl⟩
    simp only [stepLocked, withHeap, clearPending_setDelayed hdelayed]
    rfl
  case nextDeadline =>
    cases h
    have hleft : (heap.dropWhile s.mgr.dead).filter s.mgr.live =
        heap.filter s.mgr.live := (prune_live fun e he => hinv'.dead_delayed he).1
    have hright : (s.mgr.delayedHeap.dropWhile s.mgr.dead).filter s.mgr.live =
        s.mgr.delayedHeap.filter s.mgr.live :=
      (prune_live fun e he => hinv.dead_delayed he).1
    exact ⟨heap.dropWhile s.mgr.dead, rfl, (hleft.trans hsame).trans hright.symm⟩
  case processBegin now maxTasks =>
    split at h
    · next hph =>
        split at h
        · next hmax =>
            cases h
            refine ⟨heap, ?_, hsame⟩
            simp only [stepLocked, withHeap, hph, if_pos hmax]
        · next hmax =>
            cases h
            obtain ⟨heap', heq, hsuffix, hfilter⟩ :=
              beginProcess_setDelayed hord hord' hdead now maxTasks
            refine ⟨heap', ?_, ?_⟩
            · simp only [stepLocked, withHeap, hph, if_neg hmax, heq]
            · have hleft : (heap'.filter fun e => !s.mgr.dead e) =
                  heap'.filter s.mgr.live :=
                List.filter_congr fun e he => by
                  rw [show s.mgr.dead e = !s.mgr.live e from
                    hinv'.dead_delayed (hsuffix.subset he), Bool.not_not]
              have hright : ((s.mgr.beginProcess now maxTasks).2.delayedHeap.filter
                  fun e => !s.mgr.dead e) =
                  (s.mgr.beginProcess now maxTasks).2.delayedHeap.filter s.mgr.live :=
                List.filter_congr fun e he => by
                  rw [delayedHeap_beginProcess] at he
                  rw [hinv.dead_delayed ((delayedHeap_promoteLoop now _ _).subset he),
                    Bool.not_not]
              rw [← hleft, hfilter, hright]
    · contradiction
  case callbackReturned now now' =>
    split at h
    · next entry unrun hph =>
        cases h
        obtain ⟨heap', heq, hcarried⟩ :=
          finishAfterSuccess_setDelayed s.mgr heap now now' entry
        refine ⟨heap', ?_, hcarried.filter hord hord' hsame⟩
        simp only [stepLocked, withHeap, hph, heq]
    · contradiction
  case callbackThrew =>
    split at h
    · next entry unrun hph =>
        cases h
        refine ⟨heap, ?_, ?_⟩
        · simp only [stepLocked, withHeap, hph, finishAfterException_setDelayed]
        · rw [delayedHeap_finishAfterException]
          exact hsame
    · contradiction
  case exceptionEscaped =>
    split at h
    · next unrun hph =>
        cases h
        refine ⟨heap, ?_, ?_⟩
        · simp only [stepLocked, withHeap, hph, restoreUnrun_setDelayed]
        · rw [delayedHeap_restoreUnrun]
          exact hsame
    · contradiction

theorem step_withHeap {a : TaskAction τ} {heap : List (Entry τ)}
    (hs : s.Reachable) (ht : (s.withHeap heap).Reachable)
    (hsame : heap.filter s.mgr.live = s.mgr.delayedHeap.filter s.mgr.live)
    (h : s.step a = some s') : Parallel s s' ((s.withHeap heap).step a) := by
  have hlocked : (if s.cancelling.isNone then s.stepLocked a else none) = some s' →
      Parallel s s' (if s.cancelling.isNone then
        (s.withHeap heap).stepLocked a else none) := by
    intro h
    split at h
    · next hc =>
        rw [if_pos hc]
        exact stepLocked_withHeap hs ht hsame h
    · contradiction
  cases a
  case processStart => exact stepFree_withHeap (a := .processStart) hsame h
  case processSettle => exact stepFree_withHeap (a := .processSettle) hsame h
  case exceptionHandled => exact stepFree_withHeap (a := .exceptionHandled) hsame h
  case processEnd => exact stepFree_withHeap (a := .processEnd) hsame h
  case cancelExchange => exact stepExchange_withHeap hsame h
  all_goals exact hlocked h

/-- Whatever two such states are asked that does not depend on their heaps,
they go on giving the same answers. -/
theorem run_withHeap {β : Type} (f : TaskSystem τ → β)
    (hf : ∀ (s : TaskSystem τ) (heap : List (Entry τ)), s.Reachable →
      (s.withHeap heap).Reachable →
      heap.filter s.mgr.live = s.mgr.delayedHeap.filter s.mgr.live →
      f (s.withHeap heap) = f s) (acts : List (TaskAction τ)) :
    ∀ (s : TaskSystem τ) (heap : List (Entry τ)), s.Reachable →
      (s.withHeap heap).Reachable →
      heap.filter s.mgr.live = s.mgr.delayedHeap.filter s.mgr.live →
      (Lts.run step (s.withHeap heap) acts).map f =
        (Lts.run step s acts).map f := by
  induction acts with
  | nil => exact fun s heap hs ht hsame => congrArg some (hf s heap hs ht hsame)
  | cons a acts ih =>
      intro s heap hs ht hsame
      cases hstep : s.step a with
      | some s' =>
          obtain ⟨heap', hstep', hsame'⟩ := step_withHeap hs ht hsame hstep
          have hs' : s'.Reachable := hs.trans_run (Lts.run_one hstep)
          have ht' : (s'.withHeap heap').Reachable :=
            ht.trans_run (Lts.run_one hstep')
          rw [Lts.run, Lts.run, hstep, hstep', Option.bind_some, Option.bind_some]
          refine ih s' heap' hs' ht' (List.filter_of_filter (fun e hl => ?_) hsame')
          -- what is live after the step was so before
          obtain ⟨obs, hobs⟩ := step_log hstep
          rw [hs'.live_iff, ← hobs, withdrawn_append, Bool.not_eq_true',
            Bool.or_eq_false_iff] at hl
          rw [hs.live_iff, hl.2]
          rfl
      | none =>
          have hnone : (s.withHeap heap).step a = none := by
            cases hstep' : (s.withHeap heap).step a with
            | none => rfl
            | some t' =>
                have hs' : ((s.withHeap heap).withHeap s.mgr.delayedHeap).Reachable :=
                  hs
                obtain ⟨_, hback, -⟩ := step_withHeap ht hs' hsame.symm hstep'
                change s.step a = _ at hback
                rw [hstep] at hback
                cases hback
          rw [Lts.run, Lts.run, hstep, hnone]

/-! ## The queries -/

/-- What a manager can be asked, and what it is doing. -/
structure Observation (τ : Type) where
  log : List TaskObs
  phase : Phase τ
  processed : Nat
  readyCount : Int
  pendingCount : Int
  closed : Bool
  nextDeadline : Option Int
  contextCancelled : Nat → Bool
  recommendWaitFor : Int → Int → Int

def observe (s : TaskSystem τ) : Observation τ where
  log := s.log
  phase := s.phase
  processed := s.processed
  readyCount := s.mgr.readyCount
  pendingCount := s.mgr.pendingCount
  closed := s.mgr.closed
  nextDeadline := s.mgr.nextDeadline.2
  contextCancelled := s.mgr.isCancelledForContext
  recommendWaitFor := fun now cap => (s.mgr.recommendWaitFor now cap).2

/-- `entry` is that of a delayed task. -/
def Delayed (s : TaskSystem τ) (entry : Entry τ) : Prop :=
  entry ∈ s.mgr.delayedHeap ∧ s.mgr.stateOf entry.id = .queuedDelayed

structure DeadlineQueries (s : TaskSystem τ) : Prop where
  carried : ∀ id, s.mgr.stateOf id = .queuedDelayed ↔
    ∃! entry, s.Delayed entry ∧ entry.id = id
  earliest : ∀ due, s.mgr.nextDeadline.2 = some due ↔
    IsLeast {d | ∃ entry, s.Delayed entry ∧ entry.due = d} due
  absent : s.mgr.nextDeadline.2 = none ↔
    ∀ id, s.mgr.stateOf id ≠ .queuedDelayed
  unobserved : ∀ s', s.step .nextDeadline = some s' → ∀ acts,
    (Lts.run step s' acts).map observe = (Lts.run step s acts).map observe
  promoted : ∀ now, ∃ due : List (Entry τ),
    (∀ entry, entry ∈ due ↔ s.Delayed entry ∧ entry.due ≤ now) ∧
    (due.map Entry.id).Nodup ∧
    (due.Pairwise fun lhs rhs =>
      lhs.due < rhs.due ∨ lhs.due = rhs.due ∧ lhs.seq ≤ rhs.seq) ∧
    (∀ priority, (s.mgr.promoteDueLocked now).ready priority =
      s.mgr.ready priority ++ due.filter fun e => e.priority = priority) ∧
    ∀ id, (s.mgr.promoteDueLocked now).stateOf id =
      if id ∈ due.map Entry.id then .queuedReady else s.mgr.stateOf id
  noWait : ∀ now cap, (∃ id, s.mgr.stateOf id = .queuedReady) ∨
    (∃ entry, s.Delayed entry ∧ entry.due ≤ now) →
    (s.mgr.recommendWaitFor now cap).2 = 0
  wait : ∀ now cap, (∀ id, s.mgr.stateOf id ≠ .queuedReady) →
    (∀ entry, s.Delayed entry → now < entry.due) →
    ((∀ id, s.mgr.stateOf id ≠ .queuedDelayed) →
      (s.mgr.recommendWaitFor now cap).2 = cap) ∧
    ∀ due, IsLeast {d | ∃ entry, s.Delayed entry ∧ entry.due = d} due →
      (s.mgr.recommendWaitFor now cap).2 = min cap (due - now)
  inTime : ∀ now cap entry, s.Delayed entry →
    0 < (s.mgr.recommendWaitFor now cap).2 →
    now + (s.mgr.recommendWaitFor now cap).2 ≤ entry.due

theorem recommendWaitFor_eq (m : TaskManager τ) (now cap : Int) :
    (m.recommendWaitFor now cap).2 =
      if m.hasReady then 0
      else
        match m.nextDeadline.2 with
        | none => cap
        | some due => if due ≤ now then 0 else min cap (due - now) := by
  unfold recommendWaitFor
  split
  · rfl
  · rcases m.nextDeadline with ⟨m', deadline⟩
    cases deadline with
    | none => rfl
    | some due =>
        dsimp only
        split
        · rfl
        · dsimp only
          rw [min_def]
          split_ifs <;> omega

theorem Reachable.delayed_iff (hs : s.Reachable) (entry : Entry τ) :
    s.Delayed entry ↔ entry ∈ s.scheduler.delayed := by
  have hinv : s.mgr.Inv s.phase.current s.phase.unrun s.phase.owed := hs.inv
  rw [scheduler, scheduler_delayed, List.mem_filter]
  exact and_congr_right fun hmem => (hinv.live_delayed hmem).symm

theorem Reachable.nextDeadline_eq (hs : s.Reachable) :
    s.mgr.nextDeadline.2 = s.scheduler.delayed.head?.map Entry.due := by
  have hinv : s.mgr.Inv s.phase.current s.phase.unrun s.phase.owed := hs.inv
  exact (hinv.scheduler_nextDeadline (n := s.processed)).2

theorem Reachable.observe_withHeap {heap : List (Entry τ)} (hs : s.Reachable)
    (ht : (s.withHeap heap).Reachable)
    (hsame : heap.filter s.mgr.live = s.mgr.delayedHeap.filter s.mgr.live) :
    (s.withHeap heap).observe = s.observe := by
  have hdeadline : (s.withHeap heap).mgr.nextDeadline.2 = s.mgr.nextDeadline.2 := by
    rw [ht.nextDeadline_eq, hs.nextDeadline_eq]
    have hdelayed : (s.withHeap heap).scheduler.delayed = s.scheduler.delayed := hsame
    rw [hdelayed]
  have hwait : (fun now cap => ((s.withHeap heap).mgr.recommendWaitFor now cap).2) =
      fun now cap => (s.mgr.recommendWaitFor now cap).2 := by
    funext now cap
    rw [recommendWaitFor_eq, recommendWaitFor_eq, hdeadline]
    rfl
  unfold observe
  rw [hdeadline, hwait]
  rfl

theorem Reachable.unobserved (hs : s.Reachable)
    (h : s.step .nextDeadline = some s') (acts : List (TaskAction τ)) :
    (Lts.run step s' acts).map observe = (Lts.run step s acts).map observe := by
  have hs' : s'.Reachable := hs.trans_run (Lts.run_one h)
  have hinv : s.mgr.Inv s.phase.current s.phase.unrun s.phase.owed := hs.inv
  have heq : s' = s.withHeap (s.mgr.delayedHeap.dropWhile s.mgr.dead) := by
    simp only [step, stepLocked] at h
    split at h
    · exact (Option.some.inj h).symm
    · contradiction
  rw [heq] at hs' ⊢
  exact run_withHeap observe (fun _ _ hs ht hsame => hs.observe_withHeap ht hsame)
    acts s _ hs hs' (prune_live fun e he => hinv.dead_delayed he).1

/-- The least element of an ordered list of deadlines is its first. -/
theorem Reachable.earliest (hs : s.Reachable) (due : Int) :
    s.mgr.nextDeadline.2 = some due ↔
      IsLeast {d | ∃ entry, s.Delayed entry ∧ entry.due = d} due := by
  have hord : s.scheduler.delayed.Pairwise Entry.popsBefore :=
    hs.heapOrdered.sublist List.filter_sublist
  simp only [hs.delayed_iff, hs.nextDeadline_eq]
  cases hdelayed : s.scheduler.delayed with
  | nil => simp [IsLeast]
  | cons entry rest =>
      rw [hdelayed, List.pairwise_cons] at hord
      have hleast : IsLeast {d | ∃ e, e ∈ entry :: rest ∧ e.due = d} entry.due := by
        refine ⟨⟨entry, List.mem_cons_self, rfl⟩, ?_⟩
        rintro _ ⟨e, he, rfl⟩
        rcases List.mem_cons.mp he with rfl | he
        · exact Int.le_refl _
        · exact (hord.1 e he).due_le
      rw [List.head?_cons, Option.map_some, Option.some.injEq]
      exact ⟨fun h => h ▸ hleast, fun h => hleast.unique h⟩

theorem Reachable.carried (hs : s.Reachable) (id : Nat) :
    s.mgr.stateOf id = .queuedDelayed ↔
      ∃! entry, s.Delayed entry ∧ entry.id = id := by
  constructor
  · intro hst
    obtain ⟨entry, hmem, rfl⟩ := exists_of_copies s.mgr.delayedHeap id
      (by rw [hs.represented.queuedDelayed id hst]; decide)
    refine ⟨entry, ⟨⟨hmem, hst⟩, rfl⟩, ?_⟩
    rintro e ⟨hdelayed, hid⟩
    have hnodup := hs.wellFormed.nodup
    have hall : ∀ e, s.Delayed e → e ∈ s.scheduler.all := by
      intro e he
      rw [hs.delayed_iff] at he
      exact Scheduler.delayed_mem_all _ e he
    exact List.inj_on_of_nodup_map hnodup (hall e hdelayed) (hall entry ⟨hmem, hst⟩)
      hid
  · rintro ⟨entry, ⟨hdelayed, rfl⟩, -⟩
    exact hdelayed.2

theorem Reachable.ready_iff (hs : s.Reachable) :
    s.mgr.hasReady ↔ ∃ id, s.mgr.stateOf id = .queuedReady := by
  have hcount := hs.represented.readyCount
  have hinv : s.mgr.Inv s.phase.current s.phase.unrun s.phase.owed := hs.inv
  rw [hasReady, decide_eq_true_eq, hcount, ne_eq, Int.natCast_eq_zero,
    Finset.card_eq_zero, ← ne_eq, ← Finset.nonempty_iff_ne_empty]
  constructor
  · rintro ⟨id, hid⟩
    exact ⟨id, (Finset.mem_filter.mp hid).2⟩
  · rintro ⟨id, hst⟩
    refine ⟨id, Finset.mem_filter.mpr ⟨?_, hst⟩⟩
    exact Finset.mem_range.mpr (hinv.lt_nextId (by rw [hst]; decide))

theorem Reachable.absent (hs : s.Reachable) :
    s.mgr.nextDeadline.2 = none ↔ ∀ id, s.mgr.stateOf id ≠ .queuedDelayed := by
  rw [hs.nextDeadline_eq, Option.map_eq_none_iff, List.head?_eq_none_iff,
    List.eq_nil_iff_forall_not_mem]
  constructor
  · intro h id hst
    obtain ⟨entry, ⟨hdelayed, -⟩, -⟩ := (hs.carried id).mp hst
    exact h entry ((hs.delayed_iff entry).mp hdelayed)
  · exact fun h entry hmem => h entry.id ((hs.delayed_iff entry).mpr hmem).2

/-- The tasks that are due are the front of the live ones. -/
theorem Reachable.promoted (hs : s.Reachable) (now : Int) :
    ∃ due : List (Entry τ),
      (∀ entry, entry ∈ due ↔ s.Delayed entry ∧ entry.due ≤ now) ∧
      (due.map Entry.id).Nodup ∧
      (due.Pairwise fun lhs rhs =>
        lhs.due < rhs.due ∨ lhs.due = rhs.due ∧ lhs.seq ≤ rhs.seq) ∧
      (∀ priority, (s.mgr.promoteDueLocked now).ready priority =
        s.mgr.ready priority ++ due.filter fun e => e.priority = priority) ∧
      ∀ id, (s.mgr.promoteDueLocked now).stateOf id =
        if id ∈ due.map Entry.id then .queuedReady else s.mgr.stateOf id := by
  have hinv : s.mgr.Inv s.phase.current s.phase.unrun s.phase.owed := hs.inv
  have hmem : ∀ entry, entry ∈ s.mgr.dueEntries now ↔
      s.Delayed entry ∧ entry.due ≤ now := by
    intro entry
    rw [dueEntries, List.mem_filter, Bool.and_eq_true, decide_eq_true_eq, ← and_assoc]
    refine and_congr_left fun _ => and_congr_right fun hmem => ?_
    rw [hinv.dead_delayed hmem, Bool.not_not]
    exact hinv.live_delayed hmem
  have hnodup : ((s.mgr.dueEntries now).map Entry.id).Nodup := by
    have hdelayed : (s.scheduler.delayed.map Entry.id).Nodup :=
      hs.wellFormed.nodup.sublist (List.Sublist.map _
        ((List.sublist_append_right _ _).trans
          ((List.sublist_append_left _ _).trans (List.sublist_append_left _ _))))
    have hsub : s.mgr.dueEntries now =
        s.scheduler.delayed.filter fun e => e.due ≤ now := by
      rw [scheduler, scheduler_delayed, List.filter_filter]
      refine List.filter_congr fun e he => ?_
      rw [hinv.dead_delayed he, Bool.not_not, Bool.and_comm]
    rw [hsub]
    exact hdelayed.sublist (List.filter_sublist.map _)
  obtain ⟨hready, hstate, -⟩ := foldl_promoteEntry (s.mgr.dueEntries now) s.mgr
    (fun e he => ((hmem e).mp he).1.2) hnodup
  refine ⟨s.mgr.dueEntries now, hmem, hnodup, ?_, fun priority => ?_, fun id => ?_⟩
  · refine (hs.heapOrdered.sublist List.filter_sublist).imp ?_
    exact fun h => Entry.popsBefore_iff.mp h
  · rw [promoteDueLocked_eq hs.heapOrdered]
    exact hready priority
  · rw [promoteDueLocked_eq hs.heapOrdered]
    exact hstate id

theorem Reachable.deadlineQueries (hs : s.Reachable) : s.DeadlineQueries := by
  have hready := hs.ready_iff
  have hunready : (∀ id, s.mgr.stateOf id ≠ .queuedReady) → ¬ s.mgr.hasReady :=
    fun h hhas => (hready.mp hhas).elim h
  have hearliest := hs.earliest
  constructor
  · exact hs.carried
  · exact hearliest
  · exact hs.absent
  · exact fun s' h acts => hs.unobserved h acts
  · exact hs.promoted
  · intro now cap h
    rw [recommendWaitFor_eq]
    rcases h with hany | ⟨entry, hdelayed, hdue⟩
    · rw [if_pos (hready.mpr hany)]
    · cases hdeadline : s.mgr.nextDeadline.2 with
      | none => exact absurd hdelayed.2 (hs.absent.mp hdeadline entry.id)
      | some due =>
          have hle := ((hearliest due).mp hdeadline).2 ⟨entry, hdelayed, rfl⟩
          dsimp only
          rw [if_pos (Int.le_trans hle hdue), ite_self]
  · intro now cap hnone hlate
    rw [recommendWaitFor_eq, if_neg (hunready hnone)]
    refine ⟨fun habsent => ?_, fun due hleast => ?_⟩
    · rw [hs.absent.mpr habsent]
    · obtain ⟨entry, hdelayed, rfl⟩ := hleast.1
      rw [(hearliest entry.due).mpr hleast]
      exact if_neg (Int.not_le.mpr (hlate entry hdelayed))
  · intro now cap entry hdelayed
    rw [recommendWaitFor_eq]
    split
    · exact fun h => absurd h (Int.lt_irrefl 0)
    · cases hdeadline : s.mgr.nextDeadline.2 with
      | none => exact absurd hdelayed.2 (hs.absent.mp hdeadline entry.id)
      | some due =>
          have hle := ((hearliest due).mp hdeadline).2 ⟨entry, hdelayed, rfl⟩
          dsimp only
          split
          · exact fun h => absurd h (Int.lt_irrefl 0)
          · intro _
            calc now + min cap (due - now) ≤ now + (due - now) :=
                  Int.add_le_add_left (Int.min_le_right _ _) now
              _ = due := by omega
              _ ≤ entry.due := hle

/-- The earliest of three delayed tasks has been cancelled and is still in the
heap. -/
theorem deadlineQueries_cancelled : ∃ s : TaskSystem Unit,
    Lts.run step {} [.postAt 0 3 (some ()) {}, .postAt 0 9 (some ()) {},
      .postAt 0 5 (some ()) {}, .cancelLoad 1, .cancelExchange] = some s ∧
      s.DeadlineQueries :=
  Lts.exists_run rfl fun _ hs => Reachable.deadlineQueries hs

end TaskSystem

end EventHub
