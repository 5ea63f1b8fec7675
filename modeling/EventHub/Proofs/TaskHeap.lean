import EventHub.Task.System

/-!
# The delayed heap stays in order

`pushHeap` inserts in the order of `(due, seq)` and everything else only takes
entries out, so the front of the list is the entry `std::pop_heap` hands out.
-/

namespace EventHub

variable {τ : Type}

theorem Entry.popsBefore_iff {lhs rhs : Entry τ} :
    lhs.popsBefore rhs ↔
      lhs.due < rhs.due ∨ lhs.due = rhs.due ∧ lhs.seq ≤ rhs.seq := by
  unfold Entry.popsBefore delayedSooner
  split
  · next h =>
      rw [decide_eq_false_iff_not]
      omega
  · next h =>
      rw [decide_eq_false_iff_not]
      omega

instance : IsTrans (Entry τ) Entry.popsBefore :=
  ⟨fun a b c hab hbc => by rw [Entry.popsBefore_iff] at *; omega⟩

instance : Std.Total (α := Entry τ) Entry.popsBefore :=
  ⟨fun a b => by rw [Entry.popsBefore_iff, Entry.popsBefore_iff]; omega⟩

theorem Entry.popsBefore.due_le {lhs rhs : Entry τ}
    (h : lhs.popsBefore rhs) : lhs.due ≤ rhs.due := by
  rw [Entry.popsBefore_iff] at h
  omega

/-- The heap is in the order in which it is popped. -/
def HeapOrdered (heap : List (Entry τ)) : Prop :=
  heap.Pairwise Entry.popsBefore

theorem HeapOrdered.pushHeap {heap : List (Entry τ)} (h : HeapOrdered heap)
    (entry : Entry τ) : HeapOrdered (pushHeap heap entry) :=
  List.Pairwise.orderedInsert entry heap h

theorem HeapOrdered.suffix {heap heap' : List (Entry τ)}
    (h : HeapOrdered heap) (hs : heap' <:+ heap) : HeapOrdered heap' :=
  h.sublist hs.sublist

namespace TaskManager

variable {m : TaskManager τ}

theorem delayedHeap_promoteLoop (now : Int) (heap : List (Entry τ)) :
    ∀ m : TaskManager τ, (promoteLoop now heap m).delayedHeap <:+ heap := by
  induction heap with
  | nil => exact fun m => List.suffix_rfl
  | cons entry heap ih =>
      intro m
      rw [promoteLoop]
      split
      · exact (ih m).trans (List.suffix_cons entry heap)
      · split
        · exact (ih _).trans (List.suffix_cons entry heap)
        · exact List.suffix_rfl

theorem delayedHeap_takeLoop (maxTasks : Nat) (queue : List (Entry τ)) :
    ∀ (batch : List (Entry τ)) (m : TaskManager τ),
      (takeLoop maxTasks queue batch m).2.2.delayedHeap = m.delayedHeap := by
  induction queue with
  | nil => exact fun _ _ => rfl
  | cons entry queue ih =>
      intro batch m
      rw [takeLoop]
      split
      · rfl
      · split
        · exact ih _ _
        · exact ih _ _

theorem delayedHeap_takeQueue (maxTasks : Nat) (priority : TaskPriority)
    (batch : List (Entry τ)) (m : TaskManager τ) :
    (takeQueue maxTasks priority batch m).2.delayedHeap = m.delayedHeap :=
  delayedHeap_takeLoop maxTasks (m.ready priority) batch m

theorem delayedHeap_beginProcess (m : TaskManager τ) (now : Int)
    (maxTasks : Nat) :
    (m.beginProcess now maxTasks).2.delayedHeap =
      (m.promoteDueLocked now).delayedHeap := by
  unfold beginProcess takeReadyBatchLocked
  simp only [delayedHeap_takeQueue]

theorem delayedHeap_restoreUnrun (m : TaskManager τ) (batch : List (Entry τ)) :
    (m.restoreUnrun batch).delayedHeap = m.delayedHeap := by
  induction batch with
  | nil => rfl
  | cons entry batch ih =>
      show (restoreEntry entry (m.restoreUnrun batch)).delayedHeap = _
      unfold restoreEntry
      split <;> exact ih

theorem delayedHeap_cancelLoaded (m : TaskManager τ) (id : Nat)
    (loaded : State) :
    (m.cancelLoaded id loaded).1.delayedHeap = m.delayedHeap := by
  unfold cancelLoaded
  repeat' split
  all_goals rfl

theorem delayedHeap_cancelFromContext (m : TaskManager τ) (id : Nat) :
    (m.cancelFromContext id).1.delayedHeap = m.delayedHeap := by
  unfold cancelFromContext
  split
  · rfl
  · split
    · split
      · cases (m.control id).periodic <;> rfl
      · rfl
    · rfl

theorem delayedHeap_rescheduleFromContext (m : TaskManager τ) (id : Nat)
    (due : Int) :
    (m.rescheduleFromContext id due).1.delayedHeap = m.delayedHeap := by
  unfold rescheduleFromContext
  repeat' split
  all_goals rfl

theorem delayedHeap_clearPending (m : TaskManager τ) :
    m.clearPending.1.delayedHeap = [] := rfl

theorem HeapOrdered.post (h : HeapOrdered m.delayedHeap) (task : Option τ)
    (options : TaskOptions) : HeapOrdered (m.post task options).1.delayedHeap := by
  unfold TaskManager.post
  cases task with
  | none => exact h
  | some task =>
      dsimp only
      split <;> exact h

theorem HeapOrdered.postAt (h : HeapOrdered m.delayedHeap) (now due : Int)
    (task : Option τ) (options : TaskOptions) :
    HeapOrdered (m.postAt now due task options).1.delayedHeap := by
  unfold TaskManager.postAt
  cases task with
  | none => exact h
  | some task =>
      dsimp only
      split
      · exact h
      · split
        · exact h
        · exact h.pushHeap _

theorem HeapOrdered.postEveryAfter (h : HeapOrdered m.delayedHeap)
    (now now' initialDelay interval : Int) (task : Option τ)
    (options : PeriodicTaskOptions) :
    HeapOrdered (m.postEveryAfter now now' initialDelay interval task
      options).1.delayedHeap := by
  unfold TaskManager.postEveryAfter enqueuePeriodicLocked
  cases task with
  | none => exact h
  | some task =>
      dsimp only
      split
      · exact h
      · split
        · exact h
        · split
          · split
            · exact h
            · exact h.pushHeap _
          · split
            · exact h
            · exact h.pushHeap _

theorem delayedHeap_postBatchLoop (options : TaskOptions)
    (tasks : List (Option τ)) :
    ∀ m : TaskManager τ,
      (postBatchLoop options tasks m).1.delayedHeap = m.delayedHeap := by
  induction tasks with
  | nil => exact fun _ => rfl
  | cons task tasks ih =>
      intro m
      cases task with
      | none => exact ih m
      | some task => exact ih _

theorem delayedHeap_postBatch (m : TaskManager τ) (tasks : List (Option τ))
    (options : TaskOptions) :
    (m.postBatch tasks options).1.delayedHeap = m.delayedHeap := by
  unfold postBatch
  split
  · rfl
  · exact delayedHeap_postBatchLoop options tasks m

theorem HeapOrdered.enqueueExistingLocked (h : HeapOrdered m.delayedHeap)
    (now : Int) (entry : Entry τ) (due : Int) :
    HeapOrdered (m.enqueueExistingLocked now entry due).delayedHeap := by
  unfold TaskManager.enqueueExistingLocked
  split
  · split
    · cases entry.periodic <;> exact h
    · cases entry.periodic <;> exact h.pushHeap _
  · exact h

theorem delayedHeap_complete (m : TaskManager τ) (entry : Entry τ) :
    (m.complete entry).delayedHeap = m.delayedHeap := by
  unfold complete
  cases entry.periodic <;> rfl

theorem HeapOrdered.finishAfterSuccess (h : HeapOrdered m.delayedHeap)
    (now now' : Int) (entry : Entry τ) :
    HeapOrdered (m.finishAfterSuccess now now' entry).delayedHeap := by
  unfold TaskManager.finishAfterSuccess
  split
  · exact h
  · split
    · exact h
    · split
      · rw [dropReschedule_delayedHeap, delayedHeap_complete]
        exact h
      · split
        · exact HeapOrdered.enqueueExistingLocked
            (m := m.dropReschedule entry.id) h _ _ _
        · split
          · exact HeapOrdered.enqueueExistingLocked h _ _ _
          · exact h

theorem delayedHeap_finishAfterException (m : TaskManager τ)
    (entry : Entry τ) :
    (m.finishAfterException entry).delayedHeap = m.delayedHeap := by
  unfold finishAfterException
  dsimp only
  split
  · exact delayedHeap_complete _ _
  · split <;> rfl

end TaskManager

namespace TaskSystem

open TaskManager

theorem stepFree_heap {s s' : TaskSystem τ} {a : TaskAction τ}
    (hstep : s.stepFree a = some s') :
    s'.mgr.delayedHeap = s.mgr.delayedHeap := by
  cases a <;> simp only [stepFree] at hstep <;> try contradiction
  all_goals
    split at hstep <;> try contradiction
    try split at hstep
    all_goals
      injection hstep with hstep
      subst hstep
      try rfl
  · next mgr hstart =>
      unfold start at hstart
      split at hstart
      · injection hstart with hstart
        subst hstart
        rfl
      · contradiction
  · show (settleStart _ _).delayedHeap = _
    unfold settleStart
    split <;> rfl

theorem stepLocked_heapOrdered {s s' : TaskSystem τ} {a : TaskAction τ}
    (h : HeapOrdered s.mgr.delayedHeap) (hstep : s.stepLocked a = some s') :
    HeapOrdered s'.mgr.delayedHeap := by
  cases a <;> simp only [stepLocked] at hstep <;> try contradiction
  case post task options =>
    injection hstep with hstep
    subst hstep
    exact HeapOrdered.post h task options
  case postAt now due task options =>
    injection hstep with hstep
    subst hstep
    exact HeapOrdered.postAt h now due task options
  case postEveryAfter now now' initialDelay interval task options =>
    injection hstep with hstep
    subst hstep
    exact HeapOrdered.postEveryAfter h _ _ _ _ task options
  case postBatch tasks options =>
    injection hstep with hstep
    subst hstep
    show HeapOrdered (s.mgr.postBatch tasks options).1.delayedHeap
    rw [delayedHeap_postBatch]
    exact h
  case close =>
    injection hstep with hstep
    subst hstep
    exact h
  case cancelLoad id =>
    split at hstep
    all_goals
      injection hstep with hstep
      subst hstep
      exact h
  case contextCancel id =>
    injection hstep with hstep
    subst hstep
    show HeapOrdered (s.mgr.cancelFromContext id).1.delayedHeap
    rw [delayedHeap_cancelFromContext]
    exact h
  case contextReschedule id due =>
    injection hstep with hstep
    subst hstep
    show HeapOrdered (s.mgr.rescheduleFromContext id due).1.delayedHeap
    rw [delayedHeap_rescheduleFromContext]
    exact h
  case clearPending =>
    injection hstep with hstep
    subst hstep
    exact List.Pairwise.nil
  case nextDeadline =>
    injection hstep with hstep
    subst hstep
    exact h.suffix (List.dropWhile_suffix _)
  case processBegin now maxTasks =>
    split at hstep
    · split at hstep
      · injection hstep with hstep
        subst hstep
        exact h
      · injection hstep with hstep
        subst hstep
        show HeapOrdered (s.mgr.beginProcess now maxTasks).2.delayedHeap
        rw [delayedHeap_beginProcess]
        exact h.suffix (delayedHeap_promoteLoop now _ _)
    · contradiction
  case callbackReturned now now' =>
    split at hstep
    · injection hstep with hstep
      subst hstep
      exact HeapOrdered.finishAfterSuccess h now now' _
    · contradiction
  case callbackThrew =>
    split at hstep
    · next entry unrun hph =>
        injection hstep with hstep
        subst hstep
        show HeapOrdered (s.mgr.finishAfterException entry).delayedHeap
        rw [delayedHeap_finishAfterException]
        exact h
    · contradiction
  case exceptionEscaped =>
    split at hstep
    · next unrun hph =>
        injection hstep with hstep
        subst hstep
        show HeapOrdered (s.mgr.restoreUnrun unrun).delayedHeap
        rw [delayedHeap_restoreUnrun]
        exact h
    · contradiction

theorem step_heapOrdered {s s' : TaskSystem τ} {a : TaskAction τ}
    (h : HeapOrdered s.mgr.delayedHeap) (hstep : s.step a = some s') :
    HeapOrdered s'.mgr.delayedHeap := by
  unfold step at hstep
  split at hstep
  · rw [stepFree_heap hstep]; exact h
  · rw [stepFree_heap hstep]; exact h
  · rw [stepFree_heap hstep]; exact h
  · rw [stepFree_heap hstep]; exact h
  · unfold stepExchange at hstep
    split at hstep
    · next id loaded hc =>
        injection hstep with hstep
        subst hstep
        show HeapOrdered (s.mgr.cancelLoaded id loaded).1.delayedHeap
        rw [delayedHeap_cancelLoaded]
        exact h
    · contradiction
  · split at hstep
    · exact stepLocked_heapOrdered h hstep
    · contradiction

theorem Reachable.heapOrdered {s : TaskSystem τ} (h : s.Reachable) :
    HeapOrdered s.mgr.delayedHeap := by
  have hinit : HeapOrdered ({} : TaskSystem τ).mgr.delayedHeap :=
    List.Pairwise.nil
  exact Lts.Reachable.invariant (P := fun s => HeapOrdered s.mgr.delayedHeap) h
    hinit fun _ _ _ => step_heapOrdered

end TaskSystem

end EventHub
