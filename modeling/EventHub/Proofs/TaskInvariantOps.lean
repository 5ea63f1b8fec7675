import EventHub.Proofs.TaskInvariant

/-!
# Every operation keeps the representation invariant

One lemma per critical section. An operation that touches one id goes through
`Inv.touch`, a submission through `Inv.extend`, and a loop through its step
with the rest of the queue still in place.
-/

namespace EventHub

variable {τ : Type}

/-! ## What an accounted id says about one container -/

section Accounted

variable {indexed : Prop} {state : State} {ready delayed current unrun : Nat}

/-- An id with an entry somewhere is not completed. -/
theorem Accounted.ne_completed
    (h : Accounted state indexed ready delayed current unrun)
    (hpos : 0 < ready + delayed + current + unrun) : state ≠ .completed := by
  rintro rfl
  obtain ⟨-, h1, h2, h3, h4⟩ := h
  omega

/-- An entry left behind by a cancellation is the only one of its id, and the
id is out of the index. -/
theorem Accounted.lingers
    (h : Accounted .cancelled indexed ready delayed current unrun)
    (hpos : 0 < ready + delayed + unrun) :
    ¬ indexed ∧ current = 0 ∧ ready + delayed + unrun = 1 := by
  obtain ⟨hiff, hle⟩ := h
  have hcur : current = 0 := by omega
  exact ⟨by rw [hiff]; omega, hcur, by omega⟩

theorem Accounted.cancelled_of_ready
    (h : Accounted state indexed ready delayed current unrun)
    (hpos : 0 < ready) (hs : state ≠ .queuedReady) : state = .cancelled := by
  cases state <;> simp_all [Accounted]

theorem Accounted.cancelled_of_delayed
    (h : Accounted state indexed ready delayed current unrun)
    (hpos : 0 < delayed) (hs : state ≠ .queuedDelayed) :
    state = .cancelled := by
  cases state <;> simp_all [Accounted]

theorem Accounted.cancelled_of_unrun
    (h : Accounted state indexed ready delayed current unrun)
    (hpos : 0 < unrun) (hs : state ≠ .readySnapshot) : state = .cancelled := by
  cases state <;> simp_all [Accounted]

end Accounted

theorem exists_mem_update {ready : TaskPriority → List (Entry τ)}
    {priority : TaskPriority} {queue : List (Entry τ)} {entry : Entry τ} :
    (∃ p, entry ∈ Function.update ready priority queue p) ↔
      entry ∈ queue ∨ ∃ p, p ≠ priority ∧ entry ∈ ready p := by
  simp only [Function.update_apply]
  constructor
  · rintro ⟨p, hp⟩
    split at hp
    · exact Or.inl hp
    · next hne => exact Or.inr ⟨p, hne, hp⟩
  · rintro (hq | ⟨p, hne, hp⟩)
    · exact ⟨priority, by rw [if_pos rfl]; exact hq⟩
    · exact ⟨p, by rw [if_neg hne]; exact hp⟩

namespace TaskManager

variable {m m' : TaskManager τ} {cur cur' : Option (Entry τ)}
  {unrun unrun' : List (Entry τ)} {owed owed' : Int}

theorem Inv.cancelled (h : m.Inv cur unrun owed) {id : Nat} {state : State}
    (hst : m.stateOf id = state)
    (hp : state = .executing → (m.control id).periodic = true) :
    (m.cancelled id state).Inv cur unrun owed := by
  have hacc := h.accounted id
  rw [hst] at hacc
  cases state
  case cancelled | completed => exact h
  all_goals
    obtain ⟨h1, h2, h3, h4, h5⟩ := hacc
    have hlive : m.stateOf id ≠ .completed := by rw [hst]; decide
    refine h.touch (h.lt_nextId hlive) (h.ne_zero hlive) rfl ?_ ?_ ?_ ?_ ?_ ?_ ?_
    · intro j hj
      simp [TaskManager.cancelled, hj]
    · simp [TaskManager.cancelled, Accounted, h1, h2, h3, h4, h5]
    · intro j
      simp [TaskManager.cancelled]
    · exact fun p entry he => Or.inl he
    · exact fun entry he => Or.inl he
    · simp [TaskManager.cancelled, hst, readyWeight]
    · simp [TaskManager.cancelled, hst, pendingWeight, hp]
      try omega

theorem Inv.dropDelayed {entry : Entry τ} {heap : List (Entry τ)}
    (h : (m.setDelayed (entry :: heap)).Inv cur unrun owed)
    (hst : m.stateOf entry.id ≠ .queuedDelayed) :
    (m.setDelayed heap).Inv cur unrun owed := by
  have hacc := h.accounted entry.id
  simp only [stateOf_setDelayed, setDelayed_index, setDelayed_ready,
    setDelayed_delayedHeap, copies_cons, if_true] at hacc
  have hc := hacc.cancelled_of_delayed (by omega) hst
  rw [hc] at hacc
  obtain ⟨h1, h2, h3⟩ := hacc.lingers (by omega)
  have hlive : m.stateOf entry.id ≠ .completed := by rw [hc]; decide
  refine h.touch (h.lt_nextId hlive) (h.ne_zero hlive) rfl ?_ ?_ ?_ ?_ ?_ ?_ ?_
  · intro j hj
    simp [Ne.symm hj]
  · simp [Accounted, hc, h1, h2]
    omega
  · exact fun j => rfl
  · exact fun p e he => Or.inl he
  · intro e he
    left
    unfold Holds at he ⊢
    simp at he ⊢
    grind
  · simp
  · simp

theorem Inv.promoteEntry {entry : Entry τ} {heap : List (Entry τ)}
    (h : (m.setDelayed (entry :: heap)).Inv cur unrun owed) :
    ((m.promoteEntry entry).setDelayed heap).Inv cur unrun owed := by
  unfold TaskManager.promoteEntry
  split
  · next hst =>
      have hacc := h.accounted entry.id
      simp only [stateOf_setDelayed, hst, setDelayed_index, setDelayed_ready,
        setDelayed_delayedHeap, copies_cons, if_true] at hacc
      obtain ⟨h1, h2, h3, h4, h5⟩ := hacc
      have hlive : m.stateOf entry.id ≠ .completed := by rw [hst]; decide
      refine h.touch (h.lt_nextId hlive) (h.ne_zero hlive) rfl ?_ ?_ ?_ ?_ ?_ ?_ ?_
      · intro j hj
        simp [hj, Ne.symm hj]
      · simp [Accounted, h1, h2, h4, h5]
        omega
      · simp
      · intro p e he
        simp [Function.update_apply] at he ⊢
        grind
      · intro e he
        left
        unfold Holds at he ⊢
        simp [Function.update_apply] at he ⊢
        grind
      · simp [hst, readyWeight]
      · simp [hst, pendingWeight]
  · next hst => exact h.dropDelayed hst

theorem Inv.promoteLoop {now : Int} {heap : List (Entry τ)} :
    ∀ {m : TaskManager τ}, (m.setDelayed heap).Inv cur unrun owed →
      (promoteLoop now heap m).Inv cur unrun owed := by
  induction heap with
  | nil => exact fun h => h
  | cons entry heap ih =>
      intro m h
      rw [TaskManager.promoteLoop]
      split
      · next hdead =>
          refine ih (h.dropDelayed ?_)
          intro hst
          simp [dead, hst] at hdead
      · split
        · exact ih h.promoteEntry
        · exact h

theorem Inv.promoteDueLocked (h : m.Inv cur unrun owed) (now : Int) :
    (m.promoteDueLocked now).Inv cur unrun owed :=
  Inv.promoteLoop h

theorem Inv.prune (h : m.Inv cur unrun owed) :
    m.pruneDelayedTopLocked.Inv cur unrun owed := by
  have hloop : ∀ heap : List (Entry τ), (m.setDelayed heap).Inv cur unrun owed →
      (m.setDelayed (heap.dropWhile m.dead)).Inv cur unrun owed := by
    intro heap
    induction heap with
    | nil => exact fun h => h
    | cons entry heap ih =>
        intro h
        rw [List.dropWhile_cons]
        split
        · next hdead =>
            refine ih (h.dropDelayed ?_)
            intro hst
            simp [dead, hst] at hdead
        · exact h
  exact hloop m.delayedHeap h

/-! ## The batch -/

theorem Inv.dropReady {priority : TaskPriority} {entry : Entry τ}
    {queue : List (Entry τ)}
    (h : (m.setQueue priority (entry :: queue)).Inv cur unrun owed)
    (hst : m.stateOf entry.id ≠ .queuedReady) :
    (m.setQueue priority queue).Inv cur unrun owed := by
  have hacc := h.accounted entry.id
  simp only [stateOf_setQueue, setQueue_index, setQueue_ready,
    setQueue_delayedHeap, readyCopies_cons, if_true] at hacc
  have hc := hacc.cancelled_of_ready (by omega) hst
  rw [hc] at hacc
  obtain ⟨h1, h2, h3⟩ := hacc.lingers (by omega)
  have hlive : m.stateOf entry.id ≠ .completed := by rw [hc]; decide
  refine h.touch (h.lt_nextId hlive) (h.ne_zero hlive) rfl ?_ ?_ ?_ ?_ ?_ ?_ ?_
  · intro j hj
    simp [Ne.symm hj]
  · simp [Accounted, hc, h1, h2]
    omega
  · exact fun j => rfl
  · intro p e he
    simp [Function.update_apply] at he ⊢
    grind
  · intro e he
    left
    simp only [Holds, setQueue_ready, exists_mem_update] at he ⊢
    simp at he ⊢
    grind
  · simp
  · simp

theorem Inv.takeEntry {priority : TaskPriority} {entry : Entry τ}
    {queue : List (Entry τ)}
    (h : (m.setQueue priority (entry :: queue)).Inv cur unrun owed)
    (hst : m.stateOf entry.id = .queuedReady) :
    (((m.setState entry.id .readySnapshot).decrementReadyCount).setQueue
      priority queue).Inv cur (unrun ++ [entry]) owed := by
  have hacc := h.accounted entry.id
  simp only [stateOf_setQueue, hst, setQueue_index, setQueue_ready,
    setQueue_delayedHeap, readyCopies_cons, if_true] at hacc
  obtain ⟨h1, h2, h3, h4, h5⟩ := hacc
  have hlive : m.stateOf entry.id ≠ .completed := by rw [hst]; decide
  refine h.touch (h.lt_nextId hlive) (h.ne_zero hlive) rfl ?_ ?_ ?_ ?_ ?_ ?_ ?_
  · intro j hj
    simp [hj, Ne.symm hj]
  · simp [Accounted, h1, h3, h4, h5]
    omega
  · simp
  · intro p e he
    simp [Function.update_apply] at he ⊢
    grind
  · intro e he
    left
    simp only [Holds, setQueue_ready, exists_mem_update] at he ⊢
    simp at he ⊢
    grind
  · simp [hst, readyWeight]
  · simp [hst, pendingWeight]

theorem Inv.takeLoop {maxTasks : Nat} {priority : TaskPriority}
    {queue : List (Entry τ)} :
    ∀ {batch : List (Entry τ)} {m : TaskManager τ},
      (m.setQueue priority queue).Inv cur batch owed →
      let r := takeLoop maxTasks queue batch m
      (r.2.2.setQueue priority r.1).Inv cur r.2.1 owed := by
  induction queue with
  | nil => exact fun h => h
  | cons entry queue ih =>
      intro batch m h
      rw [TaskManager.takeLoop]
      split
      · exact h
      · split
        · next hst => exact ih (h.takeEntry hst)
        · next hst => exact ih (h.dropReady hst)

theorem setQueue_self (m : TaskManager τ) (priority : TaskPriority) :
    m.setQueue priority (m.ready priority) = m := by
  simp [setQueue]

theorem Inv.takeQueue (maxTasks : Nat) {batch : List (Entry τ)}
    (h : m.Inv cur batch owed) (priority : TaskPriority) :
    (takeQueue maxTasks priority batch m).2.Inv cur
      (takeQueue maxTasks priority batch m).1 owed := by
  rw [← setQueue_self m priority] at h
  exact Inv.takeLoop h

theorem Inv.beginProcess (h : m.Inv cur [] owed) (now : Int) (maxTasks : Nat) :
    (m.beginProcess now maxTasks).2.Inv cur (m.beginProcess now maxTasks).1
      owed :=
  (((h.promoteDueLocked now).takeQueue _ .high).takeQueue _ .normal).takeQueue _
    .low

/-! ## Starting, restoring, finishing -/

theorem Inv.dropUnrun {entry : Entry τ}
    (h : m.Inv cur (entry :: unrun) owed)
    (hst : m.stateOf entry.id ≠ .readySnapshot) : m.Inv cur unrun owed := by
  have hacc := h.accounted entry.id
  simp only [copies_cons, if_true] at hacc
  have hc := hacc.cancelled_of_unrun (by omega) hst
  rw [hc] at hacc
  obtain ⟨h1, h2, h3⟩ := hacc.lingers (by omega)
  have hlive : m.stateOf entry.id ≠ .completed := by rw [hc]; decide
  refine h.touch (h.lt_nextId hlive) (h.ne_zero hlive) rfl ?_ ?_ ?_ ?_ ?_ ?_ ?_
  · intro j hj
    simp [Ne.symm hj]
  · simp [Accounted, hc, h1, h2]
    omega
  · exact fun j => rfl
  · exact fun p e he => Or.inl he
  · intro e he
    left
    unfold Holds at he ⊢
    simp only [List.mem_cons] at he ⊢
    grind
  · omega
  · omega

theorem Inv.start {entry : Entry τ} (h : m.Inv none (entry :: unrun) owed)
    (hst : m.stateOf entry.id = .readySnapshot) :
    (m.setState entry.id .executing).Inv (some entry) unrun
      (owed + if entry.periodic then 0 else 1) := by
  have hper := h.periodic entry (by simp [Holds])
  have hacc := h.accounted entry.id
  simp only [hst, copies_cons, if_true] at hacc
  obtain ⟨h1, h2, h3, h4, h5⟩ := hacc
  have hlive : m.stateOf entry.id ≠ .completed := by rw [hst]; decide
  refine h.touch (h.lt_nextId hlive) (h.ne_zero hlive) rfl ?_ ?_ ?_ ?_ ?_ ?_ ?_
  · intro j hj
    simp [hj, Ne.symm hj]
  · simp [Accounted, h1, h2, h3]
    omega
  · simp
  · exact fun p e he => Or.inl he
  · intro e he
    left
    unfold Holds at he ⊢
    simp at he ⊢
    grind
  · simp [hst, readyWeight]
  · rw [← hper]
    cases hp : entry.periodic
    · simp [hst, pendingWeight]
      omega
    · simp [hst, pendingWeight]

/-- The decrement after the start transition pays what the start owed. -/
theorem Inv.settleStart {entry : Entry τ}
    (h : m.Inv (some entry) unrun (owed + if entry.periodic then 0 else 1)) :
    (m.settleStart entry).Inv (some entry) unrun owed := by
  unfold TaskManager.settleStart
  split
  · next hp =>
      rw [if_pos hp] at h
      simpa using h
  · next hp =>
      rw [if_neg hp] at h
      exact
        { accounted := h.accounted
          fresh := h.fresh
          zero := h.zero
          positive := h.positive
          priority := h.priority
          periodic := h.periodic
          readyCount := h.readyCount
          pendingCount := by
            have := h.pendingCount
            show m.pendingCount - 1 = m.tally pendingWeight + owed
            omega }

theorem Inv.restoreEntry {entry : Entry τ} (h : m.Inv cur (entry :: unrun) owed) :
    (restoreEntry entry m).Inv cur unrun owed := by
  unfold TaskManager.restoreEntry
  split
  · next hst =>
      have hacc := h.accounted entry.id
      simp only [hst, copies_cons, if_true] at hacc
      obtain ⟨h1, h2, h3, h4, h5⟩ := hacc
      have hlive : m.stateOf entry.id ≠ .completed := by rw [hst]; decide
      refine h.touch (h.lt_nextId hlive) (h.ne_zero hlive) rfl ?_ ?_ ?_ ?_ ?_ ?_ ?_
      · intro j hj
        simp [hj, Ne.symm hj]
      · simp [Accounted, h1, h2, h3, h4]
        omega
      · simp
      · intro p e he
        simp [Function.update_apply] at he ⊢
        grind
      · intro e he
        left
        simp only [Holds, pushFrontReady, incrementReadyCount_ready, setQueue_ready, exists_mem_update] at he ⊢
        simp at he ⊢
        grind
      · simp [hst, readyWeight]
      · simp [hst, pendingWeight]
  · next hst => exact h.dropUnrun hst

theorem Inv.perm (h : m.Inv cur unrun owed) (hp : unrun.Perm unrun') :
    m.Inv cur unrun' owed :=
  { accounted := by
      intro id
      rw [copies, copies, copies, ← hp.countP_eq]
      exact h.accounted id
    fresh := h.fresh
    zero := h.zero
    positive := h.positive
    priority := h.priority
    periodic := by
      intro entry he
      refine h.periodic entry ?_
      unfold Holds at he ⊢
      rwa [hp.mem_iff]
    readyCount := h.readyCount
    pendingCount := h.pendingCount }

theorem Inv.restoreUnrun (batch : List (Entry τ)) :
    ∀ {unrun : List (Entry τ)}, m.Inv cur (batch ++ unrun) owed →
      (m.restoreUnrun batch).Inv cur unrun owed := by
  induction batch with
  | nil => exact fun h => h
  | cons entry batch ih =>
      intro unrun h
      have hrest : (m.restoreUnrun batch).Inv cur (entry :: unrun) owed :=
        ih (h.perm List.perm_middle.symm)
      exact Inv.restoreEntry hrest

/-- What the invariant reads of a manager. -/
theorem Inv.congr (h : m.Inv cur unrun owed) (hstate : m'.stateOf = m.stateOf)
    (hcontrol : ∀ j, (m'.control j).periodic = (m.control j).periodic)
    (hindex : m'.index = m.index) (hready : m'.ready = m.ready)
    (hdelayed : m'.delayedHeap = m.delayedHeap) (hnext : m'.nextId = m.nextId)
    (hrc : m'.readyCount = m.readyCount)
    (hpc : m'.pendingCount = m.pendingCount) : m'.Inv cur unrun owed := by
  have htally : ∀ w, m'.tally w = m.tally w := by
    intro w
    unfold tally
    rw [hnext, hstate]
    exact Finset.sum_congr rfl fun j _ => by rw [hcontrol]
  exact
    { accounted := by
        intro id
        rw [hstate, hindex, hready, hdelayed]
        exact h.accounted id
      fresh := by
        rw [hnext, hstate]
        exact h.fresh
      zero := by
        rw [hstate]
        exact h.zero
      positive := by
        rw [hnext]
        exact h.positive
      priority := by
        rw [hready]
        exact h.priority
      periodic := by
        intro entry he
        unfold Holds at he
        rw [hready, hdelayed] at he
        rw [hcontrol]
        exact h.periodic entry he
      readyCount := by rw [hrc, htally, h.readyCount]
      pendingCount := by rw [hpc, htally, h.pendingCount] }

theorem Inv.dropReschedule (h : m.Inv cur unrun owed) (id : Nat) :
    (m.dropReschedule id).Inv cur unrun owed :=
  h.congr (by simp) (by simp) rfl rfl rfl rfl rfl rfl

theorem Inv.close (h : m.Inv cur unrun owed) : m.close.1.Inv cur unrun owed :=
  h.congr rfl (fun _ => rfl) rfl rfl rfl rfl rfl rfl

theorem Inv.requestReschedule (h : m.Inv cur unrun owed) (id : Nat)
    (due : Int) : (m.requestReschedule id due).Inv cur unrun owed :=
  h.congr (by simp) (by simp) rfl rfl rfl rfl rfl rfl

theorem Inv.rescheduleFromContext (h : m.Inv cur unrun owed) (id : Nat)
    (due : Int) : (m.rescheduleFromContext id due).1.Inv cur unrun owed := by
  unfold TaskManager.rescheduleFromContext
  split
  · exact h
  · split
    · exact h
    · split
      · split
        · exact h.requestReschedule id due
        · exact h
      · exact h

theorem Inv.cancelFromContext (h : m.Inv cur unrun owed) (id : Nat) :
    (m.cancelFromContext id).1.Inv cur unrun owed := by
  unfold TaskManager.cancelFromContext
  split
  · exact h
  · split
    · split
      · next hst =>
          have hacc := h.accounted id
          rw [hst] at hacc
          obtain ⟨h1, h2, h3, h4, h5⟩ := hacc
          have hlive : m.stateOf id ≠ .completed := by rw [hst]; decide
          cases hp : (m.control id).periodic
          all_goals
            refine h.touch (h.lt_nextId hlive) (h.ne_zero hlive) rfl
              ?_ ?_ ?_ ?_ ?_ ?_ ?_
            · intro j hj
              simp [hj]
            · simp [Accounted, h1, h2, h3, h4, h5]
            · simp
            · exact fun p e he => Or.inl he
            · exact fun e he => Or.inl he
            · simp [hst, readyWeight]
            · simp [hst, pendingWeight, hp]
              try omega
      · exact h
    · exact h

/-- The callback is over and the entry goes back to a queue. -/
theorem Inv.enqueueExistingLocked {entry : Entry τ}
    (h : m.Inv (some entry) unrun owed) (hst : m.stateOf entry.id = .executing)
    (now due : Int) :
    (m.enqueueExistingLocked now entry due).Inv none unrun owed := by
  have hper := h.periodic entry (by simp [Holds])
  have hacc := h.accounted entry.id
  rw [hst] at hacc
  obtain ⟨h1, h2, h3, h4, h5⟩ := hacc
  have hlive : m.stateOf entry.id ≠ .completed := by rw [hst]; decide
  unfold TaskManager.enqueueExistingLocked
  rw [if_pos hst]
  by_cases hdue : due ≤ now
  all_goals
    cases hp : entry.periodic
    all_goals
      simp only [hdue, if_true, if_false]
      refine h.touch (h.lt_nextId hlive) (h.ne_zero hlive) rfl ?_ ?_ ?_ ?_ ?_ ?_ ?_
      · intro j hj
        simp [hj, Ne.symm hj]
      · simp [Accounted, h1, h2, h3, h5]
      · simp
      · intro p e he
        simp [Function.update_apply] at he ⊢
        grind
      · intro e he
        simp [Holds, Function.update_apply, pushHeap] at he ⊢
        grind
      · simp [hst, readyWeight]
      · rw [hp] at hper
        simp [hst, pendingWeight, ← hper]
        try omega

theorem Inv.complete {entry : Entry τ} (h : m.Inv (some entry) unrun owed)
    (hst : m.stateOf entry.id = .executing) :
    (m.complete entry).Inv none unrun owed := by
  have hper := h.periodic entry (by simp [Holds])
  have hacc := h.accounted entry.id
  rw [hst] at hacc
  obtain ⟨h1, h2, h3, h4, h5⟩ := hacc
  have hlive : m.stateOf entry.id ≠ .completed := by rw [hst]; decide
  unfold TaskManager.complete
  cases hp : entry.periodic
  all_goals
    refine h.touch (h.lt_nextId hlive) (h.ne_zero hlive) rfl ?_ ?_ ?_ ?_ ?_ ?_ ?_
    · intro j hj
      simp [hj, Ne.symm hj]
    · simp [Accounted, h2, h3, h5]
    · simp
    · exact fun p e he => Or.inl he
    · intro e he
      left
      simp [Holds] at he ⊢
      grind
    · simp [hst, readyWeight]
    · rw [hp] at hper
      simp [hst, pendingWeight, ← hper]
      try omega

/-- The callback of a task cancelled meanwhile is over. -/
theorem Inv.retire {entry : Entry τ} (h : m.Inv (some entry) unrun owed)
    (hst : m.stateOf entry.id = .cancelled) :
    (m.eraseIndex entry.id).Inv none unrun owed := by
  have hacc := h.accounted entry.id
  rw [hst] at hacc
  obtain ⟨h1, h2⟩ := hacc
  simp only [Option.toList_some, copies_cons, copies_nil, if_true] at h2
  have hlive : m.stateOf entry.id ≠ .completed := by rw [hst]; decide
  refine h.touch (h.lt_nextId hlive) (h.ne_zero hlive) rfl ?_ ?_ ?_ ?_ ?_ ?_ ?_
  · intro j hj
    simp [hj, Ne.symm hj]
  · simp [Accounted, hst]
    omega
  · exact fun j => rfl
  · exact fun p e he => Or.inl he
  · intro e he
    left
    simp [Holds] at he ⊢
    grind
  · simp
  · simp

theorem Inv.current_state {entry : Entry τ} (h : m.Inv (some entry) unrun owed) :
    m.stateOf entry.id = .executing ∨ m.stateOf entry.id = .cancelled := by
  have hacc := h.accounted entry.id
  cases hst : m.stateOf entry.id <;> simp [hst, Accounted] at hacc ⊢

theorem Inv.finishAfterSuccess {entry : Entry τ}
    (h : m.Inv (some entry) unrun owed) (now now' : Int) :
    (m.finishAfterSuccess now now' entry).Inv none unrun owed := by
  unfold TaskManager.finishAfterSuccess
  rcases h.current_state with hst | hst
  · have hne : m.stateOf entry.id ≠ .cancelled := by rw [hst]; decide
    rw [if_neg hne, if_neg (not_not.mpr hst)]
    split
    · exact (h.complete hst).dropReschedule entry.id
    · split
      · exact (h.dropReschedule entry.id).enqueueExistingLocked
          (by rw [stateOf_dropReschedule]; exact hst) _ _
      · split
        · exact h.enqueueExistingLocked hst _ _
        · next hp =>
            have hc := h.complete hst
            simp only [TaskManager.complete, hp] at hc
            exact hc
  · rw [if_pos hst]
    exact (h.dropReschedule entry.id).retire
      (by rw [stateOf_dropReschedule]; exact hst)

theorem Inv.finishAfterException {entry : Entry τ}
    (h : m.Inv (some entry) unrun owed) :
    (m.finishAfterException entry).Inv none unrun owed := by
  unfold TaskManager.finishAfterException
  have hd := h.dropReschedule entry.id
  rcases hd.current_state with hst | hst
  · rw [if_pos hst]
    exact hd.complete hst
  · rw [if_neg (by rw [hst]; decide), if_pos hst]
    exact hd.retire hst

/-! ## Dropping everything -/

theorem Inv.clearReadyEntry {r : TaskManager τ × List Nat}
    {priority : TaskPriority} {entry : Entry τ} {queue : List (Entry τ)}
    (h : (r.1.setQueue priority (entry :: queue)).Inv cur unrun owed) :
    ((clearReadyEntry r entry).1.setQueue priority queue).Inv cur unrun
      owed := by
  unfold TaskManager.clearReadyEntry
  split
  · next hst =>
      have hc : ((r.1.cancelled entry.id .queuedReady).setQueue priority
          (entry :: queue)).Inv cur unrun owed := h.cancelled hst (by simp)
      exact hc.dropReady (by simp [TaskManager.cancelled])
  · next hst => exact h.dropReady hst

theorem Inv.clearDelayedEntry {r : TaskManager τ × List Nat}
    {entry : Entry τ} {heap : List (Entry τ)}
    (h : (r.1.setDelayed (entry :: heap)).Inv cur unrun owed) :
    ((clearDelayedEntry r entry).1.setDelayed heap).Inv cur unrun owed := by
  unfold TaskManager.clearDelayedEntry
  split
  · next hst =>
      have hc : ((r.1.cancelled entry.id .queuedDelayed).setDelayed
          (entry :: heap)).Inv cur unrun owed := h.cancelled hst (by simp)
      exact hc.dropDelayed (by simp [TaskManager.cancelled])
  · next hst => exact h.dropDelayed hst

theorem Inv.clearReadyLoop {priority : TaskPriority} {queue : List (Entry τ)} :
    ∀ {r : TaskManager τ × List Nat},
      (r.1.setQueue priority queue).Inv cur unrun owed →
      ((queue.foldl TaskManager.clearReadyEntry r).1.setQueue priority []).Inv
        cur unrun owed := by
  induction queue with
  | nil => exact fun h => h
  | cons entry queue ih => exact fun h => ih h.clearReadyEntry

theorem Inv.clearDelayedLoop {heap : List (Entry τ)} :
    ∀ {r : TaskManager τ × List Nat},
      (r.1.setDelayed heap).Inv cur unrun owed →
      ((heap.foldl TaskManager.clearDelayedEntry r).1.setDelayed []).Inv
        cur unrun owed := by
  induction heap with
  | nil => exact fun h => h
  | cons entry heap ih => exact fun h => ih h.clearDelayedEntry

theorem Inv.clearQueue {r : TaskManager τ × List Nat}
    (h : r.1.Inv cur unrun owed) (priority : TaskPriority) :
    (clearQueue priority r).1.Inv cur unrun owed := by
  rw [← setQueue_self r.1 priority] at h
  exact Inv.clearReadyLoop h

theorem Inv.clearPending (h : m.Inv cur unrun owed) :
    m.clearPending.1.Inv cur unrun owed := by
  have hhigh := Inv.clearQueue (r := (m, [])) h .high
  exact Inv.clearDelayedLoop ((hhigh.clearQueue .normal).clearQueue .low)

/-! ## Submission -/

/-- An entry somewhere belongs to an id handed out. -/
theorem Inv.held (h : m.Inv cur unrun owed) {entry : Entry τ}
    (he : Holds m cur unrun entry) : m.stateOf entry.id ≠ .completed := by
  refine (h.accounted entry.id).ne_completed ?_
  rcases he with ⟨priority, hr⟩ | hd | hc | hu
  · have := copies_pos hr
    cases priority <;> simp only [readyCopies] <;> omega
  · have := copies_pos hd
    omega
  · have := copies_pos (Option.mem_toList.mpr hc)
    omega
  · have := copies_pos hu
    omega

theorem Inv.freshId (h : m.Inv cur unrun owed) : m.freshId = m.nextId :=
  if_neg (Nat.pos_iff_ne_zero.mp h.positive)

/-- A submission hands out the next id, leaves it accounted for, and moves
both counters by its weights. -/
theorem Inv.extend (h : m.Inv cur unrun owed) (hnext : m'.nextId = m.nextId + 1)
    (hother : ∀ j, j ≠ m.nextId → m'.stateOf j = m.stateOf j ∧
      (m'.control j).periodic = (m.control j).periodic ∧
      (j ∈ m'.index ↔ j ∈ m.index) ∧
      readyCopies m'.ready j = readyCopies m.ready j ∧
      copies m'.delayedHeap j = copies m.delayedHeap j)
    (hid : Accounted (m'.stateOf m.nextId) (m.nextId ∈ m'.index)
      (readyCopies m'.ready m.nextId) (copies m'.delayedHeap m.nextId) 0 0)
    (hpriority : ∀ priority, ∀ entry ∈ m'.ready priority,
      entry ∈ m.ready priority ∨ entry.priority = priority)
    (hholds : ∀ entry, Holds m' cur unrun entry → Holds m cur unrun entry ∨
      entry.id = m.nextId ∧
        entry.periodic = (m'.control m.nextId).periodic)
    (hready : m'.readyCount = m.readyCount +
      readyWeight (m'.stateOf m.nextId) (m'.control m.nextId).periodic)
    (hpending : m'.pendingCount = m.pendingCount +
      pendingWeight (m'.stateOf m.nextId) (m'.control m.nextId).periodic) :
    m'.Inv cur unrun owed := by
  have hnew := h.accounted m.nextId
  rw [h.fresh m.nextId (Nat.le_refl _)] at hnew
  obtain ⟨-, -, -, hcur, hunrun⟩ := hnew
  have htally := fun w => tally_extend w hnext (fun j hj => (hother j hj).1)
    (fun j hj => (hother j hj).2.1)
  constructor
  · intro j
    by_cases hj : j = m.nextId
    · rw [hj, hcur, hunrun]
      exact hid
    · obtain ⟨h1, -, h2, h3, h4⟩ := hother j hj
      rw [h1, h2, h3, h4]
      exact h.accounted j
  · intro j hj
    rw [hnext] at hj
    rw [(hother j (by omega)).1]
    exact h.fresh j (by omega)
  · rw [(hother 0 (Nat.ne_of_lt h.positive)).1]
    exact h.zero
  · omega
  · intro priority entry he
    rcases hpriority priority entry he with hold | heq
    · exact h.priority priority entry hold
    · exact heq
  · intro entry he
    rcases hholds entry he with hold | ⟨heq, hper⟩
    · rw [(hother entry.id (Nat.ne_of_lt (h.lt_nextId (h.held hold)))).2.1]
      exact h.periodic entry hold
    · rw [heq]
      exact hper
  · rw [hready, htally, h.readyCount]
  · rw [hpending, htally, h.pendingCount]
    omega

theorem Inv.enqueueReadyLocked (h : m.Inv cur unrun owed) (task : τ)
    (options : TaskOptions) :
    (m.enqueueReadyLocked task options).1.Inv cur unrun owed := by
  have hnew := h.accounted m.nextId
  rw [h.fresh m.nextId (Nat.le_refl _)] at hnew
  obtain ⟨h1, h2, h3, h4, h5⟩ := hnew
  unfold TaskManager.enqueueReadyLocked
  refine h.extend ?_ ?_ ?_ ?_ ?_ ?_ ?_
  · simp [h.freshId]
  · intro j hj
    simp [h.freshId, hj, Ne.symm hj, control_allocate]
  · simp [h.freshId, Accounted, h2, h3]
  · intro p e he
    simp [Function.update_apply] at he ⊢
    grind
  · intro e he
    simp [Holds, Function.update_apply, control_allocate, h.freshId] at he ⊢
    grind
  · simp [h.freshId, readyWeight]
  · simp [h.freshId, pendingWeight]

theorem Inv.enqueueDelayedLocked (h : m.Inv cur unrun owed) (due : Int)
    (task : τ) (options : TaskOptions) :
    (m.enqueueDelayedLocked due task options).1.Inv cur unrun owed := by
  have hnew := h.accounted m.nextId
  rw [h.fresh m.nextId (Nat.le_refl _)] at hnew
  obtain ⟨h1, h2, h3, h4, h5⟩ := hnew
  unfold TaskManager.enqueueDelayedLocked
  refine h.extend ?_ ?_ ?_ ?_ ?_ ?_ ?_
  · simp [h.freshId]
  · intro j hj
    simp [h.freshId, hj, Ne.symm hj, control_allocate]
  · simp [h.freshId, Accounted, h2, h3]
  · exact fun p e he => Or.inl he
  · intro e he
    simp [Holds, pushHeap, control_allocate, h.freshId] at he ⊢
    grind
  · simp [h.freshId, readyWeight]
  · simp [h.freshId, pendingWeight]

theorem Inv.enqueuePeriodicLocked (h : m.Inv cur unrun owed) (now due interval : Int)
    (task : τ) (options : PeriodicTaskOptions) :
    (m.enqueuePeriodicLocked now due interval task options).1.Inv cur unrun
      owed := by
  have hnew := h.accounted m.nextId
  rw [h.fresh m.nextId (Nat.le_refl _)] at hnew
  obtain ⟨h1, h2, h3, h4, h5⟩ := hnew
  unfold TaskManager.enqueuePeriodicLocked
  split
  all_goals
    refine h.extend ?_ ?_ ?_ ?_ ?_ ?_ ?_
    · simp [h.freshId]
    · intro j hj
      simp [h.freshId, hj, Ne.symm hj, control_allocate]
    · simp [h.freshId, Accounted, h2, h3]
    · intro p e he
      simp [Function.update_apply] at he ⊢
      grind
    · intro e he
      simp [Holds, pushHeap, Function.update_apply, control_allocate, h.freshId] at he ⊢
      grind
    · simp [h.freshId, readyWeight]
    · simp [h.freshId, pendingWeight]

theorem Inv.post (h : m.Inv cur unrun owed) (task : Option τ)
    (options : TaskOptions) : (m.post task options).1.Inv cur unrun owed := by
  unfold TaskManager.post
  cases task with
  | none => exact h
  | some task =>
      dsimp only
      split
      · exact h
      · exact h.enqueueReadyLocked task options

theorem Inv.postAt (h : m.Inv cur unrun owed) (now due : Int)
    (task : Option τ) (options : TaskOptions) :
    (m.postAt now due task options).1.Inv cur unrun owed := by
  unfold TaskManager.postAt
  cases task with
  | none => exact h
  | some task =>
      dsimp only
      split
      · exact h
      · split
        · exact h.enqueueReadyLocked task options
        · exact h.enqueueDelayedLocked due task options

theorem Inv.postEveryAfter (h : m.Inv cur unrun owed)
    (now now' initialDelay interval : Int) (task : Option τ)
    (options : PeriodicTaskOptions) :
    (m.postEveryAfter now now' initialDelay interval task options).1.Inv
      cur unrun owed := by
  unfold TaskManager.postEveryAfter
  cases task with
  | none => exact h
  | some task =>
      dsimp only
      split
      · exact h
      · split
        · exact h
        · exact h.enqueuePeriodicLocked _ _ _ _ _

theorem Inv.postBatchLoop (options : TaskOptions) :
    ∀ (tasks : List (Option τ)) {m : TaskManager τ}, m.Inv cur unrun owed →
      (postBatchLoop options tasks m).1.Inv cur unrun owed := by
  intro tasks
  induction tasks with
  | nil => exact fun h => h
  | cons task tasks ih =>
      intro m h
      cases task with
      | none => exact ih h
      | some task => exact ih (h.enqueueReadyLocked task options)

theorem Inv.postBatch (h : m.Inv cur unrun owed) (tasks : List (Option τ))
    (options : TaskOptions) :
    (m.postBatch tasks options).1.Inv cur unrun owed := by
  unfold TaskManager.postBatch
  split
  · exact h
  · exact Inv.postBatchLoop options tasks h

theorem Inv.cancelLoaded (h : m.Inv cur unrun owed) (id : Nat) (loaded : State) :
    (m.cancelLoaded id loaded).1.Inv cur unrun owed := by
  cases loaded
  case cancelled | completed => exact h
  case executing =>
    simp only [TaskManager.cancelLoaded]
    split
    · exact h
    · next hp =>
        split
        · next hst => exact h.cancelled hst (fun _ => by simpa using hp)
        · exact h
  all_goals
    simp only [TaskManager.cancelLoaded]
    split
    · next hst => exact h.cancelled hst (by simp)
    · exact h

theorem Inv.initial : ({} : TaskManager τ).Inv none [] 0 :=
  { accounted := by
      intro id
      simp [stateOf, Accounted, readyCopies]
    fresh := fun _ _ => rfl
    zero := rfl
    positive := Nat.one_pos
    priority := by
      intro p e he
      simp at he
    periodic := by
      intro e he
      simp [Holds] at he
    readyCount := by simp [tally, stateOf, readyWeight]
    pendingCount := by simp [tally, stateOf, pendingWeight] }

end TaskManager

/-! ## The system -/

namespace TaskSystem

/-- The invariant of the manager, read off the consumer's position. -/
def Inv (s : TaskSystem τ) : Prop :=
  s.mgr.Inv s.phase.current s.phase.unrun s.phase.owed

theorem Inv.stepFree {s s' : TaskSystem τ} {a : TaskAction τ} (h : s.Inv)
    (hstep : s.stepFree a = some s') : s'.Inv := by
  unfold Inv at h ⊢
  cases a <;> simp only [TaskSystem.stepFree] at hstep <;> try contradiction
  case processStart =>
    split at hstep
    · next entry unrun hph =>
        rw [hph] at h
        split at hstep
        · next mgr hstart =>
            injection hstep with hstep
            subst hstep
            unfold TaskManager.start at hstart
            split at hstart
            · next hst =>
                injection hstart with hstart
                subst hstart
                have hinv := TaskManager.Inv.start h hst
                simpa [Phase.owed, Phase.current, Phase.unrun] using hinv
            · contradiction
        · next hstart =>
            injection hstep with hstep
            subst hstep
            refine TaskManager.Inv.dropUnrun h ?_
            intro hst
            simp [TaskManager.start, hst] at hstart
    · contradiction
  case processSettle =>
    split at hstep
    · next entry unrun hph =>
        rw [hph] at h
        injection hstep with hstep
        subst hstep
        refine TaskManager.Inv.settleStart ?_
        simpa [Phase.owed, Phase.current, Phase.unrun] using h
    · contradiction
  case exceptionHandled =>
    split at hstep
    · next unrun hph =>
        rw [hph] at h
        injection hstep with hstep
        subst hstep
        exact h
    · contradiction
  case processEnd =>
    split at hstep
    · next hph =>
        rw [hph] at h
        injection hstep with hstep
        subst hstep
        exact h
    · contradiction

theorem Inv.stepExchange {s s' : TaskSystem τ} (h : s.Inv)
    (hstep : s.stepExchange = some s') : s'.Inv := by
  unfold TaskSystem.stepExchange at hstep
  split at hstep
  · next id loaded hc =>
      injection hstep with hstep
      subst hstep
      exact TaskManager.Inv.cancelLoaded h id loaded
  · contradiction

theorem Inv.stepLocked {s s' : TaskSystem τ} {a : TaskAction τ} (h : s.Inv)
    (hstep : s.stepLocked a = some s') : s'.Inv := by
  unfold Inv at h ⊢
  cases a <;> simp only [TaskSystem.stepLocked] at hstep <;> try contradiction
  case post task options =>
    injection hstep with hstep
    subst hstep
    exact h.post task options
  case postAt now due task options =>
    injection hstep with hstep
    subst hstep
    exact h.postAt now due task options
  case postEveryAfter now now' initialDelay interval task options =>
    injection hstep with hstep
    subst hstep
    exact h.postEveryAfter now now' initialDelay interval task options
  case postBatch tasks options =>
    injection hstep with hstep
    subst hstep
    exact h.postBatch tasks options
  case close =>
    injection hstep with hstep
    subst hstep
    exact h.close
  case cancelLoad id =>
    split at hstep
    all_goals
      injection hstep with hstep
      subst hstep
      exact h
  case contextCancel id =>
    injection hstep with hstep
    subst hstep
    exact h.cancelFromContext id
  case contextReschedule id due =>
    injection hstep with hstep
    subst hstep
    exact h.rescheduleFromContext id due
  case clearPending =>
    injection hstep with hstep
    subst hstep
    exact h.clearPending
  case nextDeadline =>
    injection hstep with hstep
    subst hstep
    exact h.prune
  case processBegin now maxTasks =>
    split at hstep
    · next hph =>
        rw [hph] at h
        split at hstep
        · injection hstep with hstep
          subst hstep
          rw [← hph] at h
          exact h
        · injection hstep with hstep
          subst hstep
          exact TaskManager.Inv.beginProcess h now maxTasks
    · contradiction
  case callbackReturned now now' =>
    split at hstep
    · next entry unrun hph =>
        rw [hph] at h
        injection hstep with hstep
        subst hstep
        exact TaskManager.Inv.finishAfterSuccess h now now'
    · contradiction
  case callbackThrew =>
    split at hstep
    · next entry unrun hph =>
        rw [hph] at h
        injection hstep with hstep
        subst hstep
        exact TaskManager.Inv.finishAfterException h
    · contradiction
  case exceptionEscaped =>
    split at hstep
    · next unrun hph =>
        rw [hph] at h
        injection hstep with hstep
        subst hstep
        refine TaskManager.Inv.restoreUnrun unrun ?_
        show s.mgr.Inv none (unrun ++ []) 0
        rw [List.append_nil]
        exact h
    · contradiction

theorem Inv.step {s s' : TaskSystem τ} {a : TaskAction τ} (h : s.Inv)
    (hstep : s.step a = some s') : s'.Inv := by
  unfold TaskSystem.step at hstep
  split at hstep
  · exact h.stepFree hstep
  · exact h.stepFree hstep
  · exact h.stepFree hstep
  · exact h.stepFree hstep
  · exact h.stepExchange hstep
  · split at hstep
    · exact h.stepLocked hstep
    · contradiction

theorem Reachable.inv {s : TaskSystem τ} (h : s.Reachable) : s.Inv :=
  Lts.Reachable.invariant h TaskManager.Inv.initial fun _ _ _ => Inv.step

end TaskSystem

end EventHub
