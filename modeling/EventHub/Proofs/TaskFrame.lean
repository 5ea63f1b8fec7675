import EventHub.Proofs.TaskInvariantOps

/-!
# What an operation does to the controls

The representation invariant says where entries lie; the results about whole
runs ask what became of each control. Three kinds of operation are told apart.
Taking a batch, putting one back and pruning only move waiting entries about.
A submission adds controls and leaves the old ones alone. The rest changes one
control, or the ones `clear_pending` counts, and says which.
-/

namespace EventHub

variable {τ : Type}

/-- The entry waits for its start transition. -/
def State.waiting : State → Bool
  | .queuedReady | .queuedDelayed | .readySnapshot => true
  | .executing | .cancelled | .completed => false

theorem State.waiting_ne_completed {state : State} (h : state.waiting) :
    state ≠ .completed := by
  rintro rfl
  exact absurd h (by decide)

namespace TaskManager

/-! ## Moving waiting entries -/

/-- Between `m` and `m'` waiting controls moved from one waiting state to
another, and nothing else happened to any control. -/
structure Reshuffled (m m' : TaskManager τ) : Prop where
  nextId : m'.nextId = m.nextId
  closed : m'.closed = m.closed
  control : ∀ j, m'.control j = { m.control j with state := m'.stateOf j }
  moved : ∀ j, m'.stateOf j = m.stateOf j ∨
    (m.stateOf j).waiting ∧ (m'.stateOf j).waiting

variable {m m' m'' : TaskManager τ}

/-- What `Reshuffled` reads of a manager. -/
theorem Reshuffled.of_eq (hnext : m'.nextId = m.nextId)
    (hclosed : m'.closed = m.closed) (hcontrol : m'.control = m.control) :
    Reshuffled m m' :=
  { nextId := hnext
    closed := hclosed
    control := fun j => by unfold stateOf; rw [hcontrol]
    moved := fun j => Or.inl (by unfold stateOf; rw [hcontrol]) }

theorem Reshuffled.refl (m : TaskManager τ) : Reshuffled m m :=
  .of_eq rfl rfl rfl

theorem Reshuffled.trans (h : Reshuffled m m') (h' : Reshuffled m' m'') :
    Reshuffled m m'' :=
  { nextId := h'.nextId.trans h.nextId
    closed := h'.closed.trans h.closed
    control := fun j => by rw [h'.control j, h.control j]
    moved := by
      intro j
      rcases h'.moved j with heq' | ⟨hw, hw'⟩
      · rw [heq']
        exact h.moved j
      · rcases h.moved j with heq | ⟨hv, -⟩
        · exact Or.inr ⟨heq ▸ hw, hw'⟩
        · exact Or.inr ⟨hv, hw'⟩ }

theorem Reshuffled.setState {id : Nat} {state : State}
    (hold : (m.stateOf id).waiting) (hnew : state.waiting) :
    Reshuffled m (m.setState id state) :=
  { nextId := rfl
    closed := rfl
    control := by
      intro j
      rw [control_setState, stateOf_setState]
      split <;> rfl
    moved := by
      intro j
      rw [stateOf_setState]
      split
      · next hj => exact Or.inr ⟨hj ▸ hold, hnew⟩
      · exact Or.inl rfl }

theorem Reshuffled.prune (m : TaskManager τ) :
    Reshuffled m m.pruneDelayedTopLocked :=
  .of_eq rfl rfl rfl

theorem Reshuffled.promoteEntry (m : TaskManager τ) (entry : Entry τ) :
    Reshuffled m (m.promoteEntry entry) := by
  unfold TaskManager.promoteEntry
  split
  · next hst =>
      exact (setState (by rw [hst]; rfl) rfl).trans (.of_eq rfl rfl rfl)
  · exact .refl m

theorem Reshuffled.promoteLoop (now : Int) (heap : List (Entry τ)) :
    ∀ m : TaskManager τ, Reshuffled m (promoteLoop now heap m) := by
  induction heap with
  | nil => exact fun m => .of_eq rfl rfl rfl
  | cons entry heap ih =>
      intro m
      rw [TaskManager.promoteLoop]
      split
      · exact ih m
      · split
        · exact (promoteEntry m entry).trans (ih _)
        · exact .of_eq rfl rfl rfl

theorem Reshuffled.takeLoop (maxTasks : Nat) (queue : List (Entry τ)) :
    ∀ (batch : List (Entry τ)) (m : TaskManager τ),
      Reshuffled m (takeLoop maxTasks queue batch m).2.2 := by
  induction queue with
  | nil => exact fun _ m => .refl m
  | cons entry queue ih =>
      intro batch m
      rw [TaskManager.takeLoop]
      split
      · exact .refl m
      · split
        · next hst =>
            have hset : Reshuffled m (m.setState entry.id .readySnapshot) :=
              setState (by rw [hst]; rfl) rfl
            have htake : Reshuffled m
                (m.setState entry.id .readySnapshot).decrementReadyCount :=
              hset.trans (.of_eq rfl rfl rfl)
            exact htake.trans (ih _ _)
        · exact ih _ _

theorem Reshuffled.takeQueue (maxTasks : Nat) (priority : TaskPriority)
    (batch : List (Entry τ)) (m : TaskManager τ) :
    Reshuffled m (takeQueue maxTasks priority batch m).2 :=
  (takeLoop maxTasks (m.ready priority) batch m).trans (.of_eq rfl rfl rfl)

theorem Reshuffled.beginProcess (m : TaskManager τ) (now : Int)
    (maxTasks : Nat) : Reshuffled m (m.beginProcess now maxTasks).2 :=
  (((promoteLoop now m.delayedHeap m).trans (takeQueue _ _ _ _)).trans
    (takeQueue _ _ _ _)).trans (takeQueue _ _ _ _)

theorem Reshuffled.restoreEntry (entry : Entry τ) (m : TaskManager τ) :
    Reshuffled m (restoreEntry entry m) := by
  unfold TaskManager.restoreEntry
  split
  · next hst =>
      exact (setState (by rw [hst]; rfl) rfl).trans (.of_eq rfl rfl rfl)
  · exact .refl m

theorem Reshuffled.restoreUnrun (batch : List (Entry τ)) (m : TaskManager τ) :
    Reshuffled m (m.restoreUnrun batch) := by
  induction batch with
  | nil => exact .refl m
  | cons entry batch ih => exact ih.trans (restoreEntry entry _)

/-! ## Submissions -/

/-- `m'` is `m` with the controls of `ids` added; a zero in `ids` is a
submission that was rejected. -/
structure Extended (m m' : TaskManager τ) (ids : List Nat) : Prop where
  le : m.nextId ≤ m'.nextId
  control : ∀ j, j < m.nextId ∨ m'.nextId ≤ j → m'.control j = m.control j
  fresh : ∀ j, m.nextId ≤ j → j < m'.nextId →
    (m'.stateOf j).waiting ∧ (m'.control j).rescheduleRequested = false
  ids : ∀ j, j ≠ 0 → (j ∈ ids ↔ m.nextId ≤ j ∧ j < m'.nextId)

theorem Extended.rejected (m : TaskManager τ) {ids : List Nat}
    (hids : ∀ j ∈ ids, j = 0) : Extended m m ids :=
  { le := Nat.le_refl _
    control := fun _ _ => rfl
    fresh := fun j hge hlt => absurd hlt (by omega)
    ids := fun j hj => ⟨fun h => absurd (hids j h) hj, by omega⟩ }

theorem Extended.trans {ids ids' : List Nat} (h : Extended m m' ids)
    (h' : Extended m' m'' ids') : Extended m m'' (ids ++ ids') :=
  { le := Nat.le_trans h.le h'.le
    control := by
      intro j hj
      have h1 := h.le
      have h2 := h'.le
      rw [h'.control j (by omega), h.control j (by omega)]
    fresh := by
      intro j hge hlt
      rcases Nat.lt_or_ge j m'.nextId with hj | hj
      · unfold stateOf
        rw [h'.control j (Or.inl hj)]
        exact h.fresh j hge hj
      · exact h'.fresh j hj hlt
    ids := by
      intro j hj
      have h1 := h.le
      have h2 := h'.le
      rw [List.mem_append, h.ids j hj, h'.ids j hj]
      omega }

/-- A fresh control in a waiting state, whatever else changed with it. -/
theorem Extended.allocate {state : State} {periodic : Bool}
    (hpos : 0 < m.nextId) (hwait : state.waiting)
    (hcontrol : m'.control = (m.allocate state periodic).control)
    (hnext : m'.nextId = (m.allocate state periodic).nextId) :
    Extended m m' [m.freshId] := by
  have hfresh : m.freshId = m.nextId := if_neg (Nat.pos_iff_ne_zero.mp hpos)
  have hnext' : m'.nextId = m.nextId + 1 := by
    rw [hnext, allocate_nextId, hfresh]
  exact
    { le := by omega
      control := by
        intro j hj
        rw [hcontrol, control_allocate, if_neg (by omega)]
      fresh := by
        intro j hge hlt
        have hj : j = m.freshId := by omega
        unfold stateOf
        rw [hcontrol, control_allocate, if_pos hj]
        exact ⟨hwait, rfl⟩
      ids := by
        intro j _
        rw [List.mem_singleton]
        omega }

theorem Extended.enqueueReadyLocked (hpos : 0 < m.nextId) (task : τ)
    (options : TaskOptions) :
    Extended m (m.enqueueReadyLocked task options).1
      [(m.enqueueReadyLocked task options).2] :=
  .allocate hpos rfl rfl rfl

theorem Extended.enqueueDelayedLocked (hpos : 0 < m.nextId) (due : Int)
    (task : τ) (options : TaskOptions) :
    Extended m (m.enqueueDelayedLocked due task options).1
      [(m.enqueueDelayedLocked due task options).2] :=
  .allocate hpos rfl rfl rfl

theorem Extended.enqueuePeriodicLocked (hpos : 0 < m.nextId)
    (now due interval : Int) (task : τ) (options : PeriodicTaskOptions) :
    Extended m (m.enqueuePeriodicLocked now due interval task options).1
      [(m.enqueuePeriodicLocked now due interval task options).2] := by
  unfold TaskManager.enqueuePeriodicLocked
  split
  · exact .allocate hpos rfl rfl rfl
  · exact .allocate hpos rfl rfl rfl

theorem Extended.post (hpos : 0 < m.nextId) (task : Option τ)
    (options : TaskOptions) :
    Extended m (m.post task options).1 [(m.post task options).2] := by
  unfold TaskManager.post
  cases task with
  | none => exact .rejected m (by simp)
  | some task =>
      dsimp only
      split
      · exact .rejected m (by simp)
      · exact .enqueueReadyLocked hpos task options

theorem Extended.postAt (hpos : 0 < m.nextId) (now due : Int)
    (task : Option τ) (options : TaskOptions) :
    Extended m (m.postAt now due task options).1
      [(m.postAt now due task options).2] := by
  unfold TaskManager.postAt
  cases task with
  | none => exact .rejected m (by simp)
  | some task =>
      dsimp only
      split
      · exact .rejected m (by simp)
      · split
        · exact .enqueueReadyLocked hpos task options
        · exact .enqueueDelayedLocked hpos due task options

theorem Extended.postEveryAfter (hpos : 0 < m.nextId)
    (now now' initialDelay interval : Int) (task : Option τ)
    (options : PeriodicTaskOptions) :
    Extended m (m.postEveryAfter now now' initialDelay interval task options).1
      [(m.postEveryAfter now now' initialDelay interval task options).2] := by
  unfold TaskManager.postEveryAfter
  cases task with
  | none => exact .rejected m (by simp)
  | some task =>
      dsimp only
      split
      · exact .rejected m (by simp)
      · split
        · exact .rejected m (by simp)
        · exact .enqueuePeriodicLocked hpos _ _ _ _ _

theorem Extended.postBatchLoop (options : TaskOptions)
    (tasks : List (Option τ)) :
    ∀ {m : TaskManager τ}, 0 < m.nextId →
      Extended m (postBatchLoop options tasks m).1
        (postBatchLoop options tasks m).2 := by
  induction tasks with
  | nil => exact fun _ => .rejected _ (by simp [TaskManager.postBatchLoop])
  | cons task tasks ih =>
      intro m hpos
      cases task with
      | none =>
          have hrej : Extended m m [0] := .rejected m (by simp)
          exact hrej.trans (ih hpos)
      | some task =>
          have henq := Extended.enqueueReadyLocked hpos task options
          exact henq.trans (ih (Nat.lt_of_lt_of_le hpos henq.le))

theorem Extended.postBatch (hpos : 0 < m.nextId) (tasks : List (Option τ))
    (options : TaskOptions) :
    Extended m (m.postBatch tasks options).1 (m.postBatch tasks options).2 := by
  unfold TaskManager.postBatch
  split
  · exact .rejected m (by simp)
  · exact .postBatchLoop options tasks hpos

/-! ## Cancellations -/

/-- `m'` is `m` with the waiting or executing control `id` cancelled. -/
structure Withdrew (m m' : TaskManager τ) (id : Nat) : Prop where
  nextId : m'.nextId = m.nextId
  live : (m.stateOf id).waiting ∨ m.stateOf id = .executing
  state : m'.stateOf id = .cancelled
  periodic : (m'.control id).periodic = (m.control id).periodic
  other : ∀ j, j ≠ id → m'.control j = m.control j

theorem Withdrew.cancelled {id : Nat} {state : State}
    (hst : m.stateOf id = state)
    (hlive : state.waiting ∨ state = .executing) :
    Withdrew m (m.cancelled id state) id := by
  cases state
  case cancelled | completed => rcases hlive with h | h <;> cases h
  case executing =>
    exact
      { nextId := rfl
        live := Or.inr hst
        state := by simp [TaskManager.cancelled]
        periodic := by simp [TaskManager.cancelled]
        other := by
          intro j hj
          show ((m.setState id .cancelled).dropReschedule id).control j = _
          rw [control_dropReschedule, if_neg hj, control_setState, if_neg hj] }
  all_goals
    exact
      { nextId := rfl
        live := Or.inl (by rw [hst]; rfl)
        state := by simp [TaskManager.cancelled]
        periodic := periodic_setState m id id .cancelled
        other := by
          intro j hj
          show (m.setState id .cancelled).control j = _
          rw [control_setState, if_neg hj] }

/-- `cancel` returns true exactly when it has withdrawn the task, and changes
nothing otherwise. -/
theorem cancelLoaded_spec (m : TaskManager τ) (id : Nat) (loaded : State) :
    (m.cancelLoaded id loaded).2 = true ∧
        Withdrew m (m.cancelLoaded id loaded).1 id ∨
      (m.cancelLoaded id loaded).2 = false ∧
        (m.cancelLoaded id loaded).1 = m := by
  cases loaded
  case cancelled | completed => exact Or.inr ⟨rfl, rfl⟩
  case executing =>
    simp only [cancelLoaded]
    split
    · exact Or.inr ⟨rfl, rfl⟩
    · split
      · next hst => exact Or.inl ⟨rfl, .cancelled hst (Or.inr rfl)⟩
      · exact Or.inr ⟨rfl, rfl⟩
  all_goals
    simp only [cancelLoaded]
    split
    · next hst => exact Or.inl ⟨rfl, .cancelled hst (Or.inl rfl)⟩
    · exact Or.inr ⟨rfl, rfl⟩

theorem cancelFromContext_spec (m : TaskManager τ) (id : Nat) :
    (m.cancelFromContext id).2 = true ∧
        Withdrew m (m.cancelFromContext id).1 id ∨
      (m.cancelFromContext id).2 = false ∧ (m.cancelFromContext id).1 = m := by
  unfold cancelFromContext
  split
  · exact Or.inr ⟨rfl, rfl⟩
  · split
    · split
      · next hst =>
          have hw := Withdrew.cancelled hst (Or.inr rfl)
          refine Or.inl ⟨rfl, ?_⟩
          cases hp : (m.control id).periodic
          all_goals
            exact
              { nextId := rfl
                live := hw.live
                state := hw.state
                periodic := hw.periodic
                other := hw.other }
      · exact Or.inr ⟨rfl, rfl⟩
    · exact Or.inr ⟨rfl, rfl⟩

/-! ## `clear_pending` -/

/-- `m'` is `m` with the waiting controls of `ids` cancelled. -/
structure Dropped (m m' : TaskManager τ) (ids : List Nat) : Prop where
  nextId : m'.nextId = m.nextId
  waiting : ∀ j ∈ ids, (m.stateOf j).waiting
  state : ∀ j ∈ ids, m'.stateOf j = .cancelled
  periodic : ∀ j, (m'.control j).periodic = (m.control j).periodic
  other : ∀ j, j ∉ ids → m'.control j = m.control j

theorem Dropped.nil (m : TaskManager τ) : Dropped m m [] :=
  { nextId := rfl
    waiting := by simp
    state := by simp
    periodic := fun _ => rfl
    other := fun _ _ => rfl }

theorem Dropped.congr {ids : List Nat} (h : Dropped m m' ids)
    (hnext : m''.nextId = m'.nextId) (hcontrol : m''.control = m'.control) :
    Dropped m m'' ids :=
  { nextId := hnext.trans h.nextId
    waiting := h.waiting
    state := by unfold stateOf; rw [hcontrol]; exact h.state
    periodic := by rw [hcontrol]; exact h.periodic
    other := by rw [hcontrol]; exact h.other }

/-- One more waiting control is cancelled. -/
theorem Dropped.cancelled {ids : List Nat} {id : Nat} {state : State}
    (h : Dropped m m' ids) (hst : m'.stateOf id = state)
    (hwait : state.waiting) :
    Dropped m (m'.cancelled id state) (ids ++ [id]) := by
  have hw := Withdrew.cancelled hst (Or.inl hwait)
  have hnew : id ∉ ids := by
    intro hid
    rw [← hst, h.state id hid] at hwait
    exact absurd hwait (by decide)
  exact
    { nextId := hw.nextId.trans h.nextId
      waiting := by
        intro j hj
        rcases List.mem_append.1 hj with hj | hj
        · exact h.waiting j hj
        · rw [List.mem_singleton.1 hj]
          have := h.other id hnew
          unfold stateOf at hst ⊢
          rw [← this, hst]
          exact hwait
      state := by
        intro j hj
        by_cases hjid : j = id
        · rw [hjid]
          exact hw.state
        · have hj : j ∈ ids := by simpa [hjid] using hj
          unfold stateOf
          rw [hw.other j hjid]
          exact h.state j hj
      periodic := by
        intro j
        by_cases hjid : j = id
        · rw [hjid, hw.periodic, h.periodic]
        · rw [hw.other j hjid, h.periodic]
      other := by
        intro j hj
        rw [List.mem_append, List.mem_singleton, not_or] at hj
        rw [hw.other j hj.2, h.other j hj.1] }

theorem Dropped.clearReadyLoop (queue : List (Entry τ)) :
    ∀ {r : TaskManager τ × List Nat}, Dropped m r.1 r.2 →
      Dropped m (queue.foldl clearReadyEntry r).1
        (queue.foldl clearReadyEntry r).2 := by
  induction queue with
  | nil => exact fun h => h
  | cons entry queue ih =>
      intro r h
      refine ih ?_
      unfold clearReadyEntry
      split
      · next hst => exact h.cancelled hst rfl
      · exact h

theorem Dropped.clearDelayedLoop (heap : List (Entry τ)) :
    ∀ {r : TaskManager τ × List Nat}, Dropped m r.1 r.2 →
      Dropped m (heap.foldl clearDelayedEntry r).1
        (heap.foldl clearDelayedEntry r).2 := by
  induction heap with
  | nil => exact fun h => h
  | cons entry heap ih =>
      intro r h
      refine ih ?_
      unfold clearDelayedEntry
      split
      · next hst => exact h.cancelled hst rfl
      · exact h

theorem Dropped.clearQueue {r : TaskManager τ × List Nat}
    (h : Dropped m r.1 r.2) (priority : TaskPriority) :
    Dropped m (clearQueue priority r).1 (clearQueue priority r).2 :=
  (Dropped.clearReadyLoop (r.1.ready priority) h).congr rfl rfl

theorem Dropped.clearPending (m : TaskManager τ) :
    Dropped m m.clearPending.1 m.clearPending.2 := by
  have hhigh := Dropped.clearQueue (r := (m, [])) (.nil m) .high
  have hlow := (hhigh.clearQueue .normal).clearQueue .low
  exact (Dropped.clearDelayedLoop _ hlow).congr rfl rfl

/-! ## The end of a callback -/

/-- `m'` is `m` after the callback of `id` has ended. A cancelled control
stays so; an executing one is completed, or waits again if `again` holds. -/
structure Ended (m m' : TaskManager τ) (id : Nat) (again : Prop) : Prop where
  nextId : m'.nextId = m.nextId
  periodic : (m'.control id).periodic = (m.control id).periodic
  other : ∀ j, j ≠ id → m'.control j = m.control j
  outcome : m.stateOf id = .cancelled ∧ m'.stateOf id = .cancelled ∨
    m.stateOf id = .executing ∧
      (m'.stateOf id = .completed ∨ (m'.stateOf id).waiting ∧
        (m'.control id).rescheduleRequested = false ∧ again)

theorem control_dropReschedule_of_ne {id j : Nat} (h : j ≠ id) :
    (m.dropReschedule id).control j = m.control j := by
  rw [control_dropReschedule, if_neg h]

theorem control_setState_of_ne {id j : Nat} {state : State} (h : j ≠ id) :
    (m.setState id state).control j = m.control j := by
  rw [control_setState, if_neg h]

theorem nextId_enqueueExistingLocked (now : Int) (entry : Entry τ) (due : Int) :
    (m.enqueueExistingLocked now entry due).nextId = m.nextId := by
  unfold enqueueExistingLocked
  repeat' split
  all_goals rfl

theorem control_enqueueExistingLocked {entry : Entry τ}
    (hst : m.stateOf entry.id = .executing) (now due : Int) :
    (m.enqueueExistingLocked now entry due).control =
      (m.setState entry.id
        (if due ≤ now then .queuedReady else .queuedDelayed)).control := by
  unfold enqueueExistingLocked
  rw [if_pos hst]
  by_cases hdue : due ≤ now
  all_goals
    simp only [hdue, if_true, if_false]
    split <;> rfl

theorem Ended.enqueueExistingLocked {entry : Entry τ} {again : Prop}
    (hst : m.stateOf entry.id = .executing)
    (hreq : (m.control entry.id).rescheduleRequested = false) (hagain : again)
    (now due : Int) :
    Ended m (m.enqueueExistingLocked now entry due) entry.id again := by
  have hcontrol := control_enqueueExistingLocked hst now due
  exact
    { nextId := nextId_enqueueExistingLocked now entry due
      periodic := by rw [hcontrol, periodic_setState]
      other := by
        intro j hj
        rw [hcontrol, control_setState_of_ne hj]
      outcome := by
        refine Or.inr ⟨hst, Or.inr ⟨?_, ?_, hagain⟩⟩
        · unfold stateOf
          rw [hcontrol, control_setState, if_pos rfl]
          split <;> rfl
        · rw [hcontrol, control_setState, if_pos rfl]
          exact hreq }

/-- The reschedule flag is dropped first. -/
theorem Ended.of_dropReschedule {id : Nat} {again : Prop}
    (h : Ended (m.dropReschedule id) m' id again) : Ended m m' id again :=
  { nextId := h.nextId
    periodic := by rw [h.periodic, periodic_dropReschedule]
    other := by
      intro j hj
      rw [h.other j hj, control_dropReschedule_of_ne hj]
    outcome := by simpa using h.outcome }

/-- What `Ended` reads of the manager after the callback. -/
theorem Ended.congr {id : Nat} {again : Prop} (h : Ended m m' id again)
    (hnext : m''.nextId = m'.nextId) (hcontrol : m''.control = m'.control) :
    Ended m m'' id again := by
  have hstate : m''.stateOf = m'.stateOf := by
    unfold stateOf
    rw [hcontrol]
  exact
    { nextId := hnext.trans h.nextId
      periodic := by rw [hcontrol]; exact h.periodic
      other := by rw [hcontrol]; exact h.other
      outcome := by rw [hcontrol, hstate]; exact h.outcome }

theorem Ended.completed {id : Nat} {again : Prop}
    (hst : m.stateOf id = .executing) :
    Ended m (m.setState id .completed) id again :=
  { nextId := rfl
    periodic := periodic_setState m id id .completed
    other := fun _ hj => control_setState_of_ne hj
    outcome := Or.inr ⟨hst, Or.inl (by simp)⟩ }

theorem Ended.complete {entry : Entry τ} {again : Prop}
    (hst : m.stateOf entry.id = .executing) :
    Ended m (m.complete entry) entry.id again := by
  refine (Ended.completed hst).congr ?_ ?_
  all_goals
    unfold TaskManager.complete
    cases entry.periodic <;> rfl

theorem Ended.cancelled {id : Nat} {again : Prop}
    (hst : m.stateOf id = .cancelled) : Ended m m id again :=
  { nextId := rfl
    periodic := rfl
    other := fun _ _ => rfl
    outcome := Or.inl ⟨hst, hst⟩ }

/-- Dropping the reschedule flag of a control that has ended otherwise. -/
theorem Ended.then_dropReschedule {id : Nat} {again : Prop}
    (h : Ended m m' id again) : Ended m (m'.dropReschedule id) id again :=
  { nextId := h.nextId
    periodic := by rw [periodic_dropReschedule, h.periodic]
    other := by
      intro j hj
      rw [control_dropReschedule_of_ne hj, h.other j hj]
    outcome := by
      rcases h.outcome with ⟨h1, h2⟩ | ⟨h1, h2 | ⟨h2, -, h4⟩⟩
      · exact Or.inl ⟨h1, by simpa using h2⟩
      · exact Or.inr ⟨h1, Or.inl (by simpa using h2)⟩
      · refine Or.inr ⟨h1, Or.inr ⟨by simpa using h2, ?_, h4⟩⟩
        rw [control_dropReschedule, if_pos rfl] }

theorem Ended.finishAfterSuccess {entry : Entry τ}
    (hst : m.stateOf entry.id = .executing ∨ m.stateOf entry.id = .cancelled)
    (now now' : Int) :
    Ended m (m.finishAfterSuccess now now' entry) entry.id
      ((m.control entry.id).rescheduleRequested ∨ entry.periodic) := by
  unfold TaskManager.finishAfterSuccess
  rcases hst with hst | hst
  · have hne : m.stateOf entry.id ≠ .cancelled := by rw [hst]; decide
    rw [if_neg hne, if_neg (not_not.mpr hst)]
    split
    · exact (Ended.complete hst).then_dropReschedule
    · split
      · next hreq =>
          refine Ended.of_dropReschedule (.enqueueExistingLocked ?_ ?_ ?_ _ _)
          · rw [stateOf_dropReschedule]
            exact hst
          · rw [control_dropReschedule, if_pos rfl]
          · exact Or.inl hreq
      · next hreq =>
          split
          · next hp =>
              exact .enqueueExistingLocked hst (by simpa using hreq)
                (Or.inr hp) _ _
          · exact (Ended.completed hst).congr rfl rfl
  · rw [if_pos hst]
    exact (Ended.cancelled hst).then_dropReschedule.congr rfl rfl

theorem Ended.finishAfterException {entry : Entry τ}
    (hst : m.stateOf entry.id = .executing ∨ m.stateOf entry.id = .cancelled) :
    Ended m (m.finishAfterException entry) entry.id False := by
  unfold TaskManager.finishAfterException
  refine Ended.of_dropReschedule ?_
  rw [← stateOf_dropReschedule m entry.id] at hst
  rcases hst with hst | hst
  · rw [if_pos hst]
    exact .complete hst
  · rw [if_neg (by rw [hst]; decide), if_pos hst]
    exact (Ended.cancelled hst).congr rfl rfl

end TaskManager

end EventHub
