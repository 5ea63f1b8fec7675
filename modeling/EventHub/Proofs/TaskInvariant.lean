import Mathlib.Algebra.BigOperators.Ring.Finset
import Mathlib.Algebra.BigOperators.Intervals
import EventHub.Task.System

/-!
# The representation invariant of `TaskManager`
-/

namespace EventHub

open TaskManager

variable {τ : Type}

/-! ## Counting entries -/

/-- How often an id occurs among the entries. -/
def copies (entries : List (Entry τ)) (id : Nat) : Nat :=
  entries.countP fun entry => entry.id = id

@[simp] theorem copies_nil (id : Nat) :
    copies ([] : List (Entry τ)) id = 0 := rfl

@[simp] theorem copies_cons (entry : Entry τ) (entries : List (Entry τ))
    (id : Nat) :
    copies (entry :: entries) id =
      copies entries id + if entry.id = id then 1 else 0 := by
  simp [copies, List.countP_cons]

@[simp] theorem copies_append (xs ys : List (Entry τ)) (id : Nat) :
    copies (xs ++ ys) id = copies xs id + copies ys id := by
  simp [copies]

@[simp] theorem copies_pushHeap (heap : List (Entry τ)) (entry : Entry τ)
    (id : Nat) :
    copies (pushHeap heap entry) id =
      copies heap id + if entry.id = id then 1 else 0 := by
  rw [← copies_cons]
  exact (List.perm_orderedInsert _ entry heap).countP_eq _

theorem copies_pos {entries : List (Entry τ)} {entry : Entry τ}
    (h : entry ∈ entries) : 0 < copies entries entry.id :=
  List.countP_pos_iff.2 ⟨entry, h, by simp⟩

/-- The copies in the three ready queues together. -/
def readyCopies (ready : TaskPriority → List (Entry τ)) (id : Nat) : Nat :=
  copies (ready .high) id + copies (ready .normal) id + copies (ready .low) id

@[simp] theorem readyCopies_pushBack (ready : TaskPriority → List (Entry τ))
    (entry : Entry τ) (priority : TaskPriority) (id : Nat) :
    readyCopies (Function.update ready priority (ready priority ++ [entry])) id =
      readyCopies ready id + if entry.id = id then 1 else 0 := by
  cases priority <;> simp [readyCopies] <;> omega

@[simp] theorem readyCopies_cons (ready : TaskPriority → List (Entry τ))
    (entry : Entry τ) (queue : List (Entry τ)) (priority : TaskPriority)
    (id : Nat) :
    readyCopies (Function.update ready priority (entry :: queue)) id =
      readyCopies (Function.update ready priority queue) id +
        if entry.id = id then 1 else 0 := by
  cases priority <;> simp [readyCopies] <;> omega

/-! ## Summing over the controls -/

/-- A weight summed over every id handed out. -/
def TaskManager.tally (w : State → Bool → Int) (m : TaskManager τ) : Int :=
  ∑ id ∈ Finset.range m.nextId, w (m.stateOf id) (m.control id).periodic

theorem tally_touch (w : State → Bool → Int) {m m' : TaskManager τ}
    {id : Nat} (hid : id < m.nextId) (hnext : m'.nextId = m.nextId)
    (hstate : ∀ j, j ≠ id → m'.stateOf j = m.stateOf j)
    (hperiodic : ∀ j, (m'.control j).periodic = (m.control j).periodic) :
    m'.tally w = m.tally w - w (m.stateOf id) (m.control id).periodic +
      w (m'.stateOf id) (m.control id).periodic := by
  have hmem : id ∈ Finset.range m.nextId := Finset.mem_range.2 hid
  have hrest : ∀ j ∈ (Finset.range m.nextId).erase id,
      w (m'.stateOf j) (m'.control j).periodic =
        w (m.stateOf j) (m.control j).periodic := by
    intro j hj
    rw [hstate j (Finset.ne_of_mem_erase hj), hperiodic]
  unfold tally
  rw [hnext, ← Finset.add_sum_erase _ _ hmem, Finset.sum_congr rfl hrest,
    ← Finset.add_sum_erase (Finset.range m.nextId)
      (fun j => w (m.stateOf j) (m.control j).periodic) hmem, hperiodic]
  omega

theorem tally_extend (w : State → Bool → Int) {m m' : TaskManager τ}
    (hnext : m'.nextId = m.nextId + 1)
    (hstate : ∀ j, j ≠ m.nextId → m'.stateOf j = m.stateOf j)
    (hperiodic : ∀ j, j ≠ m.nextId →
      (m'.control j).periodic = (m.control j).periodic) :
    m'.tally w = m.tally w +
      w (m'.stateOf m.nextId) (m'.control m.nextId).periodic := by
  unfold tally
  rw [hnext, Finset.sum_range_succ]
  congr 1
  refine Finset.sum_congr rfl fun j hj => ?_
  have hj' : j ≠ m.nextId := Nat.ne_of_lt (Finset.mem_range.1 hj)
  rw [hstate j hj', hperiodic j hj']

/-! ## The invariant

One id at a time: its state says in which container its entry lies, and how
often. A cancelled entry may linger wherever the cancellation met it, and it
keeps its index slot only while its callback is still running. -/

/-- The places of an id, by its state. -/
def Accounted (state : State) (indexed : Prop)
    (ready delayed current unrun : Nat) : Prop :=
  match state with
  | .queuedReady =>
      indexed ∧ ready = 1 ∧ delayed = 0 ∧ current = 0 ∧ unrun = 0
  | .queuedDelayed =>
      indexed ∧ ready = 0 ∧ delayed = 1 ∧ current = 0 ∧ unrun = 0
  | .readySnapshot =>
      indexed ∧ ready = 0 ∧ delayed = 0 ∧ current = 0 ∧ unrun = 1
  | .executing =>
      indexed ∧ ready = 0 ∧ delayed = 0 ∧ current = 1 ∧ unrun = 0
  | .cancelled =>
      (indexed ↔ current = 1) ∧ ready + delayed + current + unrun ≤ 1
  | .completed =>
      ¬ indexed ∧ ready = 0 ∧ delayed = 0 ∧ current = 0 ∧ unrun = 0

/-- What a control adds to `m_ready_count`. -/
def readyWeight : State → Bool → Int
  | .queuedReady, _ => 1
  | _, _ => 0

/-- What a control adds to `m_pending_count`. -/
def pendingWeight : State → Bool → Int
  | .queuedReady, _ | .queuedDelayed, _ | .readySnapshot, _ => 1
  | .executing, true => 1
  | _, _ => 0

/-- The entries of the manager and of the consumer. -/
def Holds (m : TaskManager τ) (cur : Option (Entry τ))
    (unrun : List (Entry τ)) (entry : Entry τ) : Prop :=
  (∃ priority, entry ∈ m.ready priority) ∨ entry ∈ m.delayedHeap ∨
    entry ∈ cur ∨ entry ∈ unrun

structure TaskManager.Inv (m : TaskManager τ) (cur : Option (Entry τ))
    (unrun : List (Entry τ)) (owed : Int) : Prop where
  accounted : ∀ id, Accounted (m.stateOf id) (id ∈ m.index) (readyCopies m.ready id)
    (copies m.delayedHeap id) (copies cur.toList id) (copies unrun id)
  fresh : ∀ id, m.nextId ≤ id → m.stateOf id = .completed
  zero : m.stateOf 0 = .completed
  positive : 0 < m.nextId
  priority : ∀ priority, ∀ entry ∈ m.ready priority, entry.priority = priority
  periodic : ∀ entry, Holds m cur unrun entry →
    entry.periodic = (m.control entry.id).periodic
  readyCount : m.readyCount = m.tally readyWeight
  pendingCount : m.pendingCount = m.tally pendingWeight + owed

section Touch

variable {m m' : TaskManager τ} {cur cur' : Option (Entry τ)}
  {unrun unrun' : List (Entry τ)} {owed owed' : Int}

theorem TaskManager.Inv.lt_nextId (h : m.Inv cur unrun owed) {id : Nat}
    (hs : m.stateOf id ≠ .completed) : id < m.nextId := by
  by_contra hge
  exact hs (h.fresh id (by omega))

theorem TaskManager.Inv.ne_zero (h : m.Inv cur unrun owed) {id : Nat}
    (hs : m.stateOf id ≠ .completed) : id ≠ 0 := by
  rintro rfl
  exact hs h.zero

/-- A step that changes one id keeps the invariant if it leaves that id
accounted for and moves both counters by the change of its weights. -/
theorem TaskManager.Inv.touch (h : m.Inv cur unrun owed) {id : Nat}
    (hlt : id < m.nextId) (hne : id ≠ 0) (hnext : m'.nextId = m.nextId)
    (hother : ∀ j, j ≠ id → m'.stateOf j = m.stateOf j ∧
      (j ∈ m'.index ↔ j ∈ m.index) ∧ readyCopies m'.ready j = readyCopies m.ready j ∧
      copies m'.delayedHeap j = copies m.delayedHeap j ∧
      copies cur'.toList j = copies cur.toList j ∧
      copies unrun' j = copies unrun j)
    (hid : Accounted (m'.stateOf id) (id ∈ m'.index) (readyCopies m'.ready id)
      (copies m'.delayedHeap id) (copies cur'.toList id) (copies unrun' id))
    (hcontrol : ∀ j, (m'.control j).periodic = (m.control j).periodic)
    (hpriority : ∀ priority, ∀ entry ∈ m'.ready priority,
      entry ∈ m.ready priority ∨ entry.priority = priority)
    (hholds : ∀ entry, Holds m' cur' unrun' entry → Holds m cur unrun entry ∨
      entry.periodic = (m.control entry.id).periodic)
    (hready : m'.readyCount = m.readyCount -
      readyWeight (m.stateOf id) (m.control id).periodic +
      readyWeight (m'.stateOf id) (m.control id).periodic)
    (hpending : m'.pendingCount - owed' = m.pendingCount - owed -
      pendingWeight (m.stateOf id) (m.control id).periodic +
      pendingWeight (m'.stateOf id) (m.control id).periodic) :
    m'.Inv cur' unrun' owed' := by
  have hstate : ∀ j, j ≠ id → m'.stateOf j = m.stateOf j :=
    fun j hj => (hother j hj).1
  constructor
  · intro j
    by_cases hj : j = id
    · rw [hj]; exact hid
    · obtain ⟨h1, h2, h3, h4, h5, h6⟩ := hother j hj
      rw [h1, h2, h3, h4, h5, h6]
      exact h.accounted j
  · intro j hj
    rw [hnext] at hj
    rw [hstate j (by omega)]
    exact h.fresh j hj
  · rw [hstate 0 (Ne.symm hne)]
    exact h.zero
  · rw [hnext]
    exact h.positive
  · intro priority entry he
    rcases hpriority priority entry he with hold | heq
    · exact h.priority priority entry hold
    · exact heq
  · intro entry he
    rw [hcontrol]
    rcases hholds entry he with hold | heq
    · exact h.periodic entry hold
    · exact heq
  · rw [hready, h.readyCount, tally_touch _ hlt hnext hstate hcontrol]
  · rw [tally_touch _ hlt hnext hstate hcontrol]
    have := h.pendingCount
    omega

end Touch

end EventHub
