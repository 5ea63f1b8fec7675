import EventHub.Proofs.TaskHistory

/-!
# What holds of a manager in every run

The two invariants read together, in the terms of someone who uses the
manager: where the entry of a task is, how often its callback starts, and when
a cancellation comes too late.
-/

namespace EventHub

variable {τ : Type}

namespace TaskSystem

/-! ## The representation -/

/-- The entries of `id`, wherever they are. -/
def entriesOf (s : TaskSystem τ) (id : Nat) : Nat :=
  readyCopies s.mgr.ready id + copies s.mgr.delayedHeap id +
    copies s.phase.batch id

/-- The callback of `id` is on the stack. -/
def Running (s : TaskSystem τ) (id : Nat) : Prop :=
  ∃ entry ∈ s.phase.current, entry.id = id

/-- The control of `id` is completed, or cancelled for good. -/
def Settled (s : TaskSystem τ) (id : Nat) : Prop :=
  s.mgr.stateOf id = .completed ∨
    s.mgr.stateOf id = .cancelled ∧ ¬ s.Running id

structure Represented (s : TaskSystem τ) : Prop where
  one_entry : ∀ id, .submitted id ∈ s.log → ¬ s.Settled id →
    s.entriesOf id = 1
  queuedReady : ∀ id, s.mgr.stateOf id = .queuedReady →
    ∃ entry, entry.id = id ∧ entry ∈ s.mgr.ready entry.priority ∧
      copies (s.mgr.ready entry.priority) id = 1
  queuedDelayed : ∀ id, s.mgr.stateOf id = .queuedDelayed →
    copies s.mgr.delayedHeap id = 1
  inBatch : ∀ id, s.mgr.stateOf id = .readySnapshot ∨
    s.mgr.stateOf id = .executing → copies s.phase.batch id = 1
  index : ∀ id, id ∈ s.mgr.index ↔
    .submitted id ∈ s.log ∧ s.mgr.stateOf id ≠ .completed ∧
        s.mgr.stateOf id ≠ .cancelled ∨
      s.mgr.stateOf id = .cancelled ∧ s.Running id
  readyCount : s.mgr.readyCount =
    ({id ∈ Finset.range s.mgr.nextId |
      s.mgr.stateOf id = .queuedReady} : Finset Nat).card
  pendingCount : s.mgr.pendingCount =
    ({id ∈ Finset.range s.mgr.nextId |
      s.mgr.stateOf id = .queuedReady ∨ s.mgr.stateOf id = .queuedDelayed ∨
        s.mgr.stateOf id = .readySnapshot ∨
        s.mgr.stateOf id = .executing ∧
          (s.mgr.control id).periodic} : Finset Nat).card + s.phase.owed

theorem tally_eq_card (m : TaskManager τ) {w : State → Bool → Int}
    {p : Nat → Prop} [DecidablePred p]
    (hw : ∀ id, w (m.stateOf id) (m.control id).periodic =
      if p id then 1 else 0) :
    m.tally w = ({id ∈ Finset.range m.nextId | p id} : Finset Nat).card := by
  unfold TaskManager.tally
  rw [Finset.sum_congr rfl fun id _ => hw id, Finset.sum_boole]

theorem readyWeight_eq (state : State) (periodic : Bool) :
    readyWeight state periodic = if state = .queuedReady then 1 else 0 := by
  cases state <;> rfl

theorem pendingWeight_eq (state : State) (periodic : Bool) :
    pendingWeight state periodic =
      if state = .queuedReady ∨ state = .queuedDelayed ∨
        state = .readySnapshot ∨ state = .executing ∧ periodic then 1
      else 0 := by
  cases state <;> cases periodic <;> rfl

theorem copies_batch (p : Phase τ) (id : Nat) :
    copies p.batch id = copies p.current.toList id + copies p.unrun id := by
  rw [Phase.batch, copies_append]

theorem running_iff (s : TaskSystem τ) (id : Nat) :
    s.Running id ↔ copies s.phase.current.toList id = 1 := by
  unfold Running
  cases s.phase.current with
  | none => simp
  | some entry => by_cases h : entry.id = id <;> simp [h]

/-- A single copy in the three queues together lies in the queue of its own
priority. -/
theorem exists_of_readyCopies {m : TaskManager τ} {id : Nat}
    (hp : ∀ priority, ∀ entry ∈ m.ready priority, entry.priority = priority)
    (h : readyCopies m.ready id = 1) :
    ∃ entry, entry.id = id ∧ entry ∈ m.ready entry.priority ∧
      copies (m.ready entry.priority) id = 1 := by
  have hqueue : ∃ priority, copies (m.ready priority) id = 1 := by
    unfold readyCopies at h
    by_cases h1 : copies (m.ready .high) id = 1
    · exact ⟨.high, h1⟩
    · by_cases h2 : copies (m.ready .normal) id = 1
      · exact ⟨.normal, h2⟩
      · exact ⟨.low, by omega⟩
  obtain ⟨priority, hcopies⟩ := hqueue
  have hpos : 0 < copies (m.ready priority) id := by omega
  obtain ⟨entry, hmem, hid⟩ := List.countP_pos_iff.mp hpos
  have heq := hp priority entry hmem
  exact ⟨entry, by simpa using hid, by rw [heq]; exact hmem,
    by rw [heq]; exact hcopies⟩

theorem Reachable.represented {s : TaskSystem τ} (h : s.Reachable) :
    s.Represented := by
  have hinv : s.mgr.Inv s.phase.current s.phase.unrun s.phase.owed := h.inv
  have hlog := h.logged
  constructor
  · intro id hsub hset
    have hacc := hinv.accounted id
    unfold entriesOf
    rw [copies_batch]
    cases hst : s.mgr.stateOf id
    case completed => exact absurd (Or.inl hst) hset
    case cancelled =>
      have hrun : s.Running id :=
        not_not.mp fun hnot => hset (Or.inr ⟨hst, hnot⟩)
      rw [running_iff] at hrun
      simp only [hst, Accounted] at hacc
      omega
    all_goals
      simp only [hst, Accounted] at hacc
      omega
  · intro id hst
    have hacc := hinv.accounted id
    rw [hst] at hacc
    exact exists_of_readyCopies hinv.priority hacc.2.1
  · intro id hst
    have hacc := hinv.accounted id
    rw [hst] at hacc
    exact hacc.2.2.1
  · intro id hst
    have hacc := hinv.accounted id
    rw [copies_batch]
    rcases hst with hst | hst
    all_goals
      rw [hst] at hacc
      obtain ⟨-, -, -, h4, h5⟩ := hacc
      omega
  · intro id
    have hacc := hinv.accounted id
    have hsub : s.mgr.stateOf id ≠ .completed → .submitted id ∈ s.log := by
      intro hne
      have hz := hinv.ne_zero hne
      exact (hlog id).submitted.mpr ⟨by omega, hinv.lt_nextId hne⟩
    rw [running_iff]
    cases hst : s.mgr.stateOf id
    all_goals
      simp only [hst, Accounted] at hacc hsub
      simp [hacc]
      try exact hsub (by decide)
  · rw [hinv.readyCount]
    exact tally_eq_card s.mgr fun id => readyWeight_eq _ _
  · rw [hinv.pendingCount]
    congr 1
    exact tally_eq_card s.mgr fun id => pendingWeight_eq _ _

/-- A one-shot task cancelled through its context while it runs, with a
delayed one behind it in the heap. -/
theorem represented_while_cancelled : ∃ s : TaskSystem Unit,
    Lts.run step {} [.post (some ()) {}, .postAt 0 5 (some ()) {},
      .processBegin 0 7, .processStart, .processSettle, .contextCancel 1] =
        some s ∧ s.Represented :=
  Lts.exists_run rfl fun _ => Reachable.represented

/-! ## No task is lost or run twice -/

/-- The callback of `id` has ended and no entry of it is left. -/
def Finished (s : TaskSystem τ) (id : Nat) : Prop :=
  s.mgr.stateOf id = .completed ∧ ended id s.log ∧
    readyCopies s.mgr.ready id + copies s.mgr.delayedHeap id = 0

/-- The task waits in exactly one queue, exactly once. -/
def QueuedOnce (s : TaskSystem τ) (id : Nat) : Prop :=
  (s.mgr.stateOf id = .queuedReady ∨ s.mgr.stateOf id = .queuedDelayed) ∧
    readyCopies s.mgr.ready id + copies s.mgr.delayedHeap id = 1

structure ExactlyOnce (s : TaskSystem τ) : Prop where
  starts_le : ∀ id, .submitted id ∈ s.log →
    (s.mgr.control id).periodic = false →
    starts id s.log ≤ 1 + rescheduledRuns id s.log
  silent : ∀ id, s.log.Pairwise fun later earlier =>
    earlier.withdraws id → later ≠ .started id
  fate : s.phase = .idle → ∀ id, .submitted id ∈ s.log →
    s.Finished id ∧ ¬ withdrawn id s.log ∧ ¬ s.QueuedOnce id ∨
      ¬ s.Finished id ∧ withdrawn id s.log ∧ ¬ s.QueuedOnce id ∨
      ¬ s.Finished id ∧ ¬ withdrawn id s.log ∧ s.QueuedOnce id

theorem Reachable.exactlyOnce {s : TaskSystem τ} (h : s.Reachable) :
    s.ExactlyOnce := by
  have hinv : s.mgr.Inv s.phase.current s.phase.unrun s.phase.owed := h.inv
  have hlog := h.logged
  refine ⟨?_, fun id => (hlog id).silent, ?_⟩
  · intro id _ hp
    have := (hlog id).runs hp
    omega
  · intro hidle id hsub
    have hacc := hinv.accounted id
    have hw := (hlog id).withdrawn
    have hend := (hlog id).ended hsub
    rw [hidle] at hacc
    simp only [Phase.current, Phase.unrun, Option.toList_none, copies_nil]
      at hacc
    unfold Finished QueuedOnce
    rw [hw]
    cases hst : s.mgr.stateOf id
    all_goals
      unfold TaskManager.stateOf at hst
      simp only [TaskManager.stateOf, hst, Accounted] at hacc hend ⊢
      simp at hacc ⊢
    · simp [hacc]
    · simp [hacc]
    · exact ⟨hend trivial, hacc.2⟩

/-- A task that reschedules itself runs twice, one behind it is put back by
an escaping exception and one is cancelled. -/
theorem exactlyOnce_after_escape : ∃ s : TaskSystem Unit,
    Lts.run step {} [.postBatch [some (), some (), none, some ()] {},
      .cancelLoad 3, .cancelExchange, .processBegin 0 7, .processStart,
      .processSettle, .contextReschedule 1 0, .callbackReturned 0 0,
      .processStart, .processSettle, .callbackThrew, .exceptionEscaped,
      .processBegin 1 1, .processStart] =
        some s ∧ s.ExactlyOnce :=
  Lts.exists_run rfl fun _ => Reachable.exactlyOnce

/-! ## Cancelling a periodic series -/

/-- `cancel(id)` has just returned true and no later run starts `id`. -/
def CancelTook (s : TaskSystem τ) (id : Nat) : Prop :=
  s.log.head? = some (.cancelReturned id true) ∧
    ∀ acts s', Lts.run step s acts = some s' →
      starts id s'.log = starts id s.log

/-- The next step is the start transition of a callback of `id`. -/
def StartsNext (id : Nat) (s : TaskSystem τ) (a : TaskAction τ) : Prop :=
  ∃ entry unrun, a = .processStart ∧ s.phase = .scanning (entry :: unrun) ∧
    entry.id = id

/-- A periodic series that was accepted and is not cancelled, cleared or
completed. -/
def LiveSeries (s : TaskSystem τ) (id : Nat) : Prop :=
  .submitted id ∈ s.log ∧ (s.mgr.control id).periodic ∧
    s.mgr.stateOf id ≠ .cancelled ∧ s.mgr.stateOf id ≠ .completed

theorem stepFree_log {s s' : TaskSystem τ} {a : TaskAction τ}
    (hstep : s.stepFree a = some s') : s.log <:+ s'.log := by
  cases a <;> simp only [stepFree] at hstep <;> try contradiction
  all_goals
    split at hstep <;> try contradiction
    try split at hstep
    all_goals
      injection hstep with hstep
      subst hstep
      first
      | exact List.suffix_rfl
      | exact List.suffix_cons _ _

theorem stepLocked_log {s s' : TaskSystem τ} {a : TaskAction τ}
    (hstep : s.stepLocked a = some s') : s.log <:+ s'.log := by
  cases a <;> simp only [stepLocked] at hstep <;> try contradiction
  all_goals
    repeat' split at hstep
    all_goals try contradiction
    all_goals
      injection hstep with hstep
      subst hstep
      first
      | exact List.suffix_rfl
      | exact List.suffix_cons _ _
      | exact List.suffix_append _ _

theorem step_log {s s' : TaskSystem τ} {a : TaskAction τ}
    (hstep : s.step a = some s') : s.log <:+ s'.log := by
  unfold step at hstep
  split at hstep
  · exact stepFree_log hstep
  · exact stepFree_log hstep
  · exact stepFree_log hstep
  · exact stepFree_log hstep
  · unfold stepExchange at hstep
    split at hstep
    · injection hstep with hstep
      subst hstep
      exact List.suffix_cons _ _
    · contradiction
  · split at hstep
    · exact stepLocked_log hstep
    · contradiction

theorem starts_cons_of_ne {id : Nat} {o : TaskObs} (h : o ≠ .started id)
    (log : List TaskObs) : starts id (o :: log) = starts id log :=
  List.count_cons_of_ne h

/-- A callback starts in `process()`. -/
theorem step_starts {s s' : TaskSystem τ} {a : TaskAction τ}
    (hstep : s.step a = some s') (id : Nat) :
    starts id s'.log = starts id s.log ∨
      ∃ entry unrun, a = .processStart ∧ s.phase = .scanning (entry :: unrun) ∧
        s'.phase.current = some entry ∧ entry.id = id := by
  unfold step at hstep
  split at hstep
  · simp only [stepFree] at hstep
    split at hstep
    · next entry unrun hphase =>
        split at hstep <;> cases hstep
        · by_cases hid : entry.id = id
          · exact .inr ⟨entry, unrun, rfl, hphase, rfl, hid⟩
          · exact .inl (starts_cons_of_ne (fun heq => hid (by cases heq; rfl)) _)
        · exact .inl rfl
    · cases hstep
  · simp only [stepFree] at hstep
    split at hstep <;> cases hstep
    exact .inl rfl
  · simp only [stepFree] at hstep
    split at hstep <;> cases hstep
    exact .inl rfl
  · simp only [stepFree] at hstep
    split at hstep <;> cases hstep
    exact .inl (starts_cons_of_ne (by rintro ⟨⟩) _)
  · unfold stepExchange at hstep
    split at hstep
    · injection hstep with hstep
      subst hstep
      exact .inl (starts_cons_of_ne (by rintro ⟨⟩) _)
    · cases hstep
  · split at hstep
    · refine .inl ?_
      cases a <;> simp only [stepLocked] at hstep <;> try contradiction
      case post | postAt | postEveryAfter | postBatch =>
        cases hstep
        exact starts_append (started_not_mem_submittedObs id _) _
      case clearPending =>
        cases hstep
        exact starts_append (by simp) _
      all_goals
        repeat' split at hstep
        all_goals try contradiction
        all_goals
          injection hstep with hstep
          subst hstep
          rfl
    · cases hstep

/-- The log only grows. -/
theorem run_log {s s' : TaskSystem τ} {acts : List (TaskAction τ)}
    (hrun : Lts.run step s acts = some s') : s.log <:+ s'.log :=
  Lts.run_invariant (P := fun t => s.log <:+ t.log)
    (fun _ _ _ h hstep => h.trans (step_log hstep)) List.suffix_rfl hrun

/-- Once a task is withdrawn it never starts again. -/
theorem starts_eq_of_withdrawn {s s' : TaskSystem τ} {id : Nat}
    {acts : List (TaskAction τ)} (hs : s.Reachable)
    (hw : withdrawn id s.log) (hrun : Lts.run step s acts = some s') :
    starts id s'.log = starts id s.log := by
  obtain ⟨obs, hobs⟩ := run_log hrun
  have hs' : s'.Reachable := Lts.Reachable.trans_run hs hrun
  have hsilent := (hs'.logged id).silent
  obtain ⟨o, ho, hoid⟩ := List.any_eq_true.mp hw
  rw [← hobs] at hsilent ⊢
  refine starts_append (fun hmem => ?_) s.log
  exact (List.pairwise_append.mp hsilent).2.2 _ hmem o ho hoid rfl

/-! While `cancel` holds the mutex only the consumer's own steps go on, and
the only one of them that touches a control is the start transition. -/

theorem step_of_cancelling {s s' : TaskSystem τ} {a : TaskAction τ}
    {c : Nat × State} (hc : s.cancelling = some c) (ha : a ≠ .cancelExchange)
    (hstep : s.step a = some s') :
    s.stepFree a = some s' ∧ s'.cancelling = some c := by
  have hfree : s.stepFree a = some s' := by
    unfold step at hstep
    split at hstep
    · exact hstep
    · exact hstep
    · exact hstep
    · exact hstep
    · exact absurd rfl ha
    · rw [hc] at hstep
      contradiction
  refine ⟨hfree, ?_⟩
  rw [← hc]
  cases a <;> simp only [stepFree] at hfree <;> try contradiction
  all_goals
    split at hfree <;> try contradiction
    try split at hfree
    all_goals
      injection hfree with hfree
      subst hfree
      rfl

theorem stepFree_control {s s' : TaskSystem τ} {a : TaskAction τ}
    (hstep : s.stepFree a = some s') (id : Nat) :
    s'.mgr.control id = s.mgr.control id ∧
        ¬ (StartsNext id s a ∧ s.mgr.stateOf id = .readySnapshot) ∨
      s'.mgr.control id = { s.mgr.control id with state := .executing } ∧
        StartsNext id s a ∧ s.mgr.stateOf id = .readySnapshot := by
  cases a <;> simp only [stepFree] at hstep <;> try contradiction
  case processStart =>
    split at hstep
    · next entry unrun hph =>
        have hnext : StartsNext id s .processStart ↔ entry.id = id := by
          unfold StartsNext
          rw [hph]
          simp
        rw [hnext]
        unfold TaskManager.start at hstep
        by_cases hst : s.mgr.stateOf entry.id = .readySnapshot
        · simp only [hst, if_true] at hstep
          injection hstep with hstep
          subst hstep
          show (s.mgr.setState entry.id .executing).control id = _ ∧ _ ∨
            (s.mgr.setState entry.id .executing).control id = _ ∧ _
          by_cases hid : entry.id = id
          · rw [← hid, TaskManager.control_setState, if_pos rfl]
            exact Or.inr ⟨rfl, rfl, hst⟩
          · rw [TaskManager.control_setState_of_ne (Ne.symm hid)]
            exact Or.inl ⟨rfl, fun h => hid h.1⟩
        · simp only [hst, if_false] at hstep
          injection hstep with hstep
          subst hstep
          exact Or.inl ⟨rfl, fun h => hst (h.1 ▸ h.2)⟩
    · contradiction
  all_goals
    have hnot : ∀ b, b ≠ .processStart → ¬ StartsNext id s b :=
      fun b hb h => hb h.choose_spec.choose_spec.1
    refine Or.inl ⟨?_, fun h => hnot _ (by simp) h.1⟩
    split at hstep <;> try contradiction
    injection hstep with hstep
    subst hstep
    try rfl
  unfold TaskManager.settleStart
  split <;> rfl

/-- The consumer never moves a started task back while the mutex is held. -/
theorem stateOf_of_started {id : Nat} {c : Nat × State}
    {acts : List (TaskAction τ)} :
    ∀ {t s : TaskSystem τ}, t.cancelling = some c → .cancelExchange ∉ acts →
      Lts.run step t acts = some s → t.mgr.stateOf id ≠ .readySnapshot →
      s.mgr.stateOf id = t.mgr.stateOf id := by
  induction acts with
  | nil =>
      intro t s _ _ hrun _
      rw [Lts.run_nil, Option.some.injEq] at hrun
      rw [hrun]
  | cons a acts ih =>
      intro t s hc ha hrun hst
      rw [List.mem_cons, not_or] at ha
      obtain ⟨u, hu, hrest⟩ := Lts.run_cons_eq_some.mp hrun
      obtain ⟨hfree, hcu⟩ := step_of_cancelling hc (Ne.symm ha.1) hu
      have heq : u.mgr.stateOf id = t.mgr.stateOf id := by
        rcases stepFree_control hfree id with ⟨h, -⟩ | ⟨-, -, h⟩
        · exact congrArg Control.state h
        · exact absurd h hst
      rw [← heq]
      exact ih hcu ha.2 hrest (heq ▸ hst)

/-- While the mutex is held, the state of `id` is still the one loaded exactly
if no start transition of `id` has come. -/
theorem stateOf_eq_iff {id : Nat} {c : Nat × State}
    {acts : List (TaskAction τ)} :
    ∀ {t s : TaskSystem τ}, t.Reachable → t.cancelling = some c →
      .cancelExchange ∉ acts → t.mgr.stateOf id ≠ .cancelled →
      Lts.run step t acts = some s →
      (s.mgr.stateOf id = t.mgr.stateOf id ↔
        Lts.RunMeets step (fun u a => ¬ StartsNext id u a) t acts) := by
  induction acts with
  | nil =>
      intro t s _ _ _ _ hrun
      rw [Lts.run_nil, Option.some.injEq] at hrun
      rw [hrun]
      exact ⟨fun _ => trivial, fun _ => rfl⟩
  | cons a acts ih =>
      intro t s ht hc ha hlive hrun
      rw [List.mem_cons, not_or] at ha
      obtain ⟨u, hu, hrest⟩ := Lts.run_cons_eq_some.mp hrun
      obtain ⟨hfree, hcu⟩ := step_of_cancelling hc (Ne.symm ha.1) hu
      have hureach : u.Reachable := ht.trans_run (Lts.run_one hu)
      by_cases hnext : StartsNext id t a
      · have hinv : t.mgr.Inv t.phase.current t.phase.unrun t.phase.owed := ht.inv
        have ⟨entry, unrun, _, hph, hid⟩ := hnext
        -- the entry at the head of the batch is live, so it is in the snapshot
        have hsnap : t.mgr.stateOf id = .readySnapshot := by
          have hacc := hinv.accounted id
          rw [hph] at hacc
          by_contra hst
          exact hlive (hacc.cancelled_of_unrun (by simp [Phase.unrun, hid]) hst)
        have hexec : u.mgr.stateOf id = .executing := by
          rcases stepFree_control hfree id with ⟨-, h⟩ | ⟨h, -⟩
          · exact absurd ⟨hnext, hsnap⟩ h
          · exact congrArg Control.state h
        have hs : s.mgr.stateOf id = .executing := by
          rw [← hexec]
          exact stateOf_of_started hcu ha.2 hrest (by rw [hexec]; decide)
        rw [hs, hsnap]
        exact ⟨fun h => (by cases h), fun h => absurd hnext h.1⟩
      · have heq : u.mgr.stateOf id = t.mgr.stateOf id := by
          rcases stepFree_control hfree id with ⟨h, -⟩ | ⟨-, h, -⟩
          · exact congrArg Control.state h
          · exact absurd h hnext
        rw [← heq, ih hureach hcu ha.2 (heq ▸ hlive) hrest]
        constructor
        · refine fun h => ⟨hnext, fun u' hu' => ?_⟩
          rw [hu, Option.some.injEq] at hu'
          exact hu' ▸ h
        · exact fun h => h.2 u hu

/-- The exchange of a periodic task wins when the state has not moved. -/
theorem cancelLoaded_periodic {m : TaskManager τ} {id : Nat} {loaded : State}
    (hp : (m.control id).periodic) (hc : loaded ≠ .cancelled)
    (hd : loaded ≠ .completed) :
    (m.cancelLoaded id loaded).2 = true ↔ m.stateOf id = loaded := by
  cases loaded
  case cancelled => exact absurd rfl hc
  case completed => exact absurd rfl hd
  all_goals
    simp only [TaskManager.cancelLoaded, hp, Bool.not_true, Bool.false_eq_true,
      if_false]
    split
    · next h => exact ⟨fun _ => h, fun _ => rfl⟩
    · next h => exact ⟨fun hf => (by cases hf), fun heq => absurd heq h⟩

theorem periodic_of_run (id : Nat) {c : Nat × State}
    {acts : List (TaskAction τ)} :
    ∀ {t s : TaskSystem τ}, t.cancelling = some c → .cancelExchange ∉ acts →
      Lts.run step t acts = some s → s.cancelling = some c ∧
        (s.mgr.control id).periodic = (t.mgr.control id).periodic := by
  induction acts with
  | nil =>
      intro t s hc _ hrun
      rw [Lts.run_nil, Option.some.injEq] at hrun
      exact hrun ▸ ⟨hc, rfl⟩
  | cons a acts ih =>
      intro t s hc ha hrun
      rw [List.mem_cons, not_or] at ha
      obtain ⟨u, hu, hrest⟩ := Lts.run_cons_eq_some.mp hrun
      obtain ⟨hfree, hcu⟩ := step_of_cancelling hc (Ne.symm ha.1) hu
      obtain ⟨hcs, hper⟩ := ih hcu ha.2 hrest
      refine ⟨hcs, hper.trans ?_⟩
      rcases stepFree_control hfree id with ⟨h, -⟩ | ⟨h, -⟩
      · rw [h]
      · rw [h]

/-- `cancel` of a live series: it loads the state in `s`, the other threads
take `acts`, and the exchange follows. It succeeds for good unless a cycle of
the series starts in between. -/
theorem cancelTook_iff {s s₁ s₂ s₃ : TaskSystem τ} {id : Nat}
    {acts : List (TaskAction τ)} (hs : s.Reachable) (hlive : s.LiveSeries id)
    (hload : s.step (.cancelLoad id) = some s₁)
    (hrun : Lts.run step s₁ acts = some s₂) (hacts : .cancelExchange ∉ acts)
    (hexchange : s₂.step .cancelExchange = some s₃) :
    s₃.CancelTook id ↔
      Lts.RunMeets step (fun t a => ¬ StartsNext id t a) s₁ acts := by
  obtain ⟨-, hp, hc, hd⟩ := hlive
  have hs₁ : s₁.Reachable := hs.trans_run (Lts.run_one hload)
  have hs₂ : s₂.Reachable := hs₁.trans_run hrun
  have hs₃ : s₃.Reachable := hs₂.trans_run (Lts.run_one hexchange)
  have hinv : s.mgr.Inv s.phase.current s.phase.unrun s.phase.owed := hs.inv
  have hindex : id ∈ s.mgr.index := by
    have hacc := hinv.accounted id
    cases hst : s.mgr.stateOf id <;> simp_all [Accounted]
  have heq₁ : s₁ = { s with cancelling := some (id, s.mgr.stateOf id) } := by
    simp only [step, stepLocked] at hload
    split at hload
    · rw [if_pos ⟨hinv.ne_zero hd, hindex⟩] at hload
      injection hload with hload
      exact hload.symm
    · contradiction
  subst heq₁
  obtain ⟨hc₂, hp₂⟩ := periodic_of_run id rfl hacts hrun
  have hp₂' : (s₂.mgr.control id).periodic := hp₂.trans hp
  have hres := cancelLoaded_periodic hp₂' hc hd
  have hiff := stateOf_eq_iff hs₁ rfl hacts hc hrun
  rw [← hiff, ← hres]
  simp only [step, stepExchange, hc₂] at hexchange
  injection hexchange with hexchange
  have hlog : s₃.log = .cancelReturned id
      (s₂.mgr.cancelLoaded id (s.mgr.stateOf id)).2 :: s₂.log := by
    rw [← hexchange]
  unfold CancelTook
  rw [hlog, List.head?_cons, Option.some.injEq, TaskObs.cancelReturned.injEq]
  constructor
  · exact fun h => h.1.2
  · intro htrue
    refine ⟨⟨rfl, htrue⟩, fun acts' s' hrun' => ?_⟩
    rw [← hlog]
    refine starts_eq_of_withdrawn hs₃ ?_ hrun'
    rw [hlog, htrue]
    simp [withdrawn, TaskObs.withdraws]

/-- A one-shot task ahead of the series in the same batch may start between
the load and the exchange. -/
theorem cancelTook_beside_another : ∃ s₁ s₂ s₃ : TaskSystem Unit,
    Lts.run step {} [.post (some ()) {}, .postEveryAfter 0 0 0 5 (some ()) {},
      .processBegin 0 7, .cancelLoad 2] = some s₁ ∧
      Lts.run step s₁ [.processStart, .processSettle] = some s₂ ∧
      s₂.step .cancelExchange = some s₃ ∧ s₃.CancelTook 2 := by
  refine ⟨_, _, _, rfl, rfl, rfl, ?_⟩
  refine (cancelTook_iff
    ⟨[.post (some ()) {}, .postEveryAfter 0 0 0 5 (some ()) {},
      .processBegin 0 7], rfl⟩ ⟨?_, rfl, ?_, ?_⟩ rfl
    (show Lts.run step _ [.processStart, .processSettle] = some _ from rfl)
    ?_ rfl).mpr ?_
  · decide
  · decide
  · decide
  · simp
  · refine ⟨?_, fun _ _ => ⟨?_, fun _ _ => trivial⟩⟩
    · rintro ⟨entry, unrun, -, hph, hid⟩
      cases hph
      cases hid
    · rintro ⟨entry, unrun, ha, -⟩
      cases ha

/-- The start transition of the series itself falls between the load and the
exchange: `cancel` returns false and the series goes on. -/
theorem cancelTook_fails : ¬ ∀ (s s₁ s₂ s₃ : TaskSystem Unit) (id : Nat)
    (acts : List (TaskAction Unit)), s.Reachable → s.LiveSeries id →
    s.step (.cancelLoad id) = some s₁ → Lts.run step s₁ acts = some s₂ →
    .cancelExchange ∉ acts → s₂.step .cancelExchange = some s₃ →
    s₃.CancelTook id := by
  intro h
  have htook := h _ _ _ _ 1 [.processStart]
    ⟨[.postEveryAfter 0 0 0 5 (some ()) {}, .processBegin 0 7], rfl⟩
    ⟨by decide, rfl, by decide, by decide⟩ rfl rfl (by simp) rfl
  exact absurd htook.1 (by decide)

end TaskSystem

end EventHub
