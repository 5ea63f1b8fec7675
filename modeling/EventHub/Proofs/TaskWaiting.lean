import EventHub.Proofs.TaskFrame

/-!
# How a task comes to wait, and stops waiting

For a client that keeps account of the tasks it queued. A task of the client
waits until it is started, cancelled or cleared; it waits again when its
callback returns and it is periodic or has asked for that. The rest is what
each action does to the consumer and to a cancellation under way.
-/

namespace EventHub

open TaskManager

variable {τ : Type}

namespace TaskSystem

variable {s s' : TaskSystem τ} {a : TaskAction τ} {j : Nat}

def waits (s : TaskSystem τ) (j : Nat) : Bool := (s.mgr.stateOf j).waiting

/-- What became of the waiting of `j`. -/
inductive WaitingStep (s : TaskSystem τ) (a : TaskAction τ) (s' : TaskSystem τ)
    (j : Nat) : Prop
  | kept (h : s'.waits j = s.waits j)
  | cleared (ha : a = .clearPending) (hw' : s'.waits j = false)
  | cancelled (ha : a = .cancelExchange) {loaded : State}
      (hc : s.cancelling = some (j, loaded)) (hw' : s'.waits j = false)
  | started (ha : a = .processStart) {entry : Entry τ}
      (hcurrent : s'.phase.current = some entry) (hid : entry.id = j)
      (hw : s.waits j) (hw' : s'.waits j = false)
  | again {now now' : Int} (ha : a = .callbackReturned now now')
      {entry : Entry τ} (hcurrent : s.phase.current = some entry)
      (hid : entry.id = j) (hst : s.mgr.stateOf j = .executing)
      (hagain : (s.mgr.control j).rescheduleRequested ∨
        (s.mgr.control j).periodic)

/-- A task that was handed out: what became of its waiting, whether it is
periodic, and where a request to run it again comes from. -/
structure Waited (s : TaskSystem τ) (a : TaskAction τ) (s' : TaskSystem τ)
    (j : Nat) : Prop where
  waiting : WaitingStep s a s' j
  periodic : (s'.mgr.control j).periodic = (s.mgr.control j).periodic
  requested : s'.mgr.stateOf j = .executing →
    (s'.mgr.control j).rescheduleRequested →
      (s.mgr.control j).rescheduleRequested ∧
          (s.mgr.stateOf j = .executing ∨ s.waits j) ∨
        ∃ due, a = .contextReschedule j due

theorem Waited.of_control (h : s'.mgr.control j = s.mgr.control j) :
    Waited s a s' j where
  waiting := .kept (by unfold waits stateOf; rw [h])
  periodic := by rw [h]
  requested hst hreq := by
    unfold stateOf at hst ⊢
    rw [h] at hst hreq
    exact .inl ⟨hreq, .inl hst⟩

theorem Waited.reshuffled (h : Reshuffled s.mgr s'.mgr) : Waited s a s' j where
  waiting := by
    refine .kept ?_
    unfold waits
    rcases h.moved j with heq | ⟨hw, hw'⟩
    · rw [heq]
    · rw [hw, hw']
  periodic := by rw [h.control]
  requested hst hreq := by
    rw [h.control] at hreq
    rcases h.moved j with heq | ⟨hw, -⟩
    · exact .inl ⟨hreq, .inl (heq ▸ hst)⟩
    · exact .inl ⟨hreq, .inr hw⟩

theorem Waited.extended {ids : List Nat} (h : Extended s.mgr s'.mgr ids)
    (hj : j < s.mgr.nextId) : Waited s a s' j :=
  .of_control (h.control j (.inl hj))

theorem Waited.dropped {ids : List Nat} (h : Dropped s.mgr s'.mgr ids)
    (ha : a = .clearPending) : Waited s a s' j where
  waiting := by
    by_cases hj : j ∈ ids
    · exact .cleared ha (by unfold waits; rw [h.state j hj]; rfl)
    · exact .kept (by unfold waits stateOf; rw [h.other j hj])
  periodic := h.periodic j
  requested hst hreq := by
    by_cases hj : j ∈ ids
    · rw [h.state j hj] at hst
      cases hst
    · unfold stateOf at hst ⊢
      rw [h.other j hj] at hst hreq
      exact .inl ⟨hreq, .inl hst⟩

/-- A context cancels a task that is executing. -/
theorem Waited.withdrew {id : Nat} (h : Withdrew s.mgr s'.mgr id)
    (hid : s.mgr.stateOf id = .executing) : Waited s a s' j := by
  by_cases hj : j = id
  · subst hj
    exact
      { waiting := .kept (by unfold waits; rw [h.state, hid]; rfl)
        periodic := h.periodic
        requested := by rw [h.state]; nofun }
  · exact .of_control (h.other j hj)

theorem Waited.ended {entry : Entry τ} {again : Prop}
    (h : Ended s.mgr s'.mgr entry.id again)
    (hcurrent : s.phase.current = some entry)
    (hagain : again → (∃ now now', a = .callbackReturned now now') ∧
      ((s.mgr.control entry.id).rescheduleRequested ∨
        (s.mgr.control entry.id).periodic)) : Waited s a s' j := by
  by_cases hj : j = entry.id
  · subst hj
    refine { waiting := ?_, periodic := h.periodic, requested := fun hst' => ?_ }
    · rcases h.outcome with ⟨hst, hst'⟩ | ⟨hst, hst' | ⟨-, -, h'⟩⟩
      · exact .kept (by unfold waits; rw [hst, hst'])
      · exact .kept (by unfold waits; rw [hst, hst']; rfl)
      · obtain ⟨⟨now, now', ha⟩, hwhy⟩ := hagain h'
        exact .again ha hcurrent rfl hst hwhy
    · rcases h.outcome with ⟨-, heq⟩ | ⟨-, heq | ⟨hw, -⟩⟩
      · rw [heq] at hst'
        cases hst'
      · rw [heq] at hst'
        cases hst'
      · rw [hst'] at hw
        cases hw
  · exact .of_control (h.other j hj)

theorem rescheduleFromContext_spec (m : TaskManager τ) (id : Nat) (due : Int)
    (j : Nat) :
    (m.rescheduleFromContext id due).1.stateOf j = m.stateOf j ∧
      ((m.rescheduleFromContext id due).1.control j).periodic =
        (m.control j).periodic := by
  unfold rescheduleFromContext
  split_ifs <;> simp

theorem control_rescheduleFromContext_of_ne {m : TaskManager τ} {id : Nat}
    {due : Int} (hj : j ≠ id) :
    (m.rescheduleFromContext id due).1.control j = m.control j := by
  unfold rescheduleFromContext
  split_ifs
  all_goals first
    | rfl
    | exact (control_requestReschedule ..).trans (if_neg hj)

theorem stepFree_waited (h : s.stepFree a = some s') : Waited s a s' j := by
  cases a <;> simp only [stepFree] at h <;> try contradiction
  case processStart =>
    split at h
    · next entry unrun hphase =>
        split at h
        · next mgr hstart =>
            cases h
            unfold TaskManager.start at hstart
            split at hstart
            · next hst =>
                cases hstart
                by_cases hj : j = entry.id
                · subst hj
                  refine
                    { waiting := .started rfl rfl rfl ?_ ?_
                      periodic := periodic_setState ..
                      requested := fun _ hreq => ?_ }
                  · unfold waits
                    rw [hst]
                    rfl
                  · unfold waits
                    rw [stateOf_setState, if_pos rfl]
                    rfl
                  · rw [control_setState, if_pos rfl] at hreq
                    refine .inl ⟨hreq, .inr ?_⟩
                    unfold waits
                    rw [hst]
                    rfl
                · exact .of_control (control_setState_of_ne hj)
            · cases hstart
        · cases h
          exact .of_control rfl
    · cases h
  case processSettle =>
    split at h
    · cases h
      refine .of_control ?_
      unfold settleStart
      dsimp only
      split <;> rfl
    · cases h
  case exceptionHandled =>
    split at h
    · cases h
      exact .of_control rfl
    · cases h
  case processEnd =>
    split at h
    · cases h
      exact .of_control rfl
    · cases h

theorem stepExchange_waited (h : s.stepExchange = some s') :
    Waited s .cancelExchange s' j := by
  unfold stepExchange at h
  split at h
  · next id loaded hc =>
      cases h
      rcases s.mgr.cancelLoaded_spec id loaded with ⟨-, hw⟩ | ⟨-, hm⟩
      · by_cases hj : j = id
        · subst hj
          refine
            { waiting := .cancelled rfl hc ?_
              periodic := hw.periodic
              requested := fun hst => absurd (hw.state.symm.trans hst) nofun }
          show ((s.mgr.cancelLoaded j loaded).1.stateOf j).waiting = false
          rw [hw.state]
          rfl
        · exact .of_control (hw.other j hj)
      · exact .of_control (congrFun (congrArg TaskManager.control hm) j)
  · cases h

theorem stepLocked_waited (hinv : s.Inv) (hj : j < s.mgr.nextId)
    (h : s.stepLocked a = some s') : Waited s a s' j := by
  have hpos : 0 < s.mgr.nextId := hinv.positive
  cases a <;> simp only [stepLocked] at h <;> try contradiction
  case post task options =>
    cases h
    exact .extended (.post hpos task options) hj
  case postAt now due task options =>
    cases h
    exact .extended (.postAt hpos now due task options) hj
  case postEveryAfter now now' initialDelay interval task options =>
    cases h
    exact .extended
      (.postEveryAfter hpos now now' initialDelay interval task options) hj
  case postBatch tasks options =>
    cases h
    exact .extended (.postBatch hpos tasks options) hj
  case close =>
    cases h
    exact .of_control rfl
  case cancelLoad id =>
    split at h <;> cases h <;> exact .of_control rfl
  case contextCancel id =>
    cases h
    rcases s.mgr.cancelFromContext_spec id with ⟨hres, hw⟩ | ⟨-, hm⟩
    · refine .withdrew hw ?_
      unfold cancelFromContext at hres
      split_ifs at hres with h0 hidx hst
      all_goals exact hst
    · exact .of_control (congrFun (congrArg TaskManager.control hm) j)
  case contextReschedule id due =>
    cases h
    obtain ⟨hstate, hper⟩ := rescheduleFromContext_spec s.mgr id due j
    refine
      { waiting := .kept (congrArg State.waiting hstate)
        periodic := hper
        requested := fun hst hreq => ?_ }
    by_cases hj : j = id
    · exact .inr ⟨due, by rw [hj]⟩
    · rw [control_rescheduleFromContext_of_ne hj] at hreq
      exact .inl ⟨hreq, .inl (hstate ▸ hst)⟩
  case clearPending =>
    cases h
    exact .dropped (.clearPending s.mgr) rfl
  case nextDeadline =>
    cases h
    exact .reshuffled (.prune s.mgr)
  case processBegin now maxTasks =>
    split at h
    · split at h
      · cases h
        exact .of_control rfl
      · cases h
        exact .reshuffled (.beginProcess s.mgr now maxTasks)
    · cases h
  case callbackReturned now now' =>
    split at h
    · next entry unrun hphase =>
        cases h
        unfold Inv at hinv
        rw [hphase] at hinv
        have hper := hinv.periodic entry (by simp [Holds, Phase.current])
        have hend := Ended.finishAfterSuccess
          (TaskManager.Inv.current_state hinv) now now'
        refine .ended hend (by rw [hphase]; rfl) fun hagain => ⟨⟨_, _, rfl⟩, ?_⟩
        rw [← hper]
        exact hagain
    · cases h
  case callbackThrew =>
    split at h
    · next entry unrun hphase =>
        cases h
        unfold Inv at hinv
        rw [hphase] at hinv
        exact .ended
          (.finishAfterException (TaskManager.Inv.current_state hinv))
          (by rw [hphase]; rfl) fun hagain => hagain.elim
    · cases h
  case exceptionEscaped =>
    split at h
    · next unrun hphase =>
        cases h
        exact .reshuffled (.restoreUnrun unrun s.mgr)
    · cases h

/-- What a step does to the waiting of a task. -/
theorem step_waited (hinv : s.Inv) (hj : j < s.mgr.nextId)
    (h : s.step a = some s') : Waited s a s' j := by
  unfold TaskSystem.step at h
  split at h
  · exact stepFree_waited h
  · exact stepFree_waited h
  · exact stepFree_waited h
  · exact stepFree_waited h
  · exact stepExchange_waited h
  · split at h
    · exact stepLocked_waited hinv hj h
    · cases h

/-- A closed manager queues nothing again. -/
theorem waiting_finishAfterSuccess {m : TaskManager τ} (hclosed : m.closed)
    {now now' : Int} {entry : Entry τ}
    (hw : ((m.finishAfterSuccess now now' entry).stateOf j).waiting) :
    (m.stateOf j).waiting := by
  unfold finishAfterSuccess at hw
  rw [if_pos hclosed] at hw
  split at hw
  · simpa using hw
  · split at hw
    · exact hw
    · have hcomplete : ((m.complete entry).stateOf j).waiting := by simpa using hw
      unfold complete at hcomplete
      cases hper : entry.periodic with
      | true | false =>
          simp only [hper, if_true, Bool.false_eq_true, if_false, stateOf_eraseIndex,
            stateOf_decrementPendingCount, stateOf_setState] at hcomplete
          split at hcomplete
          · cases hcomplete
          · exact hcomplete

/-- A task comes to wait again only after its callback has returned. -/
theorem waits_of_step (hinv : s.Inv) (hj : j < s.mgr.nextId)
    (h : s.step a = some s') (hw : s'.waits j) :
    s.waits j ∨ (∃ now now', a = .callbackReturned now now') ∧
      ∃ entry, s.phase.current = some entry ∧ entry.id = j ∧
        s.mgr.stateOf j = .executing ∧ s.mgr.closed = false ∧
        ((s.mgr.control j).rescheduleRequested ∨
          (s.mgr.control j).periodic) := by
  cases (step_waited hinv hj h).waiting with
  | kept heq => exact .inl (heq ▸ hw)
  | cleared _ hw' | cancelled _ _ hw' => exact absurd (hw.symm.trans hw') nofun
  | started _ _ _ hold => exact .inl hold
  | again ha hcurrent hid hst hagain =>
      cases hclosed : s.mgr.closed with
      | false => exact .inr ⟨⟨_, _, ha⟩, _, hcurrent, hid, hst, rfl, hagain⟩
      | true =>
          subst ha
          simp only [TaskSystem.step, stepLocked] at h
          split at h
          · split at h
            · cases h
              exact .inl (waiting_finishAfterSuccess hclosed hw)
            · cases h
          · cases h

theorem stepFree_nextId (h : s.stepFree a = some s') :
    s'.mgr.nextId = s.mgr.nextId := by
  cases a <;> simp only [stepFree] at h <;> try contradiction
  case processStart =>
    split at h
    · split at h
      · next mgr hstart =>
          cases h
          unfold TaskManager.start at hstart
          split at hstart <;> cases hstart
          rfl
      · cases h
        rfl
    · cases h
  case processSettle =>
    split at h
    · cases h
      unfold settleStart
      dsimp only
      split <;> rfl
    · cases h
  all_goals
    split at h
    · cases h
      rfl
    · cases h

theorem stepLocked_nextId (hinv : s.Inv) (h : s.stepLocked a = some s') :
    s.mgr.nextId ≤ s'.mgr.nextId := by
  have hpos : 0 < s.mgr.nextId := hinv.positive
  cases a <;> simp only [stepLocked] at h <;> try contradiction
  case post task options =>
    cases h
    exact (Extended.post hpos task options).le
  case postAt now due task options =>
    cases h
    exact (Extended.postAt hpos now due task options).le
  case postEveryAfter now now' initialDelay interval task options =>
    cases h
    exact (Extended.postEveryAfter hpos now now' initialDelay interval task
      options).le
  case postBatch tasks options =>
    cases h
    exact (Extended.postBatch hpos tasks options).le
  case cancelLoad id => split at h <;> cases h <;> exact Nat.le_refl _
  case contextCancel id =>
    cases h
    rcases s.mgr.cancelFromContext_spec id with ⟨-, hw⟩ | ⟨-, hm⟩
    · exact hw.nextId.ge
    · exact (congrArg TaskManager.nextId hm).ge
  case contextReschedule id due =>
    cases h
    unfold rescheduleFromContext
    split_ifs <;> exact Nat.le_refl _
  case clearPending =>
    cases h
    exact (Dropped.clearPending s.mgr).nextId.ge
  case processBegin now maxTasks =>
    split at h
    · split at h <;> cases h
      · exact Nat.le_refl _
      · exact (Reshuffled.beginProcess s.mgr now maxTasks).nextId.ge
    · cases h
  case callbackReturned now now' =>
    split at h
    · next entry unrun hphase =>
        cases h
        unfold Inv at hinv
        rw [hphase] at hinv
        exact (Ended.finishAfterSuccess
          (TaskManager.Inv.current_state hinv) now now').nextId.ge
    · cases h
  case callbackThrew =>
    split at h
    · next entry unrun hphase =>
        cases h
        unfold Inv at hinv
        rw [hphase] at hinv
        exact (Ended.finishAfterException
          (TaskManager.Inv.current_state hinv)).nextId.ge
    · cases h
  case exceptionEscaped =>
    split at h
    · next unrun hphase =>
        cases h
        exact (Reshuffled.restoreUnrun unrun s.mgr).nextId.ge
    · cases h
  all_goals
    cases h
    exact Nat.le_refl _

/-- Ids are never taken back. -/
theorem step_nextId (hinv : s.Inv) (h : s.step a = some s') :
    s.mgr.nextId ≤ s'.mgr.nextId := by
  unfold TaskSystem.step at h
  split at h
  · exact (stepFree_nextId h).ge
  · exact (stepFree_nextId h).ge
  · exact (stepFree_nextId h).ge
  · exact (stepFree_nextId h).ge
  · unfold stepExchange at h
    split at h
    · next id loaded hc =>
        cases h
        rcases s.mgr.cancelLoaded_spec id loaded with ⟨-, hw⟩ | ⟨-, hm⟩
        · exact hw.nextId.ge
        · exact (congrArg TaskManager.nextId hm).ge
    · cases h
  · split at h
    · exact stepLocked_nextId hinv h
    · cases h

/-! ## Under the mutex -/

theorem stepLocked_of_produces (ha : a.produces) (h : s.step a = some s') :
    s.cancelling = none ∧ s.stepLocked a = some s' := by
  cases a <;> simp only [TaskAction.produces, Bool.false_eq_true] at ha
  all_goals
    unfold TaskSystem.step at h
    dsimp only at h
    split at h
    · next hfree => exact ⟨Option.isNone_iff_eq_none.mp hfree, h⟩
    · cases h

theorem step_of_produces (ha : a.produces) (h : s.step a = some s') :
    s'.phase = s.phase ∧ s.cancelling = none ∧ s'.cancelling = none := by
  obtain ⟨hfree, h⟩ := stepLocked_of_produces ha h
  cases a <;> simp only [TaskAction.produces, Bool.false_eq_true] at ha
  all_goals
    cases h
    exact ⟨rfl, hfree, hfree⟩

/-- A task that was posted. -/
structure Posted (s s' : TaskSystem τ) (i : Nat) : Prop where
  fresh : s.mgr.nextId ≤ i
  known : i < s'.mgr.nextId
  waits : s'.waits i
  requested : (s'.mgr.control i).rescheduleRequested = false
  periodic : (s'.mgr.control i).periodic = false

theorem periodic_postAt {m : TaskManager τ} {now due : Int} {task : Option τ}
    {options : TaskOptions} (hi : (m.postAt now due task options).2 ≠ 0) :
    ((m.postAt now due task options).1.control
      (m.postAt now due task options).2).periodic = false := by
  cases task with
  | none => exact absurd rfl hi
  | some task =>
      revert hi
      unfold postAt
      dsimp only
      split
      · exact fun hi => absurd rfl hi
      · split
        all_goals
          intro
          show ((m.allocate _ false).control m.freshId).periodic = false
          rw [control_allocate, if_pos rfl]

theorem step_postAt {now due : Int} {task : Option τ} {options : TaskOptions}
    (hinv : s.Inv) (h : s.step (.postAt now due task options) = some s')
    (hi : (s.mgr.postAt now due task options).2 ≠ 0) :
    Posted s s' (s.mgr.postAt now due task options).2 := by
  obtain ⟨-, h⟩ := stepLocked_of_produces rfl h
  cases h
  have hext := Extended.postAt hinv.positive now due task options
  obtain ⟨hge, hlt⟩ := (hext.ids _ hi).mp (List.mem_singleton.mpr rfl)
  obtain ⟨hw, hreq⟩ := hext.fresh _ hge hlt
  exact
    { fresh := hge
      known := hlt
      waits := hw
      requested := hreq
      periodic := periodic_postAt hi }

/-! ## Cancelling -/

/-- A task whose state was loaded by a `cancel` has not moved on, or it does
not wait. -/
def Loaded (s : TaskSystem τ) : Prop :=
  ∀ i loaded, s.cancelling = some (i, loaded) →
    s.mgr.stateOf i = loaded ∨ s.waits i = false

theorem step_cancelLoad {i : Nat} (hinv : s.Inv)
    (h : s.step (.cancelLoad i) = some s') :
    s'.mgr = s.mgr ∧ s'.phase = s.phase ∧
      (s'.cancelling = some (i, s.mgr.stateOf i) ∨
        s'.cancelling = none ∧ s.waits i = false) := by
  unfold TaskSystem.step at h
  dsimp only at h
  split at h
  · next hfree =>
      simp only [stepLocked] at h
      split at h
      · cases h
        exact ⟨rfl, rfl, .inl rfl⟩
      · next hno =>
          cases h
          refine ⟨rfl, rfl, .inr ⟨Option.isNone_iff_eq_none.mp hfree, ?_⟩⟩
          have hacc := hinv.accounted i
          have hzero := hinv.zero
          unfold waits
          cases hst : s.mgr.stateOf i with
          | queuedReady | queuedDelayed | readySnapshot =>
              rw [hst] at hacc
              refine absurd ⟨?_, hacc.1⟩ hno
              rintro rfl
              rw [hst] at hzero
              cases hzero
          | executing | cancelled | completed => rfl
  · cases h

/-- An exchange is lost only for a task that does not wait. -/
theorem Loaded.lost (hloaded : s.Loaded) {i : Nat} {loaded : State}
    (hc : s.cancelling = some (i, loaded))
    (hlost : (s.mgr.cancelLoaded i loaded).2 = false) : s.waits i = false := by
  rcases hloaded i loaded hc with hst | hst
  · unfold waits
    rw [hst]
    cases loaded with
    | queuedReady | queuedDelayed | readySnapshot =>
        simp only [cancelLoaded, hst, if_true] at hlost
        cases hlost
    | executing | cancelled | completed => rfl
  · exact hst

theorem step_cancelExchange (hloaded : s.Loaded)
    (h : s.step .cancelExchange = some s') :
    s'.phase = s.phase ∧ s'.cancelling = none ∧
      ∃ i loaded, s.cancelling = some (i, loaded) ∧ s'.waits i = false := by
  change s.stepExchange = some s' at h
  unfold stepExchange at h
  split at h
  · next i loaded hc =>
      cases h
      refine ⟨rfl, rfl, i, loaded, hc, ?_⟩
      show ((s.mgr.cancelLoaded i loaded).1.stateOf i).waiting = false
      rcases s.mgr.cancelLoaded_spec i loaded with ⟨-, hw⟩ | ⟨hres, hm⟩
      · rw [hw.state]
        rfl
      · rw [hm]
        exact hloaded.lost hc hres
  · cases h

theorem stepFree_cancelling (h : s.stepFree a = some s') :
    s'.cancelling = s.cancelling := by
  cases a <;> simp only [stepFree] at h <;> try contradiction
  case processStart =>
    split at h
    · split at h <;> cases h <;> rfl
    · cases h
  all_goals
    split at h
    · cases h
      rfl
    · cases h

theorem stepLocked_cancelling (ha : ∀ i, a ≠ .cancelLoad i)
    (h : s.stepLocked a = some s') : s'.cancelling = s.cancelling := by
  cases a <;> simp only [stepLocked] at h <;> try contradiction
  case cancelLoad i => exact absurd rfl (ha i)
  case processBegin =>
    split at h
    · split at h <;> cases h <;> rfl
    · cases h
  case callbackReturned | callbackThrew | exceptionEscaped =>
    split at h
    · cases h
      rfl
    · cases h
  all_goals
    cases h
    rfl

theorem step_cancelling (ha : ∀ i, a ≠ .cancelLoad i) (ha' : a ≠ .cancelExchange)
    (h : s.step a = some s') : s'.cancelling = s.cancelling := by
  unfold TaskSystem.step at h
  split at h
  · exact stepFree_cancelling h
  · exact stepFree_cancelling h
  · exact stepFree_cancelling h
  · exact stepFree_cancelling h
  · exact absurd rfl ha'
  · split at h
    · exact stepLocked_cancelling ha h
    · cases h

/-- While the mutex is held, a task can only be started. -/
theorem step_stateOf_of_cancelling {i : Nat} (ha : a ≠ .cancelExchange)
    (hheld : s.cancelling.isSome) (h : s.step a = some s') :
    s'.mgr.stateOf i = s.mgr.stateOf i ∨ s'.waits i = false := by
  unfold TaskSystem.step at h
  split at h
  · simp only [stepFree] at h
    split at h
    · next entry unrun hphase =>
        split at h
        · next mgr hstart =>
            cases h
            unfold TaskManager.start at hstart
            split at hstart
            · cases hstart
              unfold waits
              dsimp only
              rw [stateOf_setState]
              split
              · exact .inr rfl
              · exact .inl rfl
            · cases hstart
        · cases h
          exact .inl rfl
    · cases h
  · simp only [stepFree] at h
    split at h
    · cases h
      refine .inl ?_
      unfold settleStart
      dsimp only
      split <;> rfl
    · cases h
  · simp only [stepFree] at h
    split at h
    · cases h
      exact .inl rfl
    · cases h
  · simp only [stepFree] at h
    split at h
    · cases h
      exact .inl rfl
    · cases h
  · exact absurd rfl ha
  · split at h
    · next hfree =>
        rw [Option.isNone_iff_eq_none.mp hfree] at hheld
        cases hheld
    · cases h

theorem Loaded.step (hinv : s.Inv) (hloaded : s.Loaded)
    (h : s.step a = some s') : s'.Loaded := by
  intro i loaded hc
  by_cases hex : a = .cancelExchange
  · subst hex
    rw [(step_cancelExchange hloaded h).2.1] at hc
    cases hc
  · by_cases hload : ∃ k, a = .cancelLoad k
    · obtain ⟨k, rfl⟩ := hload
      obtain ⟨hmgr, -, hnew | ⟨hnew, -⟩⟩ := step_cancelLoad hinv h
      · rw [hnew] at hc
        cases hc
        exact .inl (by rw [hmgr])
      · rw [hnew] at hc
        cases hc
    · rw [step_cancelling (fun k hk => hload ⟨k, hk⟩) hex h] at hc
      rcases step_stateOf_of_cancelling hex (by rw [hc]; rfl) h with hst | hst
      · rcases hloaded i loaded hc with hold | hold
        · exact .inl (hst.trans hold)
        · unfold waits at hold ⊢
          rw [hst]
          exact .inr hold
      · exact .inr hst

theorem Reachable.loaded (h : s.Reachable) : s.Loaded := by
  have hboth : s.Inv ∧ s.Loaded :=
    Lts.Reachable.invariant (P := fun s => s.Inv ∧ s.Loaded) h
      ⟨TaskManager.Inv.initial, nofun⟩
      fun _ _ _ h hstep => ⟨h.1.step hstep, h.2.step h.1 hstep⟩
  exact hboth.2

/-! ## The consumer -/

theorem step_processBegin {now : Int} {maxTasks : Nat}
    (h : s.step (.processBegin now maxTasks) = some s') :
    s.phase = .idle ∧ (s'.phase = .idle ↔ maxTasks = 0) := by
  unfold TaskSystem.step at h
  dsimp only at h
  split at h
  · simp only [stepLocked] at h
    split at h
    · next hphase =>
        split at h
        · next hzero =>
            cases h
            exact ⟨hphase, iff_of_true hphase hzero⟩
        · next hzero =>
            cases h
            exact ⟨hphase, iff_of_false (by rintro ⟨⟩) hzero⟩
    · cases h
  · cases h

/-- The consumer is in `process()` before and after. -/
theorem step_consumes
    (ha : a = .processStart ∨ a = .processSettle ∨
      (∃ now now', a = .callbackReturned now now') ∨ a = .callbackThrew ∨
      a = .exceptionHandled) (h : s.step a = some s') :
    s.phase ≠ .idle ∧ s'.phase ≠ .idle := by
  rcases ha with rfl | rfl | ⟨now, now', rfl⟩ | rfl | rfl
  · simp only [TaskSystem.step, stepFree] at h
    split at h
    · next hphase => split at h <;> cases h <;> exact ⟨by rw [hphase]; rintro ⟨⟩, by rintro ⟨⟩⟩
    · cases h
  · simp only [TaskSystem.step, stepFree] at h
    split at h
    · next hphase =>
        cases h
        exact ⟨by rw [hphase]; rintro ⟨⟩, by rintro ⟨⟩⟩
    · cases h
  · simp only [TaskSystem.step, stepLocked] at h
    split at h
    · split at h
      · next hphase =>
          cases h
          exact ⟨by rw [hphase]; rintro ⟨⟩, by rintro ⟨⟩⟩
      · cases h
    · cases h
  · simp only [TaskSystem.step, stepLocked] at h
    split at h
    · split at h
      · next hphase =>
          cases h
          exact ⟨by rw [hphase]; rintro ⟨⟩, by rintro ⟨⟩⟩
      · cases h
    · cases h
  · simp only [TaskSystem.step, stepFree] at h
    split at h
    · next hphase =>
        cases h
        exact ⟨by rw [hphase]; rintro ⟨⟩, by rintro ⟨⟩⟩
    · cases h

theorem step_ends (ha : a = .processEnd ∨ a = .exceptionEscaped)
    (h : s.step a = some s') : s.phase ≠ .idle ∧ s'.phase = .idle := by
  rcases ha with rfl | rfl
  · simp only [TaskSystem.step, stepFree] at h
    split at h
    · next hphase =>
        cases h
        exact ⟨by rw [hphase]; rintro ⟨⟩, rfl⟩
    · cases h
  · simp only [TaskSystem.step, stepLocked] at h
    split at h
    · split at h
      · next hphase =>
          cases h
          exact ⟨by rw [hphase]; rintro ⟨⟩, rfl⟩
      · cases h
    · cases h

/-- The first entry of the batch is started. -/
theorem step_processStart {entry : Entry τ} {unrun : List (Entry τ)}
    (hphase : s.phase = .scanning (entry :: unrun))
    (h : s.step .processStart = some s') (hwon : s'.phase.current.isSome) :
    s'.phase.current = some entry ∧ s.waits entry.id ∧
      s'.waits entry.id = false := by
  simp only [TaskSystem.step, stepFree, hphase] at h
  split at h
  · next mgr hstart =>
      cases h
      unfold TaskManager.start at hstart
      split at hstart
      · next hst =>
          cases hstart
          refine ⟨rfl, ?_, ?_⟩
          · unfold waits
            rw [hst]
            rfl
          · unfold waits
            dsimp only
            rw [stateOf_setState, if_pos rfl]
            rfl
      · cases hstart
  · cases h
    cases hwon

end TaskSystem

end EventHub
