import EventHub.Task.History
import EventHub.Proofs.TaskFrame

/-!
# The log and the controls agree

For every id, what the log says of it and what its control holds. The control
remembers less than the log, so the agreement is an invariant: a waiting
one-shot task owes a start, an executing one has used it up, and an accepted
reschedule is what pays for the next.
-/

namespace EventHub

variable {τ : Type}

/-- The agreement for one id. -/
structure Recorded (id nextId : Nat) (c : Control) (log : List TaskObs) :
    Prop where
  submitted : .submitted id ∈ log ↔ 0 < id ∧ id < nextId
  withdrawn : withdrawn id log ↔ c.state = .cancelled
  ended : .submitted id ∈ log → c.state = .completed → ended id log
  waiting : c.state.waiting → c.rescheduleRequested = false ∧
    (c.periodic = false → starts id log ≤ rescheduledRuns id log)
  requested : c.state = .executing → c.rescheduleRequested →
    acceptedReschedule id log
  runs : c.periodic = false → starts id log ≤ rescheduledRuns id log + 1
  unstarted : nextId ≤ id → starts id log = 0
  silent : log.Pairwise fun later earlier =>
    earlier.withdraws id → later ≠ .started id

section Recorded

variable {id nextId : Nat} {c c' : Control} {log obs : List TaskObs}

/-- The entry moved from one waiting state to another, or not at all. -/
theorem Recorded.move (h : Recorded id nextId c log) {state : State}
    (hmove : state = c.state ∨ c.state.waiting ∧ state.waiting) :
    Recorded id nextId { c with state := state } log := by
  rcases hmove with rfl | ⟨hold, hnew⟩
  · exact h
  · have hne : c.state ≠ .cancelled := by
      intro heq
      rw [heq] at hold
      cases hold
    exact
      { submitted := h.submitted
        withdrawn := by
          rw [h.withdrawn]
          constructor
          · exact fun heq => absurd heq hne
          · rintro rfl
            cases hnew
        ended := fun _ heq => absurd heq (State.waiting_ne_completed hnew)
        waiting := fun _ => h.waiting hold
        requested := by
          rintro rfl
          cases hnew
        runs := h.runs
        unstarted := h.unstarted
        silent := h.silent }

/-- Observations that are neither a start nor a submission leave everything
but the withdrawals as it was. -/
theorem Recorded.silent_append (h : Recorded id nextId c log)
    (hstart : .started id ∉ obs) :
    (obs ++ log).Pairwise fun later earlier =>
      earlier.withdraws id → later ≠ .started id := by
  have hne : ∀ o ∈ obs, o ≠ .started id := fun o ho heq => hstart (heq ▸ ho)
  rw [List.pairwise_append]
  refine ⟨?_, h.silent, fun o ho _ _ _ => hne o ho⟩
  exact List.Pairwise.imp_of_mem (fun ho _ _ _ => hne _ ho)
    (List.pairwise_of_forall (R := fun _ _ => True) fun _ _ => trivial)

theorem Recorded.quiet (h : Recorded id nextId c log)
    (hstart : .started id ∉ obs) (hsubmit : .submitted id ∉ obs)
    (hwithdraw : EventHub.withdrawn id obs = false) :
    Recorded id nextId c (obs ++ log) := by
  have hruns := rescheduledRuns_append id obs log
  have hmem : (.submitted id ∈ obs ++ log) ↔ .submitted id ∈ log := by
    rw [List.mem_append, or_iff_right hsubmit]
  have hstarts := starts_append hstart log
  constructor
  · rw [hmem]
    exact h.submitted
  · rw [← h.withdrawn]
    unfold EventHub.withdrawn at hwithdraw ⊢
    rw [List.any_append, hwithdraw, Bool.false_or]
  · intro hs hc
    have hend := h.ended (hmem.mp hs) hc
    unfold EventHub.ended at hend ⊢
    rw [List.any_append, hend, Bool.or_true]
  · intro hw
    obtain ⟨hreq, hle⟩ := h.waiting hw
    refine ⟨hreq, fun hp => ?_⟩
    have := hle hp
    omega
  · exact fun hs hr => acceptedReschedule_append hstart (h.requested hs hr)
  · intro hp
    have := h.runs hp
    omega
  · intro hid
    rw [hstarts]
    exact h.unstarted hid
  · exact h.silent_append hstart

theorem Recorded.quiet_one (h : Recorded id nextId c log) {o : TaskObs}
    (hstart : o ≠ .started id) (hsubmit : o ≠ .submitted id)
    (hwithdraw : o.withdraws id = false) :
    Recorded id nextId c (o :: log) := by
  show Recorded id nextId c ([o] ++ log)
  exact h.quiet (by simpa using Ne.symm hstart) (by simpa using Ne.symm hsubmit)
    (by simpa [EventHub.withdrawn] using hwithdraw)

/-- The task is withdrawn. -/
theorem Recorded.withdraw (h : Recorded id nextId c log)
    (hstart : .started id ∉ obs) (hsubmit : .submitted id ∉ obs)
    (hwithdraw : EventHub.withdrawn id obs)
    (hstate : c'.state = .cancelled) (hperiodic : c'.periodic = c.periodic) :
    Recorded id nextId c' (obs ++ log) := by
  have hruns := rescheduledRuns_append id obs log
  have hstarts := starts_append hstart log
  constructor
  · rw [List.mem_append, or_iff_right hsubmit]
    exact h.submitted
  · unfold EventHub.withdrawn at hwithdraw ⊢
    rw [List.any_append, hwithdraw, Bool.true_or]
    exact ⟨fun _ => hstate, fun _ => rfl⟩
  · intro _ hc
    rw [hstate] at hc
    cases hc
  · intro hw
    rw [hstate] at hw
    cases hw
  · intro hs
    rw [hstate] at hs
    cases hs
  · intro hp
    have := h.runs (hperiodic ▸ hp)
    omega
  · intro hid
    rw [hstarts]
    exact h.unstarted hid
  · exact h.silent_append hstart

theorem Recorded.withdraw_one (h : Recorded id nextId c log) {o : TaskObs}
    (hwithdraw : o.withdraws id) (hstate : c'.state = .cancelled)
    (hperiodic : c'.periodic = c.periodic) :
    Recorded id nextId c' (o :: log) := by
  show Recorded id nextId c' ([o] ++ log)
  refine h.withdraw ?_ ?_ ?_ hstate hperiodic
  · rw [List.mem_singleton]
    rintro rfl
    cases hwithdraw
  · rw [List.mem_singleton]
    rintro rfl
    cases hwithdraw
  · simpa [EventHub.withdrawn] using hwithdraw

/-- The start transition uses up the start a waiting task is owed. -/
theorem Recorded.start (h : Recorded id nextId c log)
    (hstate : c.state = .readySnapshot) (hid : id < nextId) :
    Recorded id nextId { c with state := .executing } (.started id :: log) := by
  obtain ⟨hreq, hle⟩ := h.waiting (by rw [hstate]; rfl)
  have hnot : EventHub.withdrawn id log = false := by
    rw [Bool.eq_false_iff]
    intro hw
    rw [h.withdrawn.mp hw] at hstate
    cases hstate
  have hcount : starts id (.started id :: log) = starts id log + 1 := by
    simp [starts]
  constructor
  · simpa using h.submitted
  · simpa [EventHub.withdrawn, TaskObs.withdraws] using hnot
  · exact fun _ hc => by cases hc
  · exact fun hw => by cases hw
  · intro _ hr
    rw [hreq] at hr
    cases hr
  · intro hp
    have := hle hp
    rw [hcount]
    simp only [rescheduledRuns]
    omega
  · omega
  · rw [List.pairwise_cons]
    refine ⟨fun o ho hw => ?_, h.silent⟩
    have : EventHub.withdrawn id log = true :=
      List.any_eq_true.mpr ⟨o, ho, hw⟩
    rw [hnot] at this
    cases this

/-- The callback returned: if the task waits again, a reschedule was accepted
or the task is periodic. -/
theorem Recorded.finish (h : Recorded id nextId c log) {o : TaskObs}
    {again : Prop} (ho : o = .returned id ∨ o = .threw id ∧ ¬ again)
    (hagain : again → c.rescheduleRequested ∨ c.periodic)
    (hperiodic : c'.periodic = c.periodic)
    (houtcome : c.state = .cancelled ∧ c'.state = .cancelled ∨
      c.state = .executing ∧ (c'.state = .completed ∨
        c'.state.waiting ∧ c'.rescheduleRequested = false ∧ again)) :
    Recorded id nextId c' (o :: log) := by
  have hstart : o ≠ .started id := by
    rcases ho with rfl | ⟨rfl, -⟩ <;> simp
  have hsubmit : o ≠ .submitted id := by
    rcases ho with rfl | ⟨rfl, -⟩ <;> simp
  have hwithdraw : o.withdraws id = false := by
    rcases ho with rfl | ⟨rfl, -⟩ <;> rfl
  have hend : EventHub.ended id (o :: log) := by
    rcases ho with rfl | ⟨rfl, -⟩ <;> simp [EventHub.ended]
  have hq := h.quiet_one hstart hsubmit hwithdraw
  constructor
  · exact hq.submitted
  · rw [hq.withdrawn]
    rcases houtcome with ⟨h1, h2⟩ | ⟨h1, h2 | ⟨h2, -, -⟩⟩
    · rw [h1, h2]
    · rw [h1, h2]
      decide
    · rw [h1]
      constructor
      · exact fun heq => by cases heq
      · intro heq
        rw [heq] at h2
        cases h2
  · exact fun _ _ => hend
  · intro hw
    rcases houtcome with ⟨-, h2⟩ | ⟨h1, h2 | ⟨-, h3, h4⟩⟩
    · rw [h2] at hw
      cases hw
    · rw [h2] at hw
      cases hw
    · refine ⟨h3, fun hp => ?_⟩
      rw [hperiodic] at hp
      rcases ho with rfl | ⟨-, hno⟩
      · have hreq : c.rescheduleRequested := by simpa [hp] using hagain h4
        have hacc := h.requested h1 hreq
        have hle := h.runs hp
        have hstarts : starts id (.returned id :: log) = starts id log := by
          simp [starts]
        simp only [hstarts, rescheduledRuns, hacc, decide_true, Bool.and_self,
          if_true]
        exact hle
      · exact absurd h4 hno
  · intro hs
    rcases houtcome with ⟨-, h2⟩ | ⟨-, h2 | ⟨h2, -, -⟩⟩
    all_goals
      rw [hs] at h2
      cases h2
  · intro hp
    exact hq.runs (hperiodic ▸ hp)
  · exact hq.unstarted
  · exact hq.silent

/-- The control of a task just submitted. -/
theorem Recorded.submit (h : Recorded id nextId c log) {nextId' : Nat}
    (hpos : 0 < nextId) (hge : nextId ≤ id) (hlt : id < nextId')
    (hmem : .submitted id ∈ obs) (hstart : .started id ∉ obs)
    (hwithdraw : EventHub.withdrawn id obs = false)
    (hnot : EventHub.withdrawn id log = false)
    (hwait : c'.state.waiting) (hreq : c'.rescheduleRequested = false) :
    Recorded id nextId' c' (obs ++ log) := by
  have hzero : starts id (obs ++ log) = 0 := by
    rw [starts_append hstart, h.unstarted hge]
  constructor
  · rw [List.mem_append]
    exact ⟨fun _ => by omega, fun _ => Or.inl hmem⟩
  · unfold EventHub.withdrawn at hwithdraw hnot ⊢
    rw [List.any_append, hwithdraw, hnot]
    constructor
    · exact fun hf => by cases hf
    · intro heq
      rw [heq] at hwait
      cases hwait
  · exact fun _ hc => absurd hc (State.waiting_ne_completed hwait)
  · exact fun _ => ⟨hreq, fun _ => by omega⟩
  · intro hs
    rw [hs] at hwait
    cases hwait
  · exact fun _ => by omega
  · omega
  · exact h.silent_append hstart

/-- Ids handed out to others. -/
theorem Recorded.widen (h : Recorded id nextId c log) {nextId' : Nat}
    (hle : nextId ≤ nextId') (hid : id < nextId ∨ nextId' ≤ id) :
    Recorded id nextId' c log :=
  { submitted := by
      rw [h.submitted]
      omega
    withdrawn := h.withdrawn
    ended := h.ended
    waiting := h.waiting
    requested := h.requested
    runs := h.runs
    unstarted := fun hge => h.unstarted (by omega)
    silent := h.silent }

/-- A reschedule accepted while the callback runs. -/
theorem Recorded.reschedule (h : Recorded id nextId c log)
    (hst : c.state = .executing) (hstate : c'.state = .executing)
    (hperiodic : c'.periodic = c.periodic) (due : Int) :
    Recorded id nextId c' (.rescheduleReturned id due true :: log) := by
  have hq : Recorded id nextId c (.rescheduleReturned id due true :: log) :=
    h.quiet_one (by simp) (by simp) rfl
  exact
    { submitted := hq.submitted
      withdrawn := by rw [hq.withdrawn, hst, hstate]
      ended := fun _ hc => by rw [hstate] at hc; cases hc
      waiting := fun hw => by rw [hstate] at hw; cases hw
      requested := fun _ _ => by simp [acceptedReschedule]
      runs := fun hp => hq.runs (hperiodic ▸ hp)
      unstarted := hq.unstarted
      silent := hq.silent }

end Recorded

/-! ## The system -/

namespace TaskSystem

/-- The agreement for every id. -/
def Logged (s : TaskSystem τ) : Prop :=
  ∀ id, Recorded id s.mgr.nextId (s.mgr.control id) s.log

theorem mem_submittedObs {ids : List Nat} {o : TaskObs} :
    o ∈ submittedObs ids ↔ ∃ id ∈ ids, id ≠ 0 ∧ o = .submitted id := by
  simp only [submittedObs, List.mem_reverse, List.mem_map, List.mem_filter,
    decide_eq_true_eq]
  constructor
  · rintro ⟨id, ⟨hid, hne⟩, rfl⟩
    exact ⟨id, hid, hne, rfl⟩
  · rintro ⟨id, hid, hne, rfl⟩
    exact ⟨id, ⟨hid, hne⟩, rfl⟩

theorem withdrawn_submittedObs (id : Nat) (ids : List Nat) :
    withdrawn id (submittedObs ids) = false := by
  unfold withdrawn
  rw [List.any_eq_false]
  intro o ho
  obtain ⟨j, -, -, rfl⟩ := mem_submittedObs.mp ho
  exact Bool.false_ne_true

theorem started_not_mem_submittedObs (id : Nat) (ids : List Nat) :
    .started id ∉ submittedObs ids := by
  rw [mem_submittedObs]
  rintro ⟨j, -, -, heq⟩
  cases heq

theorem submitted_mem_submittedObs {id : Nat} {ids : List Nat} :
    .submitted id ∈ submittedObs ids ↔ id ≠ 0 ∧ id ∈ ids := by
  rw [mem_submittedObs]
  constructor
  · rintro ⟨j, hj, hne, heq⟩
    cases heq
    exact ⟨hne, hj⟩
  · rintro ⟨hne, hid⟩
    exact ⟨id, hid, hne, rfl⟩

variable {s s' : TaskSystem τ}

theorem Logged.submit (h : s.Logged) (hinv : s.Inv)
    {r : TaskManager τ × List Nat} (hext : TaskManager.Extended s.mgr r.1 r.2) :
    (s.submit r).Logged := by
  intro id
  have hr := h id
  show Recorded id r.1.nextId (r.1.control id) (submittedObs r.2 ++ s.log)
  by_cases hnew : s.mgr.nextId ≤ id ∧ id < r.1.nextId
  · obtain ⟨hge, hlt⟩ := hnew
    have hne : id ≠ 0 := by
      have := hinv.positive
      omega
    have hnot : withdrawn id s.log = false := by
      rw [Bool.eq_false_iff]
      intro hw
      have hfresh := hinv.fresh id hge
      unfold TaskManager.stateOf at hfresh
      rw [hr.withdrawn.mp hw] at hfresh
      cases hfresh
    obtain ⟨hwait, hreq⟩ := hext.fresh id hge hlt
    exact hr.submit hinv.positive hge hlt
      (submitted_mem_submittedObs.mpr ⟨hne, (hext.ids id hne).mpr ⟨hge, hlt⟩⟩)
      (started_not_mem_submittedObs id r.2) (withdrawn_submittedObs id r.2) hnot
      hwait hreq
  · have hle := hext.le
    rw [hext.control id (by omega)]
    refine (hr.widen hle (by omega)).quiet (started_not_mem_submittedObs id r.2)
      ?_ (withdrawn_submittedObs id r.2)
    rw [submitted_mem_submittedObs]
    rintro ⟨hne, hid⟩
    exact hnew ((hext.ids id hne).mp hid)

/-- Steps that only move waiting entries, and log at most a return of
`process()`. -/
theorem Logged.reshuffle (h : s.Logged)
    (hmove : TaskManager.Reshuffled s.mgr s'.mgr) (obs : List TaskObs)
    (hlog : s'.log = obs ++ s.log) (hstart : ∀ id, .started id ∉ obs)
    (hsubmit : ∀ id, .submitted id ∉ obs)
    (hwithdraw : ∀ id, withdrawn id obs = false) : s'.Logged := by
  intro id
  rw [hmove.nextId, hmove.control id, hlog]
  have hmoved := (h id).move (hmove.moved id)
  exact hmoved.quiet (hstart id) (hsubmit id) (hwithdraw id)

/-- A cancellation that returned true. -/
theorem Logged.withdraw (h : s.Logged) {id : Nat} {o : TaskObs}
    (hw : TaskManager.Withdrew s.mgr s'.mgr id) (hlog : s'.log = o :: s.log)
    (hid : o.withdraws id) (hother : ∀ j, j ≠ id → o.withdraws j = false) :
    s'.Logged := by
  intro j
  rw [hlog, hw.nextId]
  by_cases hj : j = id
  · rw [hj]
    exact (h id).withdraw_one hid hw.state hw.periodic
  · rw [hw.other j hj]
    refine (h j).quiet_one ?_ ?_ (hother j hj)
    all_goals
      rintro rfl
      cases hid

theorem Logged.clear (h : s.Logged) {ids : List Nat}
    (hd : TaskManager.Dropped s.mgr s'.mgr ids)
    (hlog : s'.log = (ids.map .cleared).reverse ++ s.log) : s'.Logged := by
  intro id
  rw [hlog, hd.nextId]
  have hstart : .started id ∉ (ids.map TaskObs.cleared).reverse := by simp
  have hsubmit : .submitted id ∉ (ids.map TaskObs.cleared).reverse := by simp
  have hmem : withdrawn id (ids.map TaskObs.cleared).reverse ↔ id ∈ ids := by
    simp [withdrawn, TaskObs.withdraws]
  by_cases hid : id ∈ ids
  · exact (h id).withdraw hstart hsubmit (hmem.mpr hid) (hd.state id hid)
      (hd.periodic id)
  · rw [hd.other id hid]
    exact (h id).quiet hstart hsubmit (by rwa [Bool.eq_false_iff, ne_eq, hmem])

/-- The end of a callback. -/
theorem Logged.finish (h : s.Logged) {id : Nat} {again : Prop} {o : TaskObs}
    (hend : TaskManager.Ended s.mgr s'.mgr id again)
    (ho : o = .returned id ∨ o = .threw id ∧ ¬ again)
    (hagain : again → (s.mgr.control id).rescheduleRequested ∨
      (s.mgr.control id).periodic)
    (hlog : s'.log = o :: s.log) : s'.Logged := by
  intro j
  rw [hlog, hend.nextId]
  by_cases hj : j = id
  · rw [hj]
    exact (h id).finish ho hagain hend.periodic hend.outcome
  · rw [hend.other j hj]
    rcases ho with rfl | ⟨rfl, -⟩
    all_goals exact (h j).quiet_one (by simp) (by simp) rfl

/-- An observation that changes nothing for anyone. -/
theorem Logged.note (h : s.Logged) {o : TaskObs}
    (hcontrol : s'.mgr.control = s.mgr.control)
    (hnext : s'.mgr.nextId = s.mgr.nextId) (hlog : s'.log = o :: s.log)
    (hstart : ∀ id, o ≠ .started id) (hsubmit : ∀ id, o ≠ .submitted id)
    (hwithdraw : ∀ id, o.withdraws id = false) : s'.Logged := by
  intro id
  rw [hcontrol, hnext, hlog]
  exact (h id).quiet_one (hstart id) (hsubmit id) (hwithdraw id)

theorem Logged.reschedule (h : s.Logged) (id : Nat) (due : Int) :
    Logged { s with
      mgr := (s.mgr.rescheduleFromContext id due).1
      log := .rescheduleReturned id due
        (s.mgr.rescheduleFromContext id due).2 :: s.log } := by
  unfold TaskManager.rescheduleFromContext
  split
  · exact h.note rfl rfl rfl (by simp) (by simp) (fun _ => rfl)
  · split
    · exact h.note rfl rfl rfl (by simp) (by simp) (fun _ => rfl)
    · split
      · split
        · next hst =>
            intro j
            show Recorded j s.mgr.nextId
              ((s.mgr.requestReschedule id due).control j) _
            rw [TaskManager.control_requestReschedule]
            split
            · next hj =>
                rw [hj]
                refine (h id).reschedule hst ?_ ?_ due
                · exact hst
                · rfl
            · exact (h j).quiet_one (by simp) (by simp) rfl
        · exact h.note rfl rfl rfl (by simp) (by simp) (fun _ => rfl)
      · exact h.note rfl rfl rfl (by simp) (by simp) (fun _ => rfl)

theorem Logged.stepFree {a : TaskAction τ} (h : s.Logged) (hinv : s.Inv)
    (hstep : s.stepFree a = some s') : s'.Logged := by
  cases a <;> simp only [TaskSystem.stepFree] at hstep <;> try contradiction
  case processStart =>
    split at hstep
    · next entry unrun hph =>
        split at hstep
        · next mgr hstart =>
            injection hstep with hstep
            subst hstep
            unfold TaskManager.start at hstart
            split at hstart
            · next hst =>
                injection hstart with hstart
                subst hstart
                intro id
                by_cases hid : id = entry.id
                · rw [hid]
                  show Recorded entry.id s.mgr.nextId
                    ((s.mgr.setState entry.id .executing).control entry.id) _
                  rw [TaskManager.control_setState, if_pos rfl]
                  exact (h entry.id).start hst
                    (TaskManager.Inv.lt_nextId hinv (by rw [hst]; decide))
                · show Recorded id s.mgr.nextId
                    ((s.mgr.setState entry.id .executing).control id) _
                  rw [TaskManager.control_setState_of_ne hid]
                  exact (h id).quiet_one (by simp [Ne.symm hid]) (by simp) rfl
            · contradiction
        · injection hstep with hstep
          subst hstep
          exact h
    · contradiction
  case processSettle =>
    split at hstep
    · next entry unrun hph =>
        injection hstep with hstep
        subst hstep
        intro id
        show Recorded id (s.mgr.settleStart entry).nextId
          ((s.mgr.settleStart entry).control id) s.log
        unfold TaskManager.settleStart
        split <;> exact h id
    · contradiction
  case exceptionHandled =>
    split at hstep
    · injection hstep with hstep
      subst hstep
      exact h
    · contradiction
  case processEnd =>
    split at hstep
    · injection hstep with hstep
      subst hstep
      exact h.note rfl rfl rfl (by simp) (by simp) (fun _ => rfl)
    · contradiction

theorem Logged.stepExchange (h : s.Logged)
    (hstep : s.stepExchange = some s') : s'.Logged := by
  unfold TaskSystem.stepExchange at hstep
  split at hstep
  · next id loaded hc =>
      injection hstep with hstep
      subst hstep
      rcases s.mgr.cancelLoaded_spec id loaded with ⟨hres, hw⟩ | ⟨hres, hm⟩
      · refine h.withdraw hw rfl ?_ ?_
        · show (decide (id = id) && (s.mgr.cancelLoaded id loaded).2) = true
          rw [hres, decide_eq_true rfl, Bool.and_self]
        · intro j hj
          simp [TaskObs.withdraws, Ne.symm hj]
      · refine h.note (congrArg _ hm) (congrArg _ hm) rfl (by simp) (by simp) ?_
        intro j
        show (decide (id = j) && (s.mgr.cancelLoaded id loaded).2) = false
        rw [hres, Bool.and_false]
  · contradiction

theorem Logged.stepLocked {a : TaskAction τ} (h : s.Logged) (hinv : s.Inv)
    (hstep : s.stepLocked a = some s') : s'.Logged := by
  have hpos : 0 < s.mgr.nextId := hinv.positive
  cases a <;> simp only [TaskSystem.stepLocked] at hstep <;> try contradiction
  case post task options =>
    injection hstep with hstep
    subst hstep
    exact h.submit hinv (.post hpos task options)
  case postAt now due task options =>
    injection hstep with hstep
    subst hstep
    exact h.submit hinv (.postAt hpos now due task options)
  case postEveryAfter now now' initialDelay interval task options =>
    injection hstep with hstep
    subst hstep
    exact h.submit hinv
      (.postEveryAfter hpos now now' initialDelay interval task options)
  case postBatch tasks options =>
    injection hstep with hstep
    subst hstep
    exact h.submit hinv (.postBatch hpos tasks options)
  case close =>
    injection hstep with hstep
    subst hstep
    exact h
  case cancelLoad id =>
    split at hstep
    · injection hstep with hstep
      subst hstep
      exact h
    · injection hstep with hstep
      subst hstep
      exact h.note rfl rfl rfl (by simp) (by simp)
        (by simp [TaskObs.withdraws])
  case contextCancel id =>
    injection hstep with hstep
    subst hstep
    rcases s.mgr.cancelFromContext_spec id with ⟨hres, hw⟩ | ⟨hres, hm⟩
    · refine h.withdraw hw rfl ?_ ?_
      · show (decide (id = id) && (s.mgr.cancelFromContext id).2) = true
        rw [hres, decide_eq_true rfl, Bool.and_self]
      · intro j hj
        simp [TaskObs.withdraws, Ne.symm hj]
    · refine h.note (congrArg _ hm) (congrArg _ hm) rfl (by simp) (by simp) ?_
      intro j
      show (decide (id = j) && (s.mgr.cancelFromContext id).2) = false
      rw [hres, Bool.and_false]
  case contextReschedule id due =>
    injection hstep with hstep
    subst hstep
    exact h.reschedule id due
  case clearPending =>
    injection hstep with hstep
    subst hstep
    exact h.clear (.clearPending s.mgr) rfl
  case nextDeadline =>
    injection hstep with hstep
    subst hstep
    exact h.reshuffle (.prune s.mgr) [] rfl (by simp) (by simp)
      (fun _ => rfl)
  case processBegin now maxTasks =>
    split at hstep
    · split at hstep
      · injection hstep with hstep
        subst hstep
        exact h.note rfl rfl rfl (by simp) (by simp) (fun _ => rfl)
      · injection hstep with hstep
        subst hstep
        exact h.reshuffle (.beginProcess s.mgr now maxTasks) [] rfl
          (by simp) (by simp) (fun _ => rfl)
    · contradiction
  case callbackReturned now now' =>
    split at hstep
    · next entry unrun hph =>
        injection hstep with hstep
        subst hstep
        unfold Inv at hinv
        rw [hph] at hinv
        have hper := hinv.periodic entry (by simp [Holds, Phase.current])
        refine h.finish
          (.finishAfterSuccess (TaskManager.Inv.current_state hinv) now now')
          (Or.inl rfl) ?_ rfl
        rw [hper]
        exact fun hagain => hagain
    · contradiction
  case callbackThrew =>
    split at hstep
    · next entry unrun hph =>
        injection hstep with hstep
        subst hstep
        unfold Inv at hinv
        rw [hph] at hinv
        exact h.finish
          (.finishAfterException (TaskManager.Inv.current_state hinv))
          (Or.inr ⟨rfl, id⟩) (fun hf => hf.elim) rfl
    · contradiction
  case exceptionEscaped =>
    split at hstep
    · next unrun hph =>
        injection hstep with hstep
        subst hstep
        exact h.reshuffle (.restoreUnrun unrun s.mgr) [.processThrew]
          rfl (by simp) (by simp) (fun _ => rfl)
    · contradiction

theorem Logged.step {a : TaskAction τ} (h : s.Logged) (hinv : s.Inv)
    (hstep : s.step a = some s') : s'.Logged := by
  unfold TaskSystem.step at hstep
  split at hstep
  · exact h.stepFree hinv hstep
  · exact h.stepFree hinv hstep
  · exact h.stepFree hinv hstep
  · exact h.stepFree hinv hstep
  · exact h.stepExchange hstep
  · split at hstep
    · exact h.stepLocked hinv hstep
    · contradiction

theorem Logged.initial : ({} : TaskSystem τ).Logged := by
  intro id
  exact
    { submitted := by
        show _ ∈ [] ↔ 0 < id ∧ id < 1
        rw [List.mem_nil_iff, false_iff]
        omega
      withdrawn := by
        show (false = true) ↔ State.completed = State.cancelled
        decide
      ended := fun hs => by cases hs
      waiting := fun hw => by cases hw
      requested := fun hs => by cases hs
      runs := fun _ => Nat.zero_le _
      unstarted := fun _ => rfl
      silent := List.Pairwise.nil }

theorem Reachable.logged (h : s.Reachable) : s.Logged := by
  have hboth : s.Inv ∧ s.Logged :=
    Lts.Reachable.invariant (P := fun s => s.Inv ∧ s.Logged) h
      ⟨TaskManager.Inv.initial, Logged.initial⟩
      fun _ _ _ h hstep => ⟨h.1.step hstep, h.2.step h.1 hstep⟩
  exact hboth.2

end TaskSystem

end EventHub
