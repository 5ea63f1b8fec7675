import EventHub.Proofs.SchedulerRefine
import EventHub.Proofs.TaskWaiting
import EventHub.Spec.SchedulerStep

/-!
# Every step of a manager is a step of the eager scheduler

The refinement of `Proofs/SchedulerRefine.lean` for any number of producers:
exceptions, `clear_pending` and a `cancel` cut in two included. What is proved
of the steps of the scheduler then holds of the log and of the live entries of
every reachable manager.
-/

namespace EventHub

open TaskManager

variable {τ : Type}

namespace TaskManager

variable {m m' : TaskManager τ} {cur : Option (Entry τ)}
  {unrun : List (Entry τ)} {owed : Int} {n : Nat}

/-! ## Exceptions -/

theorem Inv.live_finishAfterException {entry : Entry τ}
    (h : m.Inv (some entry) unrun owed) :
    (m.finishAfterException entry).live = m.live := by
  have hend := Ended.finishAfterException h.current_state
  refine live_congr fun j => ?_
  by_cases hj : j = entry.id
  · rw [hj]
    rcases hend.outcome with ⟨hst, hst'⟩ | ⟨hst, hst' | ⟨-, -, h'⟩⟩
    · rw [hst, hst']
    · rw [hst, hst']
      exact iff_of_false (by decide) (by decide)
    · exact h'.elim
  · unfold stateOf
    rw [hend.other j hj]

theorem finishAfterException_frame (m : TaskManager τ) (entry : Entry τ) :
    (m.finishAfterException entry).ready = m.ready ∧
      (m.finishAfterException entry).nextSeq = m.nextSeq ∧
      (m.finishAfterException entry).closed = m.closed := by
  unfold finishAfterException complete
  dsimp only
  split
  · split <;> exact ⟨rfl, rfl, rfl⟩
  · split <;> exact ⟨rfl, rfl, rfl⟩

theorem Inv.scheduler_finishAfterException {entry : Entry τ}
    (h : m.Inv (some entry) unrun owed) :
    (m.finishAfterException entry).scheduler none unrun n =
      { m.scheduler (some entry) unrun n with current := none } := by
  obtain ⟨hready, hseq, hclosed⟩ := finishAfterException_frame m entry
  have hend := Ended.finishAfterException h.current_state
  exact (scheduler_congr hready (delayedHeap_finishAfterException m entry)
    h.live_finishAfterException hend.nextId hseq hclosed).trans rfl

theorem restoreEntry_frame (entry : Entry τ) (m : TaskManager τ) :
    (restoreEntry entry m).nextSeq = m.nextSeq ∧
      (restoreEntry entry m).closed = m.closed := by
  unfold restoreEntry
  split <;> exact ⟨rfl, rfl⟩

theorem restoreUnrun_frame (m : TaskManager τ) (batch : List (Entry τ)) :
    (m.restoreUnrun batch).nextSeq = m.nextSeq ∧
      (m.restoreUnrun batch).closed = m.closed := by
  induction batch with
  | nil => exact ⟨rfl, rfl⟩
  | cons entry batch ih =>
      obtain ⟨hseq, hclosed⟩ := restoreEntry_frame entry (m.restoreUnrun batch)
      exact ⟨hseq.trans ih.1, hclosed.trans ih.2⟩

/-- The live entries of the batch are in front of the live ready ones, in the
order of the batch, since the walk goes backwards. -/
theorem Inv.ready_restoreUnrun (batch : List (Entry τ)) :
    ∀ {unrun : List (Entry τ)}, m.Inv cur (batch ++ unrun) owed →
      ∀ priority, ((m.restoreUnrun batch).ready priority).filter m.live =
        ((batch.filter m.live).filter fun entry => entry.priority = priority) ++
          (m.ready priority).filter m.live := by
  induction batch with
  | nil => exact fun _ _ => rfl
  | cons entry batch ih =>
      intro unrun h priority
      have hmoved : m.Inv cur (batch ++ entry :: unrun) owed :=
        h.perm List.perm_middle.symm
      have hrest := Inv.restoreUnrun batch hmoved
      have hlive : (m.restoreUnrun batch).live = m.live :=
        (Reshuffled.restoreUnrun batch m).live
      have hstate := hrest.live_unrun List.mem_cons_self
      rw [hlive] at hstate
      show ((TaskManager.restoreEntry entry (m.restoreUnrun batch)).ready
        priority).filter m.live = _
      unfold TaskManager.restoreEntry
      by_cases hl : m.live entry
      · rw [if_pos (hstate.mp hl), List.filter_cons_of_pos hl]
        by_cases hp : priority = entry.priority
        · subst hp
          rw [List.filter_cons_of_pos (by simp)]
          simp [hl, ih hmoved]
        · rw [List.filter_cons_of_neg (by simpa using Ne.symm hp), ← ih hmoved]
          simp [Function.update_of_ne hp]
      · rw [if_neg fun hst => hl (hstate.mpr hst), List.filter_cons_of_neg hl]
        exact ih hmoved priority

theorem Inv.scheduler_restoreUnrun (h : m.Inv none unrun owed) :
    (m.restoreUnrun unrun).scheduler none [] n =
      (m.scheduler none unrun n).restore := by
  have hmove := Reshuffled.restoreUnrun unrun m
  obtain ⟨hseq, hclosed⟩ := restoreUnrun_frame m unrun
  have hinv : m.Inv none (unrun ++ []) owed := by rwa [List.append_nil]
  refine Scheduler.ext ?_ ?_ rfl rfl rfl hmove.nextId hseq hclosed
  · funext priority
    rw [scheduler_queue, hmove.live, Inv.ready_restoreUnrun unrun hinv]
    rfl
  · rw [scheduler_delayed, hmove.live, delayedHeap_restoreUnrun]
    rfl

/-! ## `clear_pending` -/

/-- An entry of a batch, or one that runs, is not touched by a clearing. -/
def Uncleared (state : State) : Prop :=
  state ≠ .queuedReady ∧ state ≠ .queuedDelayed

theorem clearReadyLoop_control {j : Nat} (queue : List (Entry τ)) :
    ∀ r : TaskManager τ × List Nat, Uncleared (r.1.stateOf j) →
      (queue.foldl clearReadyEntry r).1.control j = r.1.control j := by
  induction queue with
  | nil => exact fun _ _ => rfl
  | cons entry queue ih =>
      intro r hj
      have hone : (clearReadyEntry r entry).1.control j = r.1.control j := by
        unfold clearReadyEntry
        split
        · next hst =>
            refine control_setState_of_ne ?_
            rintro rfl
            exact hj.1 hst
        · rfl
      refine (ih _ ?_).trans hone
      unfold stateOf at hj ⊢
      rwa [hone]

theorem clearDelayedLoop_control {j : Nat} (heap : List (Entry τ)) :
    ∀ r : TaskManager τ × List Nat, Uncleared (r.1.stateOf j) →
      (heap.foldl clearDelayedEntry r).1.control j = r.1.control j := by
  induction heap with
  | nil => exact fun _ _ => rfl
  | cons entry heap ih =>
      intro r hj
      have hone : (clearDelayedEntry r entry).1.control j = r.1.control j := by
        unfold clearDelayedEntry
        split
        · next hst =>
            refine control_setState_of_ne ?_
            rintro rfl
            exact hj.2 hst
        · rfl
      refine (ih _ ?_).trans hone
      unfold stateOf at hj ⊢
      rwa [hone]

theorem clearPending_control {j : Nat} (hj : Uncleared (m.stateOf j)) :
    m.clearPending.1.control j = m.control j := by
  have hqueue : ∀ (priority : TaskPriority) (r : TaskManager τ × List Nat),
      r.1.control j = m.control j →
      (clearQueue priority r).1.control j = m.control j := by
    intro priority r hr
    refine (clearReadyLoop_control _ r ?_).trans hr
    unfold stateOf
    rwa [hr]
  have hlow := hqueue .low _ (hqueue .normal _ (hqueue .high (m, []) rfl))
  refine (clearDelayedLoop_control _ _ ?_).trans hlow
  unfold stateOf
  rwa [hlow]

theorem clearReadyLoop_frame (queue : List (Entry τ)) :
    ∀ r : TaskManager τ × List Nat,
      (queue.foldl clearReadyEntry r).1.ready = r.1.ready ∧
        (queue.foldl clearReadyEntry r).1.nextSeq = r.1.nextSeq ∧
        (queue.foldl clearReadyEntry r).1.closed = r.1.closed := by
  induction queue with
  | nil => exact fun _ => ⟨rfl, rfl, rfl⟩
  | cons entry queue ih =>
      intro r
      obtain ⟨hready, hseq, hclosed⟩ := ih (clearReadyEntry r entry)
      have hone : (clearReadyEntry r entry).1.ready = r.1.ready ∧
          (clearReadyEntry r entry).1.nextSeq = r.1.nextSeq ∧
          (clearReadyEntry r entry).1.closed = r.1.closed := by
        unfold clearReadyEntry
        split <;> exact ⟨rfl, rfl, rfl⟩
      exact ⟨hready.trans hone.1, hseq.trans hone.2.1, hclosed.trans hone.2.2⟩

theorem clearDelayedLoop_frame (heap : List (Entry τ)) :
    ∀ r : TaskManager τ × List Nat,
      (heap.foldl clearDelayedEntry r).1.ready = r.1.ready ∧
        (heap.foldl clearDelayedEntry r).1.nextSeq = r.1.nextSeq ∧
        (heap.foldl clearDelayedEntry r).1.closed = r.1.closed := by
  induction heap with
  | nil => exact fun _ => ⟨rfl, rfl, rfl⟩
  | cons entry heap ih =>
      intro r
      obtain ⟨hready, hseq, hclosed⟩ := ih (clearDelayedEntry r entry)
      have hone : (clearDelayedEntry r entry).1.ready = r.1.ready ∧
          (clearDelayedEntry r entry).1.nextSeq = r.1.nextSeq ∧
          (clearDelayedEntry r entry).1.closed = r.1.closed := by
        unfold clearDelayedEntry
        split <;> exact ⟨rfl, rfl, rfl⟩
      exact ⟨hready.trans hone.1, hseq.trans hone.2.1, hclosed.trans hone.2.2⟩

theorem clearQueue_frame (priority : TaskPriority)
    (r : TaskManager τ × List Nat) :
    (clearQueue priority r).1.ready = Function.update r.1.ready priority [] ∧
      (clearQueue priority r).1.nextSeq = r.1.nextSeq ∧
      (clearQueue priority r).1.closed = r.1.closed := by
  obtain ⟨hready, hseq, hclosed⟩ := clearReadyLoop_frame (r.1.ready priority) r
  refine ⟨?_, hseq, hclosed⟩
  exact congrArg (Function.update · priority []) hready

theorem clearPending_frame (m : TaskManager τ) :
    m.clearPending.1.ready = (fun _ => []) ∧
      m.clearPending.1.nextSeq = m.nextSeq ∧
      m.clearPending.1.closed = m.closed := by
  obtain ⟨hr, hs, hc⟩ := clearQueue_frame .high (m, [])
  obtain ⟨hr', hs', hc'⟩ := clearQueue_frame .normal (clearQueue .high (m, []))
  obtain ⟨hr'', hs'', hc''⟩ := clearQueue_frame .low
    (clearQueue .normal (clearQueue .high (m, [])))
  obtain ⟨hready, hseq, hclosed⟩ := clearDelayedLoop_frame
    (clearQueue .low (clearQueue .normal (clearQueue .high (m, [])))).1.delayedHeap
    (clearQueue .low (clearQueue .normal (clearQueue .high (m, []))))
  refine ⟨hready.trans ?_, hseq.trans (hs''.trans (hs'.trans hs)),
    hclosed.trans (hc''.trans (hc'.trans hc))⟩
  rw [hr'', hr', hr]
  funext priority
  cases priority <;> rfl

/-- The tasks `clear_pending` drops are the queued ones. -/
theorem Inv.clearPending_ids (h : m.Inv cur unrun owed) (id : Nat) :
    id ∈ m.clearPending.2 ↔ ¬ Uncleared (m.stateOf id) := by
  have hdropped := Dropped.clearPending m
  constructor
  · intro hid hkept
    have hstate := hdropped.state id hid
    have hwait := hdropped.waiting id hid
    unfold stateOf at hstate
    rw [clearPending_control hkept] at hstate
    unfold stateOf at hwait
    rw [hstate] at hwait
    cases hwait
  · intro hqueued
    by_contra hid
    have hacc := h.clearPending.accounted id
    rw [(clearPending_frame m).1, delayedHeap_clearPending] at hacc
    unfold stateOf at hacc
    rw [hdropped.other id hid] at hacc
    refine hqueued ⟨fun hst => ?_, fun hst => ?_⟩
    all_goals
      unfold stateOf at hst
      rw [hst] at hacc
    · exact absurd hacc.2.1 (by simp [readyCopies])
    · exact absurd hacc.2.2.1 (by simp)

theorem Inv.mem_queued (h : m.Inv cur unrun owed) (id : Nat) :
    (∃ entry ∈ (m.scheduler cur unrun n).queued, entry.id = id) ↔
      ¬ Uncleared (m.stateOf id) := by
  have hacc := h.accounted id
  simp only [Scheduler.queued, Scheduler.ready, scheduler_queue,
    scheduler_delayed, List.mem_append, List.mem_filter]
  constructor
  · rintro ⟨entry, (((⟨hmem, hl⟩ | ⟨hmem, hl⟩) | ⟨hmem, hl⟩) | ⟨hmem, hl⟩), rfl⟩
      hkept
    · exact hkept.1 ((h.live_ready hmem).mp hl)
    · exact hkept.1 ((h.live_ready hmem).mp hl)
    · exact hkept.1 ((h.live_ready hmem).mp hl)
    · exact hkept.2 ((h.live_delayed hmem).mp hl)
  · intro hqueued
    have hwaits : (m.scheduler cur unrun n).waits id := by
      rw [h.waits_iff]
      cases hst : m.stateOf id <;> first | rfl | exact absurd ⟨by rw [hst]; decide, by rw [hst]; decide⟩ hqueued
    simp only [Scheduler.waits, scheduler_queue, scheduler_delayed,
      scheduler_batch, List.any_eq_true, List.mem_append, List.mem_filter,
      decide_eq_true_eq] at hwaits
    obtain ⟨entry, hmem | ⟨hmem, hl⟩, rfl⟩ := hwaits
    · exact ⟨entry, hmem, rfl⟩
    · rw [(h.live_unrun hmem).mp hl] at hqueued
      exact absurd ⟨by decide, by decide⟩ hqueued

theorem Inv.scheduler_clearPending (h : m.Inv cur unrun owed) :
    m.clearPending.1.scheduler cur unrun n = (m.scheduler cur unrun n).clear := by
  obtain ⟨hready, hseq, hclosed⟩ := clearPending_frame m
  refine Scheduler.ext ?_ rfl ?_ ?_ rfl (Dropped.clearPending m).nextId hseq
    hclosed
  · funext priority
    rw [scheduler_queue, hready]
    rfl
  · refine List.filter_congr fun entry hmem => ?_
    have hacc := h.accounted entry.id
    have hpos := copies_pos hmem
    have hkept : Uncleared (m.stateOf entry.id) := by
      constructor
      all_goals
        intro hst
        rw [hst] at hacc
        have := hacc.2.2.2.2
        omega
    unfold live stateOf
    rw [clearPending_control hkept]
  · refine map_runningTask_congr fun entry hcur => clearPending_control ?_
    subst hcur
    rcases h.current_state with hst | hst
    all_goals
      rw [hst]
      exact ⟨by decide, by decide⟩

/-! ## A `cancel` cut in two -/

/-- An exchange that is won is a `cancel` that nothing has come between. -/
theorem Inv.cancel_of_won (h : m.Inv cur unrun owed) {id : Nat} {loaded : State}
    (hwon : (m.cancelLoaded id loaded).2 = true) :
    m.cancel id = m.cancelLoaded id loaded := by
  rcases m.cancelLoaded_spec id loaded with ⟨-, hw⟩ | ⟨hlost, -⟩
  · have hst : m.stateOf id = loaded := by
      unfold TaskManager.cancelLoaded at hwon
      cases loaded <;> dsimp only at hwon
      case cancelled | completed => cases hwon
      all_goals
        split_ifs at hwon
        assumption
    have hacc := h.accounted id
    have hne : m.stateOf id ≠ .completed := by
      intro hc
      rcases hw.live with hlive | hlive
      · rw [hc] at hlive
        cases hlive
      · rw [hc] at hlive
        cases hlive
    have hindex : id ∈ m.index := by
      rcases hw.live with hlive | hlive
      · cases hs : m.stateOf id <;> rw [hs] at hacc hlive <;>
          first | exact hacc.1 | cases hlive
      · rw [hlive] at hacc
        exact hacc.1
    unfold TaskManager.cancel
    rw [if_neg (h.ne_zero hne), if_pos hindex, hst]
  · rw [hlost] at hwon
    cases hwon

end TaskManager

/-! ## The refinement -/

namespace TaskSystem

variable {s s' : TaskSystem τ} {a : TaskAction τ}

/-- What a step adds to the log, and what it is to the scheduler. -/
def Follows (s : TaskSystem τ) (a : TaskAction τ) (s' : TaskSystem τ) : Prop :=
  ∃ obs, s'.log = obs ++ s.log ∧ Scheduler.Step s.scheduler a obs s'.scheduler

theorem Follows.of_eq {obs : List TaskObs} {r : Scheduler τ}
    (hlog : s'.log = obs ++ s.log) (hr : s'.scheduler = r)
    (h : Scheduler.Step s.scheduler a obs r) : Follows s a s' :=
  ⟨obs, hlog, hr ▸ h⟩

theorem stepFree_follows (hs : s.Reachable) (h : s.stepFree a = some s') :
    Follows s a s' := by
  have hinv : s.mgr.Inv s.phase.current s.phase.unrun s.phase.owed := hs.inv
  cases a <;> simp only [stepFree] at h <;> try contradiction
  case processStart =>
    split at h
    · next entry unrun hphase =>
        rw [hphase] at hinv
        have hstate := TaskManager.Inv.live_unrun hinv
          (show entry ∈ entry :: unrun from List.mem_cons_self)
        by_cases hst : s.mgr.stateOf entry.id = .readySnapshot
        · have hstart : s.mgr.start entry =
              some (s.mgr.setState entry.id .executing) := if_pos hst
          rw [hstart] at h
          cases h
          have hlive : (s.mgr.setState entry.id .executing).live = s.mgr.live :=
            live_setState (by rw [hst]; decide) (by decide)
          have hreq : (s.mgr.control entry.id).rescheduleRequested = false :=
            ((hs.logged entry.id).waiting
              (by change (s.mgr.stateOf entry.id).waiting = true; rw [hst]; rfl)).1
          have hscanning : s.scheduler =
              s.mgr.scheduler none (entry :: unrun) s.processed := by
            simp only [scheduler, hphase]
            rfl
          have hbatch : s.scheduler.batch = entry :: unrun.filter s.mgr.live := by
            rw [hscanning]
            exact List.filter_cons_of_pos (hstate.mpr hst)
          refine .of_eq (by rfl) ?_ (.start (by rw [hscanning]; rfl) hbatch)
          rw [hscanning]
          refine Scheduler.ext ?_ ?_ ?_ ?_ rfl rfl rfl rfl
          · show (fun priority => (s.mgr.ready priority).filter _) = _
            rw [hlive]
            rfl
          · show s.mgr.delayedHeap.filter _ = _
            rw [hlive]
            rfl
          · show unrun.filter _ = _
            rw [hlive]
            rfl
          · simp [scheduler, Scheduler.start, Phase.current, runningTask,
              control_setState, hreq]
        · have hstart : s.mgr.start entry = none := if_neg hst
          have hfilter : (entry :: unrun).filter s.mgr.live =
              unrun.filter s.mgr.live :=
            List.filter_cons_of_neg fun hl => hst (hstate.mp hl)
          rw [hstart] at h
          cases h
          refine .of_eq (by rfl) ?_ .skip
          simp only [scheduler, hphase]
          exact Scheduler.ext rfl rfl hfilter.symm rfl rfl rfl rfl rfl
    · cases h
  case processSettle =>
    split at h
    · next entry unrun hphase =>
        cases h
        refine .of_eq (by rfl) ?_ .settle
        simp only [scheduler, hphase]
        unfold settleStart
        split <;> rfl
    · cases h
  case exceptionHandled =>
    split at h
    · next unrun hphase =>
        cases h
        refine .of_eq (by rfl) ?_ .handled
        simp only [scheduler, hphase]
        rfl
    · cases h
  case processEnd =>
    split at h
    · next hphase =>
        cases h
        refine .of_eq (by rfl) ?_
          (.ended (by simp [scheduler, hphase, Phase.current])
            (by simp [scheduler, hphase, Phase.unrun]))
        simp only [scheduler, hphase]
        rfl
    · cases h

theorem stepExchange_follows (hs : s.Reachable) (h : s.stepExchange = some s') :
    Follows s .cancelExchange s' := by
  have hinv : s.mgr.Inv s.phase.current s.phase.unrun s.phase.owed := hs.inv
  unfold stepExchange at h
  split at h
  · next id loaded hc =>
      cases h
      rcases s.mgr.cancelLoaded_spec id loaded with ⟨hwon, -⟩ | ⟨hlost, hsame⟩
      · have hcancel := hinv.scheduler_cancel (n := s.processed) id
        rw [hinv.cancel_of_won hwon, Prod.ext_iff] at hcancel
        refine .of_eq ?_ hcancel.1 (.cancelled id (hcancel.2.symm.trans hwon))
        show TaskObs.cancelReturned id (s.mgr.cancelLoaded id loaded).2 :: s.log = _
        rw [hwon]
        rfl
      · have hwaits : s.scheduler.waits id = false := by
          refine Bool.eq_false_iff.mpr fun hwaits => ?_
          have hi := hs.loaded.lost hc hlost
          rw [TaskSystem.waits, (hinv.waits_iff id).mp hwaits] at hi
          cases hi
        refine .of_eq ?_ ?_ (.cancelLost id hwaits)
        · show TaskObs.cancelReturned id (s.mgr.cancelLoaded id loaded).2 :: s.log = _
          rw [hlost]
          rfl
        · show (s.mgr.cancelLoaded id loaded).1.scheduler _ _ _ = _
          rw [hsame]
          rfl
  · cases h

theorem stepLocked_follows (hs : s.Reachable) (h : s.stepLocked a = some s') :
    Follows s a s' := by
  have hinv : s.mgr.Inv s.phase.current s.phase.unrun s.phase.owed := hs.inv
  have hord := hs.heapOrdered
  cases a <;> simp only [stepLocked] at h <;> try contradiction
  case post task options =>
    cases h
    have heq := Prod.ext_iff.mp (hinv.scheduler_post (n := s.processed) task options)
    refine .of_eq ?_ heq.1 (.post task options)
    rw [scheduler, ← heq.2]
    rfl
  case postAt now due task options =>
    cases h
    have heq := Prod.ext_iff.mp
      (hinv.scheduler_postAt (n := s.processed) hord now due task options)
    refine .of_eq ?_ heq.1 (.postAt now due task options)
    rw [scheduler, ← heq.2]
    rfl
  case postEveryAfter now now' initialDelay interval task options =>
    cases h
    have heq := Prod.ext_iff.mp (hinv.scheduler_postEveryAfter (n := s.processed)
      hord now now' initialDelay interval task options)
    refine .of_eq ?_ heq.1
      (.postEveryAfter now now' initialDelay interval task options)
    rw [scheduler, ← heq.2]
    rfl
  case postBatch tasks options =>
    cases h
    have heq := Prod.ext_iff.mp
      (hinv.scheduler_postBatch (n := s.processed) tasks options)
    refine .of_eq ?_ heq.1 (.postBatch tasks options)
    rw [scheduler, ← heq.2]
    rfl
  case close =>
    cases h
    exact .of_eq (by rfl) rfl .close
  case cancelLoad id =>
    split at h
    · cases h
      exact .of_eq (by rfl) rfl (.cancelLoaded id)
    · next hno =>
        cases h
        have hmissed : (s.mgr.cancel id).2 = false := by
          unfold TaskManager.cancel
          split
          · rfl
          · next hzero => rw [if_neg fun hmem => hno ⟨hzero, hmem⟩]
        have hcancel := Prod.ext_iff.mp (hinv.scheduler_cancel (n := s.processed) id)
        exact .of_eq (by rfl) rfl (.cancelMissed id (hcancel.2.symm.trans hmissed))
  case contextCancel id =>
    cases h
    have heq := Prod.ext_iff.mp
      (hinv.scheduler_contextCancel (n := s.processed) id)
    refine .of_eq ?_ heq.1 (.contextCancel id)
    rw [scheduler, ← heq.2]
    rfl
  case contextReschedule id due =>
    cases h
    have heq := Prod.ext_iff.mp
      (hinv.scheduler_contextReschedule (n := s.processed) id due)
    refine .of_eq ?_ heq.1 (.contextReschedule id due)
    rw [scheduler, ← heq.2]
    rfl
  case clearPending =>
    cases h
    refine .of_eq (by rfl) hinv.scheduler_clearPending
      (.clear s.mgr.clearPending.2 fun id => ?_)
    rw [hinv.clearPending_ids]
    exact (hinv.mem_queued id).symm
  case nextDeadline =>
    cases h
    exact .of_eq (by rfl) (hinv.scheduler_nextDeadline (n := s.processed)).1
      .nextDeadline
  case processBegin now maxTasks =>
    split at h
    · next hphase =>
        rw [hphase] at hinv
        split at h
        · next hmax =>
            subst hmax
            cases h
            exact .of_eq (by rfl) rfl (.beginNothing now)
        · next hmax =>
            cases h
            have heq := TaskManager.Inv.scheduler_beginProcess
              (n := 0) hinv hord now maxTasks
            have hidle : s.scheduler =
                s.mgr.scheduler none [] s.processed := by
              simp only [scheduler, hphase]
              rfl
            refine .of_eq (by rfl) ?_
              (.begin now hmax (by rw [hidle]; rfl) (by rw [hidle]; rfl))
            rw [hidle]
            exact heq
    · cases h
  case callbackReturned now now' =>
    split at h
    · next entry unrun hphase =>
        cases h
        rw [hphase] at hinv
        have hcur : s.mgr.Inv (some entry) unrun 0 := hinv
        have hrunning : s.scheduler =
            s.mgr.scheduler (some entry) unrun s.processed := by
          simp only [scheduler, hphase]
          rfl
        have hfinish := hcur.scheduler_finishAfterSuccess
          (n := s.processed + 1) hord now now'
        have hended := finish_congr
          (s.mgr.scheduler (some entry) unrun s.processed) none
          (s.processed + 1) now now' (s.mgr.runningTask entry)
        have hcurrent : s.scheduler.current = some (s.mgr.runningTask entry) := by
          rw [hrunning]
          rfl
        refine .of_eq (by rfl) ?_ (.returned now now' hcurrent)
        rw [hrunning]
        exact hfinish.trans hended
    · cases h
  case callbackThrew =>
    split at h
    · next entry unrun hphase =>
        cases h
        rw [hphase] at hinv
        have hcur : s.mgr.Inv (some entry) unrun 0 := hinv
        have hrunning : s.scheduler =
            s.mgr.scheduler (some entry) unrun s.processed := by
          simp only [scheduler, hphase]
          rfl
        have hcurrent : s.scheduler.current = some (s.mgr.runningTask entry) := by
          rw [hrunning]
          rfl
        refine .of_eq (by rfl) ?_ (.threw hcurrent)
        rw [hrunning]
        exact hcur.scheduler_finishAfterException
    · cases h
  case exceptionEscaped =>
    split at h
    · next unrun hphase =>
        cases h
        rw [hphase] at hinv
        have hcur : s.mgr.Inv none unrun 0 := hinv
        have hreporting : s.scheduler =
            s.mgr.scheduler none unrun s.processed := by
          simp only [scheduler, hphase]
          rfl
        refine .of_eq (by rfl) ?_ (.escaped (by rw [hreporting]; rfl))
        rw [hreporting]
        exact hcur.scheduler_restoreUnrun
    · cases h

/-- Every step of the manager is a step of the scheduler. -/
theorem Reachable.follows (hs : s.Reachable) (h : s.step a = some s') :
    Follows s a s' := by
  unfold TaskSystem.step at h
  split at h
  · exact stepFree_follows hs h
  · exact stepFree_follows hs h
  · exact stepFree_follows hs h
  · exact stepFree_follows hs h
  · exact stepExchange_follows hs h
  · split at h
    · exact stepLocked_follows hs h
    · cases h

end TaskSystem

end EventHub
