import EventHub.Clock.Milliseconds
import EventHub.Proofs.TaskInvariantOps

/-!
# Deadlines in milliseconds are kept while nothing overflows

A conversion is exact for as many milliseconds as `Duration` can hold, and the
functions then compute what their models on the integers do. That is also when
their deadlines are kept.
-/

namespace EventHub

open Arith

variable {τ : Type} {ms : Int64}

theorem exact_castMs : (castMs ms).exact ↔ ms.toInt.natAbs ≤ MillisCall.maxMs := by
  have hmillion : (1000000 : Int64).toInt = 1000000 := by decide
  rw [castMs, exact_mul, hmillion, MillisCall.maxMs, Fits]
  omega

theorem value_castMs (h : (castMs ms).exact) : (castMs ms).value.toInt = nanos ms :=
  value_mul h

theorem zero_lt_iff {a : Int64} : 0 < a ↔ 0 < a.toInt := by
  rw [Int64.lt_iff_toInt_lt, Int64.toInt_zero]

theorem nanos_pos : 0 < nanos ms ↔ 0 < ms := by
  rw [zero_lt_iff, nanos]
  omega

theorem pos_castMs (h : (castMs ms).exact) : 0 < (castMs ms).value ↔ 0 < ms := by
  rw [zero_lt_iff, value_castMs h, nanos_pos]

namespace TaskManager

variable {m : TaskManager τ} {id : Nat} {now since due : Int}

/-- The promotion leaves out what is not due. -/
theorem stateOf_promoteLoop {heap : List (Entry τ)}
    (h : ∀ e ∈ heap, e.id = id → now < e.due) (m : TaskManager τ) :
    (promoteLoop now heap m).stateOf id = m.stateOf id := by
  induction heap generalizing m with
  | nil => rfl
  | cons entry heap ih =>
      have hrest := fun e he => h e (List.mem_cons_of_mem _ he)
      unfold promoteLoop
      split
      · exact ih hrest m
      · split
        · next hdue =>
            have hne : id ≠ entry.id := fun heq =>
              Int.not_le.mpr (h entry List.mem_cons_self heq.symm) hdue
            rw [ih hrest, promoteEntry]
            split
            · simp [hne]
            · rfl
        · rfl

theorem stateOf_promoteDueLocked
    (h : ∀ e ∈ m.delayedHeap, e.id = id → now < e.due) :
    (m.promoteDueLocked now).stateOf id = m.stateOf id :=
  stateOf_promoteLoop h m

variable {cur : Option (Entry τ)} {unrun : List (Entry τ)} {owed : Int}

/-- No task was queued. -/
theorem Inv.notReadyBefore_zero (h : m.Inv cur unrun owed) :
    NotReadyBefore (m, 0) since due := by
  intro t _ _
  have hne : ∀ e ∈ m.delayedHeap, e.id ≠ 0 := fun e he heq =>
    h.held (.inr (.inl he)) (heq ▸ h.zero)
  rw [stateOf_promoteDueLocked fun e he heq => absurd heq (hne e he), h.zero]
  decide

/-- A task was queued with the next id and this deadline. -/
theorem Inv.notReadyBefore_delayed (h : m.Inv cur unrun owed)
    {m' : TaskManager τ} {entry : Entry τ}
    (hheap : m'.delayedHeap = pushHeap m.delayedHeap entry) (hdue : entry.due = due)
    (hstate : m'.stateOf m.freshId = .queuedDelayed) :
    NotReadyBefore (m', m.freshId) since due := by
  intro t _ ht
  rw [stateOf_promoteDueLocked, hstate]
  · decide
  · intro e he hid
    rw [hheap] at he
    rcases (List.mem_orderedInsert _).mp he with rfl | hold
    · rw [hdue]
      exact ht
    · -- the next id has no entry yet
      refine absurd (h.fresh e.id ?_) (h.held (.inr (.inl hold)))
      rw [hid, h.freshId]

theorem Inv.notReadyBefore_postAt (h : m.Inv cur unrun owed) (task : τ)
    (options : TaskOptions) :
    NotReadyBefore (m.postAt since due (some task) options) since due := by
  unfold TaskManager.postAt
  dsimp only
  split
  · exact h.notReadyBefore_zero
  · split
    · next hdue => exact fun t hge hlt => absurd (hge.trans_lt hlt) (Int.not_lt.mpr hdue)
    · refine h.notReadyBefore_delayed (by rfl) rfl ?_
      simp

theorem Inv.notReadyBefore_enqueuePeriodicLocked (h : m.Inv cur unrun owed)
    (interval : Int) (task : τ) (options : PeriodicTaskOptions) :
    NotReadyBefore (m.enqueuePeriodicLocked since due interval task options) since
      due := by
  unfold TaskManager.enqueuePeriodicLocked
  dsimp only
  split
  · next hdue => exact fun t hge hlt => absurd (hge.trans_lt hlt) (Int.not_lt.mpr hdue)
  · refine h.notReadyBefore_delayed (by rfl) rfl ?_
    simp

theorem Inv.notReadyBefore_postEveryAfter (h : m.Inv cur unrun owed)
    {initialDelay interval : Int} (hdelay : 0 < initialDelay)
    (hfits : 0 < interval → Fits (now + initialDelay)) (task : τ)
    (options : PeriodicTaskOptions) :
    NotReadyBefore
      (m.postEveryAfter now since initialDelay interval (some task) options) since
      (now + initialDelay) := by
  unfold TaskManager.postEveryAfter
  dsimp only
  rw [if_neg (Int.not_le.mpr hdelay)]
  split
  · exact h.notReadyBefore_zero
  · next hinterval =>
      rw [timeAfter_of_fits (hfits (Int.not_le.mp hinterval))]
      split
      · exact h.notReadyBefore_zero
      · exact h.notReadyBefore_enqueuePeriodicLocked interval task options

/-- The entry of the series is in its ready queue or in the heap. -/
theorem exists_enqueuePeriodicLocked (m : TaskManager τ) (interval : Int) (task : τ)
    (options : PeriodicTaskOptions) :
    ∃ entry,
      (entry ∈ (m.enqueuePeriodicLocked now due interval task options).1.ready
          entry.priority ∨
        entry ∈ (m.enqueuePeriodicLocked now due interval task options).1.delayedHeap) ∧
      entry.id = (m.enqueuePeriodicLocked now due interval task options).2 ∧
      interval ≤ entry.interval := by
  unfold TaskManager.enqueuePeriodicLocked
  refine ⟨{ id := m.freshId, seq := m.nextSeq, priority := options.priority,
            due := due, periodic := true, interval := interval,
            periodicSchedule := options.schedule, plannedDue := due,
            task := task }, ?_⟩
  dsimp only
  split
  · exact ⟨.inl (by simp), rfl, Int.le_refl _⟩
  · exact ⟨.inr ((List.mem_orderedInsert _).mpr (.inl rfl)), rfl, Int.le_refl _⟩

theorem enqueuePeriodicLocked_snd (m : TaskManager τ) (interval : Int) (task : τ)
    (options : PeriodicTaskOptions) :
    (m.enqueuePeriodicLocked now due interval task options).2 = m.freshId := by
  unfold TaskManager.enqueuePeriodicLocked
  dsimp only
  split <;> rfl

theorem Inv.acceptedWith_postEveryAfter (h : m.Inv cur unrun owed)
    {initialDelay interval : Int} (hinterval : 0 < interval) (task : τ)
    (options : PeriodicTaskOptions) :
    AcceptedWith m
      (m.postEveryAfter now since initialDelay interval (some task) options)
      interval := by
  intro hopen
  unfold TaskManager.postEveryAfter
  dsimp only
  rw [if_neg (Int.not_le.mpr hinterval), hopen, if_neg Bool.false_ne_true]
  refine ⟨?_, m.exists_enqueuePeriodicLocked interval task options⟩
  rw [enqueuePeriodicLocked_snd, h.freshId]
  exact Nat.ne_of_gt h.positive

/-! ## What is computed when nothing overflows -/

variable {task : Option τ} {system now now' : Int64}

theorem exact_postAfterMs {delayMs : Int64} {options : TaskOptions} :
    (m.postAfterMs now now' delayMs task options).exact ↔
      delayMs.toInt.natAbs ≤ MillisCall.maxMs ∧ Fits (now.toInt + nanos delayMs) := by
  simp only [postAfterMs, exact_bind, exact_pure, Bool.and_true, Bool.and_eq_true]
  rw [exact_castMs]
  refine and_congr_right fun h => ?_
  rw [exact_add, value_castMs (exact_castMs.mpr h)]

/-- `post_after_ms` is `post_after`. -/
theorem value_postAfterMs {delayMs : Int64} {options : TaskOptions}
    (h : (m.postAfterMs now now' delayMs task options).exact) :
    (m.postAfterMs now now' delayMs task options).value =
      m.postAfter now.toInt now'.toInt (nanos delayMs) task options := by
  simp only [postAfterMs, exact_bind, exact_pure, Bool.and_true,
    Bool.and_eq_true] at h
  simp only [postAfterMs, value_bind, value_pure, postAfter, timeAfter]
  rw [value_add_eq_wrap, value_castMs h.1]

section Periodic

variable {initialDelay interval : Arith Int64} {task : τ}
  {options : PeriodicTaskOptions}

theorem exact_postEveryAfterCast :
    (m.postEveryAfterCast now now' initialDelay interval (some task) options).exact ↔
      interval.exact ∧ (0 < interval.value → initialDelay.exact ∧
        (0 < initialDelay.value → (add now initialDelay.value).exact)) := by
  simp only [postEveryAfterCast, exact_bind, Bool.and_eq_true]
  refine and_congr_right fun _ => ?_
  by_cases hperiod : 0 < interval.value
  · rw [if_neg (Int64.not_le.mpr hperiod)]
    simp only [exact_bind, Bool.and_eq_true, hperiod, forall_const]
    refine and_congr_right fun _ => ?_
    by_cases hdelay : 0 < initialDelay.value
    · rw [if_neg (Int64.not_le.mpr hdelay)]
      simp only [hdelay, forall_const, exact_bind, Bool.and_eq_true]
      refine and_iff_left ?_
      split <;> rfl
    · rw [if_pos (Int64.not_lt.mp hdelay)]
      simp only [hdelay, false_imp_iff, iff_true]
      change Arith.exact (if m.closed then _ else _) = true
      split <;> rfl
  · rw [if_pos (Int64.not_lt.mp hperiod)]
    simp [hperiod]

/-- `post_every_after` is the one on the integers. -/
theorem value_postEveryAfterCast
    (h : (m.postEveryAfterCast now now' initialDelay interval (some task)
      options).exact) :
    (m.postEveryAfterCast now now' initialDelay interval (some task) options).value =
      m.postEveryAfter now.toInt now'.toInt initialDelay.value.toInt
        interval.value.toInt (some task) options := by
  obtain ⟨-, h⟩ := exact_postEveryAfterCast.mp h
  simp only [postEveryAfterCast, postEveryAfter, value_bind]
  by_cases hperiod : 0 < interval.value
  · rw [if_neg (Int64.not_le.mpr hperiod),
      if_neg (Int.not_le.mpr (zero_lt_iff.mp hperiod))]
    simp only [value_bind]
    by_cases hdelay : 0 < initialDelay.value
    · rw [if_neg (Int64.not_le.mpr hdelay),
        if_neg (Int.not_le.mpr (zero_lt_iff.mp hdelay)), timeAfter,
        ← value_add_eq_wrap]
      split <;> rfl
    · rw [if_pos (Int64.not_lt.mp hdelay),
        if_pos (Int.not_lt.mp fun hpos => hdelay (zero_lt_iff.mpr hpos))]
      split <;> rfl
  · rw [if_pos (Int64.not_lt.mp hperiod),
      if_pos (Int.not_lt.mp fun hpos => hperiod (zero_lt_iff.mpr hpos))]
    rfl

theorem exact_postEveryMs {intervalMs : Int64} :
    (m.postEveryMs now now' intervalMs (some task) options).exact ↔
      intervalMs.toInt.natAbs ≤ MillisCall.maxMs := by
  rw [postEveryMs, exact_postEveryAfterCast, exact_castMs]
  refine and_iff_left fun _ => ⟨rfl, fun hpos => ?_⟩
  exact absurd hpos (by decide)

/-- `post_every_ms` is `post_every`. -/
theorem value_postEveryMs {intervalMs : Int64}
    (h : (m.postEveryMs now now' intervalMs (some task) options).exact) :
    (m.postEveryMs now now' intervalMs (some task) options).value =
      m.postEvery now.toInt now'.toInt (nanos intervalMs) (some task) options := by
  have hcast := exact_castMs.mpr (exact_postEveryMs.mp h)
  rw [postEveryMs, value_postEveryAfterCast h, value_castMs hcast]
  rfl

theorem exact_postEveryAfterMs {initialDelayMs intervalMs : Int64} :
    (m.postEveryAfterMs now now' initialDelayMs intervalMs (some task)
      options).exact ↔
      intervalMs.toInt.natAbs ≤ MillisCall.maxMs ∧
        (0 < intervalMs → initialDelayMs.toInt.natAbs ≤ MillisCall.maxMs ∧
          (0 < initialDelayMs → Fits (now.toInt + nanos initialDelayMs))) := by
  rw [postEveryAfterMs, exact_postEveryAfterCast, exact_castMs]
  refine and_congr_right fun hperiod => ?_
  rw [pos_castMs (exact_castMs.mpr hperiod), exact_castMs]
  refine imp_congr_right fun _ => and_congr_right fun hdelay => ?_
  rw [pos_castMs (exact_castMs.mpr hdelay), exact_add,
    value_castMs (exact_castMs.mpr hdelay)]

/-- The initial delay is of no account when the interval is rejected. -/
theorem value_postEveryAfterMs {initialDelayMs intervalMs : Int64}
    (h : (m.postEveryAfterMs now now' initialDelayMs intervalMs (some task)
      options).exact) :
    (m.postEveryAfterMs now now' initialDelayMs intervalMs (some task)
      options).value =
      m.postEveryAfter now.toInt now'.toInt (nanos initialDelayMs)
        (nanos intervalMs) (some task) options := by
  obtain ⟨hperiod, hdelay⟩ := exact_postEveryAfterMs.mp h
  have hcast := value_castMs (exact_castMs.mpr hperiod)
  rw [postEveryAfterMs, value_postEveryAfterCast h, hcast]
  by_cases hpos : 0 < intervalMs
  · rw [value_castMs (exact_castMs.mpr (hdelay hpos).1)]
  · have hle : nanos intervalMs ≤ 0 :=
      Int.not_lt.mp fun hlt => hpos (nanos_pos.mp hlt)
    simp only [postEveryAfter, if_pos hle]

end Periodic

theorem exact_addTaskAtSystemMs {unixTimeMs : Int64} {options : TaskOptions} :
    (m.addTaskAtSystemMs system now now' unixTimeMs task options).exact ↔
      unixTimeMs.toInt.natAbs ≤ MillisCall.maxMs ∧
        Fits (nanos unixTimeMs - system.toInt) ∧
        Fits (now.toInt + (nanos unixTimeMs - system.toInt)) := by
  simp only [addTaskAtSystemMs, exact_bind, exact_pure, Bool.and_true,
    Bool.and_eq_true]
  rw [exact_castMs]
  refine and_congr_right fun hcast => ?_
  have hvalue := value_castMs (exact_castMs.mpr hcast)
  rw [exact_sub, hvalue]
  refine and_congr_right fun hsub => ?_
  rw [exact_add, value_sub (exact_sub.mpr (by rwa [hvalue])), hvalue]

theorem value_addTaskAtSystemMs {unixTimeMs : Int64} {options : TaskOptions}
    (h : (m.addTaskAtSystemMs system now now' unixTimeMs task options).exact) :
    (m.addTaskAtSystemMs system now now' unixTimeMs task options).value =
      m.postAt now'.toInt (now.toInt + (nanos unixTimeMs - system.toInt)) task
        options := by
  simp only [addTaskAtSystemMs, exact_bind, exact_pure, Bool.and_true,
    Bool.and_eq_true] at h
  simp only [addTaskAtSystemMs, value_bind, value_pure]
  rw [value_add h.2.2, value_sub h.2.1, value_castMs h.1]

end TaskManager

section Awaiter

/-- `awaiterDeadline` from the converted timeout on. Nothing is to be computed
with a conversion, whose factor is a large one. -/
def deadlineCast (now : Int64) (timeout : Arith Int64) : Arith (Option Int64) := do
  let timeout ← timeout
  if 0 < timeout then
    let deadline ← Arith.add now timeout
    return some deadline
  else
    return none

variable {now timeoutMs : Int64} {timeout : Arith Int64}

theorem awaiterDeadline_eq :
    awaiterDeadline now timeoutMs = deadlineCast now (castMs timeoutMs) := by
  unfold awaiterDeadline deadlineCast
  rfl

theorem exact_deadlineCast : (deadlineCast now timeout).exact ↔
    timeout.exact ∧ (0 < timeout.value → (add now timeout.value).exact) := by
  rw [deadlineCast, exact_bind, Bool.and_eq_true]
  refine and_congr_right fun _ => ?_
  split
  · next hpos => simp [hpos]
  · next hneg => simp [hneg]

theorem value_deadlineCast_of_pos (h : 0 < timeout.value) :
    (deadlineCast now timeout).value = some (add now timeout.value).value := by
  rw [deadlineCast, value_bind, if_pos h]
  rfl

theorem exact_awaiterDeadline : (awaiterDeadline now timeoutMs).exact ↔
    timeoutMs.toInt.natAbs ≤ MillisCall.maxMs ∧
      (0 < timeoutMs → Fits (now.toInt + nanos timeoutMs)) := by
  rw [awaiterDeadline_eq, exact_deadlineCast, exact_castMs]
  refine and_congr_right fun hcast => ?_
  have hexact := exact_castMs.mpr hcast
  rw [pos_castMs hexact, exact_add, value_castMs hexact]

/-- An awaiter with a timeout has the deadline that lies so far ahead. -/
theorem value_awaiterDeadline (h : (awaiterDeadline now timeoutMs).exact)
    (hpos : 0 < timeoutMs) : ∃ deadline ∈ (awaiterDeadline now timeoutMs).value,
      deadline.toInt = now.toInt + nanos timeoutMs := by
  obtain ⟨hcast, hfits⟩ := exact_awaiterDeadline.mp h
  have hexact := exact_castMs.mpr hcast
  refine ⟨(add now (castMs timeoutMs).value).value, ?_, ?_⟩
  · rw [awaiterDeadline_eq]
    exact value_deadlineCast_of_pos ((pos_castMs hexact).mpr hpos)
  · rw [value_add (exact_add.mpr ?_), value_castMs hexact]
    rw [value_castMs hexact]
    exact hfits hpos

end Awaiter

open TaskManager in
/-- Calls that are given milliseconds keep their deadlines if and only if the
numbers are in range. -/
theorem TaskSystem.Reachable.millisKept_iff {s : TaskSystem τ} (hs : s.Reachable)
    (task : τ) (rd : MillisReadings) (call : MillisCall) :
    call.Kept s.mgr task rd ↔ call.InRange rd := by
  have hinv : s.mgr.Inv s.phase.current s.phase.unrun s.phase.owed := hs.inv
  cases call with
  | postAfterMs delayMs options =>
      rw [MillisCall.Kept, MillisCall.InRange, ← exact_postAfterMs]
      refine and_iff_left_of_imp fun hexact _ => ?_
      rw [value_postAfterMs hexact, postAfter,
        timeAfter_of_fits (exact_postAfterMs.mp hexact).2]
      exact hinv.notReadyBefore_postAt task options
  | postEveryMs intervalMs options =>
      rw [MillisCall.Kept, MillisCall.InRange]
      refine (and_iff_left_of_imp fun hexact hpos => ?_).trans exact_postEveryMs
      rw [value_postEveryMs hexact]
      exact hinv.acceptedWith_postEveryAfter (nanos_pos.mpr hpos) task options
  | postEveryAfterMs initialDelayMs intervalMs options =>
      rw [MillisCall.Kept, MillisCall.InRange]
      refine (and_iff_left_of_imp fun hexact => ?_).trans exact_postEveryAfterMs
      rw [value_postEveryAfterMs hexact]
      refine ⟨fun hpos => ?_, fun hpos => ?_⟩
      · refine hinv.notReadyBefore_postEveryAfter (nanos_pos.mpr hpos)
          (fun hinterval => ?_) task options
        exact ((exact_postEveryAfterMs.mp hexact).2 (nanos_pos.mp hinterval)).2 hpos
      · exact hinv.acceptedWith_postEveryAfter (nanos_pos.mpr hpos) task options
  | addTaskAtSystemMs unixTimeMs options =>
      rw [MillisCall.Kept, MillisCall.InRange, ← exact_addTaskAtSystemMs]
      refine and_iff_left_of_imp fun hexact => ?_
      rw [value_addTaskAtSystemMs hexact]
      exact hinv.notReadyBefore_postAt task options
  | setTimeoutMs timeoutMs =>
      rw [MillisCall.Kept, MillisCall.InRange, ← exact_awaiterDeadline]
      refine and_iff_left_of_imp fun hexact hpos => ?_
      obtain ⟨deadline, hmem, heq⟩ := value_awaiterDeadline hexact hpos
      exact ⟨deadline, hmem, heq.ge⟩

/-- An hour. -/
theorem millisKept_hour :
    (MillisCall.postAfterMs 3600000 {}).Kept ({} : TaskSystem Unit).mgr ()
      { now := 7, now' := 9 } :=
  (TaskSystem.Reachable.millisKept_iff (Lts.Reachable.refl _) () _ _).mpr
    ⟨by decide, by decide⟩

/-- The greatest number of milliseconds is a millisecond ago: the task is ready
at once. -/
theorem millisKept_fails :
    ¬ (MillisCall.postAfterMs 9223372036854775807 {}).Kept
      ({} : TaskSystem Unit).mgr () {} :=
  fun h => h.2 (by decide) 0 (by decide) (by decide) (by decide)

end EventHub
