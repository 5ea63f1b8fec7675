import Mathlib.Data.List.Chain
import EventHub.Task.Timed
import EventHub.Proofs.SchedulerMoves
import EventHub.Proofs.TaskContexts
import EventHub.Proofs.TaskRestore

/-!
# The timing of periodic tasks

The deadline of a series is in its one entry, and the entry of an undisturbed
series is moved by four steps only. The invariant `OnSchedule` says what each of
them finds: while the entry waits, its deadline is the one the cycles so far
lead to, and where it can be started from, that deadline has passed. A cycle
that starts is then on time, and the next deadline is computed from it.
-/

namespace EventHub

variable {τ : Type} {p : Series} {id calls calls' : Nat} {clock clock' : Int}
  {cs : List Cycle}

/-! ## The cycles of a series -/

/-- What holds of the cycles of a series, newest first. -/
structure Series.Kept (p : Series) (cs : List Cycle) (calls : Nat) : Prop where
  called : ∀ c ∈ cs, c.call ≤ calls
  planned : p.schedule = .fixedRate → ∀ c rest, c :: rest <:+ cs →
    c.planned = p.firstDue + rest.length * p.interval
  began : ∀ c ∈ cs, c.planned ≤ c.began
  spaced : p.schedule = .fixedDelay → cs.IsChain fun later earlier =>
    ∃ ended, earlier.ended = some ended ∧ ended + p.interval ≤ later.began
  once : cs.Pairwise fun later earlier => earlier.call < later.call

theorem Series.Kept.mono (h : p.Kept cs calls) (hle : calls ≤ calls') :
    p.Kept cs calls' :=
  { h with called := fun c hc => (h.called c hc).trans hle }

theorem Series.Kept.nil : p.Kept [] calls where
  called := List.forall_mem_nil _
  planned _ _ _ h := absurd (List.suffix_nil.mp h) (List.cons_ne_nil _ _)
  began := List.forall_mem_nil _
  spaced _ := List.IsChain.nil
  once := List.Pairwise.nil

/-- A cycle begins for the deadline the earlier ones lead to, once that has
passed, and in a later call than they did. -/
theorem Series.Kept.begin (h : p.Kept cs calls) {due : Int}
    (hdue : p.nextDue cs = some due) (hripe : due ≤ clock)
    (hfresh : ∀ c ∈ cs, c.call < calls) :
    p.Kept ({ planned := due, began := clock, call := calls } :: cs) calls where
  called := List.forall_mem_cons.mpr ⟨Nat.le_refl _, h.called⟩
  planned hrate c rest hsuffix := by
    rcases List.suffix_cons_iff.mp hsuffix with heq | hsuffix
    · cases heq
      simp only [Series.nextDue, hrate, Option.some.injEq] at hdue
      exact hdue.symm
    · exact h.planned hrate c rest hsuffix
  began := List.forall_mem_cons.mpr ⟨hripe, h.began⟩
  spaced hdelay := by
    refine List.isChain_cons.mpr ⟨fun c hc => ?_, h.spaced hdelay⟩
    cases cs with
    | nil => cases hc
    | cons c' rest =>
        cases hc
        simp only [Series.nextDue, hdelay, Option.map_eq_some_iff] at hdue
        obtain ⟨ended, hended, rfl⟩ := hdue
        exact ⟨ended, hended, hripe⟩
  once := List.pairwise_cons.mpr ⟨hfresh, h.once⟩

/-- The newest cycle ends. -/
theorem Series.Kept.end {c : Cycle} (h : p.Kept (c :: cs) calls) (now : Int) :
    p.Kept ({ c with ended := some now } :: cs) calls where
  called := List.forall_mem_cons.mpr (List.forall_mem_cons.mp h.called)
  planned hrate c' rest hsuffix := by
    rcases List.suffix_cons_iff.mp hsuffix with heq | hsuffix
    · cases heq
      exact h.planned hrate c cs List.suffix_rfl
    · exact h.planned hrate c' rest (hsuffix.trans (List.suffix_cons _ _))
  began := List.forall_mem_cons.mpr (List.forall_mem_cons.mp h.began)
  spaced hdelay := List.isChain_cons.mpr (List.isChain_cons.mp (h.spaced hdelay))
  once := List.pairwise_cons.mpr (List.pairwise_cons.mp h.once)

theorem nextPeriodicDue_of_fits {e : Entry τ} {now : Int}
    (hfits : Arith.Fits (e.periodStart now + e.interval)) :
    TaskManager.nextPeriodicDue e now = e.periodStart now + e.interval := by
  unfold TaskManager.nextPeriodicDue Entry.periodStart at *
  cases hschedule : e.periodicSchedule <;> rw [hschedule] at hfits
  · exact Arith.wrap_of_fits hfits
  · exact Arith.wrap_of_fits hfits

/-- The next deadline once the newest cycle has ended. -/
theorem Series.Kept.nextDue {c : Cycle} (h : p.Kept (c :: cs) calls)
    {e : Entry τ} (hplanned : c.planned = e.plannedDue)
    (hinterval : e.interval = p.interval)
    (hschedule : e.periodicSchedule = p.schedule) {now : Int}
    (hfits : Arith.Fits (e.periodStart now + e.interval)) :
    p.nextDue ({ c with ended := some now } :: cs) =
      some (TaskManager.nextPeriodicDue e now) := by
  rw [nextPeriodicDue_of_fits hfits]
  unfold Series.nextDue Entry.periodStart
  rw [hschedule, hinterval, ← hplanned]
  cases hsched : p.schedule with
  | fixedRate =>
      have hfirst := h.planned hsched c cs List.suffix_rfl
      simp only [hfirst, List.length_cons, Option.some.injEq]
      rw [Int.natCast_add, Int.add_mul, Int.natCast_one, Int.one_mul, Int.add_assoc]
  | fixedDelay => rfl

/-! ## The invariant -/

/-- The entry of the series is where it should be, with the deadline it should
have. -/
structure OnSchedule (r : Scheduler τ) (p : Series) (id : Nat) (cs : List Cycle)
    (clock : Int) (calls : Nat) : Prop where
  lives : ∃ e ∈ r.all, e.id = id
  shape : ∀ e ∈ r.all, e.id = id → e.periodic = true ∧
    e.interval = p.interval ∧ e.periodicSchedule = p.schedule
  waits : ∀ e, e ∈ r.ready ∨ e ∈ r.delayed ∨ e ∈ r.batch → e.id = id →
    e.plannedDue = e.due ∧ p.nextDue cs = some e.due
  ripe : ∀ e, e ∈ r.ready ∨ e ∈ r.batch → e.id = id → e.due ≤ clock
  stacked : ∀ e ∈ r.stacked, e.id = id →
    ∃ c rest, cs = c :: rest ∧ c.planned = e.plannedDue
  fresh : ∀ e ∈ r.batch, e.id = id → ∀ c ∈ cs, c.call < calls
  kept : p.Kept cs calls

section OnSchedule

open Scheduler

variable {r r' : Scheduler τ}

theorem OnSchedule.same (h : OnSchedule r p id cs clock calls)
    (hs : Same id r r') (hclock : clock ≤ clock') (hcalls : calls ≤ calls') :
    OnSchedule r' p id cs clock' calls' where
  lives := by
    obtain ⟨e, he, hid⟩ := h.lives
    exact ⟨e, (hs.all hid).mpr he, hid⟩
  shape e he hid := h.shape e ((hs.all hid).mp he) hid
  waits e he hid := by
    rw [hs.ready e hid, hs.delayed e hid, hs.batch e hid] at he
    exact h.waits e he hid
  ripe e he hid := by
    rw [hs.ready e hid, hs.batch e hid] at he
    exact (h.ripe e he hid).trans hclock
  stacked e he hid := h.stacked e ((hs.stacked e hid).mp he) hid
  fresh e he hid c hc :=
    Nat.lt_of_lt_of_le (h.fresh e ((hs.batch e hid).mp he) hid c hc) hcalls
  kept := h.kept.mono hcalls

theorem mem_ready_promote {now : Int} {e : Entry τ} :
    e ∈ (r.promote now).ready ↔ e ∈ r.ready ∨ e ∈ r.delayed ∧ e.due ≤ now := by
  rw [mem_ready_iff, mem_ready_iff]
  simp only [promote, List.mem_append, List.mem_filter, decide_eq_true_eq]
  constructor
  · rintro ⟨priority, h | ⟨h, -⟩⟩
    · exact .inl ⟨priority, h⟩
    · exact .inr h
  · rintro (⟨priority, h⟩ | h)
    · exact ⟨priority, .inl h⟩
    · exact ⟨e.priority, .inr ⟨h, rfl⟩⟩

theorem ready_take (r : Scheduler τ) (maxTasks : Nat) :
    (r.take maxTasks).ready = r.ready.drop maxTasks := by
  simp only [Scheduler.ready, Scheduler.take, List.drop_append, List.length_append,
    Nat.sub_sub]

theorem mem_take {maxTasks : Nat} {e : Entry τ} :
    e ∈ (r.take maxTasks).batch ∨ e ∈ (r.take maxTasks).ready ↔ e ∈ r.ready := by
  rw [ready_take]
  show e ∈ r.ready.take maxTasks ∨ _ ↔ _
  rw [← List.mem_append, List.take_append_drop]

/-- A call of `process()` begins. -/
theorem OnSchedule.begin (h : OnSchedule r p id cs clock calls)
    (hcurrent : r.current = none) (hbatch : r.batch = []) {now : Int}
    (hclock : clock ≤ now) (maxTasks : Nat) :
    OnSchedule { (r.promote now).take maxTasks with processed := 0 } p id cs now
      (calls + 1) := by
  have hmem : ∀ e : Entry τ, e ∈ ((r.promote now).take maxTasks).batch ∨
      e ∈ ((r.promote now).take maxTasks).ready ↔
        e ∈ r.ready ∨ e ∈ r.delayed ∧ e.due ≤ now :=
    fun e => mem_take.trans mem_ready_promote
  have hdelayed : ∀ e : Entry τ, e ∈ ((r.promote now).take maxTasks).delayed ↔
      e ∈ r.delayed ∧ now < e.due := by
    intro e
    show e ∈ r.delayed.filter (fun entry => now < entry.due) ↔ _
    rw [List.mem_filter, decide_eq_true_eq]
  have hold : ∀ e : Entry τ, e ∈ ((r.promote now).take maxTasks).ready ∨
      e ∈ ((r.promote now).take maxTasks).delayed ∨
      e ∈ ((r.promote now).take maxTasks).batch →
        e ∈ r.ready ∨ e ∈ r.delayed := by
    rintro e (he | he | he)
    · exact ((hmem e).mp (.inr he)).imp_right And.left
    · exact .inr ((hdelayed e).mp he).1
    · exact ((hmem e).mp (.inl he)).imp_right And.left
  have hstacked : ∀ e : Entry τ, e ∉ ({ (r.promote now).take maxTasks with
      processed := 0 } : Scheduler τ).stacked := by
    intro e
    simp [Scheduler.stacked, promote, Scheduler.take, hcurrent]
  constructor
  · obtain ⟨e, he, hid⟩ := h.lives
    refine ⟨e, mem_all_iff.mpr ?_, hid⟩
    rcases mem_all_iff.mp he with he | he | he | he
    · rcases (hmem e).mpr (.inl he) with he | he
      · exact .inr (.inr (.inl he))
      · exact .inl he
    · by_cases hdue : e.due ≤ now
      · rcases (hmem e).mpr (.inr ⟨he, hdue⟩) with he | he
        · exact .inr (.inr (.inl he))
        · exact .inl he
      · exact .inr (.inl ((hdelayed e).mpr ⟨he, Int.not_le.mp hdue⟩))
    · rw [hbatch] at he
      cases he
    · simp [Scheduler.stacked, hcurrent] at he
  · intro e he hid
    refine h.shape e (mem_all_iff.mpr ?_) hid
    rcases mem_all_iff.mp he with he | he | he | he
    · exact (hold e (.inl he)).imp_right .inl
    · exact (hold e (.inr (.inl he))).imp_right .inl
    · exact (hold e (.inr (.inr he))).imp_right .inl
    · exact absurd he (hstacked e)
  · exact fun e he hid => h.waits e ((hold e he).imp_right .inl) hid
  · intro e he hid
    rcases (hmem e).mp he.symm with he | ⟨-, hdue⟩
    · exact (h.ripe e (.inl he) hid).trans hclock
    · exact hdue
  · exact fun e he => absurd he (hstacked e)
  · exact fun e _ _ c hc => Nat.lt_succ_of_le (h.kept.called c hc)
  · exact h.kept.mono (Nat.le_succ _)

/-- The entry taken out of a batch was the only one of its task. -/
theorem ne_first (hnodup : (r.all.map Entry.id).Nodup) {first : Entry τ}
    {batch : List (Entry τ)} (hbatch : r.batch = first :: batch) {e : Entry τ}
    (he : e ∈ r.ready ∨ e ∈ r.delayed ∨ e ∈ batch) : e.id ≠ first.id := by
  have hsub : (r.queued ++ first :: batch).Sublist r.all := by
    rw [all, hbatch]
    exact List.sublist_append_left _ _
  have hnodup' := hnodup.sublist (hsub.map Entry.id)
  rw [List.map_append, List.map_cons, List.nodup_middle, List.nodup_cons] at hnodup'
  intro heq
  refine hnodup'.1 (heq ▸ ?_)
  rw [← List.map_append]
  refine List.mem_map_of_mem (List.mem_append.mpr ?_)
  rcases he with he | he | he
  · exact .inl (List.mem_append_left _ he)
  · exact .inl (List.mem_append_right _ he)
  · exact .inr he

/-- The callback of the series starts. -/
theorem OnSchedule.start (h : OnSchedule r p id cs clock calls)
    (hnodup : (r.all.map Entry.id).Nodup) {entry : Entry τ}
    {batch : List (Entry τ)} (hid : entry.id = id)
    (hbatch : r.batch = entry :: batch) :
    OnSchedule (r.start entry batch) p id
      ({ planned := entry.plannedDue, began := clock, call := calls } :: cs)
      clock calls := by
  have hmem : entry ∈ r.batch := hbatch ▸ List.mem_cons_self
  obtain ⟨hplanned, hnext⟩ := h.waits entry (.inr (.inr hmem)) hid
  have hripe := h.ripe entry (.inr hmem) hid
  have hnone : ∀ e : Entry τ, e ∈ r.ready ∨ e ∈ r.delayed ∨ e ∈ batch →
      e.id ≠ id := fun e he => hid ▸ ne_first hnodup hbatch he
  have hstacked : ∀ e : Entry τ, e ∈ (r.start entry batch).stacked ↔ e = entry := by
    intro e
    simp [Scheduler.start, Scheduler.stacked]
  constructor
  · exact ⟨entry, mem_all_iff.mpr (.inr (.inr (.inr ((hstacked entry).mpr rfl)))), hid⟩
  · intro e he heq
    refine h.shape e (mem_all_start hbatch e he) heq
  · exact fun e he heq => absurd heq (hnone e he)
  · exact fun e he heq => absurd heq (hnone e (he.imp_right .inr))
  · intro e he _
    rw [(hstacked e).mp he]
    exact ⟨_, cs, rfl, rfl⟩
  · exact fun e he heq => absurd heq (hnone e (.inr (.inr he)))
  · rw [hplanned]
    exact h.kept.begin hnext hripe (h.fresh entry hmem hid)

/-- The callback of the series returns, and the entry goes back with the next
deadline. -/
theorem OnSchedule.returned (h : OnSchedule r p id cs clock calls)
    (hnodup : (r.all.map Entry.id).Nodup) {run : RunningTask τ}
    (hid : run.entry.id = id) (hcurrent : r.current = some run)
    (hlive : run.cancelled = false) (hopen : r.closed = false)
    (hnone : run.reschedule = none) {now now' : Int}
    (hfits : Arith.Fits (run.entry.periodStart now + run.entry.interval)) :
    OnSchedule (r.conclude now now' run) p id
      (cs.modifyHead fun c => { c with ended := some now }) now' calls := by
  have hstack : run.entry ∈ r.stacked := by simp [Scheduler.stacked, hcurrent]
  obtain ⟨hperiodic, hinterval, hschedule⟩ :=
    h.shape run.entry (mem_all_iff.mpr (.inr (.inr (.inr hstack)))) hid
  obtain ⟨c, rest, rfl, hplanned⟩ := h.stacked run.entry hstack hid
  have hnext := h.kept.nextDue hplanned hinterval hschedule hfits
  have hgone : ∀ e : Entry τ, e ∈ r.ready ∨ e ∈ r.delayed ∨ e ∈ r.batch →
      e.id ≠ id := by
    intro e he
    rw [← hid]
    refine ne_current hnodup hcurrent ?_
    simp only [queued, List.mem_append]
    tauto
  have hfinish := r.finish_again now now' hlive hopen
    (.inr ⟨hnone, hperiodic, rfl⟩)
  -- the entry that goes back
  let new : Entry τ :=
    { run.entry with seq := r.nextSeq
                     due := TaskManager.nextPeriodicDue run.entry now
                     plannedDue := TaskManager.nextPeriodicDue run.entry now }
  have hr : (r.conclude now now' run).ready = (r.enqueue new (new.due ≤ now')).ready ∧
      (r.conclude now now' run).delayed = (r.enqueue new (new.due ≤ now')).delayed ∧
      (r.conclude now now' run).batch = r.batch ∧
      (r.conclude now now' run).stacked = [] := by
    rw [Scheduler.conclude, hfinish]
    refine ⟨rfl, rfl, ?_, rfl⟩
    unfold Scheduler.enqueue
    split <;> rfl
  obtain ⟨hready, hdelayed, hbatch, hstacked⟩ := hr
  have hwaits : ∀ e : Entry τ, e ∈ (r.conclude now now' run).ready ∨
      e ∈ (r.conclude now now' run).delayed ∨ e ∈ (r.conclude now now' run).batch →
      e.id = id → e = new := by
    intro e he heq
    rw [hready, hdelayed, hbatch, mem_ready_enqueue, mem_delayed_enqueue] at he
    rcases he with (⟨rfl, -⟩ | he) | (⟨rfl, -⟩ | he) | he
    · rfl
    · exact absurd heq (hgone e (.inl he))
    · rfl
    · exact absurd heq (hgone e (.inr (.inl he)))
    · exact absurd heq (hgone e (.inr (.inr he)))
  have hwaiting : new ∈ (r.conclude now now' run).ready ∨
      new ∈ (r.conclude now now' run).delayed := by
    rw [hready, hdelayed, mem_ready_enqueue, mem_delayed_enqueue]
    by_cases hdue : new.due ≤ now'
    · exact .inl (.inl ⟨rfl, decide_eq_true hdue⟩)
    · exact .inr (.inl ⟨rfl, decide_eq_false hdue⟩)
  have hnewid : new.id = id := hid
  constructor
  · exact ⟨new, mem_all_iff.mpr (hwaiting.imp_right .inl), hnewid⟩
  · intro e he heq
    have hnew : e = new := by
      rcases mem_all_iff.mp he with he | he | he | he
      · exact hwaits e (.inl he) heq
      · exact hwaits e (.inr (.inl he)) heq
      · exact hwaits e (.inr (.inr he)) heq
      · rw [hstacked] at he
        cases he
    rw [hnew]
    exact ⟨hperiodic, hinterval, hschedule⟩
  · intro e he heq
    rw [hwaits e he heq]
    exact ⟨rfl, hnext⟩
  · intro e he heq
    have hnew := hwaits e (he.imp_right .inr) heq
    rw [hready, hbatch, mem_ready_enqueue] at he
    rcases he with (⟨rfl, hdue⟩ | he) | he
    · exact of_decide_eq_true hdue
    · exact absurd heq (hgone e (.inl he))
    · exact absurd heq (hgone e (.inr (.inr he)))
  · rw [hstacked]
    exact List.forall_mem_nil _
  · intro e he heq
    rw [hbatch] at he
    exact absurd heq (hgone e (.inr (.inr he)))
  · exact h.kept.end now

/-- An exception escapes from `process()` and the rest of the batch goes back
to the ready lists. -/
theorem OnSchedule.escaped (h : OnSchedule r p id cs clock calls) :
    OnSchedule r.restore p id cs clock calls := by
  have hready : ∀ e : Entry τ, e ∈ r.restore.ready ↔ e ∈ r.batch ∨ e ∈ r.ready := by
    intro e
    rw [mem_ready_iff, mem_ready_iff]
    simp only [Scheduler.restore, List.mem_append, List.mem_filter, decide_eq_true_eq]
    constructor
    · rintro ⟨priority, ⟨he, -⟩ | he⟩
      · exact .inl he
      · exact .inr ⟨priority, he⟩
    · rintro (he | ⟨priority, he⟩)
      · exact ⟨e.priority, .inl ⟨he, rfl⟩⟩
      · exact ⟨priority, .inr he⟩
  have hbatch : ∀ e : Entry τ, e ∉ r.restore.batch := fun e => List.not_mem_nil
  have hall : ∀ e : Entry τ, e ∈ r.restore.all ↔ e ∈ r.all := by
    intro e
    rw [mem_all_iff, mem_all_iff, hready]
    show (_ ∨ _) ∨ e ∈ r.delayed ∨ e ∈ [] ∨ e ∈ r.stacked ↔ _
    simp only [List.not_mem_nil, false_or]
    tauto
  constructor
  · obtain ⟨e, he, hid⟩ := h.lives
    exact ⟨e, (hall e).mpr he, hid⟩
  · exact fun e he hid => h.shape e ((hall e).mp he) hid
  · intro e he hid
    refine h.waits e ?_ hid
    rcases he with he | he | he
    · rcases (hready e).mp he with he | he
      · exact .inr (.inr he)
      · exact .inl he
    · exact .inr (.inl he)
    · exact absurd he (hbatch e)
  · intro e he hid
    refine h.ripe e ?_ hid
    rcases he with he | he
    · exact ((hready e).mp he).symm
    · exact absurd he (hbatch e)
  · exact h.stacked
  · exact fun e he => absurd he (hbatch e)
  · exact h.kept

/-- A series is accepted. -/
theorem OnSchedule.posted {id : Nat} (hid : id = r.nextId)
    (hknown : ∀ e ∈ r.all, e.id < r.nextId) (now now' initialDelay : Int)
    {interval : Int} (task : τ) (options : PeriodicTaskOptions)
    (hinterval : 0 < interval) (hopen : r.closed = false)
    (hfits : 0 < initialDelay → Arith.Fits (now + initialDelay)) :
    OnSchedule (r.postEveryAfter now now' initialDelay interval (some task)
        options).1
      { firstDue := if initialDelay ≤ 0 then now else now + initialDelay
        interval := interval, schedule := options.schedule } id [] now' calls := by
  let due := if initialDelay ≤ 0 then now else TaskManager.timeAfter now initialDelay
  have hfirst : due = if initialDelay ≤ 0 then now else now + initialDelay := by
    show (if initialDelay ≤ 0 then now else TaskManager.timeAfter now initialDelay) = _
    split
    · rfl
    · next hpos => exact Arith.wrap_of_fits (hfits (Int.not_le.mp hpos))
  let new : Entry τ :=
    { id := r.nextId, seq := r.nextSeq, priority := options.priority, due := due,
      periodic := true, interval := interval, periodicSchedule := options.schedule,
      plannedDue := due, task := task }
  have hr : (r.postEveryAfter now now' initialDelay interval (some task) options).1 =
      { r.enqueue new (due ≤ now') with
        nextId := r.nextId + 1, nextSeq := r.nextSeq + 1 } := by
    unfold Scheduler.postEveryAfter
    dsimp only
    rw [if_neg (by simp [hopen, hinterval])]
    rfl
  rw [hr]
  have hready : ∀ e : Entry τ, e ∈ r.ready → e.id ≠ id := fun e he =>
    hid ▸ Nat.ne_of_lt (hknown e (mem_all_iff.mpr (.inl he)))
  have hdelayed : ∀ e : Entry τ, e ∈ r.delayed → e.id ≠ id := fun e he =>
    hid ▸ Nat.ne_of_lt (hknown e (mem_all_iff.mpr (.inr (.inl he))))
  have hbatch : ∀ e : Entry τ, e ∈ (r.enqueue new (due ≤ now')).batch → e.id ≠ id := by
    intro e he
    have he' : e ∈ r.batch := by
      unfold Scheduler.enqueue at he
      split at he <;> exact he
    exact hid ▸ Nat.ne_of_lt (hknown e (mem_all_iff.mpr (.inr (.inr (.inl he')))))
  have hstacked : ∀ e : Entry τ, e ∈ (r.enqueue new (due ≤ now')).stacked →
      e.id ≠ id := by
    intro e he
    have he' : e ∈ r.stacked := by
      unfold Scheduler.enqueue at he
      split at he <;> exact he
    exact hid ▸ Nat.ne_of_lt (hknown e (mem_all_iff.mpr (.inr (.inr (.inr he')))))
  have hwaits : ∀ e : Entry τ, e ∈ (r.enqueue new (due ≤ now')).ready ∨
      e ∈ (r.enqueue new (due ≤ now')).delayed ∨
      e ∈ (r.enqueue new (due ≤ now')).batch → e.id = id → e = new := by
    intro e he heq
    rw [mem_ready_enqueue, mem_delayed_enqueue] at he
    rcases he with (⟨rfl, -⟩ | he) | (⟨rfl, -⟩ | he) | he
    · rfl
    · exact absurd heq (hready e he)
    · rfl
    · exact absurd heq (hdelayed e he)
    · exact absurd heq (hbatch e he)
  constructor
  · refine ⟨new, mem_all_iff.mpr ?_, hid.symm⟩
    by_cases hdue : due ≤ now'
    · exact .inl (mem_ready_enqueue.mpr (.inl ⟨rfl, decide_eq_true hdue⟩))
    · exact .inr (.inl (mem_delayed_enqueue.mpr (.inl ⟨rfl, decide_eq_false hdue⟩)))
  · intro e he heq
    have hnew : e = new := by
      rcases mem_all_iff.mp he with he | he | he | he
      · exact hwaits e (.inl he) heq
      · exact hwaits e (.inr (.inl he)) heq
      · exact hwaits e (.inr (.inr he)) heq
      · exact absurd heq (hstacked e he)
    rw [hnew]
    exact ⟨rfl, rfl, rfl⟩
  · intro e he heq
    rw [hwaits e he heq]
    refine ⟨rfl, ?_⟩
    show _ = some due
    rw [hfirst]
    unfold Series.nextDue
    cases options.schedule
    · rfl
    · simp
  · intro e he heq
    have hnew := hwaits e (he.imp_right .inr) heq
    rcases he with he | he
    · rcases mem_ready_enqueue.mp he with ⟨-, hdue⟩ | he
      · rw [hnew]
        exact of_decide_eq_true hdue
      · exact absurd heq (hready e he)
    · exact absurd heq (hbatch e he)
  · exact fun e he heq => absurd heq (hstacked e he)
  · exact fun e he heq => absurd heq (hbatch e he)
  · exact .nil

end OnSchedule

/-! ## The machine -/

namespace TimedSystem

open Scheduler (Moved)

variable {s s' : TimedSystem τ} {sys : TaskSystem τ} {a : TaskAction τ}
  {obs : List TaskObs}

/-- What the start transition shows. -/
theorem step_processStart {s s' : TaskSystem τ} (h : s.step .processStart = some s') :
    s.phase.current = none ∧
      ((∃ entry unrun, s'.phase = .starting entry unrun ∧
        s'.log = .started entry.id :: s.log) ∨
      s'.log = s.log ∧ ∃ unrun, s'.phase = .scanning unrun) := by
  change s.stepFree .processStart = some s' at h
  simp only [TaskSystem.stepFree] at h
  split at h
  · next entry unrun hphase =>
      refine ⟨by rw [hphase]; rfl, ?_⟩
      split at h
      · cases h
        exact .inl ⟨entry, unrun, rfl, rfl⟩
      · cases h
        exact .inr ⟨rfl, unrun, rfl⟩
  · contradiction

theorem step_callbackReturned {s s' : TaskSystem τ} {now now' : Int}
    (h : s.step (.callbackReturned now now') = some s') :
    ∃ entry unrun, s.phase = .running entry unrun ∧
      s'.log = .returned entry.id :: s.log := by
  simp only [TaskSystem.step] at h
  split at h
  · simp only [TaskSystem.stepLocked] at h
    split at h
    · next entry unrun hphase =>
        cases h
        exact ⟨entry, unrun, hphase, rfl⟩
    · contradiction
  · contradiction

/-- A step in which the callback of `id` neither starts nor returns leaves the
cycles of `id`. -/
theorem cyclesAfter_quiet (h : s.sys.step a = some sys)
    (hlog : sys.log = obs ++ s.sys.log) (hstart : .started id ∉ obs)
    (hreturn : .returned id ∉ obs) : s.cyclesAfter sys a id = s.cycles id := by
  cases a
  case processStart =>
    obtain ⟨-, ⟨entry, unrun, hphase, hlog'⟩ | ⟨-, unrun, hphase⟩⟩ :=
      step_processStart h
    · have hobs : obs = [.started entry.id] :=
        List.append_cancel_right (hlog.symm.trans hlog')
      have hne : id ≠ entry.id := fun heq => hstart (by simp [hobs, heq])
      simp only [cyclesAfter, hphase]
      exact Function.update_of_ne hne _ _
    · simp only [cyclesAfter, hphase]
  case callbackReturned now now' =>
    obtain ⟨entry, unrun, hphase, hlog'⟩ := step_callbackReturned h
    have hobs : obs = [.returned entry.id] :=
      List.append_cancel_right (hlog.symm.trans hlog')
    have hne : id ≠ entry.id := fun heq => hreturn (by simp [hobs, heq])
    simp only [cyclesAfter, hphase]
    exact Function.update_of_ne hne _ _
  all_goals rfl

/-- The step in which the callback starts. -/
theorem cyclesAfter_started {entry : Entry τ} {batch : List (Entry τ)}
    (h : s.sys.step .processStart = some sys)
    (hlog : sys.log = [.started id] ++ s.sys.log) (hid : entry.id = id)
    (hr : sys.scheduler = s.sys.scheduler.start entry batch) :
    s.cyclesAfter sys .processStart id =
      { planned := entry.plannedDue, began := s.clock, call := s.calls } ::
        s.cycles id := by
  obtain ⟨-, ⟨entry', unrun, hphase, -⟩ | ⟨hlog', -⟩⟩ := step_processStart h
  · have hcurrent : sys.scheduler.current = some { entry := entry } := by
      rw [hr]
      rfl
    simp only [TaskSystem.scheduler, TaskManager.scheduler_current, hphase] at hcurrent
    have hentry : entry' = entry :=
      congrArg RunningTask.entry (Option.some.inj hcurrent)
    subst hentry
    subst hid
    simp only [cyclesAfter, hphase]
    exact Function.update_self _ _ _
  · rw [hlog'] at hlog
    exact absurd hlog (by simp)

/-- The step in which it returns. -/
theorem cyclesAfter_returned {run : RunningTask τ} {now now' : Int}
    (h : s.sys.step (.callbackReturned now now') = some sys)
    (hcurrent : s.sys.scheduler.current = some run) (hid : run.entry.id = id) :
    s.cyclesAfter sys (.callbackReturned now now') id =
      (s.cycles id).modifyHead fun c => { c with ended := some now } := by
  obtain ⟨entry, unrun, hphase, -⟩ := step_callbackReturned h
  rw [TaskSystem.current_of_running hphase] at hcurrent
  have hentry : entry = run.entry :=
    congrArg RunningTask.entry (Option.some.inj hcurrent)
  subst hid
  rw [← hentry]
  simp only [cyclesAfter, hphase]
  exact Function.update_self _ _ _

/-- The deadline of the running task that returns is in range. -/
theorem fits_of_current {run : RunningTask τ} {now now' : Int}
    (h : s.sys.step (.callbackReturned now now') = some sys)
    (hcurrent : s.sys.scheduler.current = some run)
    (hfits : s.DueFits run.entry.id (.act (.callbackReturned now now'))) :
    Arith.Fits (run.entry.periodStart now + run.entry.interval) := by
  obtain ⟨entry, unrun, hphase, -⟩ := step_callbackReturned h
  rw [TaskSystem.current_of_running hphase] at hcurrent
  have hentry : entry = run.entry :=
    congrArg RunningTask.entry (Option.some.inj hcurrent)
  simp only [DueFits, hphase] at hfits
  exact hentry ▸ hfits (congrArg Entry.id hentry)

/-- Later states are disturbed if earlier ones are. -/
theorem undisturbed_of_step {s s' : TaskSystem τ} (hs : s.Reachable)
    (h : s.step a = some s') (hquiet : s'.Undisturbed id) :
    s.Undisturbed id ∧ ∀ obs, s'.log = obs ++ s.log →
      ∀ o ∈ obs, o.disturbs id = false := by
  obtain ⟨obs, hlog, hstep⟩ := hs.follows h
  have hopen : s'.scheduler.closed = false := hquiet.1
  refine ⟨⟨?_, fun o ho => hquiet.2 o ?_⟩, fun obs' hlog' o ho => hquiet.2 o ?_⟩
  · cases hclosed : s.mgr.closed
    · rfl
    · rw [hstep.closed hclosed] at hopen
      cases hopen
  · rw [hlog]
    exact List.mem_append_right _ ho
  · rw [hlog']
    exact List.mem_append_left _ ho

/-- The running task, while nobody disturbs it. -/
theorem undisturbed_run {s : TaskSystem τ} (hs : s.Reachable)
    {run : RunningTask τ} (hcurrent : s.scheduler.current = some run)
    (hquiet : s.Undisturbed run.entry.id) :
    run.cancelled = false ∧ run.reschedule = none := by
  obtain ⟨hcancelled, hreschedule⟩ := hs.asked run hcurrent
  have hsince : ∀ o ∈ sinceStart run.entry.id s.log,
      o.disturbs run.entry.id = false :=
    fun o ho => hquiet.2 o ((List.takeWhile_sublist _).subset ho)
  have hlive : run.cancelled = false := by
    rw [hcancelled]
    refine List.any_eq_false.mpr fun o ho => ?_
    have hdisturbs := hsince o ho
    simp only [TaskObs.disturbs, Bool.or_eq_false_iff] at hdisturbs
    simp [hdisturbs.1.1]
  refine ⟨hlive, (hreschedule hlive).trans ?_⟩
  have hnone : lastReschedule run.entry.id (sinceStart run.entry.id s.log ++ []) =
      lastReschedule run.entry.id [] :=
    lastReschedule_append (fun o ho => by
      have hdisturbs := hsince o ho
      simp only [TaskObs.disturbs, Bool.or_eq_false_iff] at hdisturbs
      exact hdisturbs.1.2) []
  rw [List.append_nil] at hnone
  exact hnone

/-- The clock does not go back. -/
theorem le_getLastD {l : List Int} {x : Int} (h : (x :: l).Pairwise (· ≤ ·)) :
    x ≤ l.getLastD x := by
  rw [List.pairwise_cons] at h
  cases hlast : l.getLast? with
  | none => rw [List.getLastD_eq_getLast?, hlast]; exact Int.le_refl _
  | some y =>
      rw [List.getLastD_eq_getLast?, hlast]
      exact h.1 y (List.mem_of_getLast? hlast)

structure Inv (s : TimedSystem τ) : Prop where
  reachable : s.sys.Reachable
  unknown : ∀ id, s.sys.mgr.nextId ≤ id → s.series id = none ∧ s.cycles id = []

/-- The series under `id`, if there is one, is on schedule unless disturbed. -/
def Scheduled (id : Nat) (s : TimedSystem τ) : Prop :=
  ∀ p, s.series id = some p → s.sys.Undisturbed id →
    OnSchedule s.sys.scheduler p id (s.cycles id) s.clock s.calls

/-- A series that was accepted before goes on. -/
theorem Scheduled.series_step (hon : s.Scheduled id) (h : s.Inv)
    (hfits : s.DueFits id (.act a)) (hstep : s.sys.step a = some sys)
    (hreadings : (s.clock :: a.readings).Pairwise (· ≤ ·))
    (hseries : s.series id = some p) (hquiet : sys.Undisturbed id) :
    OnSchedule sys.scheduler p id (s.cyclesAfter sys a id)
      (a.readings.getLastD s.clock) (s.callsAfter a) := by
  obtain ⟨hold, hobs⟩ := undisturbed_of_step h.reachable hstep hquiet
  have hsched := hon p hseries hold
  have hknown : id < s.sys.scheduler.nextId := by
    by_contra hge
    rw [(h.unknown id (Nat.not_lt.mp hge)).1] at hseries
    cases hseries
  have hnodup := h.reachable.wellFormed.nodup
  have hclock := le_getLastD hreadings
  have hcalls : s.calls ≤ s.callsAfter a := by
    cases a <;> first | exact Nat.le_succ _ | exact Nat.le_refl _
  obtain ⟨obs, hlog, hfollows⟩ := h.reachable.follows hstep
  generalize hr : sys.scheduler = r' at hfollows ⊢
  cases hfollows.moved hknown (hobs obs hlog) with
  | same hsame hidle =>
      rw [cyclesAfter_quiet hstep hlog hidle.1 hidle.2]
      exact hsched.same hsame hclock hcalls
  | begin now maxTasks hcurrent hbatch =>
      rw [cyclesAfter_quiet hstep hlog List.not_mem_nil List.not_mem_nil]
      exact hsched.begin hcurrent hbatch hclock maxTasks
  | start hid hcurrent hbatch =>
      rw [cyclesAfter_started hstep hlog hid hr]
      exact hsched.start hnodup hid hbatch
  | returned now now' hid hcurrent =>
      rw [cyclesAfter_returned hstep hcurrent hid]
      obtain ⟨hlive, hnone⟩ := undisturbed_run h.reachable hcurrent (hid ▸ hold)
      exact hsched.returned hnodup hid hcurrent hlive hold.1 hnone
        (fits_of_current hstep hcurrent (hid ▸ hfits))
  | escaped hcurrent =>
      rw [cyclesAfter_quiet hstep hlog (by simp) (by simp)]
      exact hsched.escaped

/-- The id under which a series is accepted is the next one. -/
theorem posted_id {s : TaskSystem τ} (hs : s.Reachable)
    {now now' initialDelay interval : Int} {task : Option τ}
    {options : PeriodicTaskOptions}
    (hid : (s.mgr.postEveryAfter now now' initialDelay interval task options).2 ≠ 0) :
    (s.mgr.postEveryAfter now now' initialDelay interval task options).2 =
        s.scheduler.nextId ∧
      (∃ task', task = some task') ∧ 0 < interval ∧ s.mgr.closed = false := by
  have hinv : s.mgr.Inv s.phase.current s.phase.unrun s.phase.owed := hs.inv
  have hfresh := hinv.freshId
  unfold TaskManager.postEveryAfter at hid ⊢
  cases task with
  | none => exact absurd rfl hid
  | some task =>
      dsimp only at hid ⊢
      split at hid
      · exact absurd rfl hid
      · next hinterval =>
          split at hid
          · exact absurd rfl hid
          · next hopen =>
              rw [if_neg hinterval, if_neg hopen]
              refine ⟨?_, ⟨task, rfl⟩, Int.not_le.mp hinterval, by simpa using hopen⟩
              generalize (if initialDelay ≤ 0 then now else _) = due
              unfold TaskManager.enqueuePeriodicLocked
              dsimp only
              split <;> exact hfresh

/-- Every series, new or old, is on schedule after a step. -/
theorem Scheduled.act (hon : s.Scheduled id) (h : s.Inv)
    (hfits : s.DueFits id (.act a)) (hstep : s.sys.step a = some sys)
    (hreadings : (s.clock :: a.readings).Pairwise (· ≤ ·))
    (hseries : s.seriesAfter a id = some p) (hquiet : sys.Undisturbed id) :
    OnSchedule sys.scheduler p id (s.cyclesAfter sys a id)
      (a.readings.getLastD s.clock) (s.callsAfter a) := by
  have hold : s.seriesAfter a id = s.series id → OnSchedule sys.scheduler p id
      (s.cyclesAfter sys a id) (a.readings.getLastD s.clock) (s.callsAfter a) :=
    fun heq => hon.series_step h hfits hstep hreadings (heq ▸ hseries) hquiet
  cases a
  case postEveryAfter now now' initialDelay interval task options =>
    by_cases hzero : (s.sys.mgr.postEveryAfter now now' initialDelay interval task
        options).2 = 0
    · exact hold (by simp [seriesAfter, hzero])
    · by_cases hnew : id = (s.sys.mgr.postEveryAfter now now' initialDelay interval
          task options).2
      · obtain ⟨hid, ⟨task', rfl⟩, hinterval, hopen⟩ := posted_id h.reachable hzero
        have hseries' : p = { firstDue := if initialDelay ≤ 0 then now
                                          else now + initialDelay
                              interval := interval
                              schedule := options.schedule } := by
          simp only [seriesAfter, if_neg hzero, hnew, Function.update_self] at hseries
          exact (Option.some.inj hseries).symm
        have hcycles : s.cycles id = [] :=
          (h.unknown id (hnew.trans hid).ge).2
        obtain ⟨obs, -, hfollows⟩ := h.reachable.follows hstep
        generalize hr : sys.scheduler = r' at hfollows ⊢
        cases hfollows with
        | postEveryAfter =>
            rw [hseries', show s.cyclesAfter sys (.postEveryAfter now now'
              initialDelay interval (some task') options) id = [] from hcycles]
            exact .posted (hnew.trans hid) h.reachable.wellFormed.known now now'
              initialDelay task' options hinterval hopen
              (hfits hnew.symm)
      · refine hold ?_
        simp only [seriesAfter, if_neg hzero]
        exact Function.update_of_ne hnew _ _
  all_goals exact hold rfl

theorem Inv.unknown_step (h : s.Inv) (hstep : s.sys.step a = some sys)
    (hid : sys.mgr.nextId ≤ id) :
    s.seriesAfter a id = none ∧ s.cyclesAfter sys a id = [] := by
  have hs' : sys.Reachable := h.reachable.trans_run (Lts.run_one hstep)
  obtain ⟨obs, hlog, hfollows⟩ := h.reachable.follows hstep
  have hgrows : s.sys.mgr.nextId ≤ sys.mgr.nextId := hfollows.grows.1
  obtain ⟨hseries, hcycles⟩ := h.unknown id (hgrows.trans hid)
  -- an id that is not handed out has neither started nor ended
  have hstarts : starts id sys.log = 0 := (hs'.logged id).unstarted hid
  have hends : ends id sys.log = 0 := by
    have hcount := hs'.counted id
    omega
  have hnot : ∀ o : TaskObs, sys.log.count o = 0 → o ∉ obs := by
    intro o ho hmem
    refine List.count_eq_zero.mp ho ?_
    rw [hlog]
    exact List.mem_append_left _ hmem
  refine ⟨?_, ?_⟩
  · cases a
    case postEveryAfter now now' initialDelay interval task options =>
      unfold seriesAfter
      dsimp only
      split
      · exact hseries
      · next hzero =>
          refine (Function.update_of_ne ?_ _ _).trans hseries
          obtain ⟨hposted, -⟩ := posted_id h.reachable hzero
          have hsubmitted : .submitted (s.sys.mgr.postEveryAfter now now'
              initialDelay interval task options).2 ∈ sys.log := by
            simp only [TaskSystem.step, TaskSystem.stepLocked] at hstep
            split at hstep
            · cases hstep
              simp [TaskSystem.submit, TaskSystem.submittedObs, hzero]
            · contradiction
          have hlt := ((hs'.logged _).submitted.mp hsubmitted).2
          omega
    all_goals exact hseries
  · rw [cyclesAfter_quiet hstep hlog (hnot _ hstarts)
      (hnot _ (by unfold ends at hends; omega))]
    exact hcycles

theorem Inv.step {a : TimedAction τ} (h : s.Inv) (hstep : s.step a = some s') :
    s'.Inv := by
  cases a with
  | pass now =>
      simp only [TimedSystem.step] at hstep
      split at hstep
      · next hle =>
          cases hstep
          exact ⟨h.reachable, h.unknown⟩
      · contradiction
  | act a =>
      simp only [TimedSystem.step] at hstep
      split at hstep
      · next hreadings =>
          obtain ⟨sys, hsys, rfl⟩ := Option.map_eq_some_iff.mp hstep
          exact ⟨h.reachable.trans_run (Lts.run_one hsys),
            fun id hid => h.unknown_step hsys hid⟩
      · contradiction

theorem Scheduled.step {a : TimedAction τ} (hon : s.Scheduled id) (h : s.Inv)
    (hfits : s.DueFits id a) (hstep : s.step a = some s') : s'.Scheduled id := by
  intro p hseries hquiet
  cases a with
  | pass now =>
      simp only [TimedSystem.step] at hstep
      split at hstep
      · next hle =>
          cases hstep
          exact (hon p hseries hquiet).same (.refl _) hle (Nat.le_refl _)
      · contradiction
  | act a =>
      simp only [TimedSystem.step] at hstep
      split at hstep
      · next hreadings =>
          obtain ⟨sys, hsys, rfl⟩ := Option.map_eq_some_iff.mp hstep
          exact hon.act h hfits hsys hreadings.1 hseries hquiet
      · contradiction

theorem Inv.start (clock : Int) : Inv ({ clock := clock } : TimedSystem τ) :=
  ⟨Lts.Reachable.refl _, fun _ _ => ⟨rfl, rfl⟩⟩

theorem run_scheduled {start : Int} {as : List (TimedAction τ)}
    (hrun : Lts.run step { clock := start } as = some s)
    (hfits : Lts.RunMeets step (DueFits id) { clock := start } as) :
    s.Inv ∧ s.Scheduled id :=
  Lts.run_invariant_of_meets (P := fun s => s.Inv ∧ s.Scheduled id)
    (fun _ _ _ h hfit hstep => ⟨h.1.step hstep, h.2.step h.1 hfit hstep⟩)
    ⟨.start start, fun _ hseries => nomatch hseries⟩ hfits hrun

/-! ## One cycle per call -/

theorem length_priorities (l : List (Entry τ)) :
    (l.filter fun e => e.priority = .high).length +
      (l.filter fun e => e.priority = .normal).length +
      (l.filter fun e => e.priority = .low).length = l.length := by
  induction l with
  | nil => rfl
  | cons e l ih =>
      cases hp : e.priority <;> simp [hp] <;> omega

theorem length_ready_promote (r : Scheduler τ) (now : Int) :
    (r.promote now).ready.length ≤ r.queued.length := by
  have hdue := length_priorities (r.delayed.filter fun e => e.due ≤ now)
  have hle := List.length_filter_le (fun e : Entry τ => decide (e.due ≤ now)) r.delayed
  simp only [Scheduler.ready, Scheduler.promote, Scheduler.queued,
    List.length_append]
  omega

/-- The series waits in the batch of the call, or has had its cycle in it;
`n` counts the cycles before. -/
def OwedOrServed (s : TimedSystem τ) (id n : Nat) : Prop :=
  (∃ e ∈ s.sys.scheduler.batch, e.id = id) ∧ (s.cycles id).length = n ∨
    (∀ e ∈ s.sys.scheduler.batch, e.id ≠ id) ∧ (s.cycles id).length = n + 1

/-- A call of `process()` that finds the series due and takes all there is
takes the series. -/
theorem Inv.taken (h : s.Inv) {now : Int} {maxTasks : Nat}
    (hstep : s.sys.step (.processBegin now maxTasks) = some sys)
    (hmax : s.sys.mgr.pendingCount ≤ maxTasks)
    (hsched : OnSchedule s.sys.scheduler p id (s.cycles id) s.clock s.calls)
    {due : Int} (hnext : p.nextDue (s.cycles id) = some due) (hdue : due ≤ now) :
    ∃ e ∈ sys.scheduler.batch, e.id = id := by
  have hidle : s.sys.phase = .idle := (TaskSystem.step_processBegin hstep).1
  have hinv : s.sys.mgr.Inv s.sys.phase.current s.sys.phase.unrun
    s.sys.phase.owed := h.reachable.inv
  have hqueued : (s.sys.scheduler.queued.length : Int) = s.sys.mgr.pendingCount := by
    have hqueues := hinv.queue_eq_readyList (n := s.sys.processed)
    have hdelayed := hinv.delayed_eq_delayedList (n := s.sys.processed)
    rw [hidle] at hinv
    rw [hinv.pendingCount_eq, TaskSystem.scheduler, Scheduler.queued,
      Scheduler.ready, hqueues, hqueues, hqueues, hdelayed]
    simp only [List.length_append]
  have hcurrent : s.sys.scheduler.current = none := by
    simp only [TaskSystem.scheduler, TaskManager.scheduler_current, hidle]
    rfl
  have hbatch : s.sys.scheduler.batch = [] := by
    simp only [TaskSystem.scheduler, TaskManager.scheduler_batch, hidle]
    rfl
  obtain ⟨e, he, hid⟩ := hsched.lives
  have hwaits : e ∈ s.sys.scheduler.ready ∨ e ∈ s.sys.scheduler.delayed := by
    rcases Scheduler.mem_all_iff.mp he with he | he | he | he
    · exact .inl he
    · exact .inr he
    · rw [hbatch] at he
      cases he
    · simp [Scheduler.stacked, hcurrent] at he
  have hready : e ∈ (s.sys.scheduler.promote now).ready := by
    rw [mem_ready_promote]
    refine hwaits.imp_right fun he => ⟨he, ?_⟩
    rw [(hsched.waits e (.inr (.inl he)) hid).2, Option.some.injEq] at hnext
    rw [hnext]
    exact hdue
  have hlength := length_ready_promote s.sys.scheduler now
  have hpos : 0 < (s.sys.scheduler.promote now).ready.length :=
    List.length_pos_of_mem hready
  obtain ⟨obs, -, hfollows⟩ := h.reachable.follows hstep
  generalize hr : sys.scheduler = r' at hfollows ⊢
  cases hfollows with
  | beginNothing => omega
  | begin =>
      refine ⟨e, ?_, hid⟩
      show e ∈ (s.sys.scheduler.promote now).ready.take maxTasks
      rw [List.take_of_length_le (by omega)]
      exact hready

theorem Inv.owedOrServed_step {n : Nat} (h : s.Inv)
    (hstep : s.sys.step a = some sys) (hbusy : s.sys.phase ≠ .idle)
    (ha : TaskSystem.Continues a) (hknown : id < s.sys.mgr.nextId)
    (hquiet : sys.Undisturbed id) (howed : s.OwedOrServed id n) :
    ((∃ e ∈ sys.scheduler.batch, e.id = id) ∧
        (s.cyclesAfter sys a id).length = n ∨
      (∀ e ∈ sys.scheduler.batch, e.id ≠ id) ∧
        (s.cyclesAfter sys a id).length = n + 1) := by
  obtain ⟨-, hobs⟩ := undisturbed_of_step h.reachable hstep hquiet
  obtain ⟨hbegin, -, -⟩ := TaskSystem.step_batch ha hbusy hstep
  have hnodup := h.reachable.wellFormed.nodup
  obtain ⟨obs, hlog, hfollows⟩ := h.reachable.follows hstep
  generalize hr : sys.scheduler = r' at hfollows ⊢
  cases hfollows.moved hknown (hobs obs hlog) with
  | same hsame hidle =>
      rw [cyclesAfter_quiet hstep hlog hidle.1 hidle.2]
      refine howed.imp (And.imp_left ?_) (And.imp_left ?_)
      · rintro ⟨e, he, hid⟩
        exact ⟨e, (hsame.batch e hid).mpr he, hid⟩
      · exact fun hnone e he hid => hnone e ((hsame.batch e hid).mp he) hid
  | begin now maxTasks _ _ => exact absurd rfl (hbegin now maxTasks)
  | escaped => exact absurd rfl ha.2
  | start hid _ hbatch =>
      rw [cyclesAfter_started hstep hlog hid hr]
      have hmem := hbatch ▸ List.mem_cons_self
      have hlength : (s.cycles id).length = n :=
        (howed.resolve_right fun hnone => hnone.1 _ hmem hid).2
      refine .inr ⟨fun e he => ?_, by rw [List.length_cons, hlength]⟩
      exact hid ▸ ne_first hnodup hbatch (.inr (.inr he))
  | returned now now' hid hcurrent =>
      rw [cyclesAfter_returned hstep hcurrent hid, List.length_modifyHead,
        Scheduler.batch_conclude]
      exact howed

/-- The call goes on until it returns. -/
theorem run_owedOrServed {n : Nat} {acts : List (TimedAction τ)}
    (hacts : ∀ a ∈ acts, a ≠ .act .processEnd ∧ a ≠ .act .exceptionEscaped) :
    ∀ {s s' : TimedSystem τ}, s.Inv → s.sys.phase ≠ .idle →
      id < s.sys.mgr.nextId → (s.sys.Undisturbed id → s.OwedOrServed id n) →
      Lts.run step s acts = some s' →
      s'.Inv ∧ (s'.sys.Undisturbed id → s'.OwedOrServed id n) := by
  induction acts with
  | nil =>
      intro s s' h _ _ howed hrun
      cases hrun
      exact ⟨h, howed⟩
  | cons a acts ih =>
      intro s s' h hbusy hknown howed hrun
      obtain ⟨t, ht, hrest⟩ := Lts.run_cons_eq_some.mp hrun
      have hinv := h.step ht
      have ha := hacts a List.mem_cons_self
      refine ih (fun b hb => hacts b (List.mem_cons_of_mem _ hb)) hinv ?_ ?_ ?_ hrest
      all_goals
        cases a with
        | pass now =>
            simp only [TimedSystem.step] at ht
            split at ht
            · cases ht
              assumption
            · contradiction
        | act a =>
            simp only [TimedSystem.step] at ht
            split at ht
            · obtain ⟨sys, hsys, rfl⟩ := Option.map_eq_some_iff.mp ht
              have hcontinues : TaskSystem.Continues a :=
                ⟨fun heq => ha.1 (by rw [heq]), fun heq => ha.2 (by rw [heq])⟩
              obtain ⟨obs, -, hfollows⟩ := h.reachable.follows hsys
              have hgrows : s.sys.mgr.nextId ≤ sys.mgr.nextId := hfollows.grows.1
              first
              | exact (TaskSystem.step_batch hcontinues hbusy hsys).2.1
              | exact Nat.lt_of_lt_of_le hknown hgrows
              | exact fun hquiet => h.owedOrServed_step hsys hbusy hcontinues hknown
                  hquiet (howed (undisturbed_of_step h.reachable hsys hquiet).1)
            · contradiction

/-! ## The law -/

/-- What holds of the cycles of an undisturbed series, oldest first. -/
structure PeriodicTiming (s : TimedSystem τ) (id : Nat) (p : Series) : Prop where
  planned : p.schedule = .fixedRate → ∀ (k : Nat) (c : Cycle),
    (s.cyclesOf id)[k]? = some c → c.planned = p.firstDue + k * p.interval
  began : ∀ c ∈ s.cyclesOf id, c.planned ≤ c.began
  spaced : p.schedule = .fixedDelay → ∀ (k : Nat) (c c' : Cycle),
    (s.cyclesOf id)[k]? = some c → (s.cyclesOf id)[k + 1]? = some c' →
      ∃ ended, c.ended = some ended ∧ ended + p.interval ≤ c'.began
  once : (s.cyclesOf id).Pairwise fun c c' => c.call < c'.call
  /-- A call that finds the series due, is not cut short by `max_tasks` or by an
  exception, and leaves it undisturbed has exactly one cycle of it. -/
  caughtUp : ∀ now maxTasks s₁ acts s₂ s₃ due,
    p.nextDue (s.cycles id) = some due → due ≤ now →
    s.sys.mgr.pendingCount ≤ (maxTasks : Nat) →
    s.step (.act (.processBegin now maxTasks)) = some s₁ →
    (∀ a ∈ acts, a ≠ .act .processEnd ∧ a ≠ .act .exceptionEscaped) →
    Lts.run step s₁ acts = some s₂ → s₂.step (.act .processEnd) = some s₃ →
    s₃.sys.Undisturbed id →
    (s₃.cyclesOf id).length = (s.cyclesOf id).length + 1

theorem suffix_of_getElem?_reverse {c : Cycle} {k : Nat}
    (h : cs.reverse[k]? = some c) :
    ∃ rest, c :: rest <:+ cs ∧ rest.length = k := by
  obtain ⟨hk, rfl⟩ := List.getElem?_eq_some_iff.mp h
  refine ⟨(cs.reverse.take k).reverse, ⟨(cs.reverse.drop (k + 1)).reverse, ?_⟩, ?_⟩
  · have hsplit := List.take_append_drop k cs.reverse
    rw [List.drop_eq_getElem_cons hk] at hsplit
    have hrev := congrArg List.reverse hsplit
    rw [List.reverse_append, List.reverse_cons, List.reverse_reverse,
      List.append_assoc] at hrev
    exact hrev
  · rw [List.length_reverse, List.length_take]
    omega

theorem step_act (h : s.step (.act a) = some s') :
    ∃ sys, s.sys.step a = some sys ∧
      s' = { sys := sys
             clock := a.readings.getLastD s.clock
             calls := s.callsAfter a
             series := s.seriesAfter a
             cycles := s.cyclesAfter sys a } := by
  simp only [TimedSystem.step] at h
  split at h
  · obtain ⟨sys, hsys, rfl⟩ := Option.map_eq_some_iff.mp h
    exact ⟨sys, hsys, rfl⟩
  · contradiction

theorem step_processEnd {s s' : TaskSystem τ} (h : s.step .processEnd = some s') :
    s.phase = .scanning [] := by
  change s.stepFree .processEnd = some s' at h
  simp only [TaskSystem.stepFree] at h
  split at h
  · assumption
  · contradiction

/-- In every run in which no deadline of the series overflows, its cycles keep
their times. -/
theorem run_periodicTiming {start : Int} {as : List (TimedAction τ)}
    (hrun : Lts.run step { clock := start } as = some s)
    (hfits : Lts.RunMeets step (DueFits id) { clock := start } as)
    (hseries : s.series id = some p) (hquiet : s.sys.Undisturbed id) :
    s.PeriodicTiming id p := by
  obtain ⟨hinv, hon⟩ := run_scheduled hrun hfits
  have hsched := hon p hseries hquiet
  have hkept := hsched.kept
  constructor
  · intro hrate k c hc
    obtain ⟨rest, hsuffix, rfl⟩ := suffix_of_getElem?_reverse hc
    exact hkept.planned hrate c rest hsuffix
  · exact fun c hc => hkept.began c (List.mem_reverse.mp hc)
  · intro hdelay k c c' hc hc'
    obtain ⟨rest, hsuffix, rfl⟩ := suffix_of_getElem?_reverse hc
    obtain ⟨rest', hsuffix', hlength⟩ := suffix_of_getElem?_reverse hc'
    have hrest : rest' = c :: rest := by
      have hsub := List.suffix_of_suffix_length_le
        ((List.suffix_cons c' rest').trans hsuffix') hsuffix (by simp [hlength])
      exact hsub.eq_of_length (by simp [hlength])
    subst hrest
    exact (List.isChain_cons_cons.mp ((hkept.spaced hdelay).suffix hsuffix')).1
  · exact List.pairwise_reverse.mpr hkept.once
  · intro now maxTasks s₁ acts s₂ s₃ due hnext hdue hmax hbegin hacts hrun hend
      hquiet'
    simp only [cyclesOf, List.length_reverse]
    have hinv₁ := hinv.step hbegin
    obtain ⟨sys₁, hsys₁, rfl⟩ := step_act hbegin
    obtain ⟨e, he, hid⟩ := hinv.taken hsys₁ hmax hsched hnext hdue
    have hbusy : sys₁.phase ≠ .idle := by
      intro hidle
      simp only [TaskSystem.scheduler, TaskManager.scheduler_batch, hidle] at he
      cases he
    have hknown : id < sys₁.mgr.nextId := hid ▸
      hinv₁.reachable.wellFormed.known e (Scheduler.batch_mem_all _ e he)
    obtain ⟨hinv₂, howed⟩ := run_owedOrServed hacts hinv₁ hbusy hknown
      (fun _ => .inl ⟨⟨e, he, hid⟩, rfl⟩) hrun
    obtain ⟨sys₃, hsys₃, rfl⟩ := step_act hend
    have hquiet₂ := (undisturbed_of_step hinv₂.reachable hsys₃ hquiet').1
    have hempty : s₂.sys.scheduler.batch = [] := by
      simp only [TaskSystem.scheduler, TaskManager.scheduler_batch,
        step_processEnd hsys₃]
      rfl
    have hserved := (howed hquiet₂).resolve_left fun hbatch => by
      rw [hempty] at hbatch
      obtain ⟨⟨e', he', -⟩, -⟩ := hbatch
      cases he'
    exact hserved.2

/-- A series at a fixed rate that is three periods late when it is looked at
first, and is put back once by the exception of another task. -/
theorem run_periodicTiming_late : ∃ s : TimedSystem Unit,
    (s.cyclesOf 1).map Cycle.planned = [0, 5, 10] ∧ s.PeriodicTiming 1
      { firstDue := 0, interval := 5, schedule := .fixedRate } := by
  let run : List (TimedAction Unit) :=
    [.postEveryAfter 0 0 0 5 (some ()) { schedule := .fixedRate },
      .processBegin 16 7, .processStart, .processSettle,
      .post (some ()) { priority := .high }, .callbackReturned 17 17, .processEnd,
      .processBegin 18 7, .processStart, .processSettle, .callbackThrew,
      .exceptionEscaped, .processBegin 19 7, .processStart, .processSettle,
      .callbackReturned 20 20, .processEnd, .processBegin 21 7,
      .processStart].map .act
  obtain ⟨s, hs, hplanned, hseries, hquiet⟩ : ∃ s : TimedSystem Unit,
      Lts.run step {} run = some s ∧
      (s.cyclesOf 1).map Cycle.planned = [0, 5, 10] ∧
      s.series 1 = some { firstDue := 0, interval := 5, schedule := .fixedRate } ∧
      s.sys.Undisturbed 1 :=
    Lts.exists_run_of_decide (by decide)
  exact ⟨s, hplanned, run_periodicTiming hs (.of_checks (by decide)) hseries hquiet⟩

/-- The longest interval there is: the second cycle begins in the next call. -/
theorem periodicTiming_fails : ∃ s : TimedSystem Unit, s.Reachable ∧
    s.series 1 =
      some { firstDue := 1, interval := 9223372036854775807, schedule := .fixedDelay } ∧
    s.sys.Undisturbed 1 ∧ ¬ s.PeriodicTiming 1
      { firstDue := 1, interval := 9223372036854775807, schedule := .fixedDelay } := by
  let run : List (TimedAction Unit) :=
    [.postEveryAfter 1 1 0 9223372036854775807 (some ()) {},
      .processBegin 2 7, .processStart, .processSettle, .callbackReturned 3 3,
      .processEnd, .processBegin 4 7, .processStart].map .act
  obtain ⟨s, hs, hseries, hquiet, hcycles⟩ : ∃ s : TimedSystem Unit,
      Lts.run step {} run = some s ∧
      s.series 1 = some { firstDue := 1, interval := 9223372036854775807,
                          schedule := .fixedDelay } ∧
      s.sys.Undisturbed 1 ∧
      (s.cyclesOf 1).map (fun c => (c.began, c.ended)) = [(2, some 3), (4, none)] :=
    Lts.exists_run_of_decide (by decide)
  refine ⟨s, ⟨0, run, hs⟩, hseries, hquiet, fun h => ?_⟩
  obtain ⟨c, rest, hsplit, hfirst, hrest⟩ := List.map_eq_cons_iff.mp hcycles
  obtain ⟨c', rest', rfl, hsecond, -⟩ := List.map_eq_cons_iff.mp hrest
  obtain ⟨ended, hended, hle⟩ := h.spaced rfl 0 c c' (by rw [hsplit]; rfl) (by rw [hsplit]; rfl)
  simp only [Prod.mk.injEq] at hfirst hsecond
  rw [hfirst.2, Option.some.injEq] at hended
  rw [hsecond.1, ← hended] at hle
  exact absurd hle (by decide)

end TimedSystem

end EventHub
