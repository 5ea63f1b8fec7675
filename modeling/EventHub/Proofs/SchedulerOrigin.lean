import EventHub.Proofs.SchedulerStep

/-!
# Where the tasks of the scheduler come from

An entry that is anywhere in the scheduler was there before the step, has just
been submitted, or has been put back by the return of its own callback. No
two of them share an id, and the sequence numbers handed out so far are below
the next one.
-/

namespace EventHub

variable {τ : Type}

namespace Scheduler

variable {r r' : Scheduler τ} {a : TaskAction τ} {obs : List TaskObs}

/-- Every entry the scheduler knows of. -/
def all (r : Scheduler τ) : List (Entry τ) :=
  r.queued ++ r.batch ++ (r.current.map RunningTask.entry).toList

theorem mem_all {entry : Entry τ} :
    entry ∈ r.all ↔ (∃ priority, entry ∈ r.queue priority) ∨
      entry ∈ r.delayed ∨ entry ∈ r.batch ∨
      ∃ run, r.current = some run ∧ run.entry = entry := by
  simp only [all, queued, ready, List.mem_append, Option.mem_toList,
    Option.map_eq_some_iff]
  constructor
  · rintro (((((h | h) | h) | h) | h) | h)
    · exact .inl ⟨.high, h⟩
    · exact .inl ⟨.normal, h⟩
    · exact .inl ⟨.low, h⟩
    · exact .inr (.inl h)
    · exact .inr (.inr (.inl h))
    · exact .inr (.inr (.inr h))
  · rintro (⟨priority, h⟩ | h | h | h)
    · cases priority
      · exact .inl (.inl (.inl (.inl (.inl h))))
      · exact .inl (.inl (.inl (.inl (.inr h))))
      · exact .inl (.inl (.inl (.inr h)))
    · exact .inl (.inl (.inr h))
    · exact .inl (.inr h)
    · exact .inr h

/-- How an entry got to be in the scheduler after a step. -/
inductive Origin (r : Scheduler τ) (a : TaskAction τ) (obs : List TaskObs)
    (r' : Scheduler τ) (entry : Entry τ) : Prop
  | kept (h : entry ∈ r.all)
  | posted (hid : r.nextId ≤ entry.id) (hid' : entry.id < r'.nextId)
      (hseq : r.nextSeq ≤ entry.seq) (hseq' : entry.seq < r'.nextSeq)
      (hobs : .submitted entry.id ∈ obs) (hperiodic : entry.periodic = false)
  | postedEvery {now now' initialDelay interval : Int} {task : τ}
      {options : PeriodicTaskOptions}
      (ha : a = .postEveryAfter now now' initialDelay interval (some task)
        options)
      (hopen : r.closed = false) (hinterval : 0 < interval)
      (hid' : r.nextId < r'.nextId) (hseq' : r.nextSeq < r'.nextSeq)
      (hobs : .submitted entry.id ∈ obs)
      (hentry : entry =
        { id := r.nextId, seq := r.nextSeq, priority := options.priority,
          due := if initialDelay ≤ 0 then now
            else TaskManager.timeAfter now initialDelay,
          periodic := true, interval := interval,
          periodicSchedule := options.schedule,
          plannedDue := if initialDelay ≤ 0 then now
            else TaskManager.timeAfter now initialDelay,
          task := task })
  | again {now now' due : Int} {run : RunningTask τ}
      (ha : a = .callbackReturned now now') (hcurrent : r.current = some run)
      (hopen : r.closed = false) (hlive : run.cancelled = false)
      (hseq' : r.nextSeq < r'.nextSeq)
      (hdue : run.reschedule = some due ∨ run.reschedule = none ∧
        run.entry.periodic = true ∧
          due = TaskManager.nextPeriodicDue run.entry now)
      (hobs : .returned entry.id ∈ obs)
      (hentry : entry =
        { run.entry with seq := r.nextSeq, due := due, plannedDue := due })

theorem mem_all_enqueue {entry new : Entry τ} {ready : Bool}
    (h : entry ∈ (r.enqueue new ready).all) : entry = new ∨ entry ∈ r.all := by
  rw [mem_all] at h ⊢
  unfold enqueue at h
  cases ready
  · simp only [Bool.false_eq_true, if_false, List.mem_orderedInsert] at h
    rcases h with h | (h | h) | h
    · exact .inr (.inl h)
    · exact .inl h
    · exact .inr (.inr (.inl h))
    · exact .inr (.inr (.inr h))
  · simp only [if_true] at h
    rcases h with ⟨priority, h⟩ | h
    · by_cases hp : priority = new.priority
      · subst hp
        rw [Function.update_self, List.mem_append, List.mem_singleton] at h
        exact h.elim (fun h => .inr (.inl ⟨_, h⟩)) .inl
      · rw [Function.update_of_ne hp] at h
        exact .inr (.inl ⟨_, h⟩)
    · exact .inr (.inr h)

theorem mem_all_of_sublists (hqueue : ∀ priority, ∀ entry ∈ r'.queue priority,
      entry ∈ r.all)
    (hdelayed : ∀ entry ∈ r'.delayed, entry ∈ r.all)
    (hbatch : ∀ entry ∈ r'.batch, entry ∈ r.all)
    (hcurrent : ∀ run, r'.current = some run → run.entry ∈ r.all) :
    ∀ entry ∈ r'.all, entry ∈ r.all := by
  intro entry h
  rcases mem_all.mp h with ⟨priority, h⟩ | h | h | ⟨run, hrun, rfl⟩
  · exact hqueue priority entry h
  · exact hdelayed entry h
  · exact hbatch entry h
  · exact hcurrent run hrun

theorem queue_mem_all (r : Scheduler τ) {priority : TaskPriority} :
    ∀ entry ∈ r.queue priority, entry ∈ r.all :=
  fun _ h => mem_all.mpr (.inl ⟨priority, h⟩)

theorem delayed_mem_all (r : Scheduler τ) : ∀ entry ∈ r.delayed, entry ∈ r.all :=
  fun _ h => mem_all.mpr (.inr (.inl h))

theorem batch_mem_all (r : Scheduler τ) : ∀ entry ∈ r.batch, entry ∈ r.all :=
  fun _ h => mem_all.mpr (.inr (.inr (.inl h)))

theorem current_mem_all (r : Scheduler τ) : ∀ run, r.current = some run → run.entry ∈ r.all :=
  fun run h => mem_all.mpr (.inr (.inr (.inr ⟨run, h, rfl⟩)))

theorem mem_all_remove {id : Nat} : ∀ entry ∈ (r.remove id).all, entry ∈ r.all :=
  mem_all_of_sublists
    (fun _ entry h => r.queue_mem_all entry (List.mem_filter.mp h).1)
    (fun entry h => r.delayed_mem_all entry (List.mem_filter.mp h).1)
    (fun entry h => r.batch_mem_all entry (List.mem_filter.mp h).1)
    r.current_mem_all

/-- Asking something of the running task leaves the entry what it is. -/
theorem mem_all_current {run run' : RunningTask τ} (hcurrent : r.current = some run)
    (hentry : run'.entry = run.entry) :
    ∀ entry ∈ ({ r with current := some run' } : Scheduler τ).all,
      entry ∈ r.all := by
  refine mem_all_of_sublists (fun _ => r.queue_mem_all) r.delayed_mem_all
    r.batch_mem_all fun run'' h => ?_
  cases h
  rw [hentry]
  exact r.current_mem_all run hcurrent

theorem running_eq_some {id : Nat} {run : RunningTask τ} :
    r.running id = some run ↔
      r.current = some run ∧ run.entry.id = id ∧ run.cancelled = false := by
  unfold running
  rw [Option.filter_eq_some_iff]
  simp

theorem mem_all_cancel {id : Nat} : ∀ entry ∈ (r.cancel id).1.all, entry ∈ r.all := by
  unfold cancel
  split
  · exact mem_all_remove
  · split
    · next run hrun =>
        split
        · exact mem_all_current (running_eq_some.mp hrun).1 rfl
        · exact fun _ h => h
    · exact fun _ h => h

theorem mem_all_contextCancel {id : Nat} :
    ∀ entry ∈ (r.contextCancel id).1.all, entry ∈ r.all := by
  unfold contextCancel
  split
  · next run hrun => exact mem_all_current (running_eq_some.mp hrun).1 rfl
  · exact fun _ h => h

theorem mem_all_contextReschedule {id : Nat} {due : Int} :
    ∀ entry ∈ (r.contextReschedule id due).1.all, entry ∈ r.all := by
  unfold contextReschedule
  split
  · exact fun _ h => h
  · split
    · next run hrun => exact mem_all_current (running_eq_some.mp hrun).1 rfl
    · exact fun _ h => h

theorem mem_all_promote {now : Int} : ∀ entry ∈ (r.promote now).all, entry ∈ r.all := by
  refine mem_all_of_sublists (fun priority entry h => ?_)
    (fun entry h => r.delayed_mem_all entry (List.mem_filter.mp h).1)
    r.batch_mem_all r.current_mem_all
  rcases List.mem_append.mp h with h | h
  · exact r.queue_mem_all entry h
  · exact r.delayed_mem_all entry
      (List.mem_filter.mp (List.mem_filter.mp h).1).1

theorem mem_all_take {maxTasks : Nat} : ∀ entry ∈ (r.take maxTasks).all, entry ∈ r.all := by
  refine mem_all_of_sublists (fun priority entry h => ?_) r.delayed_mem_all
    (fun entry h => ?_) r.current_mem_all
  · cases priority <;> exact r.queue_mem_all entry (List.mem_of_mem_drop h)
  · have hready : entry ∈ r.ready := List.mem_of_mem_take h
    simp only [ready, List.mem_append] at hready
    rcases hready with (h | h) | h <;> exact r.queue_mem_all entry h

theorem mem_all_restore : ∀ entry ∈ r.restore.all, entry ∈ r.all := by
  refine mem_all_of_sublists (fun priority entry h => ?_) r.delayed_mem_all
    (List.forall_mem_nil _) r.current_mem_all
  rcases List.mem_append.mp h with h | h
  · exact r.batch_mem_all entry (List.mem_filter.mp h).1
  · exact r.queue_mem_all entry h

theorem mem_all_clear : ∀ entry ∈ r.clear.all, entry ∈ r.all :=
  mem_all_of_sublists (fun _ => List.forall_mem_nil _) (List.forall_mem_nil _)
    r.batch_mem_all r.current_mem_all

theorem mem_all_start {first : Entry τ} {batch : List (Entry τ)}
    (hbatch : r.batch = first :: batch) :
    ∀ entry ∈ (r.start first batch).all, entry ∈ r.all := by
  refine mem_all_of_sublists (fun _ => r.queue_mem_all) r.delayed_mem_all
    (fun entry h => r.batch_mem_all entry ?_) fun run hrun => ?_
  · rw [hbatch]
    exact List.mem_cons_of_mem _ h
  · cases hrun
    exact r.batch_mem_all first (hbatch ▸ List.mem_cons_self)

theorem mem_all_ended {processed : Nat} : ∀ entry ∈
    ({ r with current := none, processed := processed } : Scheduler τ).all,
      entry ∈ r.all :=
  mem_all_of_sublists (fun _ => r.queue_mem_all) r.delayed_mem_all
    r.batch_mem_all nofun

theorem mem_all_concludes {now now' : Int} {run : RunningTask τ}
    (hcurrent : r.current = some run) {entry : Entry τ}
    (h : entry ∈ (r.conclude now now' run).all) :
    Origin r (.callbackReturned now now') [.returned run.entry.id]
      (r.conclude now now' run) entry := by
  replace h := mem_all_ended entry h
  unfold conclude
  unfold finish at h ⊢
  dsimp only at h ⊢
  split at h
  · exact .kept h
  · next hopen =>
      rw [if_neg hopen]
      rw [Bool.or_eq_true, not_or, Bool.not_eq_true, Bool.not_eq_true] at hopen
      split at h
      · next due hreschedule =>
          rcases mem_all_enqueue h with rfl | h
          · exact .again rfl hcurrent hopen.2 hopen.1 (Nat.lt_succ_self _)
              (.inl hreschedule) (List.mem_singleton.mpr rfl) rfl
          · exact .kept h
      · next hreschedule =>
          split at h
          · next hperiodic =>
              rw [if_pos hperiodic]
              rcases mem_all_enqueue h with rfl | h
              · exact .again rfl hcurrent hopen.2 hopen.1 (Nat.lt_succ_self _)
                  (.inr ⟨hreschedule, hperiodic, rfl⟩)
                  (List.mem_singleton.mpr rfl) rfl
              · exact .kept h
          · exact .kept h

/-! ## Submissions -/

open TaskSystem (submittedObs submitted_mem_submittedObs)

/-- What a submission leaves alone. -/
structure Beside (r r' : Scheduler τ) : Prop where
  nextId : r.nextId ≤ r'.nextId
  nextSeq : r.nextSeq ≤ r'.nextSeq
  batch : r'.batch = r.batch
  current : r'.current = r.current
  closed : r'.closed = r.closed

theorem Beside.refl (r : Scheduler τ) : Beside r r :=
  ⟨Nat.le_refl _, Nat.le_refl _, rfl, rfl, rfl⟩

theorem Beside.submit (r : Scheduler τ) (new : Entry τ) (ready : Bool) :
    Beside r (r.submit new ready).1 := by
  unfold Scheduler.submit enqueue
  cases ready <;> exact ⟨Nat.le_succ _, Nat.le_succ _, rfl, rfl, rfl⟩

theorem Beside.postEveryAfter (r : Scheduler τ)
    (now now' initialDelay interval : Int) (task : Option τ)
    (options : PeriodicTaskOptions) :
    Beside r (r.postEveryAfter now now' initialDelay interval task options).1 := by
  unfold Scheduler.postEveryAfter
  cases task with
  | none => exact .refl r
  | some task =>
      dsimp only
      split
      · exact .refl r
      · exact .submit r _ _

/-- What a submission of one-shot tasks adds. -/
structure Added (r r' : Scheduler τ) (ids : List Nat) : Prop
    extends Beside r r' where
  all : ∀ entry ∈ r'.all, entry ∈ r.all ∨
    (r.nextId ≤ entry.id ∧ entry.id < r'.nextId) ∧
      (r.nextSeq ≤ entry.seq ∧ entry.seq < r'.nextSeq) ∧
      entry.id ∈ ids ∧ entry.periodic = false
  fresh : ∀ id ∈ ids, id = 0 ∨ r.nextId ≤ id

theorem Added.refused (r : Scheduler τ) {ids : List Nat}
    (hids : ∀ id ∈ ids, id = 0) : Added r r ids where
  toBeside := .refl r
  all _ h := .inl h
  fresh id h := .inl (hids id h)

theorem mem_all_submit {entry new : Entry τ} {ready : Bool}
    (h : entry ∈ (r.submit new ready).1.all) :
    entry = { new with id := r.nextId, seq := r.nextSeq } ∨ entry ∈ r.all :=
  mem_all_enqueue h

theorem Added.submit {new : Entry τ} (hperiodic : new.periodic = false)
    (ready : Bool) :
    Added r (r.submit new ready).1 [(r.submit new ready).2] where
  toBeside := .submit r new ready
  all entry h := by
    rcases mem_all_submit h with rfl | h
    · exact .inr ⟨⟨Nat.le_refl _, Nat.lt_succ_self _⟩,
        ⟨Nat.le_refl _, Nat.lt_succ_self _⟩, List.mem_singleton.mpr rfl, hperiodic⟩
    · exact .inl h
  fresh id h := .inr (List.mem_singleton.mp h).ge

theorem Added.post (r : Scheduler τ) (task : Option τ) (options : TaskOptions) :
    Added r (r.post task options).1 [(r.post task options).2] := by
  unfold Scheduler.post
  cases task with
  | none => exact .refused r (by simp)
  | some task =>
      dsimp only
      split
      · exact .refused r (by simp)
      · exact .submit rfl _

theorem Added.postAt (r : Scheduler τ) (now due : Int) (task : Option τ)
    (options : TaskOptions) :
    Added r (r.postAt now due task options).1
      [(r.postAt now due task options).2] := by
  unfold Scheduler.postAt
  cases task with
  | none => exact .refused r (by simp)
  | some task =>
      dsimp only
      split
      · exact .refused r (by simp)
      · split
        · exact .submit rfl _
        · exact .submit rfl _

theorem Added.trans {r'' : Scheduler τ} {ids ids' : List Nat}
    (h : Added r r' ids) (h' : Added r' r'' ids') : Added r r'' (ids ++ ids') where
  nextId := h.nextId.trans h'.nextId
  nextSeq := h.nextSeq.trans h'.nextSeq
  batch := h'.batch.trans h.batch
  current := h'.current.trans h.current
  closed := h'.closed.trans h.closed
  all entry hmem := by
    rcases h'.all entry hmem with hmem | ⟨⟨hid, hid'⟩, ⟨hlo, hhi⟩, hids, hper⟩
    · rcases h.all entry hmem with hmem | ⟨⟨hid, hid'⟩, ⟨hlo, hhi⟩, hids, hper⟩
      · exact .inl hmem
      · exact .inr ⟨⟨hid, Nat.lt_of_lt_of_le hid' h'.nextId⟩,
          ⟨hlo, Nat.lt_of_lt_of_le hhi h'.nextSeq⟩,
          List.mem_append_left _ hids, hper⟩
    · exact .inr ⟨⟨h.nextId.trans hid, hid'⟩, ⟨h.nextSeq.trans hlo, hhi⟩,
        List.mem_append_right _ hids, hper⟩
  fresh id hid := by
    rcases List.mem_append.mp hid with hid | hid
    · exact h.fresh id hid
    · exact (h'.fresh id hid).imp_right h.nextId.trans

theorem Added.postBatch (options : TaskOptions) (tasks : List (Option τ)) :
    ∀ r : Scheduler τ,
      Added r (r.postBatch options tasks).1 (r.postBatch options tasks).2 := by
  induction tasks with
  | nil => exact fun r => .refused r (List.forall_mem_nil _)
  | cons task tasks ih =>
      exact fun r => (Added.post r task options).trans (ih _)

theorem Added.origin {ids : List Nat} (h : Added r r' ids)
    (hpos : 0 < r.nextId) {entry : Entry τ} (hmem : entry ∈ r'.all) :
    Origin r a (submittedObs ids) r' entry := by
  rcases h.all entry hmem with hmem | ⟨⟨hid, hid'⟩, ⟨hlo, hhi⟩, hids, hper⟩
  · exact .kept hmem
  · refine .posted hid hid' hlo hhi
      (submitted_mem_submittedObs.mpr ⟨?_, hids⟩) hper
    omega

theorem Step.origin (h : Step r a obs r') (hpos : 0 < r.nextId) :
    ∀ entry ∈ r'.all, Origin r a obs r' entry := by
  intro entry hmem
  cases h
  case post task options => exact (Added.post r task options).origin hpos hmem
  case postAt now due task options =>
    exact (Added.postAt r now due task options).origin hpos hmem
  case postBatch tasks options =>
    exact (Added.postBatch options tasks r).origin hpos hmem
  case postEveryAfter now now' initialDelay interval task options =>
    cases task with
    | none => exact .kept hmem
    | some task =>
        unfold Scheduler.postEveryAfter at hmem ⊢
        dsimp only at hmem ⊢
        split at hmem
        · exact .kept hmem
        · next hopen =>
            rw [if_neg hopen]
            rw [not_or, Bool.not_eq_true, Int.not_le] at hopen
            rcases mem_all_submit hmem with rfl | hmem
            · exact .postedEvery rfl hopen.2 hopen.1 (Nat.lt_succ_self _)
                (Nat.lt_succ_self _) (submitted_mem_submittedObs.mpr
                  ⟨Nat.pos_iff_ne_zero.mp hpos, List.mem_singleton.mpr rfl⟩) rfl
            · exact .kept hmem
  case cancelled id _ => exact .kept (mem_all_cancel entry hmem)
  case contextCancel id => exact .kept (mem_all_contextCancel entry hmem)
  case contextReschedule id due =>
    exact .kept (mem_all_contextReschedule entry hmem)
  case clear ids _ =>
    exact .kept (mem_all_clear entry hmem)
  case begin now maxTasks _ _ _ =>
    exact .kept (mem_all_promote entry (mem_all_take entry hmem))
  case start first batch _ hbatch => exact .kept (mem_all_start hbatch entry hmem)
  case returned now now' run hcurrent => exact mem_all_concludes hcurrent hmem
  case threw run _ => exact .kept (mem_all_ended entry hmem)
  case escaped _ => exact .kept (mem_all_restore entry hmem)
  all_goals exact .kept hmem

/-! ## Sequence numbers and ids -/

theorem nextSeq_finish (now now' : Int) (run : RunningTask τ) :
    r.nextSeq ≤ (r.finish now now' run).nextSeq ∧
      (r.finish now now' run).nextId = r.nextId ∧
      (r.finish now now' run).closed = r.closed := by
  unfold finish enqueue
  dsimp only
  repeat' split
  all_goals exact ⟨by simp, rfl, rfl⟩

theorem cancel_frame (id : Nat) :
    (r.cancel id).1.nextSeq = r.nextSeq ∧ (r.cancel id).1.nextId = r.nextId ∧
      (r.cancel id).1.closed = r.closed := by
  unfold cancel
  repeat' split
  all_goals exact ⟨rfl, rfl, rfl⟩

theorem contextCancel_frame (id : Nat) :
    (r.contextCancel id).1.nextSeq = r.nextSeq ∧
      (r.contextCancel id).1.nextId = r.nextId ∧
      (r.contextCancel id).1.closed = r.closed := by
  unfold contextCancel
  split <;> exact ⟨rfl, rfl, rfl⟩

theorem contextReschedule_frame (id : Nat) (due : Int) :
    (r.contextReschedule id due).1.nextSeq = r.nextSeq ∧
      (r.contextReschedule id due).1.nextId = r.nextId ∧
      (r.contextReschedule id due).1.closed = r.closed := by
  unfold contextReschedule
  repeat' split
  all_goals exact ⟨rfl, rfl, rfl⟩

theorem Step.grows (h : Step r a obs r') :
    r.nextId ≤ r'.nextId ∧ r.nextSeq ≤ r'.nextSeq := by
  cases h
  case post task options =>
    exact ⟨(Added.post r task options).nextId, (Added.post r task options).nextSeq⟩
  case postAt now due task options =>
    have hadded := Added.postAt r now due task options
    exact ⟨hadded.nextId, hadded.nextSeq⟩
  case postBatch tasks options =>
    have hadded := Added.postBatch options tasks r
    exact ⟨hadded.nextId, hadded.nextSeq⟩
  case postEveryAfter now now' initialDelay interval task options =>
    have hbeside :=
      Beside.postEveryAfter r now now' initialDelay interval task options
    exact ⟨hbeside.nextId, hbeside.nextSeq⟩
  case cancelled id _ =>
    obtain ⟨hseq, hid, -⟩ := r.cancel_frame id
    exact ⟨hid.ge, hseq.ge⟩
  case contextCancel id =>
    obtain ⟨hseq, hid, -⟩ := r.contextCancel_frame id
    exact ⟨hid.ge, hseq.ge⟩
  case contextReschedule id due =>
    obtain ⟨hseq, hid, -⟩ := r.contextReschedule_frame id due
    exact ⟨hid.ge, hseq.ge⟩
  case returned now now' run _ =>
    obtain ⟨hseq, hid, -⟩ := nextSeq_finish (r := r) now now' run
    exact ⟨hid.ge, hseq⟩
  all_goals exact ⟨Nat.le_refl _, Nat.le_refl _⟩

end Scheduler

/-! ## Of a manager -/

theorem Accounted.le_one {state : State} {indexed : Prop}
    {ready delayed current unrun : Nat}
    (h : Accounted state indexed ready delayed current unrun) :
    ready + delayed + current + unrun ≤ 1 := by
  cases state <;> simp only [Accounted] at h <;> omega

namespace TaskManager

variable {m : TaskManager τ} {cur : Option (Entry τ)} {unrun : List (Entry τ)}
  {owed : Int} {n : Nat}

theorem copies_filter_le (entries : List (Entry τ)) (p : Entry τ → Bool)
    (id : Nat) : copies (entries.filter p) id ≤ copies entries id :=
  List.Sublist.countP_le List.filter_sublist

/-- No two entries share an id. -/
theorem Inv.nodup_all (h : m.Inv cur unrun owed) :
    ((m.scheduler cur unrun n).all.map Entry.id).Nodup := by
  rw [List.nodup_iff_count_le_one]
  intro id
  have hcount : ((m.scheduler cur unrun n).all.map Entry.id).count id =
      copies (m.scheduler cur unrun n).all id := by
    rw [List.count, List.countP_map, copies]
    refine List.countP_congr fun entry _ => ?_
    simp
  have hcur : ((m.scheduler cur unrun n).current.map RunningTask.entry) = cur := by
    cases cur <;> rfl
  have hle := (h.accounted id).le_one
  have h1 := copies_filter_le (m.ready .high) m.live id
  have h2 := copies_filter_le (m.ready .normal) m.live id
  have h3 := copies_filter_le (m.ready .low) m.live id
  have h4 := copies_filter_le m.delayedHeap m.live id
  have h5 := copies_filter_le unrun m.live id
  rw [hcount, Scheduler.all, hcur]
  simp only [Scheduler.queued, Scheduler.ready, scheduler_queue,
    scheduler_delayed, scheduler_batch, copies_append]
  unfold readyCopies at hle
  omega

end TaskManager

namespace TaskSystem

/-- What a run from `s` establishes for the scheduler and for what it adds to
the log. -/
theorem run_follows {C : TaskAction τ → Prop} {s s' : TaskSystem τ}
    {acts : List (TaskAction τ)} (hs : s.Reachable)
    (P : Scheduler τ → List TaskObs → Prop) (hinit : P s.scheduler [])
    (hstep : ∀ (t t' : TaskSystem τ) (a : TaskAction τ) (obs new : List TaskObs),
      t.Reachable → t.log = obs ++ s.log → C a → P t.scheduler obs →
      Scheduler.Step t.scheduler a new t'.scheduler →
      P t'.scheduler (new ++ obs))
    (hacts : ∀ a ∈ acts, C a) (hrun : Lts.run step s acts = some s') :
    ∃ obs, s'.log = obs ++ s.log ∧ P s'.scheduler obs := by
  have hall : ∀ (acts : List (TaskAction τ)) (t : TaskSystem τ)
      (obs : List TaskObs), t.Reachable → t.log = obs ++ s.log →
      P t.scheduler obs → (∀ a ∈ acts, C a) →
      ∀ t', Lts.run step t acts = some t' →
      ∃ obs', t'.log = obs' ++ s.log ∧ P t'.scheduler obs' := by
    intro acts
    induction acts with
    | nil =>
        intro t obs _ hlog hP _ t' hrun
        cases hrun
        exact ⟨obs, hlog, hP⟩
    | cons a acts ih =>
        intro t obs ht hlog hP hacts t' hrun
        obtain ⟨u, hu, hrest⟩ := Lts.run_cons_eq_some.mp hrun
        obtain ⟨new, hnew, hfollows⟩ := ht.follows hu
        rw [List.forall_mem_cons] at hacts
        refine ih u (new ++ obs) (ht.trans_run (Lts.run_one hu)) ?_
          (hstep t u a obs new ht hlog hacts.1 hP hfollows) hacts.2 t' hrest
        rw [hnew, hlog, List.append_assoc]
  exact hall acts s [] hs rfl hinit hacts s' hrun

theorem Reachable.invariant_follows {s : TaskSystem τ} (hs : s.Reachable)
    (P : Scheduler τ → List TaskObs → Prop) (hinit : P {} [])
    (hstep : ∀ (t t' : TaskSystem τ) (a : TaskAction τ) (new : List TaskObs),
      t.Reachable → P t.scheduler t.log →
      Scheduler.Step t.scheduler a new t'.scheduler →
      P t'.scheduler (new ++ t.log)) : P s.scheduler s.log := by
  obtain ⟨acts, hrun⟩ := hs
  obtain ⟨obs, hlog, hP⟩ := run_follows (C := fun _ => True) (.refl _) P hinit
    (fun t t' a obs new ht hlog _ hP h => by
      have hsame : t.log = obs := hlog.trans (List.append_nil obs)
      rw [← hsame] at hP ⊢
      exact hstep t t' a new ht hP h)
    (fun _ _ => trivial) hrun
  rw [hlog]
  exact (List.append_nil obs).symm ▸ hP

/-- The scheduler of a manager: ids are unique and handed out, sequence
numbers too, and every list is in its order. -/
structure WellFormed (r : Scheduler τ) : Prop where
  positive : 0 < r.nextId
  nodup : (r.all.map Entry.id).Nodup
  known : ∀ entry ∈ r.all, entry.id < r.nextId
  seq : ∀ entry ∈ r.all, entry.seq < r.nextSeq
  priority : ∀ priority, ∀ entry ∈ r.queue priority, entry.priority = priority
  ordered : HeapOrdered r.delayed

theorem Reachable.wellFormed {s : TaskSystem τ} (hs : s.Reachable) :
    WellFormed s.scheduler := by
  have hinv : s.mgr.Inv s.phase.current s.phase.unrun s.phase.owed := hs.inv
  have hseq := hs.invariant_follows
    (fun r _ => ∀ entry ∈ r.all, entry.seq < r.nextSeq) (List.forall_mem_nil _)
    fun t t' a new ht hP h entry hmem => by
      have hpos : 0 < t.scheduler.nextId := ht.inv.positive
      have hgrows := h.grows.2
      cases h.origin hpos entry hmem with
      | kept hold => exact Nat.lt_of_lt_of_le (hP entry hold) hgrows
      | posted _ _ _ hseq' => exact hseq'
      | postedEvery _ _ _ _ hseq' _ hentry => rw [hentry]; exact hseq'
      | again _ _ _ _ hseq' _ _ hentry => rw [hentry]; exact hseq'
  have hknown := hs.invariant_follows
    (fun r _ => ∀ entry ∈ r.all, entry.id < r.nextId) (List.forall_mem_nil _)
    fun t t' a new ht hP h entry hmem => by
      have hpos : 0 < t.scheduler.nextId := ht.inv.positive
      have hgrows := h.grows.1
      cases h.origin hpos entry hmem with
      | kept hold => exact Nat.lt_of_lt_of_le (hP entry hold) hgrows
      | posted _ hid' => exact hid'
      | postedEvery _ _ _ hid' _ _ hentry => rw [hentry]; exact hid'
      | again _ hcurrent _ _ _ _ _ hentry =>
          have hrun := hP _ (Scheduler.current_mem_all _ _ hcurrent)
          rw [hentry]
          exact Nat.lt_of_lt_of_le hrun hgrows
  exact
    { positive := hinv.positive
      nodup := hinv.nodup_all
      known := hknown
      seq := hseq
      priority := fun priority entry hmem =>
        hinv.priority priority entry (List.mem_filter.mp hmem).1
      ordered := hs.heapOrdered.sublist List.filter_sublist }

end TaskSystem

end EventHub
