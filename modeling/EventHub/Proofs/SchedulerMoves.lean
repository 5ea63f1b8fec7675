import EventHub.Proofs.TaskOutcome

/-!
# Where the entry of one task goes

A task that nobody disturbs is moved by four steps only: a call of `process()`
that begins, its own start, the end of its own callback and an exception that
escapes. Every other step leaves it where it is.
-/

namespace EventHub

namespace Scheduler

variable {τ : Type} {r r' r'' : Scheduler τ} {a : TaskAction τ}
  {obs : List TaskObs} {id : Nat}

/-- The entry whose callback is on the stack. -/
def stacked (r : Scheduler τ) : List (Entry τ) :=
  (r.current.map RunningTask.entry).toList

/-- The entries of `id` lie where they lay. -/
structure Same (id : Nat) (r r' : Scheduler τ) : Prop where
  ready : ∀ e : Entry τ, e.id = id → (e ∈ r'.ready ↔ e ∈ r.ready)
  delayed : ∀ e : Entry τ, e.id = id → (e ∈ r'.delayed ↔ e ∈ r.delayed)
  batch : ∀ e : Entry τ, e.id = id → (e ∈ r'.batch ↔ e ∈ r.batch)
  stacked : ∀ e : Entry τ, e.id = id → (e ∈ r'.stacked ↔ e ∈ r.stacked)

theorem Same.refl (r : Scheduler τ) : Same id r r :=
  ⟨fun _ _ => Iff.rfl, fun _ _ => Iff.rfl, fun _ _ => Iff.rfl, fun _ _ => Iff.rfl⟩

theorem Same.trans (h : Same id r r') (h' : Same id r' r'') : Same id r r'' where
  ready e he := (h'.ready e he).trans (h.ready e he)
  delayed e he := (h'.delayed e he).trans (h.delayed e he)
  batch e he := (h'.batch e he).trans (h.batch e he)
  stacked e he := (h'.stacked e he).trans (h.stacked e he)

theorem mem_all_iff {e : Entry τ} :
    e ∈ r.all ↔ e ∈ r.ready ∨ e ∈ r.delayed ∨ e ∈ r.batch ∨ e ∈ r.stacked := by
  simp only [all, queued, List.mem_append, stacked, or_assoc]

theorem Same.all (h : Same id r r') {e : Entry τ} (he : e.id = id) :
    e ∈ r'.all ↔ e ∈ r.all := by
  rw [mem_all_iff, mem_all_iff, h.ready e he, h.delayed e he, h.batch e he,
    h.stacked e he]

theorem mem_ready_iff {e : Entry τ} :
    e ∈ r.ready ↔ ∃ priority, e ∈ r.queue priority := by
  simp only [Scheduler.ready, List.mem_append]
  constructor
  · rintro ((h | h) | h)
    · exact ⟨.high, h⟩
    · exact ⟨.normal, h⟩
    · exact ⟨.low, h⟩
  · rintro ⟨priority, h⟩
    cases priority
    · exact .inl (.inl h)
    · exact .inl (.inr h)
    · exact .inr h

theorem mem_ready_enqueue {e new : Entry τ} {ready : Bool} :
    e ∈ (r.enqueue new ready).ready ↔ e = new ∧ ready ∨ e ∈ r.ready := by
  rw [mem_ready_iff, mem_ready_iff]
  unfold enqueue
  cases ready
  · simp
  · simp only [if_true, and_true]
    constructor
    · rintro ⟨priority, h⟩
      by_cases hp : priority = new.priority
      · subst hp
        rw [Function.update_self, List.mem_append, List.mem_singleton] at h
        exact h.elim (fun h => .inr ⟨_, h⟩) .inl
      · rw [Function.update_of_ne hp] at h
        exact .inr ⟨_, h⟩
    · rintro (rfl | ⟨priority, h⟩)
      · exact ⟨e.priority, by simp⟩
      · refine ⟨priority, ?_⟩
        by_cases hp : priority = new.priority
        · subst hp
          simp [h]
        · rw [Function.update_of_ne hp]
          exact h

theorem mem_delayed_enqueue {e new : Entry τ} {ready : Bool} :
    e ∈ (r.enqueue new ready).delayed ↔
      e = new ∧ ready = false ∨ e ∈ r.delayed := by
  unfold enqueue
  cases ready <;> simp

/-- Enqueueing another task. -/
theorem Same.enqueue {new : Entry τ} (hne : new.id ≠ id) (ready : Bool) :
    Same id r (r.enqueue new ready) where
  ready e he := by
    have hnew : e ≠ new := fun heq => hne (heq ▸ he)
    rw [mem_ready_enqueue]
    simp [hnew]
  delayed e he := by
    have hnew : e ≠ new := fun heq => hne (heq ▸ he)
    rw [mem_delayed_enqueue]
    simp [hnew]
  batch e _ := by
    unfold Scheduler.enqueue
    cases ready <;> exact Iff.rfl
  stacked e _ := by
    unfold Scheduler.enqueue
    cases ready <;> exact Iff.rfl

theorem Same.submit (hid : id < r.nextId) (new : Entry τ) (ready : Bool) :
    Same id r (r.submit new ready).1 := by
  have h : Same id r (r.enqueue { new with id := r.nextId, seq := r.nextSeq }
      ready) := .enqueue (Nat.ne_of_gt hid) ready
  exact ⟨h.ready, h.delayed, h.batch, h.stacked⟩

theorem Same.post (hid : id < r.nextId) (task : Option τ) (options : TaskOptions) :
    Same id r (r.post task options).1 := by
  unfold Scheduler.post
  cases task with
  | none => exact .refl r
  | some task =>
      dsimp only
      split
      · exact .refl r
      · exact .submit hid _ _

theorem Same.postAt (hid : id < r.nextId) (now due : Int) (task : Option τ)
    (options : TaskOptions) : Same id r (r.postAt now due task options).1 := by
  unfold Scheduler.postAt
  cases task with
  | none => exact .refl r
  | some task =>
      dsimp only
      split
      · exact .refl r
      · split
        · exact .submit hid _ _
        · exact .submit hid _ _

theorem Same.postEveryAfter (hid : id < r.nextId)
    (now now' initialDelay interval : Int) (task : Option τ)
    (options : PeriodicTaskOptions) :
    Same id r (r.postEveryAfter now now' initialDelay interval task options).1 := by
  unfold Scheduler.postEveryAfter
  cases task with
  | none => exact .refl r
  | some task =>
      dsimp only
      split
      · exact .refl r
      · exact .submit hid _ _

theorem Same.postBatch (options : TaskOptions) (tasks : List (Option τ)) :
    ∀ r : Scheduler τ, id < r.nextId → Same id r (r.postBatch options tasks).1 := by
  induction tasks with
  | nil => exact fun r _ => .refl r
  | cons task tasks ih =>
      intro r hid
      have hgrows := (Added.post r task options).nextId
      exact (Same.post hid task options).trans (ih _ (Nat.lt_of_lt_of_le hid hgrows))

/-- Removing another task. -/
theorem Same.remove {j : Nat} (hne : j ≠ id) : Same id r (r.remove j) := by
  have hkeep : ∀ {l : List (Entry τ)} {e : Entry τ}, e.id = id →
      (e ∈ l.filter (fun entry => entry.id ≠ j) ↔ e ∈ l) := by
    rintro l e rfl
    rw [List.mem_filter, decide_eq_true_eq]
    exact and_iff_left (Ne.symm hne)
  constructor
  · intro e he
    rw [mem_ready_iff, mem_ready_iff]
    exact exists_congr fun _ => hkeep he
  · exact fun e he => hkeep he
  · exact fun e he => hkeep he
  · exact fun _ _ => Iff.rfl

/-- Asking something of the running task leaves its entry what it is. -/
theorem Same.current {run run' : RunningTask τ} (hcurrent : r.current = some run)
    (hentry : run'.entry = run.entry) :
    Same id r { r with current := some run' } where
  ready _ _ := Iff.rfl
  delayed _ _ := Iff.rfl
  batch _ _ := Iff.rfl
  stacked e _ := by simp [Scheduler.stacked, hcurrent, hentry]

theorem Same.cancel {j : Nat} (hne : j ≠ id) : Same id r (r.cancel j).1 := by
  rcases r.cancel_result j with ⟨-, hres⟩ | ⟨run, hrun, hres⟩ | hres <;> rw [hres]
  · exact .remove hne
  · exact .current (running_eq_some.mp hrun).1 rfl
  · exact .refl r

theorem Same.contextCancel (j : Nat) : Same id r (r.contextCancel j).1 := by
  unfold Scheduler.contextCancel
  cases hrun : r.running j with
  | some run => exact .current (running_eq_some.mp hrun).1 rfl
  | none => exact .refl r

theorem Same.contextReschedule (j : Nat) (due : Int) :
    Same id r (r.contextReschedule j due).1 := by
  unfold Scheduler.contextReschedule
  split
  · exact .refl r
  · cases hrun : r.running j with
    | some run => exact .current (running_eq_some.mp hrun).1 rfl
    | none => exact .refl r

/-- Nothing of `id` was queued. -/
theorem Same.clear (h : ∀ e ∈ r.queued, e.id ≠ id) : Same id r r.clear where
  ready e he := by
    have hready : e ∉ r.ready := fun hmem => h e (List.mem_append_left _ hmem) he
    exact iff_of_false List.not_mem_nil hready
  delayed e he := by
    have hdelayed : e ∉ r.delayed := fun hmem => h e (List.mem_append_right _ hmem) he
    simp [Scheduler.clear, hdelayed]
  batch _ _ := Iff.rfl
  stacked _ _ := Iff.rfl

theorem batch_conclude (r : Scheduler τ) (now now' : Int) (run : RunningTask τ) :
    (r.conclude now now' run).batch = r.batch := by
  unfold Scheduler.conclude finish enqueue
  dsimp only
  repeat' split
  all_goals rfl

/-- Another callback has ended, and its task is enqueued again or not. -/
theorem Same.conclude {run : RunningTask τ} (hcurrent : r.current = some run)
    (hne : run.entry.id ≠ id) (now now' : Int) :
    Same id r (r.conclude now now' run) := by
  have hfinish : Same id r (r.finish now now' run) := by
    have hagain : ∀ due, Same id r { r.enqueue
        { run.entry with seq := r.nextSeq, due := due, plannedDue := due }
        (due ≤ now') with nextSeq := r.nextSeq + 1 } := by
      intro due
      have h : Same id r (r.enqueue
        { run.entry with seq := r.nextSeq, due := due, plannedDue := due }
        (due ≤ now')) :=
        .enqueue (show ({ run.entry with seq := r.nextSeq, due := due,
                                         plannedDue := due } : Entry τ).id ≠ id
          from hne) _
      exact ⟨h.ready, h.delayed, h.batch, h.stacked⟩
    unfold finish
    dsimp only
    split
    · exact .refl r
    · split
      · exact hagain _
      · split
        · exact hagain _
        · exact .refl r
  refine ⟨hfinish.ready, hfinish.delayed, hfinish.batch, fun e he => ?_⟩
  have hnot : e ≠ run.entry := fun heq => hne (heq ▸ he)
  simp [Scheduler.conclude, Scheduler.stacked, hcurrent, hnot]

theorem Same.start {first : Entry τ} {batch : List (Entry τ)}
    (hcurrent : r.current = none) (hbatch : r.batch = first :: batch)
    (hne : first.id ≠ id) : Same id r (r.start first batch) where
  ready _ _ := Iff.rfl
  delayed _ _ := Iff.rfl
  batch e he := by
    have hnot : e ≠ first := fun heq => hne (heq ▸ he)
    simp [Scheduler.start, hbatch, hnot]
  stacked e he := by
    have hnot : e ≠ first := fun heq => hne (heq ▸ he)
    simp [Scheduler.start, Scheduler.stacked, hcurrent, hnot]

/-- What a step does with the entry of an undisturbed task. -/
inductive Moved (id : Nat) (r : Scheduler τ) :
    TaskAction τ → List TaskObs → Scheduler τ → Prop
  | same {a : TaskAction τ} {obs : List TaskObs} {r' : Scheduler τ}
      (h : Same id r r') (hidle : .started id ∉ obs ∧ .returned id ∉ obs) :
      Moved id r a obs r'
  | begin (now : Int) (maxTasks : Nat) (hcurrent : r.current = none)
      (hbatch : r.batch = []) :
      Moved id r (.processBegin now maxTasks) []
        { (r.promote now).take maxTasks with processed := 0 }
  | start {entry : Entry τ} {batch : List (Entry τ)} (hid : entry.id = id)
      (hcurrent : r.current = none) (hbatch : r.batch = entry :: batch) :
      Moved id r .processStart [.started id] (r.start entry batch)
  | returned (now now' : Int) {run : RunningTask τ} (hid : run.entry.id = id)
      (hcurrent : r.current = some run) :
      Moved id r (.callbackReturned now now') [.returned id]
        (r.conclude now now' run)
  | escaped (hcurrent : r.current = none) :
      Moved id r .exceptionEscaped [.processThrew] r.restore

theorem Step.moved (h : Step r a obs r') (hid : id < r.nextId)
    (hquiet : ∀ o ∈ obs, o.disturbs id = false) : Moved id r a obs r' := by
  have hsubmitted : ∀ ids, .started id ∉ TaskSystem.submittedObs ids ∧
      .returned id ∉ TaskSystem.submittedObs ids := by
    refine fun ids => ⟨fun hmem => ?_, fun hmem => ?_⟩ <;>
    · obtain ⟨j, -, -, heq⟩ := TaskSystem.mem_submittedObs.mp hmem
      cases heq
  cases h
  case post task options => exact .same (.post hid task options) (hsubmitted _)
  case postAt now due task options =>
    exact .same (.postAt hid now due task options) (hsubmitted _)
  case postEveryAfter =>
    exact .same (.postEveryAfter hid _ _ _ _ _ _) (hsubmitted _)
  case postBatch tasks options =>
    exact .same (.postBatch options tasks r hid) (hsubmitted _)
  case cancelled j hwon =>
    refine .same (.cancel fun heq => ?_) (by simp)
    have hdisturbs := hquiet _ (List.mem_singleton.mpr rfl)
    simp [TaskObs.disturbs, TaskObs.withdraws, heq] at hdisturbs
  case contextCancel j => exact .same (.contextCancel j) (by simp)
  case contextReschedule j due => exact .same (.contextReschedule j due) (by simp)
  case clear ids hids =>
    refine .same (.clear fun e he heq => ?_) (by simp)
    have hmem : TaskObs.cleared id ∈ (ids.map TaskObs.cleared).reverse :=
      List.mem_reverse.mpr (List.mem_map_of_mem ((hids id).mpr ⟨e, he, heq⟩))
    have hdisturbs := hquiet _ hmem
    simp [TaskObs.disturbs, TaskObs.withdraws] at hdisturbs
  case begin now maxTasks _ hcurrent hbatch => exact .begin now maxTasks hcurrent hbatch
  case start entry batch hcurrent hbatch =>
    by_cases heq : entry.id = id
    · subst heq
      exact .start rfl hcurrent hbatch
    · exact .same (.start hcurrent hbatch heq) (by simp [Ne.symm heq])
  case returned now now' run hcurrent =>
    by_cases heq : run.entry.id = id
    · subst heq
      exact .returned now now' rfl hcurrent
    · exact .same (.conclude hcurrent heq now now') (by simp [Ne.symm heq])
  case threw run hcurrent =>
    have hne : run.entry.id ≠ id := by
      intro heq
      have hdisturbs := hquiet _ (List.mem_singleton.mpr rfl)
      simp [TaskObs.disturbs, heq] at hdisturbs
    refine .same ⟨fun _ _ => Iff.rfl, fun _ _ => Iff.rfl, fun _ _ => Iff.rfl,
      fun e he => ?_⟩ (by simp)
    have hnot : e ≠ run.entry := fun heq => hne (heq ▸ he)
    simp [stacked, hcurrent, hnot]
  case escaped hcurrent => exact .escaped hcurrent
  all_goals
    exact .same ⟨fun _ _ => Iff.rfl, fun _ _ => Iff.rfl, fun _ _ => Iff.rfl,
      fun _ _ => Iff.rfl⟩ (by simp)

/-- A closed manager stays closed. -/
theorem Step.closed (h : Step r a obs r') (hclosed : r.closed = true) :
    r'.closed = true := by
  cases h
  case post task options => exact (Added.post r task options).closed.trans hclosed
  case postAt now due task options =>
    exact (Added.postAt r now due task options).closed.trans hclosed
  case postEveryAfter =>
    exact (Beside.postEveryAfter r _ _ _ _ _ _).closed.trans hclosed
  case postBatch tasks options =>
    exact (Added.postBatch options tasks r).closed.trans hclosed
  case close => rfl
  case cancelled j _ => exact (r.cancel_frame j).2.2.trans hclosed
  case contextCancel j => exact (r.contextCancel_frame j).2.2.trans hclosed
  case contextReschedule j due =>
    exact (r.contextReschedule_frame j due).2.2.trans hclosed
  case returned now now' run _ =>
    exact (nextSeq_finish now now' run).2.2.trans hclosed
  all_goals exact hclosed

end Scheduler

end EventHub
