import EventHub.Proofs.CalendarCancel
import EventHub.Proofs.CalendarOccurrences

/-!
# The queued occurrence of a rule

`schedule_one` queues a task before it writes down its id and its time, and a
context can queue the task of an occurrence again. Where neither is used in
between, a rule has at most one queued task, it names that task, and what
`run_due` takes is what its task was queued for.
-/

namespace EventHub

open CalendarFrame Threads

variable {ι : Type}

namespace CalendarFrame

/-- The task that `TaskManager::cancel` was called for. -/
def cancels (i : Nat) : CalendarFrame → Bool
  | .cancelTask j _ => j = i
  | _ => false

end CalendarFrame

namespace CalendarSystem

/-- `run_due` does not find its rule while its own task is not published. -/
def Unraced (s : CalendarSystem ι) (_ : ι) (f : CalendarFrame) : Prop :=
  ∀ x ∈ f.takes, s.world.gone x.1 = false →
    ¬ Threads.Exists (publishes x.1 x.2) s.frames

instance [Fintype ι] (s : CalendarSystem ι) (t : ι) (f : CalendarFrame) :
    Decidable (s.Unraced t f) :=
  inferInstanceAs (Decidable (∀ x ∈ f.takes, _))

/-- `TaskManager::cancel` of task `i` is under way. -/
def Withdrawing (s : CalendarSystem ι) (i : Nat) : Prop :=
  Threads.Exists (cancels i) s.frames ∨
    ∃ loaded, s.world.tasks.cancelling = some (i, loaded)

/-- One queued task for each rule. -/
structure QueuedOnce (s : CalendarSystem ι) : Prop where
  one : ∀ i j, ∀ o ∈ s.world.job i, ∀ o' ∈ s.world.job j,
    s.world.tasks.waits i → s.world.tasks.waits j → o.rule = o'.rule → i = j
  /-- The task is the one that the rule names, unless `schedule_one` is about to
  publish it or, the rule being gone, is taking it back. -/
  named : ∀ i, ∀ o ∈ s.world.job i, s.world.tasks.waits i →
    (s.world.states o.rule).scheduledTaskId = i ∨
      Threads.Exists (publishes o.rule i) s.frames ∨
        s.world.gone o.rule ∧ s.Withdrawing i
  consumed : ∀ r i planned taskId, .consumed r i planned taskId ∈ s.world.log →
    taskId = i ∧ s.world.job i = some { rule := r, plannedUtcMs := planned }

end CalendarSystem

namespace TaskSystem

variable {τ : Type} {s s' : TaskSystem τ} {a : TaskAction τ}

/-- A cancellation goes on until its exchange, after which the task does not
wait. -/
theorem step_held (hloaded : s.Loaded) {i : Nat} {loaded : State}
    (hheld : s.cancelling = some (i, loaded)) (h : s.step a = some s') :
    s'.cancelling = some (i, loaded) ∨ s'.waits i = false := by
  by_cases hexchange : a = .cancelExchange
  · subst hexchange
    obtain ⟨-, -, j, loaded', hj, hw⟩ := step_cancelExchange hloaded h
    rw [hheld] at hj
    cases hj
    exact .inr hw
  · by_cases hload : ∃ k, a = .cancelLoad k
    · obtain ⟨k, rfl⟩ := hload
      simp [TaskSystem.step, hheld] at h
    · refine .inl ?_
      rw [step_cancelling (fun k hk => hload ⟨k, hk⟩) hexchange h]
      exact hheld

end TaskSystem

section Move

variable {a : CalendarAction ι} {mode : CalendarMode} {w w' : CalendarWorld}
  {f : CalendarFrame} {fs : List CalendarFrame}

/-- `TaskManager::cancel` finds the task, or it does not wait. -/
theorem CalendarMove.cancels (h : CalendarMove a mode w f w' fs)
    (hinv : w.tasks.Inv) {i : Nat} (hf : f.cancels i) :
    (∃ loaded, w'.tasks.cancelling = some (i, loaded)) ∨
      w'.tasks.waits i = false := by
  cases h
  case plain hf' => cases f <;> first | cases hf | cases hf'
  case loaded j called tasks h hheld | unloaded j called tasks h hfree =>
    have hj : j = i := of_decide_eq_true hf
    subst hj
    obtain ⟨hmgr, -, hsome | ⟨-, hw⟩⟩ := TaskSystem.step_cancelLoad hinv h
    · exact .inl ⟨_, hsome⟩
    · refine .inr ?_
      unfold TaskSystem.waits at hw ⊢
      dsimp only
      rw [hmgr]
      exact hw
  all_goals cases hf

/-- `schedule_one` publishes its task, or takes it back. -/
theorem CalendarMove.publishes_or (h : CalendarMove a mode w f w' fs) {r i : Nat}
    (hf : f.publishes r i) :
    (w'.states r).scheduledTaskId = i ∨ w.gone r ∧ ∃ g ∈ fs, g.cancels i := by
  cases h
  case published q planned observed j caller hkept info hinfo =>
    simp only [CalendarFrame.publishes, Bool.and_eq_true, decide_eq_true_eq] at hf
    obtain ⟨rfl, rfl⟩ := hf
    refine .inl ?_
    rw [CalendarWorld.emit_states, CalendarWorld.publish_states_self]
  case unpublished hgone | unpublishedAfterRun hgone =>
    simp only [CalendarFrame.publishes, Bool.and_eq_true, decide_eq_true_eq] at hf
    exact .inr ⟨hf.1 ▸ hgone, _, List.mem_cons_self, decide_eq_true hf.2⟩
  case plain hf' => cases f <;> first | cases hf | cases hf'
  all_goals cases hf

end Move

/-! ## What was queued is what is taken -/

/-- What the log says of the run of a task is what the task was queued for. -/
def CalendarObs.Exact (job : Nat → Option Occurrence) : CalendarObs → Prop
  | .consumed r i planned taskId =>
      taskId = i ∧ job i = some { rule := r, plannedUtcMs := planned }
  | .emitted r (some i) info =>
      info.scheduledTaskId = i ∧
        job i = some { rule := r, plannedUtcMs := info.plannedUtcMs }
  | .asked r (some i) after _ =>
      job i = some { rule := r, plannedUtcMs := after }
  | _ => True

/-- So are the local variables of `run_due`. -/
def CalendarFrame.Exact (job : Nat → Option Occurrence) : CalendarFrame → Prop
  | .running run _ =>
      run.taskId = run.task ∧
        job run.task = some { rule := run.rule, plannedUtcMs := run.planned }
  | _ => True

section Move

variable {a : CalendarAction ι} {mode : CalendarMode} {w w' : CalendarWorld}
  {f : CalendarFrame} {fs : List CalendarFrame} {job : Nat → Option Occurrence}

theorem CalendarObs.Exact.mono {job' : Nat → Option Occurrence} {x : CalendarObs}
    (h : x.Exact job) (hjob : ∀ i o, o ∈ job i → o ∈ job' i) : x.Exact job' := by
  cases x with
  | consumed r i planned taskId => exact ⟨h.1, hjob i _ h.2⟩
  | emitted r run info =>
      cases run with
      | none => trivial
      | some i => exact ⟨h.1, hjob i _ h.2⟩
  | asked r run after observed =>
      cases run with
      | none => trivial
      | some i => exact hjob i _ h
  | _ => trivial

theorem CalendarFrame.Exact.mono {job' : Nat → Option Occurrence}
    {g : CalendarFrame} (h : g.Exact job) (hjob : ∀ i o, o ∈ job i → o ∈ job' i) :
    g.Exact job' := by
  cases g with
  | running run pc => exact ⟨h.1, hjob _ _ h.2⟩
  | _ => trivial

/-- A run keeps its variables, and begins with what it takes. -/
theorem CalendarMove.exact_frames (h : CalendarMove a mode w f w' fs)
    (hf : f.Exact job)
    (htakes : ∀ r i, f = .runDue r i → w.gone r = false →
      (w.states r).scheduledTaskId = i ∧
        job i = some { rule := r, plannedUtcMs := (w.states r).plannedUtcMs }) :
    ∀ g ∈ fs, g.Exact job := by
  cases h
  case consumed r i hkept =>
    exact List.forall_mem_singleton.mpr (htakes r i rfl hkept)
  case emitted | entered | walked | stopped | counted | finished | askedNext |
      askedAgain | missedNext =>
    exact List.forall_mem_singleton.mpr hf
  case started | unpublished | unpublishedAfterRun | cancelTaken |
      onePickedAlone =>
    exact List.forall_mem_cons.mpr ⟨trivial, List.forall_mem_singleton.mpr trivial⟩
  case onePicked =>
    exact List.forall_mem_cons.mpr
      ⟨trivial, List.forall_mem_cons.mpr
        ⟨trivial, List.forall_mem_singleton.mpr trivial⟩⟩
  case plain | added | produced | nothingBegan | unloaded | exchanged |
      processed | otherSettled | refused | published | dropped | rethrown |
      lastEmitted | escaped | completed | cancelRefused | cancelIgnored |
      cancelReturned | cancelDone | noneFound | allReturned | oneEmitted =>
    exact List.forall_mem_nil _
  all_goals exact List.forall_mem_singleton.mpr trivial

theorem CalendarMove.exact_log (h : CalendarMove a mode w f w' fs)
    (hf : f.Exact job)
    (htakes : ∀ r i, f = .runDue r i → w.gone r = false →
      (w.states r).scheduledTaskId = i ∧
        job i = some { rule := r, plannedUtcMs := (w.states r).plannedUtcMs })
    (hlog : ∀ x ∈ w.log, x.Exact job) : ∀ x ∈ w'.log, x.Exact job := by
  have hemit {x : CalendarWorld} {r : Nat} {run : Option Nat}
      {info : CalendarObserverInfo} (hx : x.log = w.log)
      (hnew : (CalendarObs.emitted r run info).Exact job) :
      ∀ y ∈ (x.emit r run info).log, y.Exact job := by
    unfold CalendarWorld.emit
    dsimp only
    rw [hx]
    split
    · exact List.forall_mem_cons.mpr ⟨hnew, hlog⟩
    · exact hlog
  cases h
  case announced | missedFirst | published | missedNext | cancelEmitted |
      oneEmitted =>
    exact hemit (by rfl) trivial
  case emitted | lastEmitted => exact hemit rfl hf
  case consumed r i hkept =>
    exact List.forall_mem_cons.mpr ⟨htakes r i rfl hkept, hlog⟩
  case askedNext => exact List.forall_mem_cons.mpr ⟨hf.2, hlog⟩
  case added | refused | askedFirst | entered | askedAgain | cancelRefused |
      cancelReturned | noneFound | allReturned =>
    exact List.forall_mem_cons.mpr ⟨trivial, hlog⟩
  all_goals exact hlog

end Move

namespace CalendarSystem

/-- What frames and log say of runs, and that queued tasks are named. -/
structure NameInv (s : CalendarSystem ι) : Prop where
  named : ∀ i, ∀ o ∈ s.world.job i, s.world.tasks.waits i →
    (s.world.states o.rule).scheduledTaskId = i ∨
      Threads.Exists (publishes o.rule i) s.frames ∨
        s.world.gone o.rule ∧ s.Withdrawing i
  frames : Forall (CalendarFrame.Exact s.world.job) s.frames
  log : ∀ x ∈ s.world.log, x.Exact s.world.job

theorem NameInv.init : NameInv ({} : CalendarSystem ι) where
  named := by nofun
  frames t f hf := by
    rw [List.mem_singleton.mp hf]
    trivial
  log := by nofun

variable [Fintype ι] [DecidableEq ι] {s s' : CalendarSystem ι}
  {a : CalendarAction ι} {t : ι} {f : CalendarFrame} {fs : List CalendarFrame}

omit [DecidableEq ι] in
/-- What is not taken too early is named. -/
theorem NamedTask.takesNamed (h : s.NamedTask) (hcond : AtTop Unraced s a) :
    AtTop TakesNamed s a := by
  cases a with
  | advance u reading =>
      intro f hf x hx hkept
      obtain ⟨rest, hrest⟩ := List.head?_eq_some_iff.mp hf
      obtain ⟨r, i⟩ := x
      have hentering : s.Entering r i := by
        refine h.entering.top hrest r i ?_
        rw [eq_runDue_of_takes hx]
        simp [enters]
      rcases hentering.2.2 with hgone | hname | hex
      · cases hgone.symm.trans hkept
      · exact hname
      · exact absurd hex (hcond f hf _ hx hkept)
  | call | ret | throw | «catch» => trivial

/-- A task that is named stays so while it waits. -/
theorem NameInv.named_step (h : s.NameInv) (hsingle : s.SingleTask)
    (hnamed : s.NamedTask) (hs : s.Reachable) (hst : Stepped s a t f fs s')
    (hcond : AtTop RunsOnce s a) {i : Nat} {o : Occurrence}
    (ho : o ∈ s'.world.job i) (hw' : s'.world.tasks.waits i) :
    (s'.world.states o.rule).scheduledTaskId = i ∨
      Threads.Exists (publishes o.rule i) s'.frames ∨
        s'.world.gone o.rule ∧ s'.Withdrawing i := by
  have hold (ho : o ∈ s.world.job i) :
      (s'.world.states o.rule).scheduledTaskId = i ∨
        Threads.Exists (publishes o.rule i) s'.frames ∨
          s'.world.gone o.rule ∧ s'.Withdrawing i := by
    have hw := hsingle.waits_of hs hst hcond ho hw'
    have hgone (hgone : s.world.gone o.rule) : s'.world.gone o.rule :=
      hst.move.gone (hs.known.jobs i o ho) hgone
    obtain ⟨hzero, hposted⟩ := hsingle.waiting i o ho hw
    rcases h.named i o ho hw with hname | hex | ⟨hover, hex | ⟨loaded, hheld⟩⟩
    · rcases hst.move.schedule o.rule with ⟨hsame, -⟩ |
        ⟨planned, observed, j, caller, rfl, hj, -⟩ | ⟨-, hnew | ⟨j, rfl⟩⟩
      · exact .inl (hsame.trans hname)
      · have hj' : (s.world.states o.rule).posted = j :=
          (hst.of_forall hnamed.publishing).2.2.1
        exact .inl (hj.trans (hj'.symm.trans hposted))
      · exact absurd hnew (Nat.ne_of_lt (hs.known.jobs i o ho))
      · have hfree := hst.of_forall (total_eq_zero_iff.mp hzero)
        exact absurd (decide_eq_true rfl) (Bool.eq_false_iff.mp hfree)
    · cases hf : f.publishes o.rule i with
      | true =>
          rcases hst.move.publishes_or hf with hname | ⟨hover, g, hg, hcancels⟩
          · exact .inl hname
          · exact .inr (.inr ⟨hgone hover, .inl (hst.exists_new hg hcancels)⟩)
      | false => exact .inr (.inl (hst.exists_of hex hf))
    · cases hf : f.cancels i with
      | true =>
          rcases hst.move.cancels hs.tasks.inv hf with hheld | hfree
          · exact .inr (.inr ⟨hgone hover, .inr hheld⟩)
          · cases hfree.symm.trans hw'
      | false => exact .inr (.inr ⟨hgone hover, .inl (hst.exists_of hex hf)⟩)
    · rcases hst.move.tasks with heq | ⟨act, hact⟩
      · exact .inr (.inr ⟨hgone hover, .inr ⟨loaded, by rw [heq]; exact hheld⟩⟩)
      · rcases TaskSystem.step_held hs.tasks.loaded hheld hact with hheld | hfree
        · exact .inr (.inr ⟨hgone hover, .inr ⟨loaded, hheld⟩⟩)
        · cases hfree.symm.trans hw'
  rcases hst.move.jobs hs.tasks.inv with ⟨hjobs, -⟩ |
    ⟨r, planned, observed, immediate, caller, j, rfl, rfl, hj, hnew, tasks, hw⟩
  · exact hold (hjobs ▸ ho)
  · by_cases hij : i = j
    · subst hij
      rw [hw] at ho
      cases (Function.update_self ..).symm.trans ho
      exact .inr (.inl (hst.exists_new (List.mem_singleton_self _)
        (by simp [publishes])))
    · rw [hw] at ho
      exact hold ((Function.update_of_ne hij ..).symm.trans ho)

theorem NameInv.step (h : s.NameInv) (hsingle : s.SingleTask)
    (hnamed : s.NamedTask) (hs : s.Reachable) (hst : Stepped s a t f fs s')
    (hcond : AtTop RunsOnce s a) (hcond' : AtTop TakesNamed s a) : s'.NameInv where
  named i o := h.named_step hsingle hnamed hs hst hcond
  frames := by
    have hjob (i : Nat) (o : Occurrence) : o ∈ s.world.job i → o ∈ s'.world.job i :=
      hsingle.job_of hs hst
    refine hst.forall (h.frames.imp fun g hg => hg.mono hjob) (fun g hg => ?_)
      fun g hg => ?_
    · cases g <;> trivial
    · exact (hst.move.exact_frames (hst.of_forall h.frames)
        (fun r i => hnamed.takes hst hcond') g hg).mono hjob
  log x hx :=
    (hst.move.exact_log (hst.of_forall h.frames)
      (fun r i => hnamed.takes hst hcond') h.log x hx).mono
      fun i o => hsingle.job_of hs hst

/-- In every run in which no callback returns with a request to run its task
again, and in which no rule is found before its task is published, each rule
has at most one queued task, which it names. -/
theorem run_queuedOnce {as : List (CalendarAction ι)}
    (hrun : Lts.run CalendarSystem.step {} as = some s)
    (honce : Lts.RunMeets CalendarSystem.step (AtTop RunsOnce) {} as)
    (hrace : Lts.RunMeets CalendarSystem.step (AtTop Unraced) {} as) :
    s.QueuedOnce := by
  obtain ⟨hsingle, hnamed, hnames⟩ : s.SingleTask ∧ s.NamedTask ∧ s.NameInv := by
    refine run_induction
      (P := fun s => s.SingleTask ∧ s.NamedTask ∧ s.NameInv) hrun
      (honce.and hrace) ⟨.init, .init, .init⟩ ?_
    rintro s a t f fs s' hs ⟨hsingle, hnamed, hnames⟩ ⟨honce, hrace⟩ hst
    have htakes : AtTop TakesNamed s a := hnamed.takesNamed hrace
    exact ⟨hsingle.step hs hst honce, hnamed.step hsingle hs hst honce htakes,
      hnames.step hsingle hnamed hs hst honce htakes⟩
  exact
    { one := fun i j o ho o' ho' hi hj heq => by
        rw [← (hsingle.waiting i o ho hi).2, ← (hsingle.waiting j o' ho' hj).2, heq]
      named := hnames.named
      consumed := fun r i planned taskId hmem => hnames.log _ hmem }

end CalendarSystem

/-- The callback returns, and the next occurrence is planned for 10. -/
def calendarGoesOn : List (CalendarAction Unit) :=
  [.ret () none] ++ calendarAdvances () 4 ++ [.ret () none] ++
  calendarAdvances () 4 ++ [.ret () (some 10)] ++ calendarAdvances () 3 ++
  [.ret () none] ++ calendarAdvances () 2

namespace CalendarSystem

/-- The callback reschedules its own task through the context, and the next
occurrence is queued as well. -/
theorem queuedOnce_fails : ∃ s : CalendarSystem Unit,
    Lts.run step {} (calendarAddDue () ++ calendarRunDue () ++
      calendarCallback () ++ [.call () (.manager (.contextReschedule 1 5))] ++
      calendarGoesOn) = some s ∧ ¬ s.QueuedOnce := by
  obtain ⟨s, hs, hjob, hjob', hw, hw'⟩ : ∃ s : CalendarSystem Unit,
      Lts.run step {} (calendarAddDue () ++ calendarRunDue () ++
        calendarCallback () ++ [.call () (.manager (.contextReschedule 1 5))] ++
        calendarGoesOn) = some s ∧
      s.world.job 1 = some { rule := 1, plannedUtcMs := 0 } ∧
      s.world.job 2 = some { rule := 1, plannedUtcMs := 10 } ∧
      s.world.tasks.waits 1 ∧ s.world.tasks.waits 2 :=
    Lts.exists_run_of_decide (by decide)
  exact ⟨s, hs, fun h => absurd (h.one 1 2 _ hjob _ hjob' hw hw' rfl) (by decide)⟩

/-- The second occurrence is queued after the first has run. -/
theorem run_queuedOnce_goesOn : ∃ s : CalendarSystem Unit,
    Lts.run step {} (calendarAddDue () ++ calendarRunDue () ++
      calendarCallback () ++ calendarGoesOn) = some s ∧
      s.world.tasks.waits 2 ∧ s.QueuedOnce := by
  obtain ⟨s, hs, hw⟩ : ∃ s : CalendarSystem Unit,
      Lts.run step {} (calendarAddDue () ++ calendarRunDue () ++
        calendarCallback () ++ calendarGoesOn) = some s ∧ s.world.tasks.waits 2 :=
    Lts.exists_run_of_decide (by decide)
  exact ⟨s, hs, hw, run_queuedOnce hs (.of_checks (by decide))
    (.of_checks (by decide))⟩

end CalendarSystem

end EventHub
