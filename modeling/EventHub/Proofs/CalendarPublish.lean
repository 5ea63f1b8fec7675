import EventHub.Proofs.CalendarLive
import EventHub.Proofs.CalendarNames
import EventHub.Proofs.TaskRuns

/-!
# The occurrence that is published

`schedule_one` has queued its task before it publishes it, so another thread
may run the task first. In the runs in which it does not, `run_due` reports
the occurrence it was queued for, and no rule is left with the name of a task
that has run.
-/

namespace EventHub

open CalendarFrame Threads

variable {ι : Type}

namespace CalendarSystem

/-- An occurrence is published and run as if at once. -/
structure PublishesAtomically (s : CalendarSystem ι) : Prop where
  exact : ∀ x ∈ s.world.log, x.Exact s.world.job
  /-- When the threads are done, a rule names the task that it has queued. -/
  named : (∀ t, s.frames t = [.user .main]) → ∀ i, ∀ o ∈ s.world.job i,
    o.rule ∈ s.world.registered → s.world.tasks.waits i →
      (s.world.states o.rule).scheduledTaskId = i
  /-- It does not name a task that has run. -/
  unstarted : (∀ t, s.frames t = [.user .main]) → ∀ r ∈ s.world.registered,
    (s.world.states r).scheduledTaskId ≠ 0 →
      starts (s.world.states r).scheduledTaskId s.world.tasks.log = 0

/-- The rule names the task, or is about to. -/
def Announces (s : CalendarSystem ι) (r i : Nat) : Prop :=
  ((s.world.states r).scheduledTaskId = i ∧ i ≠ 0) ∨
    Threads.Exists (publishes r i) s.frames

end CalendarSystem

section Move

variable {a : CalendarAction ι} {mode : CalendarMode} {w w' : CalendarWorld}
  {f : CalendarFrame} {fs : List CalendarFrame}

/-- A callback starts with the frame of its task. -/
theorem CalendarMove.starting (h : CalendarMove a mode w f w' fs) (i : Nat) :
    starts i w'.tasks.log = starts i w.tasks.log ∨
      .starting i ((w.job i).map Occurrence.rule) ∈ fs := by
  have hother {act : TaskAction Unit} {tasks : TaskSystem Unit}
      (hstep : w.tasks.step act = some tasks) (hact : act ≠ .processStart) :
      starts i tasks.log = starts i w.tasks.log := by
    rcases TaskSystem.step_starts hstep i with heq | ⟨entry, unrun, heq, -⟩
    · exact heq
    · exact absurd heq hact
  cases h
  case started entry unrun tasks hphase h hwon =>
    rcases TaskSystem.step_starts h i with heq | ⟨entry', unrun', -, hphase', -, rfl⟩
    · exact .inl heq
    · cases hphase.symm.trans hphase'
      exact .inr List.mem_cons_self
  case passed tasks h hlost =>
    rcases TaskSystem.step_starts h i with heq | ⟨entry, unrun, -, -, hsome, -⟩
    · exact .inl heq
    · rw [hsome] at hlost
      cases hlost
  case produced act tasks ha hact h =>
    exact .inl (hother h (by rintro rfl; cases hact))
  case processed hact h | threw hact h =>
    exact .inl (hother h (by rintro rfl; rcases hact with hact | hact <;> cases hact))
  case nothingBegan h | began h _ | loaded h _ | unloaded h _ | exchanged h |
      returned h | settled h | otherSettled h | unposted h |
      unpostedAfterRun h _ | posted h _ _ =>
    exact .inl (hother h nofun)
  all_goals exact .inl rfl

/-- A task that was started goes on to take its occurrence. -/
theorem CalendarMove.enters_or (h : CalendarMove a mode w f w' fs) {r i : Nat}
    (hf : f.enters r i) :
    (∃ g ∈ fs, g.enters r i) ∨ w.gone r ∨
      f = .runDue r i ∧ w.gone r = false ∧
        (w'.states r).scheduledTaskId = 0 ∧ ∀ g ∈ fs, g.publishes r i = false := by
  cases h
  case settled j q tasks h =>
    refine .inl ⟨_, List.mem_singleton_self _, ?_⟩
    simpa [CalendarFrame.enters, and_comm] using hf
  case otherSettled => simp [CalendarFrame.enters] at hf
  case dropped q j hgone =>
    simp only [CalendarFrame.enters, Bool.and_eq_true, decide_eq_true_eq] at hf
    exact .inr (.inl (hf.1 ▸ hgone))
  case consumed q j hkept =>
    simp only [CalendarFrame.enters, Bool.and_eq_true, decide_eq_true_eq] at hf
    obtain ⟨rfl, rfl⟩ := hf
    refine .inr (.inr ⟨rfl, hkept, ?_, List.forall_mem_singleton.mpr rfl⟩)
    rw [CalendarWorld.consume_states_self]
  case plain hf' => cases f <;> first | cases hf | cases hf'
  all_goals cases hf

end Move

namespace CalendarSystem

/-- A task that a rule announces has not run. -/
def Untouched (s : CalendarSystem ι) : Prop :=
  ∀ r i, s.Announces r i → starts i s.world.tasks.log = 0 ∨
    Threads.Exists (enters r i) s.frames ∨ s.world.gone r

theorem Untouched.init : Untouched ({} : CalendarSystem ι) :=
  fun _ _ _ => .inl rfl

section

variable [DecidableEq ι] {s s' : CalendarSystem ι} {a : CalendarAction ι} {t : ι}
  {f : CalendarFrame} {fs : List CalendarFrame}

/-- A frame that is there was there, or is new. -/
theorem Stepped.exists_or {p : CalendarFrame → Bool} (h : Stepped s a t f fs s')
    (hplain : ∀ g, g.plain → p g = false) (hex : Threads.Exists p s'.frames) :
    Threads.Exists p s.frames ∨ ∃ g ∈ fs, p g := by
  by_contra hno
  obtain ⟨hold, hnew⟩ := not_or.mp hno
  refine not_exists_iff.mpr (h.forall (not_exists_iff.mp hold) hplain ?_) hex
  exact fun g hg => Bool.eq_false_iff.mpr fun hp => hnew ⟨g, hg, hp⟩

theorem publishes_of_plain {r i : Nat} {g : CalendarFrame} (h : g.plain) :
    g.publishes r i = false := by
  cases g <;> first | rfl | cases h

/-- What is announced was announced, or has just been queued. -/
theorem Announces.of_step {r i : Nat} (hs : s.Reachable)
    (hst : Stepped s a t f fs s') (h : s'.Announces r i) :
    s.Announces r i ∨ s.world.tasks.mgr.nextId ≤ i ∧
      starts i s'.world.tasks.log = starts i s.world.tasks.log := by
  rcases h with ⟨hname, hi⟩ | hex
  · rcases hst.move.schedule r with ⟨hsame, -⟩ |
      ⟨planned, observed, j, caller, rfl, hj, -⟩ | ⟨hzero, -⟩
    · exact .inl (.inl ⟨hsame.symm.trans hname, hi⟩)
    · obtain ⟨rest, gs, ht, -, -⟩ := hst.top
      refine .inl (.inr ⟨t, ?_⟩)
      simp [ht, publishes, hj.symm.trans hname]
    · exact absurd (hname.symm.trans hzero) hi
  · rcases hst.exists_or (fun g => publishes_of_plain (g := g)) hex with
      hex | ⟨g, hg, hpub⟩
    · exact .inl (.inr hex)
    · rcases hst.move.jobs hs.tasks.inv with ⟨-, -, hnone⟩ |
        ⟨q, planned, observed, immediate, caller, j, rfl, rfl, hj, hnew, tasks, hw⟩
      · exact absurd hpub (List.countP_eq_zero.mp (hnone r i) g hg)
      · rw [List.mem_singleton.mp hg] at hpub
        simp only [publishes, Bool.and_eq_true, decide_eq_true_eq] at hpub
        obtain ⟨rfl, rfl⟩ := hpub
        refine .inr ⟨hnew.fresh, ?_⟩
        rcases hst.move.starting j with heq | hmem
        · exact heq
        · cases List.mem_singleton.mp hmem

variable [Fintype ι]

omit [DecidableEq ι] in
/-- What is announced is an occurrence of the rule. -/
theorem NamedTask.job_of_announces (h : s.NamedTask) {r i : Nat}
    (hann : s.Announces r i) : ∃ o ∈ s.world.job i, o.rule = r := by
  rcases hann with ⟨rfl, hi⟩ | ⟨u, hu⟩
  · exact ⟨_, h.named r hi, rfl⟩
  · obtain ⟨g, hg, hpub⟩ := List.any_eq_true.mp hu
    have hun := h.publishing u g hg
    cases g <;> try cases hpub
    case publish q planned observed j caller =>
      simp only [publishes, Bool.and_eq_true, decide_eq_true_eq] at hpub
      obtain ⟨rfl, rfl⟩ := hpub
      exact ⟨_, hun.2.1, rfl⟩

theorem Untouched.step (h : s.Untouched) (hnamed : s.NamedTask)
    (hs : s.Reachable) (hst : Stepped s a t f fs s')
    (hcond : AtTop Unraced s a) : s'.Untouched := by
  intro r i hann'
  rcases hann'.of_step hs hst with hann | ⟨hfresh, hstarts⟩
  · obtain ⟨o, ho, hrule⟩ := hnamed.job_of_announces hann
    rcases h r i hann with hzero | hex | hgone
    · rcases hst.move.starting i with heq | hmem
      · exact .inl (heq.trans hzero)
      · refine .inr (.inl (hst.exists_new hmem ?_))
        rw [Option.mem_def.mp ho]
        simp [enters, hrule]
    · cases hf : f.enters r i with
      | false => exact .inr (.inl (hst.exists_of hex hf))
      | true =>
          rcases hst.move.enters_or hf with
            ⟨g, hg, hi⟩ | hgone | ⟨rfl, hkept, hzero, hnone⟩
          · exact .inr (.inl (hst.exists_new hg hi))
          · exact .inr (.inr
              (hst.move.gone (hrule ▸ hs.known.jobs i o ho) hgone))
          · -- the occurrence is taken, so that nothing announces it any more
            have hno : ¬ Threads.Exists (publishes r i) s.frames :=
              hst.meets hcond rfl _ rfl hkept
            rcases hann' with ⟨hname, hi⟩ | hex'
            · exact absurd (hname.symm.trans hzero) hi
            · rcases hst.exists_or (fun g => publishes_of_plain (g := g)) hex' with
                hex' | ⟨g, hg, hpub⟩
              · exact absurd hex' hno
              · cases (hnone g hg).symm.trans hpub
    · exact .inr (.inr (hst.move.gone (hrule ▸ hs.known.jobs i o ho) hgone))
  · exact .inl (hstarts.trans ((hs.tasks.logged i).unstarted hfresh))

/-- In every run in which no rule is found before its task is published, and no
callback returns with a request to run its task again, occurrences are
published and run as if at once. -/
theorem run_publishesAtomically {as : List (CalendarAction ι)}
    (hrun : Lts.run CalendarSystem.step {} as = some s)
    (honce : Lts.RunMeets CalendarSystem.step (AtTop RunsOnce) {} as)
    (hrace : Lts.RunMeets CalendarSystem.step (AtTop Unraced) {} as) :
    s.PublishesAtomically := by
  obtain ⟨-, -, hnames, huntouched⟩ :
      s.SingleTask ∧ s.NamedTask ∧ s.NameInv ∧ s.Untouched := by
    refine run_induction
      (P := fun s => s.SingleTask ∧ s.NamedTask ∧ s.NameInv ∧ s.Untouched) hrun
      (honce.and hrace) ⟨.init, .init, .init, .init⟩ ?_
    rintro s a t f fs s' hs ⟨hsingle, hnamed, hnames, huntouched⟩
      ⟨honce, hrace⟩ hst
    have htakes : AtTop TakesNamed s a := hnamed.takesNamed hrace
    exact ⟨hsingle.step hs hst honce, hnamed.step hsingle hs hst honce htakes,
      hnames.step hsingle hnamed hs hst honce htakes,
      huntouched.step hnamed hs hst hrace⟩
  have hs : s.Reachable := ⟨as, hrun⟩
  have hfree (hdone : ∀ t, s.frames t = [.user .main]) {p : CalendarFrame → Bool}
      (hp : p (.user .main) = false) : ¬ Threads.Exists p s.frames := by
    rintro ⟨t, ht⟩
    rw [hdone t] at ht
    simp [hp] at ht
  have hlive (hdone : ∀ t, s.frames t = [.user .main]) (r : Nat)
      (hr : r ∈ s.world.registered) : s.world.gone r = false :=
    (hs.live.gone hr).resolve_right (hfree hdone rfl)
  refine ⟨hnames.log, fun hdone i o ho hr hw => ?_, fun hdone r hr hi => ?_⟩
  · rcases hnames.named i o ho hw with hname | hex | ⟨hgone, -⟩
    · exact hname
    · exact absurd hex (hfree hdone rfl)
    · cases (hlive hdone _ hr).symm.trans hgone
  · rcases huntouched r _ (.inl ⟨rfl, hi⟩) with hzero | hex | hgone
    · exact hzero
    · exact absurd hex (hfree hdone rfl)
    · cases (hlive hdone r hr).symm.trans hgone

end

/-- The consumer takes the occurrence that the other thread has queued, before
it is published. -/
theorem publishesAtomically_fails : ∃ s : CalendarSystem Bool,
    Lts.run CalendarSystem.step {} ([.call false (.addRule {})] ++
      calendarAdvances false 4 ++ [.ret false (some 5)] ++
      calendarAdvances false 2 ++ [.call true (.process 5000000 1)] ++
      calendarAdvances true 3) = some s ∧ ¬ s.PublishesAtomically := by
  obtain ⟨s, hs, hmem⟩ : ∃ s : CalendarSystem Bool,
      Lts.run CalendarSystem.step {} ([.call false (.addRule {})] ++
        calendarAdvances false 4 ++ [.ret false (some 5)] ++
        calendarAdvances false 2 ++ [.call true (.process 5000000 1)] ++
        calendarAdvances true 3) = some s ∧ .consumed 1 1 0 0 ∈ s.world.log :=
    Lts.exists_run_of_decide (by decide)
  exact ⟨s, hs, fun h => absurd (h.exact _ hmem).1 (by decide)⟩

/-- The rule is added by one thread and its occurrence taken by the other. -/
theorem run_publishesAtomically_twoThreads : ∃ s : CalendarSystem Bool,
    Lts.run CalendarSystem.step {} (calendarAddDue false ++ calendarRunDue true) =
      some s ∧ .consumed 1 1 0 1 ∈ s.world.log ∧ s.PublishesAtomically := by
  obtain ⟨s, hs, hmem⟩ : ∃ s : CalendarSystem Bool,
      Lts.run CalendarSystem.step {}
        (calendarAddDue false ++ calendarRunDue true) = some s ∧
        .consumed 1 1 0 1 ∈ s.world.log :=
    Lts.exists_run_of_decide (by decide)
  exact ⟨s, hs, hmem, run_publishesAtomically hs (.of_checks (by decide))
    (.of_checks (by decide))⟩

/-! ## The rules between two runs -/

/-- As no `process()` is called inside another, there is one `run_due` at a time,
whatever else the threads do; and where there is none, a registered rule has been
taken by nobody. -/
theorem Reachable.registeredAlive [Fintype ι] [DecidableEq ι] {s : CalendarSystem ι}
    (hs : s.Reachable) :
    total runs s.frames ≤ 1 ∧
      (s.world.closed → s.world.registered = ∅) ∧
      ((∀ t, ∀ f ∈ s.frames t, f.runs = false) →
        ∀ r ∈ s.world.registered, s.world.gone r = false) := by
  refine ⟨hs.oneConsumer.runs_le, hs.live.closed, fun hnone r hr => ?_⟩
  refine (hs.live.gone hr).resolve_right fun ⟨t, ht⟩ => ?_
  obtain ⟨f, hf, hcloses⟩ := List.any_eq_true.mp ht
  have hruns : f.runs = true := by
    cases f <;> first | rfl | cases hcloses
  rw [hnone t f hf] at hruns
  cases hruns

theorem Reachable.registeredAlive_running : ∃ s : CalendarSystem Unit,
    Lts.run step {} (calendarAddDue () ++ calendarRunDue () ++ calendarCallback ()) =
      some s ∧
      s.world.registered = {1} ∧ total runs s.frames ≤ 1 := by
  obtain ⟨s, hrun, hregistered⟩ : ∃ s : CalendarSystem Unit,
      Lts.run step {} (calendarAddDue () ++ calendarRunDue () ++ calendarCallback ()) =
          some s ∧ s.world.registered = {1} :=
    Lts.exists_run_of_decide (by decide)
  exact ⟨s, hrun, hregistered, (Reachable.registeredAlive ⟨_, hrun⟩).1⟩

end CalendarSystem

end EventHub
