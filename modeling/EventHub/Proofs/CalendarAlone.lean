import EventHub.Proofs.CalendarFuture
import EventHub.Proofs.CalendarObserver

/-!
# A scheduler on one thread

Where one thread does everything, nothing comes between the posting of a task
and its publication, and `run_due` does not find a rule that is still being
added. What was asked of the runs of several threads for these reasons need not
be asked here.
-/

namespace EventHub

open CalendarFrame Threads

variable {ι : Type}

namespace CalendarFrame

/-- The frame is on top of its thread as long as it is there. -/
def atOnce : CalendarFrame → Bool
  | .scheduleOne .. | .publish .. => true
  | _ => false

theorem atOnce_of_core {gs : List CalendarFrame}
    (h : ∀ g ∈ core gs, g.atOnce = false) : ∀ g ∈ gs, g.atOnce = false := by
  intro g hg
  by_cases hp : g.plain
  · cases g <;> first | rfl | cases hp
  · exact h g (List.mem_filter.mpr ⟨hg, by simpa using hp⟩)

end CalendarFrame

/-- The frames go on in code of the program, or there is one of them. -/
def OnTop (gs : List CalendarFrame) : Prop :=
  (∀ g ∈ gs, g.atOnce = false) ∨ ∃ g, gs = [g]

section Top

variable {a : CalendarAction ι} {mode : CalendarMode} {w w' : CalendarWorld}
  {f : CalendarFrame} {fs : List CalendarFrame} {r : Nat} {result : Option Int}
  {o : CalendarOutcome}

/-- Only three frames turn into such a frame. -/
theorem CalendarMove.atOnce (h : CalendarMove a mode w f w' fs) :
    (∀ g ∈ fs, g.atOnce = false) ∨ (∃ q pc, f = .adding q pc) ∨
      (∃ run pc, f = .running run pc) ∨
      ∃ q planned observed immediate caller,
        f = .scheduleOne q planned observed immediate caller := by
  cases h
  case plannedFirst => exact .inr (.inl ⟨_, _, rfl⟩)
  case plannedNext => exact .inr (.inr (.inl ⟨_, _, rfl⟩))
  case posted => exact .inr (.inr (.inr ⟨_, _, _, _, _, rfl⟩))
  all_goals
    refine .inl fun g hg => ?_
    simp only [List.mem_cons, List.not_mem_nil, or_false] at hg <;>
      first
      | (subst hg; rfl)
      | (rcases hg with rfl | rfl <;> rfl)
      | (rcases hg with rfl | rfl | rfl <;> rfl)

theorem OnTop.emitThen {run : Option Nat} {info : CalendarObserverInfo}
    {rest : List CalendarFrame} (h : ∀ g ∈ rest, g.atOnce = false) :
    OnTop (w.emitThen r run info rest).frames := by
  refine .inl (atOnce_of_core ?_)
  rw [CalendarWorld.emitThen, core_append, core_emitFrames, List.nil_append]
  exact fun g hg => h g (List.mem_of_mem_filter hg)

theorem advanceAdd_onTop {pc : AddPc} :
    OnTop (advanceAdd w result r pc).frames := by
  cases pc with
  | created => exact .emitThen (List.forall_mem_singleton.mpr rfl)
  | firstDue observed =>
      refine .inl ?_
      simp only [advanceAdd]
      split <;> simp [CalendarWorld.askThen, CalendarFrame.atOnce]
  | missing observed =>
      cases result with
      | none => exact .inl (by simp [advanceAdd, CalendarFrame.atOnce])
      | some missed =>
          simp only [advanceAdd]
          split
          · exact .emitThen (List.forall_mem_singleton.mpr rfl)
          · exact .inr ⟨_, rfl⟩
  | missed observed planned =>
      simp only [advanceAdd]
      split
      · exact .inr ⟨_, rfl⟩
      · exact .inl (by simp [CalendarWorld.askThen, CalendarFrame.atOnce])
  | planning observed =>
      cases result with
      | none => exact .inl (by simp [advanceAdd, CalendarFrame.atOnce])
      | some planned => exact .inr ⟨_, rfl⟩

theorem advanceRun_onTop {run : Run} {pc : RunPc}
    (h : advanceRun w result run pc = some o) : OnTop o.frames := by
  cases pc with
  | asked =>
      cases result with
      | none =>
          cases h
          exact .inr ⟨_, rfl⟩
      | some next =>
          simp only [advanceRun] at h
          split at h <;> cases h
          · exact .emitThen (List.forall_mem_singleton.mpr rfl)
          · exact .inr ⟨_, rfl⟩
  | missed next =>
      simp only [advanceRun] at h
      split at h <;> cases h
      · exact .inr ⟨_, rfl⟩
      · exact .inl (by simp [CalendarWorld.askThen, CalendarFrame.atOnce])
  | skipping =>
      cases result <;> cases h <;> exact .inr ⟨_, rfl⟩
  | due | before | failed | after | cancelled =>
      cases h
      exact .emitThen (by simp [CalendarFrame.atOnce])
  | calling | rethrowing | next =>
      cases h
      exact .inl (by simp [CalendarWorld.askThen, CalendarFrame.atOnce])
  | called =>
      cases h
      refine .inl (atOnce_of_core ?_)
      rw [core_append, core_nowFrames]
      exact List.forall_mem_singleton.mpr rfl
  | finishing =>
      cases h
      exact .inr ⟨_, rfl⟩
  | settling =>
      simp only [advanceRun] at h
      split at h
      · cases h
        exact .inr ⟨_, rfl⟩
      · split at h
        · cases h
        · split at h <;> cases h <;> exact .inr ⟨_, rfl⟩
  | checkContext =>
      simp only [advanceRun] at h
      split at h
      · cases h
      · split at h <;> cases h <;> exact .inr ⟨_, rfl⟩
  | checkState =>
      simp only [advanceRun] at h
      split at h <;> cases h <;> exact .inr ⟨_, rfl⟩

theorem CalendarFrame.scheduleOne_onTop {planned observed : Int} {immediate : Bool}
    {caller : SchedulePc} {reading : Reading}
    (h : (CalendarFrame.scheduleOne r planned observed immediate caller).advance w
      result reading = some o) : OnTop o.frames := by
  obtain ⟨tasks, htasks, rfl⟩ := CalendarWorld.map_manage_eq_some h
  dsimp only
  split
  · refine .inl ?_
    cases caller <;> simp [SchedulePc.failed, CalendarFrame.atOnce]
  · exact .inr ⟨_, rfl⟩

theorem CalendarFrame.unwind_onTop {f : CalendarFrame}
    (hf : (∃ q pc, f = .adding q pc) ∨ (∃ run pc, f = .running run pc) ∨
      ∃ q planned observed immediate caller,
        f = .scheduleOne q planned observed immediate caller)
    (h : f.unwind w = some o) : OnTop o.frames := by
  rcases hf with ⟨q, pc, rfl⟩ | ⟨run, pc, rfl⟩ | ⟨q, planned, observed, immediate, caller, rfl⟩
  · cases pc <;> cases h <;> exact .inl (by simp [CalendarFrame.atOnce])
  · cases pc <;> cases h
    · refine .inl (atOnce_of_core ?_)
      rw [core_append, core_nowFrames]
      exact List.forall_mem_singleton.mpr rfl
    · exact .inl (List.forall_mem_nil _)
    · exact .inl (List.forall_mem_nil _)
  · cases h

theorem CalendarMoved.onTop {s : CalendarSystem ι} {t : ι}
    (h : CalendarMoved s a t f o) : OnTop o.frames := by
  rcases h.move.atOnce with hnone | hf
  · exact .inl (atOnce_of_core hnone)
  · cases h with
    | advance reading hmode h =>
        rcases hf with ⟨q, pc, rfl⟩ | ⟨run, pc, rfl⟩ |
          ⟨q, planned, observed, immediate, caller, rfl⟩
        · cases h
          exact advanceAdd_onTop
        · exact advanceRun_onTop h
        · exact scheduleOne_onTop h
    | unwind reading hmode h => exact unwind_onTop hf h
    | call | ret | throw | «catch» =>
        rcases hf with ⟨q, pc, hf⟩ | ⟨run, pc, hf⟩ |
          ⟨q, planned, observed, immediate, caller, hf⟩ <;> cases hf

/-- While a rule is being added, nothing is queued for it. -/
theorem CalendarMove.adding_new (h : CalendarMove a mode w f w' fs) {pc : AddPc}
    (hg : .adding r pc ∈ fs) : (∃ pc', f = .adding r pc') ∨ r = w.nextId := by
  cases h
  case registered =>
    cases List.mem_singleton.mp hg
    exact .inr rfl
  case announced | askedFirst | missedFirst =>
    cases List.mem_singleton.mp hg
    exact .inl ⟨_, rfl⟩
  all_goals simp at hg

end Top

namespace CalendarSystem

/-- One thread: what is on top of it, and what its tasks are for. -/
structure AloneInv (s : CalendarSystem Unit) : Prop where
  top : ∀ g ∈ (s.frames ()).tail, g.atOnce = false
  adding : Forall (fun g => ∀ r pc, g = .adding r pc → ∀ i, ¬ s.OccurrenceOf r i) s.frames
  entering : Forall (fun g => ∀ r i, g.enters r i → s.OccurrenceOf r i) s.frames

theorem AloneInv.init : AloneInv {} where
  top := by nofun
  adding t g hg r pc hpc := by
    rw [List.mem_singleton.mp hg] at hpc
    cases hpc
  entering t g hg r i hi := by
    rw [List.mem_singleton.mp hg] at hi
    cases hi

section

variable {s s' : CalendarSystem Unit} {a : CalendarAction Unit} {t : Unit}
  {f : CalendarFrame} {fs : List CalendarFrame} {r : Nat}

theorem atOnce_step (htop : ∀ g ∈ (s.frames ()).tail, g.atOnce = false)
    (hs' : s.step a = some s') : ∀ g ∈ (s'.frames ()).tail, g.atOnce = false := by
  obtain ⟨t, f, rest, o, hf, hmoved, rfl⟩ := step_cases hs'
  have hrest : ∀ g ∈ rest, g.atOnce = false := by
    rwa [hf] at htop
  change ∀ g ∈ (replaceTop s.frames t o.frames ()).tail, g.atOnce = false
  rw [replaceTop_self, hf, List.tail_cons]
  rcases hmoved.onTop with hnone | ⟨g, hg⟩
  · exact fun g hg => (List.mem_append.mp (List.mem_of_mem_tail hg)).elim (hnone g) (hrest g)
  · rw [hg]
    exact hrest

/-- What is queued for a rule is queued when it is no more being added. -/
theorem AloneInv.adding_step (h : s.AloneInv) (hobserver : s.ObserverInv)
    (hs : s.Reachable) (hst : Stepped s a t f fs s') :
    Forall (fun g => ∀ r pc, g = .adding r pc → ∀ i, ¬ s'.OccurrenceOf r i) s'.frames := by
  rcases hst.move.jobs hs.tasks.inv with ⟨hjobs, -⟩ |
    ⟨q, planned, observed, immediate, caller, j, rfl, rfl, hj, hnew, tasks, hw⟩
  · have hsame (r i : Nat) (ho : s'.OccurrenceOf r i) : s.OccurrenceOf r i := by
      obtain ⟨o, ho, hrule⟩ := ho
      exact ⟨o, hjobs ▸ ho, hrule⟩
    refine hst.forall (h.adding.imp fun g hg r pc hpc i ho => ?_)
      (fun g hg r pc hpc => ?_) fun g hg r pc hpc i ho => ?_
    · exact hg r pc hpc i (hsame r i ho)
    · rw [hpc] at hg
      cases hg
    · rw [hpc] at hg
      rcases hst.move.adding_new hg with ⟨pc', hf⟩ | rfl
      · exact hst.of_forall h.adding r pc' hf i (hsame r i ho)
      · obtain ⟨o, ho, hrule⟩ := hsame _ i ho
        exact Nat.lt_irrefl _ (hrule ▸ hs.known.jobs i o ho)
  · -- the task is queued by the only frame that works for its rule
    have hrest := hst.alone (p := CalendarFrame.queues q) (hobserver.queues q)
      (decide_eq_true rfl)
    refine hst.forall_put (fun u g hg r pc hpc i ho => ?_) (fun g hg r pc hpc => ?_)
      fun g hg r pc hpc => ?_
    · have hr : r ≠ q := by
        rintro rfl
        have hno := hrest u g hg
        rw [hpc] at hno
        exact absurd (decide_eq_true rfl) (Bool.eq_false_iff.mp hno)
      obtain ⟨o, ho, hrule⟩ := ho
      rw [hw] at ho
      by_cases hij : i = j
      · subst hij
        cases (Function.update_self ..).symm.trans ho
        exact hr hrule.symm
      · have hold : o ∈ s.world.job i := (Function.update_of_ne hij ..).symm.trans ho
        exact Stepped.rest (t := t) h.adding u g hg r pc hpc i ⟨o, hold, hrule⟩
    · rw [hpc] at hg
      cases hg
    · rw [hpc] at hg
      cases List.mem_singleton.mp hg

theorem AloneInv.entering_step (h : s.AloneInv) (hs : s.Reachable)
    (hst : Stepped s a t f fs s') :
    Forall (fun g => ∀ r i, g.enters r i → s'.OccurrenceOf r i) s'.frames := by
  refine hst.forall (h.entering.imp fun g hg r i hi => (hg r i hi).step hs hst)
    (fun g hg r i hi => ?_) fun g hg r i hi => ?_
  · cases g <;> first | cases hi | cases hg
  · rcases hst.move.enters hg hi with rfl | ⟨o, ho, hrule, -⟩
    · have ho : s.OccurrenceOf r i :=
        hst.of_forall h.entering r i (by simp [CalendarFrame.enters])
      exact ho.step hs hst
    · have ho : s.OccurrenceOf r i := ⟨o, ho, hrule⟩
      exact ho.step hs hst

/-- On one thread no other frame works for the rule that `run_due` finds. -/
theorem AloneInv.foundAtRest (h : s.AloneInv) (hs : s.Reachable) :
    AtTop FoundAtRest s a := by
  cases a with
  | advance t reading =>
      intro f hf x hx hkept
      obtain ⟨rest, hrest⟩ := List.head?_eq_some_iff.mp hf
      obtain ⟨r, i⟩ := x
      obtain rfl := eq_runDue_of_takes hx
      have hjob : s.OccurrenceOf r i :=
        h.entering.top hrest r i (by simp [CalendarFrame.enters])
      have hruns := gone_of_only hs.oneConsumer.runs_le hrest rfl
      refine not_exists_iff.mpr fun u g hg => Bool.eq_false_iff.mpr fun hq => ?_
      have hmem : g ∈ rest := by
        rw [hrest] at hg
        rcases List.mem_cons.mp hg with rfl | hg
        · cases hq
        · exact hg
      have hnotRuns : g.runs = false := by
        refine hruns t g ?_
        rwa [replaceTop_self, hrest]
      have hlow : g.atOnce = false := by
        refine h.top g ?_
        rwa [hrest]
      cases g <;> try cases hq
      case adding q pc =>
        have hqr : q = r := of_decide_eq_true hq
        exact h.adding u _ hg r pc (by rw [hqr]) i hjob
      case running => cases hnotRuns
      case scheduleOne | publish => cases hlow
  | _ => trivial

end

/-- On one thread the events of every rule form a word, in every run in which no
rule is taken while its own `add_rule` or `run_due` still has something to say
of it. -/
theorem run_observed {as : List (CalendarAction Unit)} {s : CalendarSystem Unit}
    (hrun : Lts.run CalendarSystem.step {} as = some s)
    (htaken : Lts.RunMeets CalendarSystem.step (AtTop TakenAtRest) {} as) (r : Nat) :
    (s.world.life r).isSome := by
  have hall : s.Reachable ∧ s.AloneInv ∧ s.ObserverInv :=
    Lts.run_invariant_of_meets (P := fun s => s.Reachable ∧ s.AloneInv ∧ s.ObserverInv)
      (fun s a s' ⟨hs, halone, hobserver⟩ htaken hs' => by
        obtain ⟨t, f, fs, hst⟩ := step_stepped hs'
        have hreach : s'.Reachable := Lts.Reachable.trans_run hs (Lts.run_one hs')
        exact ⟨hreach,
          { top := atOnce_step halone.top hs'
            adding := halone.adding_step hobserver hs hst
            entering := halone.entering_step hs hst },
          hobserver.step hs hreach hst htaken (halone.foundAtRest hs)⟩)
      ⟨Lts.Reachable.refl _, .init, .init⟩ htaken hrun
  exact hall.2.2.words r

/-- The callback cancels its own rule and returns. -/
theorem observed_fails : ∃ s : CalendarSystem Unit,
    Lts.run CalendarSystem.step {} (calendarAddDue () ++ calendarRunDue () ++
      calendarCallback () ++ calendarCancel () ++ [.ret () none] ++
      calendarAdvances () 4 ++ [.ret () none] ++ calendarAdvances () 5) = some s ∧
      s.world.log.reverse.filterMap (CalendarObs.event 1) =
        [.created, .scheduled, .due, .beforeCallback, .cancelled, .afterCallback,
          .cancelled] ∧
      ¬ (s.world.life 1).isSome :=
  Lts.exists_run_of_decide (by decide)

/-- The rule runs once and is cancelled when its task is queued again. -/
theorem run_observed_cancelled : ∃ s : CalendarSystem Unit,
    Lts.run CalendarSystem.step {} (calendarAddDue () ++ calendarRunDue () ++
      calendarCallback () ++ calendarGoesOn ++ calendarAdvances () 1 ++
      [.call () (.cancel 1)] ++ calendarAdvances () 5) = some s ∧
      s.world.log.reverse.filterMap (CalendarObs.event 1) =
        [.created, .scheduled, .due, .beforeCallback, .afterCallback, .scheduled,
          .cancelled] ∧
      (s.world.life 1).isSome := by
  obtain ⟨s, hs, hevents⟩ : ∃ s : CalendarSystem Unit,
      Lts.run CalendarSystem.step {} (calendarAddDue () ++ calendarRunDue () ++
        calendarCallback () ++ calendarGoesOn ++ calendarAdvances () 1 ++
        [.call () (.cancel 1)] ++ calendarAdvances () 5) = some s ∧
        s.world.log.reverse.filterMap (CalendarObs.event 1) =
          [.created, .scheduled, .due, .beforeCallback, .afterCallback, .scheduled,
            .cancelled] :=
    Lts.exists_run_of_decide (by decide)
  exact ⟨s, hs, hevents, run_observed hs (.of_checks (by decide)) 1⟩

/-! ## What one thread publishes -/

/-- Nothing comes between the posting of a task and its publication. -/
structure PublishInv (s : CalendarSystem Unit) : Prop where
  top : ∀ g ∈ (s.frames ()).tail, g.atOnce = false
  waiting : Forall (fun g => ∀ r i, g.publishes r i → s.world.tasks.waits i) s.frames

theorem PublishInv.init : PublishInv {} where
  top := by nofun
  waiting t g hg r i hi := by
    rw [List.mem_singleton.mp hg] at hi
    cases hi

section

variable {s s' : CalendarSystem Unit} {a : CalendarAction Unit} {t : Unit}
  {f : CalendarFrame} {fs : List CalendarFrame}

theorem PublishInv.waiting_step (h : s.PublishInv) (hs : s.Reachable)
    (hst : Stepped s a t f fs s') :
    Forall (fun g => ∀ r i, g.publishes r i → s'.world.tasks.waits i) s'.frames := by
  refine hst.forall_put (fun u g hg r i hi => ?_) (fun g hg r i hi => ?_)
    fun g hg r i hi => ?_
  · rw [replaceTop_self, List.nil_append] at hg
    have hlow := h.top g hg
    cases g <;> first | cases hi | cases hlow
  · cases (publishes_of_plain hg).symm.trans hi
  · rcases hst.move.jobs hs.tasks.inv with ⟨-, -, hnone⟩ |
      ⟨q, planned, observed, immediate, caller, j, rfl, rfl, hj, hnew, tasks, hw⟩
    · exact absurd hi (List.countP_eq_zero.mp (hnone r i) g hg)
    · rw [List.mem_singleton.mp hg] at hi
      simp only [publishes, Bool.and_eq_true, decide_eq_true_eq] at hi
      exact hi.2 ▸ hnew.waits

theorem PublishInv.inTime (h : s.PublishInv) : AtTop PublishesInTime s a := by
  cases a with
  | advance t reading =>
      intro f hf x hx hkept
      obtain ⟨rest, hrest⟩ := List.head?_eq_some_iff.mp hf
      refine .inl (h.waiting.top hrest x.1 x.2 ?_)
      cases f <;> cases hx
      simp [publishes]
  | _ => trivial

end

/-- On one thread a rule loses its future only when the provider throws. -/
theorem run_futureKeptAlone {as : List (CalendarAction Unit)} {s : CalendarSystem Unit}
    (hrun : Lts.run CalendarSystem.step {} as = some s)
    (htasks : ∀ a ∈ as, a.leavesTasks)
    (hthrow : Lts.RunMeets CalendarSystem.step (AtTop ThrowsForGone) {} as) :
    s.FutureKept := by
  have htime : Lts.RunMeets CalendarSystem.step (AtTop PublishesInTime) {} as :=
    Lts.RunMeets.of_forall (P := fun s => s.Reachable ∧ s.PublishInv)
      (fun s a s' ⟨hs, h⟩ hs' => by
        obtain ⟨t, f, fs, hst⟩ := step_stepped hs'
        exact ⟨h.inTime, Lts.Reachable.trans_run hs (Lts.run_one hs'),
          { top := atOnce_step h.top hs'
            waiting := h.waiting_step hs hst }⟩)
      ⟨Lts.Reachable.refl _, .init⟩ hrun
  obtain ⟨hs, h⟩ := run_futureInv hrun htasks htime hthrow
  exact h.kept hs

theorem run_futureKeptAlone_goesOn : ∃ s : CalendarSystem Unit,
    Lts.run CalendarSystem.step {} (calendarAddDue () ++ calendarRunDue () ++
      calendarCallback () ++ calendarGoesOn) = some s ∧
      s.world.registered = {1} ∧ s.FutureKept := by
  obtain ⟨s, hs, hregistered⟩ : ∃ s : CalendarSystem Unit,
      Lts.run CalendarSystem.step {} (calendarAddDue () ++ calendarRunDue () ++
        calendarCallback () ++ calendarGoesOn) = some s ∧ s.world.registered = {1} :=
    Lts.exists_run_of_decide (by decide)
  exact ⟨s, hs, hregistered, run_futureKeptAlone hs (by decide) (.of_checks (by decide))⟩

end CalendarSystem

end EventHub
