import Mathlib.Data.List.TakeWhile
import EventHub.Hub.Process
import EventHub.Proofs.TaskDeadlines
import EventHub.Proofs.TaskRestore
import EventHub.Proofs.TaskPeriodic

/-!
# The contract of the passive source

`has_pending()`, `next_deadline()` and `process()` each decide for themselves
which modules count and which of their sources. They agree because all three
come down to one question about a module, `ModuleDue`: whether one of its tasks
is ready or due, or its hint is. For the tasks that question is answered by the
batch that `process()` would take, which is the content of the first section.

The calls of the program enter in two ways. Where nothing is due none is made
but to hooks, so nothing has to be known about what they may do. Where
something is due, any call that is made counts as work done or ends in an
exception, so again nothing has to be known. The loops therefore only have to
be followed up to the first call.
-/

namespace EventHub

open TaskManager

variable {σ τ ε : Type}

/-! ## A manager at rest -/

namespace TaskManager

/-- Some program has left the manager in this state, and no call of it is in
progress. -/
def AtRest (m : TaskManager τ) : Prop :=
  ∃ s : TaskSystem τ,
    s.Reachable ∧ s.phase = .idle ∧ s.cancelling = none ∧ s.mgr = m

/-- A task is ready, or a delayed one is due. -/
def Due (m : TaskManager τ) (now : Int) : Prop :=
  m.hasReady ∨ ∃ due ∈ m.nextDeadline.2, due ≤ now

variable {m : TaskManager τ} {now : Int}

theorem AtRest.inv (h : m.AtRest) : m.Inv none [] 0 := by
  obtain ⟨s, hs, hphase, -, rfl⟩ := h
  have hinv : s.mgr.Inv s.phase.current s.phase.unrun s.phase.owed := hs.inv
  rw [hphase] at hinv
  exact hinv

theorem AtRest.nextDeadline (h : m.AtRest) : m.nextDeadline.1.AtRest := by
  obtain ⟨s, hs, hphase, hfree, rfl⟩ := h
  refine ⟨{ s with mgr := s.mgr.nextDeadline.1 }, ?_, hphase, hfree, rfl⟩
  refine hs.trans_run (Lts.run_one (a := .nextDeadline) ?_)
  simp [TaskSystem.step, TaskSystem.stepLocked, hfree]

/-- Looking for the deadline a second time finds the same. -/
theorem nextDeadline_again (m : TaskManager τ) :
    m.nextDeadline.1.nextDeadline.2 = m.nextDeadline.2 := by
  have hfront : (m.delayedHeap.dropWhile m.dead).dropWhile m.dead =
      m.delayedHeap.dropWhile m.dead :=
    List.dropWhile_eq_self_iff.mpr
      (List.dropWhile_get_zero_not m.dead m.delayedHeap)
  exact congrArg (fun heap => heap.head?.map Entry.due) hfront

theorem Due.mono {later : Int} (h : m.Due now) (hle : now ≤ later) :
    m.Due later :=
  h.imp_right fun ⟨due, hmem, hdue⟩ => ⟨due, hmem, Int.le_trans hdue hle⟩

/-! ## The batch -/

/-- An entry in the batch has been moved to `readySnapshot`, and stays there
while others are taken. -/
theorem takeLoop_snapshot (maxTasks : Nat) (queue : List (Entry τ)) :
    ∀ (batch : List (Entry τ)) (m : TaskManager τ),
      (∀ e ∈ batch, m.stateOf e.id = .readySnapshot) →
      ∀ e ∈ (takeLoop maxTasks queue batch m).2.1,
        (takeLoop maxTasks queue batch m).2.2.stateOf e.id =
          .readySnapshot := by
  induction queue with
  | nil => exact fun _ _ h => h
  | cons entry queue ih =>
      intro batch m h
      rw [takeLoop]
      split
      · exact h
      · split
        · refine ih _ _ fun e he => ?_
          rw [stateOf_decrementReadyCount, stateOf_setState]
          split
          · rfl
          · next hne =>
              rcases List.mem_append.mp he with he | he
              · exact h e he
              · exact absurd (congrArg Entry.id (List.mem_singleton.mp he)) hne
        · exact ih _ _ h

theorem takeQueue_snapshot (maxTasks : Nat) (priority : TaskPriority)
    {batch : List (Entry τ)}
    (h : ∀ e ∈ batch, m.stateOf e.id = .readySnapshot) :
    ∀ e ∈ (takeQueue maxTasks priority batch m).1,
      (takeQueue maxTasks priority batch m).2.stateOf e.id = .readySnapshot :=
  takeLoop_snapshot maxTasks (m.ready priority) batch m h

theorem beginProcess_snapshot (m : TaskManager τ) (now : Int) (maxTasks : Nat) :
    ∀ e ∈ (m.beginProcess now maxTasks).1,
      (m.beginProcess now maxTasks).2.stateOf e.id = .readySnapshot :=
  takeQueue_snapshot maxTasks .low
    (takeQueue_snapshot maxTasks .normal
      (takeQueue_snapshot maxTasks .high (List.forall_mem_nil _)))

/-- The batch is the front of all that is ready once the due tasks are. -/
theorem AtRest.batch_eq (h : m.AtRest) (now : Int) (maxTasks : Nat) :
    (m.beginProcess now maxTasks).1 =
      ((m.scheduler none [] 0).promote now).ready.take maxTasks := by
  have hinv := h.inv
  have hord : HeapOrdered m.delayedHeap := by
    obtain ⟨s, hs, -, -, rfl⟩ := h
    exact hs.heapOrdered
  have hlive : ∀ e ∈ (m.beginProcess now maxTasks).1,
      (m.beginProcess now maxTasks).2.live e := fun e he =>
    ((hinv.beginProcess now maxTasks).live_unrun he).mpr
      (beginProcess_snapshot m now maxTasks e he)
  have hbatch := congrArg Scheduler.batch
    (hinv.scheduler_beginProcess (n := 0) hord now maxTasks)
  rw [scheduler_batch, List.filter_eq_self.mpr hlive] at hbatch
  exact hbatch

theorem AtRest.hasReady_iff (h : m.AtRest) :
    m.hasReady ↔ ∃ e, e ∈ (m.scheduler none [] 0).ready := by
  have hinv := h.inv
  have hready : m.hasReady ↔ ∃ id, m.stateOf id = .queuedReady := by
    obtain ⟨s, hs, -, -, rfl⟩ := h
    exact hs.ready_iff
  rw [hready]
  constructor
  · rintro ⟨id, hst⟩
    obtain ⟨e, he, -⟩ := (hinv.mem_ready (n := 0) id).mpr hst
    exact ⟨e, he⟩
  · rintro ⟨e, he⟩
    exact ⟨e.id, (hinv.mem_ready (n := 0) e.id).mp ⟨e, he, rfl⟩⟩

/-- The first of the delayed tasks is due if any is. -/
theorem AtRest.deadline_iff (h : m.AtRest) (now : Int) :
    (∃ due ∈ m.nextDeadline.2, due ≤ now) ↔
      ∃ e ∈ (m.scheduler none [] 0).delayed, e.due ≤ now := by
  have hord : (m.scheduler none [] 0).delayed.Pairwise Entry.popsBefore := by
    obtain ⟨s, hs, -, -, rfl⟩ := h
    exact hs.heapOrdered.sublist List.filter_sublist
  rw [(h.inv.scheduler_nextDeadline (n := 0)).2]
  cases hdelayed : (m.scheduler none [] 0).delayed with
  | nil => simp
  | cons entry rest =>
      rw [hdelayed, List.pairwise_cons] at hord
      rw [List.head?_cons, Option.map_some]
      constructor
      · rintro ⟨due, hdue, hle⟩
        cases hdue
        exact ⟨entry, List.mem_cons_self, hle⟩
      · rintro ⟨e, he, hle⟩
        refine ⟨entry.due, rfl, ?_⟩
        rcases List.mem_cons.mp he with rfl | he
        · exact hle
        · exact Int.le_trans (hord.1 e he).due_le hle

theorem AtRest.due_iff (h : m.AtRest) (now : Int) :
    m.Due now ↔ ∃ e, e ∈ ((m.scheduler none [] 0).promote now).ready := by
  unfold Due
  rw [h.hasReady_iff, h.deadline_iff]
  simp only [mem_ready_promote]
  constructor
  · rintro (⟨e, he⟩ | ⟨e, he, hle⟩)
    · exact ⟨e, .inl he⟩
    · exact ⟨e, .inr ⟨he, hle⟩⟩
  · rintro ⟨e, he | ⟨he, hle⟩⟩
    · exact .inl ⟨e, he⟩
    · exact .inr ⟨e, he, hle⟩

theorem AtRest.batch_eq_nil (h : m.AtRest) (hdue : ¬ m.Due now)
    (maxTasks : Nat) : (m.beginProcess now maxTasks).1 = [] := by
  rw [h.due_iff, not_exists] at hdue
  rw [h.batch_eq, List.eq_nil_iff_forall_not_mem.mpr hdue, List.take_nil]

theorem AtRest.batch_ne_nil (h : m.AtRest) (hdue : m.Due now) {maxTasks : Nat}
    (hpos : 0 < maxTasks) : (m.beginProcess now maxTasks).1 ≠ [] := by
  obtain ⟨e, he⟩ := (h.due_iff now).mp hdue
  rw [h.batch_eq]
  intro hnil
  rcases List.take_eq_nil_iff.mp hnil with h0 | hnil
  · omega
  · rw [hnil] at he
    cases he

end TaskManager

namespace ModuleHub

/-! ## The contract -/

/-- Module `k` has something that `process()` would work on. -/
def ModuleDue (env : HubProgram σ τ ε) (hub : ModuleHub σ τ ε) (now : Int)
    (k : Nat) : Prop :=
  (hub.modules k).live ∧
    ((hub.modules k).isInline ∧ (hub.modules k).tasks.Due now ∨
      ∃ due ∈ env.deadlineHint k hub.program, due ≤ now)

/-- A queued event, or a task of an inline module that is ready or due. -/
def WorkDue (hub : ModuleHub σ τ ε) (now : Int) : Prop :=
  hub.bus.queue ≠ [] ∨ ∃ k < hub.moduleCount,
    (hub.modules k).live ∧ (hub.modules k).isInline ∧
      (hub.modules k).tasks.Due now

/-- What may happen between two calls of the hub when nothing is submitted or
cancelled: private workers go on, and what they change is their own. -/
structure SameWork (env : HubProgram σ τ ε) (hub hub' : ModuleHub σ τ ε) :
    Prop where
  queue : hub'.bus.queue = hub.bus.queue
  count : hub'.moduleCount = hub.moduleCount
  options : ∀ k, (hub'.modules k).options = (hub.modules k).options
  live : ∀ k, (hub'.modules k).live = (hub.modules k).live
  tasks : ∀ k, (hub.modules k).isInline →
    (hub'.modules k).tasks = (hub.modules k).tasks
  hint : ∀ k, env.deadlineHint k hub'.program = env.deadlineHint k hub.program

/-- Polling the awaiters calls no `on_timeout`. -/
def NoTimeout (clock : HubReading τ ε → Int) (w : World ε) : Prop :=
  ∀ a ∈ w.registered, w.isActive a → ¬ w.tokenCancelled a →
    timedOut w a (clock (.poll a)) → (w.awaiters a).onTimeout = false

/-- The consumer of the inline managers is between two calls. -/
def AtRest (hub : ModuleHub σ τ ε) : Prop :=
  ∀ k, (hub.modules k).isInline → (hub.modules k).tasks.AtRest

end ModuleHub

/-- A hook whose module's hint is not due does nothing that shows. -/
def HubProgram.HooksWait (env : HubProgram σ τ ε) : Prop :=
  ∀ k now hub, (∀ due ∈ env.deadlineHint k hub.program, now < due) →
    ∃ program, (∀ j, env.deadlineHint j program =
        env.deadlineHint j hub.program) ∧
      env.run (.onProcess k) now hub = ({ hub with program := program }, some 0)

namespace ModuleHub

/-- All code called on the way from one state to the other was `on_process`. -/
def OnlyHooks (hub hub' : ModuleHub σ τ ε) : Prop :=
  ∃ notices, hub'.log = notices ++ hub.log ∧
    ∀ o ∈ notices, ∃ k, o.code = .onProcess k

/-- The contract of the passive source, for one state of the hub. -/
structure PassiveSource (env : HubProgram σ τ ε) (hub : ModuleHub σ τ ε) :
    Prop where
  /-- Nothing pending, and the deadline not reached: hooks aside, a pass calls
  no code of the program. -/
  sleeps : ∀ now clock hub₁ hub₂,
    (hub.hasPending env now).2 = false →
    SameWork env (hub.hasPending env now).1 hub₁ →
    SameWork env (hub₁.nextDeadline env).1 hub₂ →
    (∀ r, now ≤ clock r ∧ ∀ due ∈ (hub₁.nextDeadline env).2, clock r < due) →
    NoTimeout clock hub₂.bus →
    OnlyHooks hub₂ (hub₂.process env clock).1
  /-- Work pending: a pass throws or does some. -/
  progresses : ∀ now clock hub₁,
    (hub.hasPending env now).2 = true → hub.WorkDue now →
    SameWork env (hub.hasPending env now).1 hub₁ →
    (∀ r, now ≤ clock r) → NoTimeout clock hub₁.bus →
    ∀ n, (hub₁.process env clock).2 = some n → 1 ≤ n

/-! ## Looking changes nothing that counts -/

/-- Two states that offer the same work, one perhaps pruned further. -/
structure Agrees (env : HubProgram σ τ ε) (hub hub' : ModuleHub σ τ ε) :
    Prop where
  queue : hub'.bus.queue = hub.bus.queue
  count : hub'.moduleCount = hub.moduleCount
  options : ∀ k, (hub'.modules k).options = (hub.modules k).options
  live : ∀ k, (hub'.modules k).live = (hub.modules k).live
  ready : ∀ k, (hub.modules k).isInline →
    (hub'.modules k).tasks.hasReady = (hub.modules k).tasks.hasReady
  deadline : ∀ k, (hub.modules k).isInline →
    (hub'.modules k).tasks.nextDeadline.2 =
      (hub.modules k).tasks.nextDeadline.2
  rest : ∀ k, (hub.modules k).isInline → (hub.modules k).tasks.AtRest →
    (hub'.modules k).tasks.AtRest
  hint : ∀ k, env.deadlineHint k hub'.program = env.deadlineHint k hub.program

variable {env : HubProgram σ τ ε} {hub hub' hub'' : ModuleHub σ τ ε}
  {clock : HubReading τ ε → Int} {now : Int} {k : Nat}

theorem Agrees.refl (env : HubProgram σ τ ε) (hub : ModuleHub σ τ ε) :
    Agrees env hub hub :=
  ⟨rfl, rfl, fun _ => rfl, fun _ => rfl, fun _ _ => rfl, fun _ _ => rfl,
    fun _ _ h => h, fun _ => rfl⟩

theorem Agrees.isInline (h : Agrees env hub hub') (k : Nat) :
    (hub'.modules k).isInline = (hub.modules k).isInline := by
  unfold HubModule.isInline
  rw [h.options]

theorem Agrees.trans (h : Agrees env hub hub') (h' : Agrees env hub' hub'') :
    Agrees env hub hub'' := by
  have hinline : ∀ k, (hub.modules k).isInline → (hub'.modules k).isInline :=
    fun k hk => (h.isInline k).trans hk
  constructor
  · exact h'.queue.trans h.queue
  · exact h'.count.trans h.count
  · exact fun k => (h'.options k).trans (h.options k)
  · exact fun k => (h'.live k).trans (h.live k)
  · exact fun k hk => (h'.ready k (hinline k hk)).trans (h.ready k hk)
  · exact fun k hk => (h'.deadline k (hinline k hk)).trans (h.deadline k hk)
  · exact fun k hk hrest => h'.rest k (hinline k hk) (h.rest k hk hrest)
  · exact fun k => (h'.hint k).trans (h.hint k)

theorem SameWork.agrees (h : SameWork env hub hub') : Agrees env hub hub' where
  queue := h.queue
  count := h.count
  options := h.options
  live := h.live
  ready k hk := by rw [h.tasks k hk]
  deadline k hk := by rw [h.tasks k hk]
  rest k hk hrest := by rw [h.tasks k hk]; exact hrest
  hint := h.hint

theorem Agrees.atRest (h : Agrees env hub hub') (hrest : hub.AtRest) :
    hub'.AtRest := by
  intro k hk
  rw [h.isInline] at hk
  exact h.rest k hk (hrest k hk)

theorem Agrees.due_iff (h : Agrees env hub hub') (hk : (hub.modules k).isInline)
    (now : Int) :
    (hub'.modules k).tasks.Due now ↔ (hub.modules k).tasks.Due now := by
  unfold TaskManager.Due
  rw [h.ready k hk, h.deadline k hk]

theorem Agrees.moduleDue_iff (h : Agrees env hub hub') (now : Int) (k : Nat) :
    hub'.ModuleDue env now k ↔ hub.ModuleDue env now k := by
  unfold ModuleDue
  rw [h.live, h.isInline, h.hint]
  refine and_congr_right fun _ => or_congr_left ?_
  exact and_congr_right fun hk => h.due_iff hk now

theorem Agrees.workDue (h : Agrees env hub hub') (hwork : hub.WorkDue now) :
    hub'.WorkDue now := by
  unfold WorkDue at hwork ⊢
  rw [h.queue, h.count]
  refine hwork.imp_right ?_
  rintro ⟨k, hlt, hlive, hk, hdue⟩
  exact ⟨k, hlt, (h.live k).trans hlive, (h.isInline k).trans hk,
    (h.due_iff hk now).mpr hdue⟩

/-- Pruning the delayed tasks of one module. -/
theorem agrees_prune (env : HubProgram σ τ ε) (hub : ModuleHub σ τ ε)
    (k : Nat) : Agrees env hub
      (hub.setTasks k (hub.modules k).tasks.nextDeadline.1) := by
  have hmodule : ∀ j, j ≠ k →
      (hub.setTasks k (hub.modules k).tasks.nextDeadline.1).modules j =
        hub.modules j := fun j hj => hub.setTasks_of_ne _ hj
  refine ⟨rfl, rfl, fun j => ?_, fun j => ?_, fun j _ => ?_, fun j _ => ?_,
    fun j _ hrest => ?_, fun _ => rfl⟩
  · exact hub.options_setTasks j k _
  · exact hub.live_setTasks j k _
  all_goals
    by_cases hj : j = k
    · subst hj
      rw [setTasks_self]
      first
      | exact hrest.nextDeadline
      | exact nextDeadline_again _
      | rfl
    · rw [hmodule j hj]
      try exact hrest

theorem tasksPending_agrees (env : HubProgram σ τ ε) (now : Int) (k : Nat)
    (hub : ModuleHub σ τ ε) : Agrees env hub (hub.tasksPending now k).1 := by
  unfold tasksPending
  split
  · exact .refl env hub
  · split
    · exact .refl env hub
    · exact agrees_prune env hub k

theorem tasksPending_iff (now : Int) (k : Nat) (hub : ModuleHub σ τ ε) :
    (hub.tasksPending now k).2 = true ↔
      (hub.modules k).isInline ∧ (hub.modules k).tasks.Due now := by
  unfold tasksPending TaskManager.Due
  split
  · next h =>
      have hk : (hub.modules k).isInline = false := by simpa using h
      simp [hk]
  · next h =>
      have hk : (hub.modules k).isInline = true := by simpa using h
      split
      · next hready => simp [hk, hready]
      · next hready =>
          simp [hk, hready, Option.any_eq_true]

theorem modulesPending_spec (env : HubProgram σ τ ε) (now : Int)
    (ks : List Nat) : ∀ hub : ModuleHub σ τ ε,
      Agrees env hub (modulesPending env now ks hub).1 ∧
        ((modulesPending env now ks hub).2 = true ↔
          ∃ k ∈ ks, hub.ModuleDue env now k) := by
  induction ks with
  | nil => exact fun hub => ⟨.refl env hub, by simp [modulesPending]⟩
  | cons k ks ih =>
      intro hub
      rw [modulesPending]
      split
      · next hdead =>
          have hnot : ¬ hub.ModuleDue env now k := fun h => by
            rw [h.1] at hdead
            cases hdead
          refine ⟨(ih hub).1, (ih hub).2.trans ?_⟩
          simp [hnot]
      · next hlive =>
          have hlive : (hub.modules k).live = true := by simpa using hlive
          have hagrees := tasksPending_agrees env now k hub
          have htasks := tasksPending_iff now k hub
          rcases hr : hub.tasksPending now k with ⟨hub', pending⟩
          rw [hr] at hagrees htasks
          cases pending with
          | true =>
              refine ⟨hagrees, iff_of_true rfl ⟨k, List.mem_cons_self, hlive, ?_⟩⟩
              exact .inl (htasks.mp rfl)
          | false =>
              have hnot : ¬ ((hub.modules k).isInline ∧
                  (hub.modules k).tasks.Due now) := fun h => by
                cases htasks.mpr h
              have hhint : (env.deadlineHint k hub'.program).any (· ≤ now) = true ↔
                  ∃ due ∈ env.deadlineHint k hub.program, due ≤ now := by
                rw [hagrees.hint]
                simp [Option.any_eq_true]
              dsimp only
              split
              · next hdue =>
                  refine ⟨hagrees, iff_of_true rfl ⟨k, List.mem_cons_self, hlive, ?_⟩⟩
                  exact .inr (hhint.mp hdue)
              · next hdue =>
                  have hk : ¬ hub.ModuleDue env now k := fun h =>
                    h.2.elim hnot fun h => hdue (hhint.mpr h)
                  refine ⟨hagrees.trans (ih hub').1, (ih hub').2.trans ?_⟩
                  simp only [hagrees.moduleDue_iff, List.mem_cons,
                    exists_eq_or_imp, hk, false_or]

theorem hasPending_agrees (env : HubProgram σ τ ε) (now : Int)
    (hub : ModuleHub σ τ ε) : Agrees env hub (hub.hasPending env now).1 := by
  unfold hasPending
  split
  · exact .refl env hub
  · exact (modulesPending_spec env now _ hub).1

/-- `has_pending()` says exactly whether there is something to do. -/
theorem hasPending_iff (env : HubProgram σ τ ε) (now : Int)
    (hub : ModuleHub σ τ ε) :
    (hub.hasPending env now).2 = true ↔
      hub.bus.queue ≠ [] ∨ ∃ k < hub.moduleCount, hub.ModuleDue env now k := by
  unfold hasPending
  split
  · next h => exact iff_of_true rfl (.inl (by simpa using h))
  · next h =>
      have hqueue : hub.bus.queue = [] := by simpa using h
      rw [(modulesPending_spec env now _ hub).2]
      simp [hqueue]

/-! ## The deadline is a lower bound -/

/-- `best` comes no later than `candidate`, if there is one. -/
def NoLater (best candidate : Option Int) : Prop :=
  ∀ due ∈ candidate, ∃ earliest ∈ best, earliest ≤ due

theorem NoLater.refl (best : Option Int) : NoLater best best :=
  fun due h => ⟨due, h, Int.le_refl due⟩

theorem NoLater.trans {a b c : Option Int} (h : NoLater a b)
    (h' : NoLater b c) : NoLater a c := by
  intro due hdue
  obtain ⟨mid, hmid, hle⟩ := h' due hdue
  obtain ⟨earliest, hmem, hle'⟩ := h mid hmid
  exact ⟨earliest, hmem, Int.le_trans hle' hle⟩

theorem updateBestDeadline_noLater (best candidate : Option Int) :
    NoLater (updateBestDeadline best candidate) best ∧
      NoLater (updateBestDeadline best candidate) candidate := by
  cases candidate with
  | none => exact ⟨.refl best, nofun⟩
  | some due =>
      cases best with
      | none => exact ⟨nofun, .refl _⟩
      | some earliest =>
          rw [updateBestDeadline]
          split
          · next hlt =>
              refine ⟨fun d hd => ⟨due, rfl, ?_⟩, .refl _⟩
              cases hd
              exact Int.le_of_lt hlt
          · next hge =>
              refine ⟨.refl _, fun d hd => ⟨earliest, rfl, ?_⟩⟩
              cases hd
              omega

/-- The deadlines of a live module. -/
def ModuleNoLater (env : HubProgram σ τ ε) (hub : ModuleHub σ τ ε)
    (best : Option Int) (k : Nat) : Prop :=
  ((hub.modules k).isInline →
    NoLater best (hub.modules k).tasks.nextDeadline.2) ∧
  NoLater best (env.deadlineHint k hub.program)

theorem Agrees.moduleNoLater (h : Agrees env hub hub') {best : Option Int}
    (hk : hub'.ModuleNoLater env best k) : hub.ModuleNoLater env best k := by
  refine ⟨fun hinline => ?_, ?_⟩
  · rw [← h.deadline k hinline]
    exact hk.1 ((h.isInline k).trans hinline)
  · rw [← h.hint k]
    exact hk.2

theorem modulesDeadline_spec (env : HubProgram σ τ ε) (ks : List Nat) :
    ∀ (best : Option Int) (hub : ModuleHub σ τ ε),
      let r := modulesDeadline env ks best hub
      Agrees env hub r.1 ∧ NoLater r.2 best ∧
        ∀ k ∈ ks, (hub.modules k).live → hub.ModuleNoLater env r.2 k := by
  induction ks with
  | nil =>
      exact fun best hub => ⟨.refl env hub, .refl best, List.forall_mem_nil _⟩
  | cons k ks ih =>
      intro best hub
      rw [modulesDeadline]
      split
      · next hdead =>
          obtain ⟨hagrees, hbest, hall⟩ := ih best hub
          refine ⟨hagrees, hbest, List.forall_mem_cons.mpr ⟨fun hlive => ?_, hall⟩⟩
          rw [hlive] at hdead
          cases hdead
      · split
        · next hinline =>
            -- the manager is pruned and both deadlines count
            have hprune := agrees_prune env hub k
            obtain ⟨hagrees, hbest, hall⟩ := ih
              (updateBestDeadline
                (updateBestDeadline best (hub.modules k).tasks.nextDeadline.2)
                (env.deadlineHint k hub.program))
              (hub.setTasks k (hub.modules k).tasks.nextDeadline.1)
            obtain ⟨h1, h2⟩ := updateBestDeadline_noLater best
              (hub.modules k).tasks.nextDeadline.2
            obtain ⟨h3, h4⟩ := updateBestDeadline_noLater
              (updateBestDeadline best (hub.modules k).tasks.nextDeadline.2)
              (env.deadlineHint k hub.program)
            refine ⟨hprune.trans hagrees, hbest.trans (h3.trans h1),
              List.forall_mem_cons.mpr ⟨fun _ => ⟨fun _ => ?_, ?_⟩, ?_⟩⟩
            · exact hbest.trans (h3.trans h2)
            · exact hbest.trans h4
            · exact fun j hj hlive =>
                hprune.moduleNoLater (hall j hj ((hprune.live j).trans hlive))
        · next hnot =>
            obtain ⟨hagrees, hbest, hall⟩ := ih
              (updateBestDeadline best (env.deadlineHint k hub.program)) hub
            obtain ⟨h1, h2⟩ := updateBestDeadline_noLater best
              (env.deadlineHint k hub.program)
            refine ⟨hagrees, hbest.trans h1, List.forall_mem_cons.mpr
              ⟨fun _ => ⟨fun hinline => absurd hinline hnot, ?_⟩, hall⟩⟩
            exact hbest.trans h2

/-! ## A pass while nothing is due -/

/-- A cancelled awaiter is out of the way of the others. -/
theorem cancelAwaiter_frame (a : Nat) (cause : Cause) (w : World ε) :
    (cancelAwaiter a cause w).queue = w.queue ∧
      (cancelAwaiter a cause w).registered = w.registered ∧
      (cancelAwaiter a cause w).tokens = w.tokens ∧
      (cancelAwaiter a cause w).isActive a = false ∧
      ∀ b, b ≠ a → (cancelAwaiter a cause w).awaiters b = w.awaiters b := by
  unfold cancelAwaiter
  split
  · have hother : ∀ b, b ≠ a →
        ((w.deactivate a cause).release a).awaiters b = w.awaiters b := by
      intro b hb
      unfold World.release
      dsimp only
      split <;> simp [World.unsubscribe, World.deactivate, World.setAwaiter,
        World.note, hb]
    have hself : ((w.deactivate a cause).release a).isActive a = false := by
      unfold World.isActive World.release
      dsimp only
      split <;> simp [World.unsubscribe, World.deactivate, World.setAwaiter,
        World.note]
    refine ⟨?_, ?_, ?_, hself, hother⟩
    all_goals
      unfold World.release
      dsimp only
      split <;> rfl
  · next h => exact ⟨rfl, rfl, rfl, by simpa using h, fun _ _ => rfl⟩

theorem NoTimeout.cancelled {w w' : World ε} {a : Nat}
    (h : NoTimeout clock w) (hregistered : w'.registered = w.registered)
    (htokens : w'.tokens = w.tokens) (hself : w'.isActive a = false)
    (hother : ∀ b, b ≠ a → w'.awaiters b = w.awaiters b) :
    NoTimeout clock w' := by
  intro b hb hactive hcancelled hpassed
  by_cases hba : b = a
  · rw [hba, hself] at hactive
    cases hactive
  · have heq := hother b hba
    rw [hregistered] at hb
    unfold World.isActive at hactive
    unfold World.tokenCancelled at hcancelled
    unfold timedOut at hpassed
    rw [heq] at hactive hpassed ⊢
    rw [heq, htokens] at hcancelled
    exact h b hb hactive hcancelled hpassed

/-- A poll that calls nothing works on the bus alone and posts nothing. -/
theorem pollTimeout_quiet (env : HubProgram σ τ ε) {a : Nat}
    (h : NoTimeout clock hub.bus) (ha : a ∈ hub.bus.registered) :
    ∃ w : World ε, pollTimeout env clock hub a = hub.setBus w ∧
      w.queue = hub.bus.queue ∧ w.registered = hub.bus.registered ∧
      NoTimeout clock w := by
  unfold pollTimeout
  split
  · exact ⟨hub.bus, rfl, rfl, rfl, h⟩
  · next hactive =>
      have hactive : hub.bus.isActive a = true := by simpa using hactive
      split
      · obtain ⟨hqueue, hregistered, htokens, hself, hother⟩ :=
          cancelAwaiter_frame a (.cancel .token) hub.bus
        exact ⟨_, rfl, hqueue, hregistered,
          h.cancelled hregistered htokens hself hother⟩
      · next htoken =>
          split
          · next hpassed =>
              have hnone := h a ha hactive (by simpa using htoken) hpassed
              dsimp only
              rw [hnone, if_neg Bool.false_ne_true]
              obtain ⟨hqueue, hregistered, htokens, hself, hother⟩ :=
                cancelAwaiter_frame a .timeout (hub.bus.setAwaiter a
                  { hub.bus.awaiters a with onTimeout := false })
              refine ⟨_, rfl, hqueue, hregistered,
                h.cancelled hregistered htokens hself fun b hb => ?_⟩
              rw [hother b hb]
              exact if_neg hb
          · exact ⟨hub.bus, rfl, rfl, rfl, h⟩

theorem foldl_pollTimeout_quiet (env : HubProgram σ τ ε) (live : List Nat) :
    ∀ hub : ModuleHub σ τ ε, NoTimeout clock hub.bus →
      (∀ a ∈ live, a ∈ hub.bus.registered) →
      ∃ w : World ε, live.foldl (pollTimeout env clock) hub = hub.setBus w ∧
        w.queue = hub.bus.queue := by
  induction live with
  | nil => exact fun hub _ _ => ⟨hub.bus, rfl, rfl⟩
  | cons a live ih =>
      intro hub h hmem
      obtain ⟨w, heq, hqueue, hregistered, hquiet⟩ :=
        pollTimeout_quiet env h (hmem a List.mem_cons_self)
      rw [List.foldl_cons, heq]
      obtain ⟨w', heq', hqueue'⟩ := ih (hub.setBus w) hquiet fun b hb => by
        rw [show (hub.setBus w).bus = w from rfl, hregistered]
        exact hmem b (List.mem_cons_of_mem a hb)
      exact ⟨w', heq', hqueue'.trans hqueue⟩

/-- With an empty queue the bus has nothing to do but poll. -/
theorem processBus_quiet (env : HubProgram σ τ ε)
    (hqueue : hub.bus.queue = []) (h : NoTimeout clock hub.bus) :
    ∃ w : World ε, hub.processBus env clock = (hub.setBus w, some 0) ∧
      w.queue = [] := by
  have hpruned : NoTimeout clock { hub.bus.pruneRegistered with queue := [] } :=
    fun a ha => h a (List.mem_of_mem_filter ha)
  obtain ⟨w, heq, hw⟩ := foldl_pollTimeout_quiet env
    hub.bus.pruneRegistered.registered
    (hub.setBus { hub.bus.pruneRegistered with queue := [] }) hpruned
    fun _ ha => ha
  refine ⟨w, ?_, hw⟩
  unfold processBus
  rw [hqueue, drain]
  exact congrArg (·, some 0) heq

/-- What a step of a pass leaves alone when it calls no code of the program. -/
structure Silent (env : HubProgram σ τ ε) (hub hub' : ModuleHub σ τ ε) :
    Prop where
  count : hub'.moduleCount = hub.moduleCount
  live : ∀ k, (hub'.modules k).live = (hub.modules k).live
  hint : ∀ k, env.deadlineHint k hub'.program = env.deadlineHint k hub.program

theorem Silent.trans (h : Silent env hub hub') (h' : Silent env hub' hub'') :
    Silent env hub hub'' :=
  ⟨h'.count.trans h.count, fun k => (h'.live k).trans (h.live k),
    fun k => (h'.hint k).trans (h.hint k)⟩

theorem OnlyHooks.of_eq (h : hub'.log = hub.log) : OnlyHooks hub hub' :=
  ⟨[], h, List.forall_mem_nil _⟩

theorem OnlyHooks.trans (h : OnlyHooks hub hub') (h' : OnlyHooks hub' hub'') :
    OnlyHooks hub hub'' := by
  obtain ⟨notices, hlog, hall⟩ := h
  obtain ⟨notices', hlog', hall'⟩ := h'
  refine ⟨notices' ++ notices, ?_, fun o ho => ?_⟩
  · rw [hlog', hlog, List.append_assoc]
  · exact (List.mem_append.mp ho).elim (hall' o) (hall o)

theorem silent_setModule (env : HubProgram σ τ ε) (hub : ModuleHub σ τ ε)
    {k : Nat} {m : HubModule τ} (hm : m.live = (hub.modules k).live) :
    Silent env hub (hub.setModule k m) := by
  refine ⟨rfl, fun j => ?_, fun _ => rfl⟩
  by_cases hj : j = k
  · rw [hj, setModule_self, hm]
  · rw [setModule_of_ne hub m hj]

theorem rethrowWorkerException_cases (k : Nat) (hub : ModuleHub σ τ ε) :
    hub.rethrowWorkerException k = (hub, some 0) ∨
      hub.rethrowWorkerException k =
        (hub.setModule k { hub.modules k with workerException := false },
          none) := by
  unfold rethrowWorkerException
  split
  · exact .inr rfl
  · exact .inl rfl

/-- The turn of a module in the first loop, when no task of it can start. -/
theorem processInline_quiet (env : HubProgram σ τ ε)
    (h : (hub.modules k).isInline → (hub.modules k).live →
      ((hub.modules k).tasks.beginProcess (clock (.promoted k))
        (hub.modules k).options.maxTasksPerProcess).1 = []) :
    ∃ m : HubModule τ, m.live = (hub.modules k).live ∧
      (processInline env clock k hub = (hub.setModule k m, none) ∨
        processInline env clock k hub = (hub.setModule k m, some 0)) := by
  have hself : hub = hub.setModule k (hub.modules k) := by
    unfold setModule
    rw [Function.update_eq_self]
  unfold processInline
  rcases rethrowWorkerException_cases k hub with heq | heq
  · rw [heq]
    dsimp only
    split
    · exact ⟨hub.modules k, rfl, .inr (congrArg (·, some 0) hself)⟩
    · next hworks =>
        simp only [Bool.or_eq_true, Bool.not_eq_true', not_or,
          Bool.not_eq_false] at hworks
        refine ⟨{ hub.modules k with tasks :=
          ((hub.modules k).tasks.beginProcess (clock (.promoted k))
            (hub.modules k).options.maxTasksPerProcess).2 }, rfl, .inr ?_⟩
        unfold processTasks
        rw [if_neg (Nat.ne_of_gt (hub.modules k).options.quota_pos)]
        dsimp only
        rw [h hworks.1 hworks.2]
        rfl
  · rw [heq]
    exact ⟨{ hub.modules k with workerException := false }, rfl, .inl rfl⟩

/-- The first loop, when no task of any module can start. -/
theorem forModules_processInline_quiet (env : HubProgram σ τ ε)
    (ks : List Nat) : ∀ (workDone : Nat) (hub : ModuleHub σ τ ε), ks.Nodup →
      (∀ k ∈ ks, (hub.modules k).isInline → (hub.modules k).live →
        ((hub.modules k).tasks.beginProcess (clock (.promoted k))
          (hub.modules k).options.maxTasksPerProcess).1 = []) →
      let r := forModules (processInline env clock) ks workDone hub
      r.1.log = hub.log ∧ Silent env hub r.1 := by
  induction ks with
  | nil =>
      exact fun _ hub _ _ => ⟨rfl, rfl, fun _ => rfl, fun _ => rfl⟩
  | cons k ks ih =>
      intro workDone hub hnodup hbatch
      rw [List.nodup_cons] at hnodup
      obtain ⟨m, hm, hcases⟩ :=
        processInline_quiet env (hbatch k List.mem_cons_self)
      have hsilent := silent_setModule env hub hm
      rw [forModules]
      rcases hcases with heq | heq
      · rw [heq]
        exact ⟨rfl, hsilent⟩
      · rw [heq]
        obtain ⟨hlog, hrest⟩ := ih (workDone + 0) (hub.setModule k m) hnodup.2
          fun j hj => by
            have hne : j ≠ k := by
              rintro rfl
              exact hnodup.1 hj
            rw [setModule_of_ne hub m hne]
            exact hbatch j (List.mem_cons_of_mem k hj)
        exact ⟨hlog, hsilent.trans hrest⟩

/-- The turn of a module in the second loop, when its hint is not due. -/
theorem processModule_quiet (hwait : env.HooksWait)
    (h : (hub.modules k).live → ∀ due ∈ env.deadlineHint k hub.program,
      clock (.began (.onProcess k)) < due) :
    let r := processModule env clock k hub
    Silent env hub r.1 ∧ OnlyHooks hub r.1 := by
  unfold processModule
  rcases rethrowWorkerException_cases k hub with heq | heq
  · rw [heq]
    dsimp only
    split
    · exact ⟨⟨rfl, fun _ => rfl, fun _ => rfl⟩, .of_eq rfl⟩
    · next hlive =>
        obtain ⟨program, hhint, hrun⟩ := hwait k (clock (.began (.onProcess k)))
          { hub with log := [] } (h (by simpa using hlive))
        unfold call
        rw [hrun]
        refine ⟨⟨rfl, fun _ => rfl, hhint⟩,
          [.ended (.onProcess k) true, .began (.onProcess k)], rfl, ?_⟩
        simp [HubNotice.code]
  · rw [heq]
    exact ⟨silent_setModule env hub rfl, .of_eq rfl⟩

theorem forModules_processModule_quiet (hwait : env.HooksWait)
    (ks : List Nat) : ∀ (workDone : Nat) (hub : ModuleHub σ τ ε),
      (∀ k ∈ ks, (hub.modules k).live →
        ∀ due ∈ env.deadlineHint k hub.program, ∀ r, clock r < due) →
      OnlyHooks hub (forModules (processModule env clock) ks workDone hub).1 := by
  induction ks with
  | nil => exact fun _ _ _ => .of_eq rfl
  | cons k ks ih =>
      intro workDone hub hlate
      obtain ⟨hsilent, hhooks⟩ := processModule_quiet (k := k) hwait
        fun hlive due hdue => hlate k List.mem_cons_self hlive due hdue _
      rw [forModules]
      rcases hr : processModule env clock k hub with ⟨hub', result⟩
      rw [hr] at hsilent hhooks
      cases result with
      | none => exact hhooks
      | some n =>
          refine hhooks.trans (ih (workDone + n) hub' fun j hj hlive => ?_)
          rw [hsilent.live] at hlive
          rw [hsilent.hint]
          exact hlate j (List.mem_cons_of_mem k hj) hlive

/-- A pass over a hub that has nothing due calls hooks at most. -/
theorem process_quiet (hwait : env.HooksWait) (hqueue : hub.bus.queue = [])
    (hquiet : NoTimeout clock hub.bus) (hrest : hub.AtRest)
    (hlate : ∀ k < hub.moduleCount, ∀ r, ¬ hub.ModuleDue env (clock r) k) :
    OnlyHooks hub (hub.process env clock).1 := by
  obtain ⟨w, hbus, -⟩ := processBus_quiet env hqueue hquiet
  have hbatch : ∀ k ∈ List.range hub.moduleCount, (hub.modules k).isInline →
      (hub.modules k).live → ((hub.modules k).tasks.beginProcess
        (clock (.promoted k)) (hub.modules k).options.maxTasksPerProcess).1 =
          [] := by
    intro k hk hinline hlive
    refine (hrest k hinline).batch_eq_nil (fun hdue => ?_) _
    exact hlate k (List.mem_range.mp hk) (.promoted k)
      ⟨hlive, .inl ⟨hinline, hdue⟩⟩
  obtain ⟨hlog, hsilent⟩ := forModules_processInline_quiet env
    (List.range hub.moduleCount) 0 (hub.setBus w) List.nodup_range hbatch
  unfold process
  rw [hbus]
  dsimp only
  rcases hr : forModules (processInline env clock)
    (List.range (hub.setBus w).moduleCount) 0 (hub.setBus w) with ⟨hub', result⟩
  rw [show (hub.setBus w).moduleCount = hub.moduleCount from rfl] at hr
  rw [hr] at hlog hsilent
  cases result with
  | none => exact .of_eq hlog
  | some workDone =>
      have hhints : ∀ k ∈ List.range hub'.moduleCount, (hub'.modules k).live →
          ∀ due ∈ env.deadlineHint k hub'.program, ∀ r, clock r < due := by
        intro k hk hlive due hdue r
        rw [hsilent.count] at hk
        rw [hsilent.live] at hlive
        rw [hsilent.hint] at hdue
        have hnot := hlate k (List.mem_range.mp hk) r
        exact Int.not_le.mp fun hle => hnot ⟨hlive, .inr ⟨due, hdue, hle⟩⟩
      have hfirst : OnlyHooks hub hub' := .of_eq hlog
      exact hfirst.trans (forModules_processModule_quiet hwait
        (List.range hub'.moduleCount) workDone hub' hhints)

/-! ## A pass while work is due -/

/-- The call threw, or has done at least so much. -/
def AtLeast (least : Nat) (result : Option Nat) : Prop :=
  ∀ n, result = some n → least ≤ n

theorem AtLeast.none (least : Nat) : AtLeast least Option.none := nofun

theorem AtLeast.mono {least more : Nat} {result : Option Nat}
    (h : AtLeast more result) (hle : least ≤ more) : AtLeast least result :=
  fun n hn => Nat.le_trans hle (h n hn)

theorem forModules_atLeast
    (body : Nat → ModuleHub σ τ ε → ModuleHub σ τ ε × Option Nat)
    (ks : List Nat) : ∀ (workDone : Nat) (hub : ModuleHub σ τ ε),
      AtLeast workDone (forModules body ks workDone hub).2 := by
  induction ks with
  | nil =>
      intro workDone hub n hn
      cases hn
      exact Nat.le_refl _
  | cons k ks ih =>
      intro workDone hub
      rw [forModules]
      rcases body k hub with ⟨hub', result⟩
      cases result with
      | none => exact .none _
      | some n => exact (ih (workDone + n) hub').mono (Nat.le_add_right _ n)

theorem drain_atLeast (env : HubProgram σ τ ε) (clock : HubReading τ ε → Int)
    (rest : List (QueuedEvent ε)) : ∀ (processed : Nat) (hub : ModuleHub σ τ ε),
      AtLeast (processed + rest.length) (drain env clock rest processed hub).2 := by
  induction rest with
  | nil =>
      intro processed hub n hn
      cases hn
      exact Nat.le_refl _
  | cons queued rest ih =>
      intro processed hub
      rw [drain]
      rcases hub.dispatch env clock queued.event with ⟨hub', result⟩
      cases result with
      | none => exact .none _
      | some _ =>
          refine (ih (processed + 1) hub').mono ?_
          rw [List.length_cons]
          omega

theorem processBus_atLeast (env : HubProgram σ τ ε)
    (clock : HubReading τ ε → Int) (hub : ModuleHub σ τ ε) :
    AtLeast hub.bus.queue.length (hub.processBus env clock).2 := by
  have hdrain := drain_atLeast env clock hub.bus.queue 0
    (hub.setBus { hub.bus with queue := [] })
  unfold processBus
  rcases hr : drain env clock hub.bus.queue 0
    (hub.setBus { hub.bus with queue := [] }) with ⟨hub', result⟩
  rw [hr, Nat.zero_add] at hdrain
  cases result with
  | none => exact .none _
  | some processed => exact hdrain

theorem runBatch_atLeast (env : HubProgram σ τ ε)
    (clock : HubReading τ ε → Int) (k : Nat) (batch : List (Entry τ)) :
    ∀ (processed : Nat) (hub : ModuleHub σ τ ε),
      AtLeast processed (runBatch env clock k batch processed hub).2 := by
  induction batch with
  | nil =>
      intro processed hub n hn
      cases hn
      exact Nat.le_refl _
  | cons entry rest ih =>
      intro processed hub
      rw [runBatch]
      split
      · exact ih processed hub
      · next tasks _ =>
          rcases (hub.setTasks k (tasks.settleStart entry)).call env clock
            (.task k entry) with ⟨hub', result⟩
          cases result with
          | some _ => exact (ih (processed + 1) _).mono (Nat.le_succ _)
          | none =>
              dsimp only
              split
              · rcases ModuleHub.call env clock (.taskExceptionHandler k)
                  (hub'.setTasks k ((hub'.modules k).tasks.finishAfterException
                    entry)) with ⟨hub'', result⟩
                cases result with
                | none => exact .none _
                | some _ => exact (ih (processed + 1) _).mono (Nat.le_succ _)
              · exact .none _

/-- The first entry of a batch starts, so the call counts it or throws. -/
theorem runBatch_starts (env : HubProgram σ τ ε) (clock : HubReading τ ε → Int)
    {entry : Entry τ} (rest : List (Entry τ))
    (hst : (hub.modules k).tasks.stateOf entry.id = .readySnapshot) :
    AtLeast 1 (runBatch env clock k (entry :: rest) 0 hub).2 := by
  rw [runBatch, TaskManager.start, if_pos hst]
  dsimp only
  rcases (hub.setTasks k (((hub.modules k).tasks.setState entry.id
    .executing).settleStart entry)).call env clock (.task k entry)
    with ⟨hub', result⟩
  cases result with
  | some _ => exact runBatch_atLeast env clock k rest 1 _
  | none =>
      dsimp only
      split
      · rcases ModuleHub.call env clock (.taskExceptionHandler k)
          (hub'.setTasks k ((hub'.modules k).tasks.finishAfterException entry))
          with ⟨hub'', result⟩
        cases result with
        | none => exact .none _
        | some _ => exact runBatch_atLeast env clock k rest 1 _
      · exact .none _

theorem processTasks_atLeast (env : HubProgram σ τ ε)
    (clock : HubReading τ ε → Int) {maxTasks : Nat} (hpos : 0 < maxTasks)
    (hbatch : ((hub.modules k).tasks.beginProcess (clock (.promoted k))
      maxTasks).1 ≠ []) :
    AtLeast 1 (hub.processTasks env clock k maxTasks).2 := by
  have hsnapshot := beginProcess_snapshot (hub.modules k).tasks
    (clock (.promoted k)) maxTasks
  unfold processTasks
  rw [if_neg (Nat.ne_of_gt hpos)]
  rcases hr : (hub.modules k).tasks.beginProcess (clock (.promoted k)) maxTasks
    with ⟨batch, tasks⟩
  rw [hr] at hbatch hsnapshot
  cases batch with
  | nil => exact absurd rfl hbatch
  | cons entry rest =>
      refine runBatch_starts env clock rest ?_
      rw [setTasks_self]
      exact hsnapshot entry List.mem_cons_self

/-- The turn of a module in the first loop: it throws or works, or it leaves
every other module as it was. -/
theorem processInline_cases (env : HubProgram σ τ ε)
    (clock : HubReading τ ε → Int) (k : Nat) (hub : ModuleHub σ τ ε) :
    AtLeast 1 (processInline env clock k hub).2 ∨
      ∃ m : HubModule τ,
        processInline env clock k hub = (hub.setModule k m, some 0) := by
  by_cases h : (hub.modules k).isInline → (hub.modules k).live →
    ((hub.modules k).tasks.beginProcess (clock (.promoted k))
      (hub.modules k).options.maxTasksPerProcess).1 = []
  · obtain ⟨m, -, heq | heq⟩ := processInline_quiet env h
    · rw [heq]
      exact .inl (.none 1)
    · exact .inr ⟨m, heq⟩
  · simp only [Classical.not_imp] at h
    obtain ⟨hinline, hlive, hbatch⟩ := h
    refine .inl ?_
    unfold processInline
    rcases rethrowWorkerException_cases k hub with heq | heq
    · rw [heq]
      dsimp only
      rw [hinline, hlive]
      exact processTasks_atLeast env clock (hub.modules k).options.quota_pos
        hbatch
    · rw [heq]
      exact .none 1

/-- The first loop reaches the module with the due task, unless an earlier one
has done some work or thrown. -/
theorem forModules_processInline_atLeast (env : HubProgram σ τ ε)
    (clock : HubReading τ ε → Int) (ks : List Nat) : ∀ hub : ModuleHub σ τ ε, ks.Nodup → k ∈ ks →
      (hub.modules k).live → (hub.modules k).isInline →
      (hub.modules k).tasks.AtRest →
      (hub.modules k).tasks.Due (clock (.promoted k)) →
      AtLeast 1 (forModules (processInline env clock) ks 0 hub).2 := by
  induction ks with
  | nil => exact fun _ _ hk => nomatch hk
  | cons j ks ih =>
      intro hub hnodup hk hlive hinline hrest hdue
      rw [List.nodup_cons] at hnodup
      have hcases := processInline_cases env clock j hub
      rw [forModules]
      by_cases hworks : AtLeast 1 (processInline env clock j hub).2
      · rcases hr : processInline env clock j hub with ⟨hub', result⟩
        rw [hr] at hworks
        cases result with
        | none => exact .none 1
        | some n =>
            refine (forModules_atLeast _ ks (0 + n) hub').mono ?_
            rw [Nat.zero_add]
            exact hworks n rfl
      · obtain ⟨m, heq⟩ := hcases.resolve_left hworks
        have hkj : k ≠ j := by
          rintro rfl
          refine hworks ?_
          have hbatch := hrest.batch_ne_nil hdue
            (hub.modules k).options.quota_pos
          unfold processInline
          rcases rethrowWorkerException_cases k hub with hthrow | hthrow
          · rw [hthrow]
            dsimp only
            rw [hinline, hlive]
            exact processTasks_atLeast env clock
              (hub.modules k).options.quota_pos hbatch
          · rw [hthrow]
            exact .none 1
        have hmodule : (hub.setModule j m).modules k = hub.modules k :=
          setModule_of_ne hub m hkj
        rw [heq]
        refine ih (hub.setModule j m) hnodup.2 ((List.mem_cons.mp hk).resolve_left
          hkj) ?_ ?_ ?_ ?_
        all_goals
          rw [hmodule]
          assumption

theorem process_atLeast (hrest : hub.AtRest) (hquiet : NoTimeout clock hub.bus)
    (hwork : hub.WorkDue now) (hlater : ∀ r, now ≤ clock r) :
    AtLeast 1 (hub.process env clock).2 := by
  have hbus := processBus_atLeast env clock hub
  unfold process
  by_cases hqueue : hub.bus.queue = []
  · obtain ⟨k, hlt, hlive, hinline, hdue⟩ :=
      hwork.resolve_left fun h => h hqueue
    obtain ⟨w, heq, -⟩ := processBus_quiet env hqueue hquiet
    have hloop := forModules_processInline_atLeast env clock
      (List.range hub.moduleCount) (hub.setBus w) List.nodup_range
      (List.mem_range.mpr hlt) hlive hinline (hrest k hinline)
      (hdue.mono (hlater (.promoted k)))
    rw [heq]
    dsimp only
    rcases hr : forModules (processInline env clock)
      (List.range (hub.setBus w).moduleCount) 0 (hub.setBus w)
      with ⟨hub', result⟩
    rw [show (hub.setBus w).moduleCount = hub.moduleCount from rfl] at hr
    rw [hr] at hloop
    cases result with
    | none => exact .none 1
    | some workDone =>
        exact (forModules_atLeast _ _ workDone hub').mono (hloop workDone rfl)
  · have hpos : 1 ≤ hub.bus.queue.length := List.length_pos_iff.mpr hqueue
    rcases hr : hub.processBus env clock with ⟨hub', result⟩
    rw [hr] at hbus
    cases result with
    | none => exact .none 1
    | some processed =>
        have h1 : 1 ≤ processed := Nat.le_trans hpos (hbus processed rfl)
        have hloop := forModules_atLeast (processInline env clock)
          (List.range hub'.moduleCount) processed hub'
        dsimp only
        rcases hr' : forModules (processInline env clock)
          (List.range hub'.moduleCount) processed hub' with ⟨hub'', result⟩
        rw [hr'] at hloop
        cases result with
        | none => exact .none 1
        | some workDone =>
            exact (forModules_atLeast _ _ workDone hub'').mono
              (Nat.le_trans h1 (hloop workDone rfl))

/-! ## The two halves together -/

theorem passiveSource (hwait : env.HooksWait) (hrest : hub.AtRest) :
    hub.PassiveSource env := by
  constructor
  · intro now clock hub₁ hub₂ hpending hsame₁ hsame₂ hclock hquiet
    have hagrees₁ := (hasPending_agrees env now hub).trans hsame₁.agrees
    obtain ⟨hprune, -, hbound⟩ :=
      modulesDeadline_spec env (List.range hub₁.moduleCount) none hub₁
    have hagrees₂ : Agrees env hub₁ hub₂ := hprune.trans hsame₂.agrees
    have hnone := fun h => Bool.false_ne_true
      (hpending.symm.trans ((hasPending_iff env now hub).mpr h))
    have hqueue : hub₂.bus.queue = [] := by
      rw [hagrees₂.queue, hagrees₁.queue]
      exact by_contra fun h => hnone (.inl h)
    refine process_quiet hwait hqueue hquiet
      ((hagrees₁.trans hagrees₂).atRest hrest) fun k hk r hdue => ?_
    rw [hagrees₂.count] at hk
    rw [hagrees₂.moduleDue_iff] at hdue
    have hnever : ¬ hub₁.ModuleDue env now k := by
      rw [hagrees₁.moduleDue_iff]
      rw [hagrees₁.count] at hk
      exact fun h => hnone (.inr ⟨k, hk, h⟩)
    obtain ⟨htasks, hhint⟩ := hbound k (List.mem_range.mpr hk) hdue.1
    -- whatever is due at the reading has a deadline, and the best is no later
    have hlate : ∀ candidate : Option Int,
        NoLater (hub₁.nextDeadline env).2 candidate →
        ¬ ∃ due ∈ candidate, due ≤ clock r := by
      rintro candidate hbest ⟨due, hmem, hle⟩
      obtain ⟨earliest, hearliest, hle'⟩ := hbest due hmem
      have := (hclock r).2 earliest hearliest
      omega
    rcases hdue.2 with ⟨hinline, hready | hdeadline⟩ | hdeadline
    · exact hnever ⟨hdue.1, .inl ⟨hinline, .inl hready⟩⟩
    · exact hlate _ (htasks hinline) hdeadline
    · exact hlate _ hhint hdeadline
  · intro now clock hub₁ _ hwork hsame hlater hquiet
    have hagrees := (hasPending_agrees env now hub).trans hsame.agrees
    exact process_atLeast (hagrees.atRest hrest) hquiet (hagrees.workDue hwork)
      hlater

/-! ## A hub of mixed modules -/

/-- Module 4 has a hook that works when its hint is due. -/
def hintedProgram : HubProgram Int Unit Nat where
  run
    | .onProcess 4, now, hub =>
        if hub.program ≤ now then ({ hub with program := now + 100 }, some 1)
        else (hub, some 0)
    | _, _, hub => (hub, some 0)
  spawns _ _ := true
  locks _ _ := true
  deadlineHint k hint := if k = 4 then some hint else none

/-- An inline module with the given tasks, a private and a manual one that have
the same, an inline one that was never initialized, and one with a hint. -/
def mixedHub (tasks : TaskManager Unit) : ModuleHub Int Unit Nat where
  program := 7
  moduleCount := 5
  modules
    | 0 => { tasks := tasks, initialized := true }
    | 1 => { options := normalizeOptions .privateThread 0, tasks := tasks,
             initialized := true, worker := true }
    | 2 => { options := normalizeOptions .manual 8, tasks := tasks,
             initialized := true }
    | 3 => { tasks := tasks }
    | 4 => { initialized := true }
    | _ => {}

theorem hintedProgram_hooksWait : hintedProgram.HooksWait := by
  intro k now hub hlate
  refine ⟨hub.program, fun _ => rfl, ?_⟩
  by_cases hk : k = 4
  · subst hk
    exact if_neg (Int.not_le.mpr (hlate hub.program rfl))
  · unfold hintedProgram
    dsimp only
    split
    · next heq => cases heq; exact absurd rfl hk
    · rfl

/-- One ready task has been cancelled, and the first of two delayed ones. -/
theorem passiveSource_cancelled : ∃ s : TaskSystem Unit,
    Lts.run TaskSystem.step {} [.post (some ()) {}, .postAt 0 5 (some ()) {},
      .postAt 0 9 (some ()) {}, .cancelLoad 1, .cancelExchange, .cancelLoad 2,
      .cancelExchange] = some s ∧
      ((mixedHub s.mgr).hasPending hintedProgram 6).2 = false ∧
      ((mixedHub s.mgr).nextDeadline hintedProgram).2 = some 7 ∧
      (mixedHub s.mgr).PassiveSource hintedProgram := by
  obtain ⟨s, hs, hphase, hfree, hpending, hdeadline⟩ :
      ∃ s : TaskSystem Unit, Lts.run TaskSystem.step {} [.post (some ()) {},
        .postAt 0 5 (some ()) {}, .postAt 0 9 (some ()) {}, .cancelLoad 1,
        .cancelExchange, .cancelLoad 2, .cancelExchange] = some s ∧
        s.phase = .idle ∧ s.cancelling = none ∧
        ((mixedHub s.mgr).hasPending hintedProgram 6).2 = false ∧
        ((mixedHub s.mgr).nextDeadline hintedProgram).2 = some 7 :=
    Lts.exists_run_of_decide (by decide +kernel)
  refine ⟨s, hs, hpending, hdeadline, passiveSource hintedProgram_hooksWait ?_⟩
  have htasks : s.mgr.AtRest := ⟨s, ⟨_, hs⟩, hphase, hfree, rfl⟩
  have hnone : ({} : TaskManager Unit).AtRest :=
    ⟨{}, Lts.Reachable.refl _, rfl, rfl, rfl⟩
  intro k _
  unfold mixedHub
  dsimp only
  split <;> first | exact htasks | exact hnone

end ModuleHub

end EventHub
