import EventHub.Hub.Lifecycle
import EventHub.Proofs.HubMoves
import EventHub.Proofs.SchedulerStep

/-!
# Lifecycles of hubs are all-or-nothing and ordered

Between two calls a hub stands in one of three phases, which the flags of the
hub and of its modules show. Each call leads from phase to phase, and the hooks
it calls on the way are a piece of a `HubLife`. For `process()` that follows move
by move. For `initialize()` and `shutdown()` it takes an invariant of their
loops: how far the modules have come is one number, and shutting down begins
with exactly the modules below it.

Code of the program other than the hooks may call the hub again. What it does is
then a sequence of such calls, to which the same applies.
-/

namespace EventHub

variable {σ τ ε : Type}

namespace ModuleHub

/-! ## What code of the program does -/

/-- The same modules are in the same states. -/
structure SameFlags (hub hub' : ModuleHub σ τ ε) : Prop where
  count : hub'.moduleCount = hub.moduleCount
  initialized : hub'.initialized = hub.initialized
  flags : ∀ k,
    (hub'.modules k).initialized = (hub.modules k).initialized ∧
    (hub'.modules k).stopping = (hub.modules k).stopping ∧
    (hub'.modules k).stopped = (hub.modules k).stopped

/-- Nothing has happened in the lives of the modules. -/
structure SameLife (hub hub' : ModuleHub σ τ ε) : Prop extends
    SameFlags hub hub' where
  log : ∃ notices, hub'.log = notices ++ hub.log ∧
    ∀ o ∈ notices, o.code.isHook = false

/-- Module `k` is stopped, with its manager closed and empty, its endpoint
closed and no worker. -/
structure Shut (hub : ModuleHub σ τ ε) (k : Nat) : Prop where
  stopped : (hub.modules k).stopped
  closed : (hub.modules k).tasks.closed
  ready : ∀ priority, (hub.modules k).tasks.ready priority = []
  delayed : (hub.modules k).tasks.delayedHeap = []
  endpoint : (hub.bus.endpoints (hub.modules k).endpoint).closed
  worker : (hub.modules k).worker = false

/-- A hook calls nothing of the lifecycle, and no other part of the library
starts a worker or opens what is closed. -/
structure Quiet (hub hub' : ModuleHub σ τ ε) : Prop extends SameLife hub hub' where
  keeps : ∀ k, hub.Shut k → hub'.Shut k
  worker : ∀ k, (hub.modules k).worker = false → (hub'.modules k).worker = false

end ModuleHub

def HubProgram.HooksQuiet (env : HubProgram σ τ ε) : Prop :=
  ∀ (c : HubCode τ ε) (now : Int) (hub : ModuleHub σ τ ε), c.isHook →
    hub.log = [] → hub.Quiet (env.run c now hub).1

/-- What other threads do meanwhile leaves the lifecycle alone. -/
def LoopPass.Proper (pass : LoopPass σ τ ε) : Prop :=
  ∀ hub : ModuleHub σ τ ε, hub.SameLife (pass.others hub)

def HubOp.Proper : HubOp σ τ ε → Prop
  | .run _ passes => ∀ pass ∈ passes, pass.Proper
  | .others change => ∀ hub : ModuleHub σ τ ε, hub.SameLife (change hub)
  | _ => True

/-- What handlers and tasks may do: anything that leaves the lifecycle alone,
and calls of the hub, in which they are called in their turn. -/
inductive Reenters : ModuleHub σ τ ε → ModuleHub σ τ ε → Prop
  | quiet {hub hub'} (h : hub.SameLife hub') : Reenters hub hub'
  | call {hub} (env : HubProgram σ τ ε) (op : HubOp σ τ ε) (hooks : env.HooksQuiet)
      (code : ∀ c now hub, c.isHook = false → hub.log = [] →
        Reenters hub (env.run c now hub).1)
      (hop : op.Proper) : Reenters hub (hub.apply env op)
  | trans {hub hub' hub''} (h : Reenters hub hub') (h' : Reenters hub' hub'') :
      Reenters hub hub''

/-- The hooks do not re-enter the lifecycle. -/
structure HubProgram.Orderly (env : HubProgram σ τ ε) : Prop where
  hooks : env.HooksQuiet
  code : ∀ c now hub, c.isHook = false → hub.log = [] →
    Reenters hub (env.run c now hub).1

namespace ModuleHub

/-- A hub that nothing has been done with. -/
structure Fresh (hub : ModuleHub σ τ ε) : Prop where
  initialized : hub.initialized = false
  log : hub.log = []
  modules : ∀ k < hub.moduleCount, (hub.modules k).initialized = false ∧
    (hub.modules k).stopping = false ∧ (hub.modules k).stopped = false

/-- What a call of `initialize()` amounts to in which the hook of module `k`
throws. -/
structure Abandoned (k : Nat) (notices : List (HubNotice τ ε))
    (r : ModuleHub σ τ ε × Option Nat) : Prop where
  throws : r.2 = none
  events : lifeEvents notices = LifeEvent.abandonment k
  shut : ∀ j < r.1.moduleCount, r.1.Shut j

/-- The lifecycle of a hub is all-or-nothing and ordered. -/
structure AllOrNothing (env : HubProgram σ τ ε) (hub : ModuleHub σ τ ε) :
    Prop where
  ordered : ∀ ops : List (HubOp σ τ ε), (∀ op ∈ ops, op.Proper) →
    OrderedLife hub.moduleCount (lifeEvents (hub.live env ops).log)
  /-- The call may be one of `run()`, which sets two flags of the hub first. -/
  abandons : ∀ ops : List (HubOp σ τ ε), (∀ op ∈ ops, op.Proper) →
    ∀ clock running stopRequested hub',
      hub' = { hub.live env ops with
        running := running, stopRequested := stopRequested } →
      ∀ notices, (hub'.initializeHub env clock).1.log = notices ++ hub'.log →
        ∀ k, .initializeThrew k ∈ lifeEvents notices →
          Abandoned k notices (hub'.initializeHub env clock)
  destroyed : ∀ ops : List (HubOp σ τ ε), (∀ op ∈ ops, op.Proper) →
    ∀ clock evs, evs = lifeEvents ((hub.live env ops).destroy env clock).log →
      OrderedLife hub.moduleCount evs ∧ EachStopped evs

variable {env : HubProgram σ τ ε} {hub hub' hub'' : ModuleHub σ τ ε}
  {clock : HubReading τ ε → Int} {i j k : Nat} {p q : HubPhase}
  {evs evs' : List LifeEvent}

/-! ## Histories -/

/-- The hooks called on the way from one state to another. -/
def Wrote (hub hub' : ModuleHub σ τ ε) (evs : List LifeEvent) : Prop :=
  ∃ notices, hub'.log = notices ++ hub.log ∧ lifeEvents notices = evs

theorem Wrote.trans (h : Wrote hub hub' evs) (h' : Wrote hub' hub'' evs') :
    Wrote hub hub'' (evs ++ evs') := by
  obtain ⟨notices, hlog, rfl⟩ := h
  obtain ⟨notices', hlog', rfl⟩ := h'
  refine ⟨notices' ++ notices, ?_, lifeEvents_append _ _⟩
  rw [hlog', hlog, List.append_assoc]

theorem Wrote.congr (h : Wrote hub hub' evs) (heq : hub''.log = hub'.log) :
    Wrote hub hub'' evs := by
  obtain ⟨notices, hlog, hevs⟩ := h
  exact ⟨notices, heq.trans hlog, hevs⟩

theorem wrote_of_log_eq (h : hub'.log = hub.log) : Wrote hub hub' [] :=
  ⟨[], h, rfl⟩

/-- The hooks are those that the log has in addition. -/
theorem Wrote.eq {notices : List (HubNotice τ ε)} (h : Wrote hub hub' evs)
    (hlog : hub'.log = notices ++ hub.log) : lifeEvents notices = evs := by
  obtain ⟨notices', hlog', rfl⟩ := h
  rw [List.append_cancel_right (hlog.symm.trans hlog')]

namespace SameLife

theorem refl (hub : ModuleHub σ τ ε) : hub.SameLife hub :=
  ⟨⟨rfl, rfl, fun _ => ⟨rfl, rfl, rfl⟩⟩, [], rfl, List.forall_mem_nil _⟩

theorem trans (h : hub.SameLife hub') (h' : hub'.SameLife hub'') :
    hub.SameLife hub'' := by
  refine ⟨⟨h'.count.trans h.count, h'.initialized.trans h.initialized,
    fun k => ?_⟩, ?_⟩
  · obtain ⟨hinit, hstopping, hstopped⟩ := h.flags k
    obtain ⟨hinit', hstopping', hstopped'⟩ := h'.flags k
    exact ⟨hinit'.trans hinit, hstopping'.trans hstopping,
      hstopped'.trans hstopped⟩
  · obtain ⟨notices, hlog, hcode⟩ := h.log
    obtain ⟨notices', hlog', hcode'⟩ := h'.log
    refine ⟨notices' ++ notices, ?_, fun o ho => ?_⟩
    · rw [hlog', hlog, List.append_assoc]
    · exact (List.mem_append.mp ho).elim (hcode' o) (hcode o)

theorem wrote (h : hub.SameLife hub') : Wrote hub hub' [] := by
  obtain ⟨notices, hlog, hcode⟩ := h.log
  exact ⟨notices, hlog, lifeEvents_eq_nil hcode⟩

end SameLife

/-- A module is changed in other members than its flags. -/
theorem sameLife_setModule (hub : ModuleHub σ τ ε) {m : HubModule τ}
    (hinit : m.initialized = (hub.modules k).initialized)
    (hstopping : m.stopping = (hub.modules k).stopping)
    (hstopped : m.stopped = (hub.modules k).stopped) :
    hub.SameLife (hub.setModule k m) := by
  refine ⟨⟨rfl, rfl, fun j => ?_⟩, [], rfl, List.forall_mem_nil _⟩
  by_cases hj : j = k
  · rw [hj, setModule_self]
    exact ⟨hinit, hstopping, hstopped⟩
  · rw [setModule_of_ne hub m hj]
    exact ⟨rfl, rfl, rfl⟩

theorem sameLife_setTasks (hub : ModuleHub σ τ ε) (k : Nat)
    (tasks : TaskManager τ) : hub.SameLife (hub.setTasks k tasks) :=
  hub.sameLife_setModule rfl rfl rfl

theorem sameLife_foldl {f : ModuleHub σ τ ε → Nat → ModuleHub σ τ ε}
    (hf : ∀ (hub : ModuleHub σ τ ε) k, hub.SameLife (f hub k)) (ks : List Nat) :
    ∀ hub : ModuleHub σ τ ε, hub.SameLife (ks.foldl f hub) := by
  induction ks with
  | nil => exact .refl
  | cons k ks ih => exact fun hub => (hf hub k).trans (ih _)

/-! ## Phases -/

/-- The first `i` modules are initialized, the others not, and none has begun to
shut down. -/
def Partly (hub : ModuleHub σ τ ε) (i : Nat) : Prop :=
  ∀ k < hub.moduleCount, (hub.modules k).initialized = decide (k < i) ∧
    (hub.modules k).stopping = false ∧ (hub.modules k).stopped = false

/-- No module is left to initialize or to shut down. -/
def Over (hub : ModuleHub σ τ ε) : Prop :=
  ∀ k < hub.moduleCount, hub.initialized = false ∧
    (hub.modules k).initialized = false ∧ (hub.modules k).stopping = false ∧
    (hub.modules k).stopped = true

def Stands (hub : ModuleHub σ τ ε) : HubPhase → Prop
  | .fresh => hub.initialized = false ∧ hub.Partly 0
  | .live => hub.initialized = true ∧ hub.Partly hub.moduleCount
  | .ended => hub.Over

theorem SameFlags.partly (h : hub.SameFlags hub') (hi : hub.Partly i) :
    hub'.Partly i := by
  intro k hk
  rw [h.count] at hk
  rw [(h.flags k).1, (h.flags k).2.1, (h.flags k).2.2]
  exact hi k hk

theorem SameFlags.over (h : hub.SameFlags hub') (hover : hub.Over) :
    hub'.Over := by
  intro k hk
  rw [h.count] at hk
  rw [h.initialized, (h.flags k).1, (h.flags k).2.1, (h.flags k).2.2]
  exact hover k hk

theorem SameFlags.stands (h : hub.SameFlags hub') (hp : hub.Stands p) :
    hub'.Stands p := by
  cases p with
  | fresh => exact ⟨h.initialized.trans hp.1, h.partly hp.2⟩
  | live =>
      refine ⟨h.initialized.trans hp.1, ?_⟩
      rw [h.count]
      exact h.partly hp.2
  | ended => exact h.over hp

/-- A call leads from phase to phase by a piece of a life. -/
structure Refines (hub hub' : ModuleHub σ τ ε) : Prop where
  count : hub'.moduleCount = hub.moduleCount
  lives : ∀ p, hub.Stands p → ∃ q evs,
    hub'.Stands q ∧ Wrote hub hub' evs ∧ HubLife hub.moduleCount p evs q

theorem SameLife.refines (h : hub.SameLife hub') : hub.Refines hub' :=
  ⟨h.count, fun p hp => ⟨p, [], h.stands hp, h.wrote, .nil _ p⟩⟩

theorem Refines.refl (hub : ModuleHub σ τ ε) : hub.Refines hub :=
  (SameLife.refl hub).refines

theorem Refines.trans (h : hub.Refines hub') (h' : hub'.Refines hub'') :
    hub.Refines hub'' := by
  refine ⟨h'.count.trans h.count, fun p hp => ?_⟩
  obtain ⟨q, evs, hq, hwrote, hlife⟩ := h.lives p hp
  obtain ⟨r, evs', hr, hwrote', hlife'⟩ := h'.lives q hq
  rw [h.count] at hlife'
  exact ⟨r, evs ++ evs', hr, hwrote.trans hwrote', hlife.append hlife'⟩

/-! ## Calls of the program -/

/-- A hook writes when it begins and ends, and nothing else. -/
structure HookCalled (hub hub' : ModuleHub σ τ ε) (c : HubCode τ ε)
    (returned : Bool) : Prop extends SameFlags hub hub' where
  keeps : ∀ k, hub.Shut k → hub'.Shut k
  worker : ∀ k, (hub.modules k).worker = false → (hub'.modules k).worker = false
  wrote : Wrote hub hub' (lifeEvents [.ended c returned, .began c])

theorem Shut.congr (h : hub.Shut k) (hmodules : hub'.modules = hub.modules)
    (hbus : hub'.bus = hub.bus) : hub'.Shut k := by
  constructor <;> rw [hmodules]
  · exact h.stopped
  · exact h.closed
  · exact h.ready
  · exact h.delayed
  · rw [hbus]
    exact h.endpoint
  · exact h.worker

theorem call_hook (hooks : env.HooksQuiet) {c : HubCode τ ε} (hc : c.isHook)
    (clock : HubReading τ ε → Int) (hub : ModuleHub σ τ ε) :
    HookCalled hub (hub.call env clock c).1 c
      (hub.call env clock c).2.isSome := by
  have hquiet := hooks c (clock (.began c)) { hub with log := [] } hc rfl
  obtain ⟨notices, hlog, hcode⟩ := hquiet.log
  refine ⟨⟨hquiet.count, hquiet.initialized, hquiet.flags⟩, fun k hk => ?_,
    hquiet.worker, ?_⟩
  · exact (hquiet.keeps k (hk.congr rfl rfl)).congr rfl rfl
  · refine ⟨.ended c (hub.call env clock c).2.isSome ::
      (notices ++ [.began c]), ?_, ?_⟩
    · unfold ModuleHub.call
      dsimp only
      rw [hlog]
      simp
    · rw [← List.singleton_append, lifeEvents_append, lifeEvents_append,
        lifeEvents_eq_nil hcode, List.append_nil, ← lifeEvents_append]
      rfl

/-- Other code than the hooks goes from phase to phase. -/
def CodeRefines (env : HubProgram σ τ ε) : Prop :=
  ∀ (c : HubCode τ ε) (now : Int) (hub : ModuleHub σ τ ε), c.isHook = false →
    hub.log = [] → hub.Refines (env.run c now hub).1

/-- That it is called is not a matter of the lifecycle. -/
theorem call_code (hcode : CodeRefines env) {c : HubCode τ ε}
    (hc : c.isHook = false) (clock : HubReading τ ε → Int)
    (hub : ModuleHub σ τ ε) : hub.Refines (hub.call env clock c).1 := by
  have hrun := hcode c (clock (.began c)) { hub with log := [] } hc rfl
  refine ⟨hrun.count, fun p hp => ?_⟩
  obtain ⟨q, evs, hq, ⟨notices, hlog, rfl⟩, hlife⟩ := hrun.lives p hp
  refine ⟨q, _, hq, ⟨.ended c (hub.call env clock c).2.isSome ::
    (notices ++ [.began c]), ?_, ?_⟩, hlife⟩
  · unfold ModuleHub.call
    dsimp only
    rw [hlog]
    simp
  · have hnone (o : HubNotice τ ε) (ho : o.code = c) : lifeEvents [o] = [] := by
      refine lifeEvents_eq_nil fun o' ho' => ?_
      rw [List.mem_singleton.mp ho', ho]
      exact hc
    rw [← List.singleton_append, lifeEvents_append, lifeEvents_append,
      hnone _ rfl, hnone _ rfl, List.nil_append, List.append_nil]

/-! ## `process()` -/

/-- The hook of a module that is live is called while the hub is. -/
theorem onProcess_refines (hooks : env.HooksQuiet)
    (clock : HubReading τ ε → Int) (hk : k < hub.moduleCount)
    (hlive : (hub.modules k).live) :
    hub.Refines (hub.call env clock (.onProcess k)).1 := by
  have hcalled := call_hook hooks (c := .onProcess k) rfl clock hub
  simp only [HubModule.live, Bool.and_eq_true, Bool.not_eq_true'] at hlive
  refine ⟨hcalled.count, fun p hp => ?_⟩
  cases p with
  | fresh =>
      rw [(hp.2 k hk).1] at hlive
      exact absurd hlive.1.1 (by simp)
  | live =>
      refine ⟨.live, _, hcalled.stands hp, hcalled.wrote, ?_⟩
      exact .live [k] (by simpa using hk)
  | ended =>
      rw [(hp k hk).2.1] at hlive
      exact absurd hlive.1.1 Bool.false_ne_true

theorem refines_moves (hooks : env.HooksQuiet)
    (hcode : CodeRefines env) : Moves env Refines where
  refl := Refines.refl
  trans _ _ _ := Refines.trans
  count _ _ h := h.count
  code clock _ hub hc := call_code hcode hc clock hub
  hook clock _ _ hk hlive := onProcess_refines hooks clock hk hlive
  tasks k tasks hub := (hub.sameLife_setTasks k tasks).refines
  bus _ _ := SameLife.refines ⟨⟨rfl, rfl, fun _ => ⟨rfl, rfl, rfl⟩⟩, [], rfl,
    List.forall_mem_nil _⟩
  rethrown k hub := by
    unfold rethrowWorkerException
    split
    · refine SameLife.refines ?_
      exact hub.sameLife_setModule rfl rfl rfl
    · exact .refl hub

/-! ## Initializing the modules -/

theorem partly_succ (h : hub.Partly i) (hi : i < hub.moduleCount) :
    (hub.setModule i { hub.modules i with initialized := true }).Partly (i + 1) := by
  intro k hk
  by_cases hki : k = i
  · subst hki
    rw [setModule_self]
    exact ⟨by simp, (h k hi).2⟩
  · rw [setModule_of_ne hub _ hki]
    refine ⟨?_, (h k hk).2⟩
    rw [(h k hk).1]
    exact decide_eq_decide.mpr (by omega)

/-- The first `i` modules of `hub` have been initialized on the way to `hub'`. -/
structure Initialized (hub hub' : ModuleHub σ τ ε) (i : Nat) : Prop where
  count : hub'.moduleCount = hub.moduleCount
  initialized : hub'.initialized = hub.initialized
  partly : hub'.Partly i
  wrote : Wrote hub hub' (LifeEvent.initializations i)

/-- The hook of module `k` has thrown. -/
structure Threw (hub hub' : ModuleHub σ τ ε) (k : Nat) : Prop where
  count : hub'.moduleCount = hub.moduleCount
  initialized : hub'.initialized = hub.initialized
  partly : hub'.Partly k
  wrote : Wrote hub hub'
    (LifeEvent.initializations k ++ [.initializing k, .initializeThrew k])

theorem Initialized.initializeModule (hooks : env.HooksQuiet)
    (clock : HubReading τ ε → Int) (h : Initialized hub hub' i)
    (hi : i < hub.moduleCount) :
    (hub'.initializeModule env clock i).2 = some 0 ∧
        Initialized hub (hub'.initializeModule env clock i).1 (i + 1) ∨
      (hub'.initializeModule env clock i).2 = none ∧
        Threw hub (hub'.initializeModule env clock i).1 i := by
  rw [← h.count] at hi
  obtain ⟨hinit, hstopping, hstopped⟩ := h.partly i hi
  have hcalled := call_hook hooks (c := .onInitialize i) rfl clock hub'
  have hpartly := hcalled.partly h.partly
  unfold ModuleHub.initializeModule
  rw [if_neg (by simp [hinit]), if_neg (by simp [hstopping, hstopped])]
  rcases hcall : hub'.call env clock (.onInitialize i) with ⟨hub'', _ | n⟩
  · rw [hcall] at hcalled hpartly
    exact .inr ⟨rfl, hcalled.count.trans h.count,
      hcalled.initialized.trans h.initialized, hpartly,
      h.wrote.trans hcalled.wrote⟩
  · rw [hcall] at hcalled hpartly
    refine .inl ⟨rfl, hcalled.count.trans h.count,
      hcalled.initialized.trans h.initialized, ?_, ?_⟩
    · exact partly_succ hpartly (hcalled.count ▸ hi)
    · rw [LifeEvent.initializations_succ]
      exact (h.wrote.trans hcalled.wrote).congr rfl

/-- The loop of `initialize()` from module `i` on. -/
theorem Initialized.forModules (hooks : env.HooksQuiet)
    (clock : HubReading τ ε → Int) (m : Nat) :
    ∀ i workDone hub', Initialized hub hub' i → i + m = hub.moduleCount →
      ∀ r, r = ModuleHub.forModules (ModuleHub.initializeModule env clock)
          (List.range' i m) workDone hub' →
        (r.2.isSome ∧ Initialized hub r.1 hub.moduleCount) ∨
          ∃ k < hub.moduleCount, r.2 = none ∧ Threw hub r.1 k := by
  induction m with
  | zero =>
      rintro i workDone hub' h hm r rfl
      rw [Nat.add_zero] at hm
      exact .inl ⟨rfl, hm ▸ h⟩
  | succ m ih =>
      rintro i workDone hub' h hm r rfl
      have hi : i < hub.moduleCount := by omega
      have hone := h.initializeModule hooks clock hi
      rw [List.range'_succ, ModuleHub.forModules]
      rcases heq : hub'.initializeModule env clock i with ⟨hub'', _ | n⟩
      · rw [heq] at hone
        rcases hone with ⟨hsome, -⟩ | ⟨-, hthrew⟩
        · cases hsome
        · exact .inr ⟨i, hi, rfl, hthrew⟩
      · rw [heq] at hone
        rcases hone with ⟨-, hnext⟩ | ⟨hnone, -⟩
        · exact ih (i + 1) (workDone + n) hub'' hnext (by omega) _ rfl
        · cases hnone

theorem startWorker_sameLife (env : HubProgram σ τ ε) (k : Nat)
    (hub : ModuleHub σ τ ε) : hub.SameLife (hub.startWorker env k).1 := by
  unfold startWorker
  split
  · exact .refl hub
  · split
    · exact .refl hub
    · have hclear : hub.SameLife (hub.setModule k
          { hub.modules k with workerException := false,
                               workerStopRequested := false }) :=
        hub.sameLife_setModule rfl rfl rfl
      dsimp only
      split
      · refine hclear.trans ?_
        exact sameLife_setModule _ rfl rfl rfl
      · exact hclear

theorem startWorkers_sameLife (env : HubProgram σ τ ε) (ks : List Nat)
    (workDone : Nat) (hub : ModuleHub σ τ ε) :
    hub.SameLife (forModules (startWorker env) ks workDone hub).1 :=
  forModules_rel .refl (fun _ _ _ => .trans) (startWorker_sameLife env) ks
    workDone hub

/-! ## Shutting the modules down -/

theorem sameLife_requestWorkerStop (hub : ModuleHub σ τ ε) (k : Nat) :
    hub.SameLife (hub.requestWorkerStop k) :=
  hub.sameLife_setModule rfl rfl rfl

theorem sameLife_joinWorker (hub : ModuleHub σ τ ε) (k : Nat) :
    hub.SameLife (hub.joinWorker k) :=
  hub.sameLife_setModule rfl rfl rfl

theorem closed_cancelAwaiter (a : Nat) (cause : Cause) (w : World ε) (e : Nat) :
    ((cancelAwaiter a cause w).endpoints e).closed = (w.endpoints e).closed := by
  unfold cancelAwaiter World.release
  dsimp only
  split
  · split <;> rfl
  · rfl

theorem closed_closeEndpoint (e e' : Nat) (w : World ε)
    (h : (w.endpoints e').closed ∨ e' = e) :
    ((closeEndpoint e w).endpoints e').closed := by
  have hcancel (awaiters : List Nat) : ∀ w : World ε,
      ((awaiters.foldl (fun w a => cancelAwaiter a (.cancel .close) w)
        w).endpoints e').closed = (w.endpoints e').closed := by
    induction awaiters with
    | nil => exact fun _ => rfl
    | cons a awaiters ih =>
        exact fun w => (ih _).trans (closed_cancelAwaiter a _ w e')
  unfold closeEndpoint
  dsimp only [World.unsubscribeAll]
  rw [hcancel]
  unfold World.setEndpoint
  dsimp only
  split
  · rfl
  · next hne => exact h.resolve_right hne

/-- Of the modules, only `k` is changed, and nothing that is shut is opened. -/
structure Elsewhere (hub hub' : ModuleHub σ τ ε) (k : Nat) : Prop where
  count : hub'.moduleCount = hub.moduleCount
  initialized : hub'.initialized = hub.initialized
  flags : ∀ j, j ≠ k →
    (hub'.modules j).initialized = (hub.modules j).initialized ∧
    (hub'.modules j).stopping = (hub.modules j).stopping ∧
    (hub'.modules j).stopped = (hub.modules j).stopped
  keeps : ∀ j, j ≠ k → hub.Shut j → hub'.Shut j

theorem Elsewhere.trans (h : Elsewhere hub hub' k) (h' : Elsewhere hub' hub'' k) :
    Elsewhere hub hub'' k := by
  refine ⟨h'.count.trans h.count, h'.initialized.trans h.initialized,
    fun j hj => ?_, fun j hj hshut => h'.keeps j hj (h.keeps j hj hshut)⟩
  obtain ⟨hinit, hstopping, hstopped⟩ := h.flags j hj
  obtain ⟨hinit', hstopping', hstopped'⟩ := h'.flags j hj
  exact ⟨hinit'.trans hinit, hstopping'.trans hstopping,
    hstopped'.trans hstopped⟩

theorem elsewhere_setModule (hub : ModuleHub σ τ ε) (k : Nat) (m : HubModule τ) :
    Elsewhere hub (hub.setModule k m) k := by
  refine ⟨rfl, rfl, fun j hj => ?_, fun j hj hshut => ?_⟩
  · rw [setModule_of_ne hub m hj]
    exact ⟨rfl, rfl, rfl⟩
  · constructor <;> rw [setModule_of_ne hub m hj]
    · exact hshut.stopped
    · exact hshut.closed
    · exact hshut.ready
    · exact hshut.delayed
    · exact hshut.endpoint
    · exact hshut.worker

theorem HookCalled.elsewhere {c : HubCode τ ε} {returned : Bool}
    (h : HookCalled hub hub' c returned) (k : Nat) : Elsewhere hub hub' k :=
  ⟨h.count, h.initialized, fun j _ => h.flags j, fun j _ => h.keeps j⟩

theorem elsewhere_closeEndpoint (hub : ModuleHub σ τ ε) (e k : Nat) :
    Elsewhere hub (hub.setBus (closeEndpoint e hub.bus)) k :=
  ⟨rfl, rfl, fun _ _ => ⟨rfl, rfl, rfl⟩, fun _ _ hshut =>
    ⟨hshut.stopped, hshut.closed, hshut.ready, hshut.delayed,
      closed_closeEndpoint e _ _ (.inl hshut.endpoint), hshut.worker⟩⟩

theorem finishShutdown_elsewhere (hub : ModuleHub σ τ ε) (k : Nat) :
    Elsewhere hub (hub.finishShutdown k) k :=
  ((hub.elsewhere_setModule k _).trans (elsewhere_closeEndpoint _ _ k)).trans
    (elsewhere_setModule _ k _)

theorem finishShutdown_shut (hworker : (hub.modules k).worker = false) :
    (hub.finishShutdown k).Shut k := by
  obtain ⟨hready, -, hclosed⟩ :=
    TaskManager.clearPending_frame (hub.modules k).tasks.close.1
  unfold finishShutdown
  constructor
  all_goals
    dsimp only
    rw [setModule_self]
  · dsimp only [setBus]
    rw [setTasks_self]
    exact hclosed
  · intro priority
    dsimp only [setBus]
    rw [setTasks_self]
    exact congrFun hready priority
  · dsimp only [setBus]
    rw [setTasks_self]
    rfl
  · exact closed_closeEndpoint _ _ _ (.inr rfl)
  · dsimp only [setBus]
    rw [setTasks_self]
    exact hworker

/-- What `shutdown()` of a module does before its hook. -/
def beginShutdown (hub : ModuleHub σ τ ε) (k : Nat) : ModuleHub σ τ ε :=
  ((hub.setModule k { hub.modules k with stopping := true }).requestWorkerStop
    k).joinWorker k

theorem beginShutdown_elsewhere (hub : ModuleHub σ τ ε) (k : Nat) :
    Elsewhere hub (hub.beginShutdown k) k :=
  ((hub.elsewhere_setModule k _).trans (elsewhere_setModule _ k _)).trans
    (elsewhere_setModule _ k _)

theorem beginShutdown_self (hub : ModuleHub σ τ ε) (k : Nat) :
    ((hub.beginShutdown k).modules k).initialized = (hub.modules k).initialized ∧
      ((hub.beginShutdown k).modules k).worker = false := by
  simp [beginShutdown, requestWorkerStop, joinWorker]

theorem finishShutdown_self (hub : ModuleHub σ τ ε) (k : Nat) :
    ((hub.finishShutdown k).modules k).initialized = false ∧
      ((hub.finishShutdown k).modules k).stopping = false := by
  simp [finishShutdown]

/-- One module is shut down; the hook is called if it has been initialized. -/
theorem shutdownModule_spec (hooks : env.HooksQuiet)
    (clock : HubReading τ ε → Int)
    (hstopping : (hub.modules k).stopping = false)
    (hstopped : (hub.modules k).stopped = false) :
    Elsewhere hub (hub.shutdownModule env clock k) k ∧
    ((hub.shutdownModule env clock k).modules k).initialized = false ∧
    ((hub.shutdownModule env clock k).modules k).stopping = false ∧
    (hub.shutdownModule env clock k).Shut k ∧
    Wrote hub (hub.shutdownModule env clock k)
      (if (hub.modules k).initialized then [.stopping k, .stopped k] else []) := by
  obtain ⟨hinit, hworker⟩ := hub.beginShutdown_self k
  have hbegin := hub.beginShutdown_elsewhere k
  have hfinish (hub : ModuleHub σ τ ε) := hub.finishShutdown_elsewhere k
  have hself (hub : ModuleHub σ τ ε) := hub.finishShutdown_self k
  have heq : hub.shutdownModule env clock k =
      (if ((hub.beginShutdown k).modules k).initialized then
        ((hub.beginShutdown k).call env clock (.onShutdown k)).1
      else hub.beginShutdown k).finishShutdown k := by
    unfold shutdownModule
    rw [if_neg (by simp [hstopping, hstopped])]
    rfl
  rw [heq, hinit]
  split
  · have hcalled := call_hook hooks (c := .onShutdown k) rfl clock
      (hub.beginShutdown k)
    have hwrote : Wrote hub ((hub.beginShutdown k).call env clock
        (.onShutdown k)).1 ([] ++ [.stopping k, .stopped k]) :=
      (wrote_of_log_eq rfl).trans hcalled.wrote
    exact ⟨(hbegin.trans (hcalled.elsewhere k)).trans (hfinish _), (hself _).1,
      (hself _).2, finishShutdown_shut (hcalled.worker k hworker),
      hwrote.congr rfl⟩
  · exact ⟨hbegin.trans (hfinish _), (hself _).1, (hself _).2,
      finishShutdown_shut hworker, wrote_of_log_eq rfl⟩

/-- The modules from `j` on are shut down, of the first `i` that have been
initialized and the others. -/
structure Descending (hub : ModuleHub σ τ ε) (i j : Nat) : Prop where
  below : ∀ k < hub.moduleCount, k < j →
    (hub.modules k).initialized = decide (k < i) ∧
    (hub.modules k).stopping = false ∧ (hub.modules k).stopped = false
  above : ∀ k < hub.moduleCount, j ≤ k →
    (hub.modules k).initialized = false ∧ (hub.modules k).stopping = false ∧
    hub.Shut k

theorem Descending.shutdownModule (hooks : env.HooksQuiet)
    (clock : HubReading τ ε → Int) (h : hub.Descending i (j + 1))
    (hj : j < hub.moduleCount) :
    Elsewhere hub (hub.shutdownModule env clock j) j ∧
    (hub.shutdownModule env clock j).Descending i j ∧
    Wrote hub (hub.shutdownModule env clock j)
      (if j < i then [.stopping j, .stopped j] else []) := by
  obtain ⟨hinit, hstopping, hstopped⟩ := h.below j hj (Nat.lt_succ_self j)
  obtain ⟨helsewhere, hinit', hstopping', hshut, hwrote⟩ :=
    shutdownModule_spec hooks clock hstopping hstopped
  rw [hinit] at hwrote
  simp only [decide_eq_true_eq] at hwrote
  refine ⟨helsewhere, ⟨fun k hk hkj => ?_, fun k hk hjk => ?_⟩, hwrote⟩
  · rw [helsewhere.count] at hk
    have hne : k ≠ j := Nat.ne_of_lt hkj
    rw [(helsewhere.flags k hne).1, (helsewhere.flags k hne).2.1,
      (helsewhere.flags k hne).2.2]
    exact h.below k hk (Nat.lt_succ_of_lt hkj)
  · rw [helsewhere.count] at hk
    by_cases hkj : k = j
    · subst hkj
      exact ⟨hinit', hstopping', hshut⟩
    · obtain ⟨hinit, hstopping, hshut⟩ := h.above k hk (by omega)
      rw [(helsewhere.flags k hkj).1, (helsewhere.flags k hkj).2.1]
      exact ⟨hinit, hstopping, helsewhere.keeps k hkj hshut⟩

/-- The hooks of the first `i` modules, of those before `j`. -/
theorem Descending.foldl (hooks : env.HooksQuiet) (clock : HubReading τ ε → Int)
    (i j : Nat) : ∀ hub : ModuleHub σ τ ε, hub.Descending i j →
      j ≤ hub.moduleCount → ∀ r,
      r = (List.range j).reverse.foldl (ModuleHub.shutdownModule env clock) hub →
      r.moduleCount = hub.moduleCount ∧ r.initialized = hub.initialized ∧
        r.Descending i 0 ∧ Wrote hub r (LifeEvent.shutdowns (min i j)) := by
  induction j with
  | zero =>
      rintro hub h - r rfl
      rw [Nat.min_zero]
      exact ⟨rfl, rfl, h, wrote_of_log_eq rfl⟩
  | succ j ih =>
      rintro hub h hj r rfl
      rw [List.range_succ, List.reverse_append, List.reverse_singleton,
        List.singleton_append, List.foldl_cons]
      obtain ⟨helsewhere, hnext, hwrote⟩ := h.shutdownModule hooks clock hj
      obtain ⟨hcount, hinit, hdone, hwrote'⟩ := ih _ hnext
        (by rw [helsewhere.count]; omega) _ rfl
      refine ⟨hcount.trans helsewhere.count, hinit.trans helsewhere.initialized,
        hdone, ?_⟩
      by_cases hji : j < i
      · rw [if_pos hji] at hwrote
        rw [Nat.min_eq_right (by omega)] at hwrote' ⊢
        rw [LifeEvent.shutdowns_succ]
        exact hwrote.trans hwrote'
      · rw [if_neg hji] at hwrote
        rw [Nat.min_eq_left (by omega)] at hwrote' ⊢
        exact hwrote.trans hwrote'

theorem Over.foldl (env : HubProgram σ τ ε) (clock : HubReading τ ε → Int)
    (h : hub.Over) (ks : List Nat) (hks : ∀ k ∈ ks, k < hub.moduleCount) :
    ks.foldl (shutdownModule env clock) hub = hub := by
  induction ks with
  | nil => rfl
  | cons k ks ih =>
      have hk := h k (hks k List.mem_cons_self)
      have heq : hub.shutdownModule env clock k = hub := by
        unfold shutdownModule
        rw [if_pos (by simp [hk.2.2.2])]
      rw [List.foldl_cons, heq]
      exact ih fun j hj => hks j (List.mem_cons_of_mem _ hj)

/-- First the workers are stopped. -/
theorem shutdownModules_eq (env : HubProgram σ τ ε)
    (clock : HubReading τ ε → Int) (hub : ModuleHub σ τ ε) :
    ∃ hub', hub.SameLife hub' ∧ hub.shutdownModules env clock =
      (List.range hub.moduleCount).reverse.foldl (shutdownModule env clock)
        hub' := by
  have hasked := sameLife_foldl sameLife_requestWorkerStop
    (List.range hub.moduleCount) hub
  have hjoined := sameLife_foldl sameLife_joinWorker
    (List.range hub.moduleCount)
    ((List.range hub.moduleCount).foldl requestWorkerStop hub)
  refine ⟨_, hasked.trans hjoined, ?_⟩
  unfold shutdownModules reversed
  dsimp only
  rw [hasked.count, hjoined.count, hasked.count]

/-- All modules are shut down, of which the first `i` were initialized. -/
theorem Partly.shutdownModules (hooks : env.HooksQuiet)
    (clock : HubReading τ ε → Int) (h : hub.Partly i) (hi : i ≤ hub.moduleCount)
    {r : ModuleHub σ τ ε} (hr : r = hub.shutdownModules env clock) :
    r.moduleCount = hub.moduleCount ∧ r.initialized = hub.initialized ∧
      (∀ k < hub.moduleCount, (r.modules k).initialized = false ∧
        (r.modules k).stopping = false ∧ r.Shut k) ∧
      Wrote hub r (LifeEvent.shutdowns i) := by
  obtain ⟨hub', hworkers, heq⟩ := shutdownModules_eq env clock hub
  have hpartly := hworkers.partly h
  rw [heq] at hr
  obtain ⟨hcount, hinit, hdone, hwrote⟩ :=
    Descending.foldl hooks clock i hub.moduleCount hub'
      ⟨fun k hk _ => hpartly k hk, fun k hk hle => by
        rw [hworkers.count] at hk
        omega⟩ hworkers.count.ge r hr
  rw [Nat.min_eq_left hi] at hwrote
  refine ⟨hcount.trans hworkers.count, hinit.trans hworkers.initialized,
    fun k hk => hdone.above k ?_ (Nat.zero_le k), hworkers.wrote.trans hwrote⟩
  rw [hcount, hworkers.count]
  exact hk

/-- A hub that is over stays as it is. -/
theorem Over.shutdownModules (env : HubProgram σ τ ε)
    (clock : HubReading τ ε → Int) (h : hub.Over) :
    hub.SameLife (hub.shutdownModules env clock) := by
  obtain ⟨hub', hworkers, heq⟩ := shutdownModules_eq env clock hub
  rw [heq, (hworkers.over h).foldl env clock]
  · exact hworkers
  · intro k hk
    rw [hworkers.count]
    exact List.mem_range.mp (List.mem_reverse.mp hk)

/-! ## `initialize()` and `shutdown()` -/

theorem over_of_shut {r : ModuleHub σ τ ε} (hinit : r.initialized = false)
    (h : ∀ k < r.moduleCount, (r.modules k).initialized = false ∧
      (r.modules k).stopping = false ∧ r.Shut k) : r.Over :=
  fun k hk => ⟨hinit, (h k hk).1, (h k hk).2.1, (h k hk).2.2.stopped⟩

/-- What `initialize()` may come to. -/
inductive InitOutcome (hub : ModuleHub σ τ ε) (p : HubPhase)
    (r : ModuleHub σ τ ε × Option Nat) : Prop
  | idle (hstands : r.1.Stands p) (hwrote : Wrote hub r.1 [])
  | done (hp : p = .fresh) (hstands : r.1.Stands .live)
      (hwrote : Wrote hub r.1 (LifeEvent.initializations hub.moduleCount))
  | abandoned (k : Nat) (hp : p = .fresh) (hk : k < hub.moduleCount)
      (hnone : r.2 = none) (hover : r.1.Over)
      (hshut : ∀ j < hub.moduleCount, r.1.Shut j)
      (hwrote : Wrote hub r.1 (LifeEvent.abandonment k))
  /-- No thread could be constructed. -/
  | spawnless (hp : p = .fresh) (hover : r.1.Over)
      (hwrote : Wrote hub r.1 (LifeEvent.initializations hub.moduleCount ++
        LifeEvent.shutdowns hub.moduleCount))

theorem initializeHub_of_fresh (hooks : env.HooksQuiet)
    (clock : HubReading τ ε → Int) (h : hub.Stands .fresh) :
    InitOutcome hub .fresh (hub.initializeHub env clock) := by
  have hstart : Initialized hub hub 0 :=
    ⟨rfl, rfl, h.2, wrote_of_log_eq rfl⟩
  have hloop := hstart.forModules hooks clock hub.moduleCount 0 0 hub
    (Nat.zero_add _) _ rfl
  rw [← List.range_eq_range'] at hloop
  unfold initializeHub
  rw [if_neg (by simp [h.1])]
  rcases hinits : forModules (initializeModule env clock)
    (List.range hub.moduleCount) 0 hub with ⟨hub', _ | n⟩
  · rw [hinits] at hloop
    rcases hloop with ⟨hsome, -⟩ | ⟨k, hk, -, hthrew⟩
    · cases hsome
    · dsimp only
      obtain ⟨hcount, hinit, hshut, hwrote⟩ :=
        hthrew.partly.shutdownModules hooks clock (hthrew.count ▸ hk.le) rfl
      rw [hthrew.count] at hcount hshut
      refine .abandoned k rfl hk rfl (over_of_shut ?_ ?_)
        (fun j hj => (hshut j hj).2.2) (hthrew.wrote.trans hwrote)
      · exact hinit.trans (hthrew.initialized.trans h.1)
      · rw [hcount]
        exact hshut
  · rw [hinits] at hloop
    rcases hloop with ⟨-, hall⟩ | ⟨k, -, hnone, -⟩
    · dsimp only
      have hworkers := startWorkers_sameLife env (List.range hub'.moduleCount) 0
        hub'
      have hpartly := hworkers.partly hall.partly
      have hcount := hworkers.count.trans hall.count
      have hwrote := hall.wrote.trans hworkers.wrote
      rw [List.append_nil] at hwrote
      rcases hspawns : forModules (startWorker env)
        (List.range hub'.moduleCount) 0 hub' with ⟨hub'', _ | n⟩
      · rw [hspawns] at hworkers hpartly hcount hwrote
        dsimp only
        obtain ⟨hcount', hinit, hshut, hwrote'⟩ :=
          hpartly.shutdownModules hooks clock hcount.ge rfl
        rw [hcount] at hcount' hshut
        refine .spawnless rfl (over_of_shut ?_ ?_) (hwrote.trans hwrote')
        · exact hinit.trans (hworkers.initialized.trans
            (hall.initialized.trans h.1))
        · rw [hcount']
          exact hshut
      · rw [hspawns] at hpartly hcount hwrote
        refine .done rfl ⟨rfl, ?_⟩ (hwrote.congr rfl)
        rw [← hcount] at hpartly
        exact hpartly
    · cases hnone

/-- The first module refuses. -/
theorem initializeHub_of_over (env : HubProgram σ τ ε)
    (clock : HubReading τ ε → Int) (h : hub.Over) :
    InitOutcome hub .ended (hub.initializeHub env clock) := by
  unfold initializeHub
  split
  · exact .idle h (wrote_of_log_eq rfl)
  · by_cases hzero : hub.moduleCount = 0
    · simp only [hzero, List.range_zero, forModules]
      refine .idle (fun k hk => ?_) (wrote_of_log_eq rfl)
      exact absurd (hzero ▸ hk) (Nat.not_lt_zero k)
    · have hfirst : hub.initializeModule env clock 0 = (hub, none) := by
        obtain ⟨-, hinit, -, hstopped⟩ := h 0 (Nat.pos_of_ne_zero hzero)
        unfold initializeModule
        rw [if_neg (by simp [hinit]), if_pos (by simp [hstopped])]
      have hloop : forModules (initializeModule env clock)
          (List.range hub.moduleCount) 0 hub = (hub, none) := by
        obtain ⟨m, hm⟩ := Nat.exists_eq_succ_of_ne_zero hzero
        rw [hm, List.range_succ_eq_map, forModules, hfirst]
      rw [hloop]
      have hsame := h.shutdownModules env clock
      exact .idle (hsame.over h) hsame.wrote

theorem initializeHub_outcome (hooks : env.HooksQuiet)
    (clock : HubReading τ ε → Int) (hp : hub.Stands p) :
    InitOutcome hub p (hub.initializeHub env clock) := by
  cases p with
  | fresh => exact initializeHub_of_fresh hooks clock hp
  | live =>
      unfold initializeHub
      rw [if_pos hp.1]
      exact .idle hp (wrote_of_log_eq rfl)
  | ended => exact initializeHub_of_over env clock hp

theorem shutdownModule_count (hooks : env.HooksQuiet)
    (clock : HubReading τ ε → Int) (hub : ModuleHub σ τ ε) (k : Nat) :
    (hub.shutdownModule env clock k).moduleCount = hub.moduleCount := by
  unfold shutdownModule
  split
  · rfl
  · dsimp only
    split
    · exact (call_hook hooks (c := .onShutdown k) rfl clock _).count
    · rfl

theorem shutdownModules_count (hooks : env.HooksQuiet)
    (clock : HubReading τ ε → Int) (hub : ModuleHub σ τ ε) :
    (hub.shutdownModules env clock).moduleCount = hub.moduleCount := by
  have hloop (ks : List Nat) : ∀ hub : ModuleHub σ τ ε,
      (ks.foldl (shutdownModule env clock) hub).moduleCount =
        hub.moduleCount := by
    induction ks with
    | nil => exact fun _ => rfl
    | cons k ks ih =>
        exact fun hub => (ih _).trans (shutdownModule_count hooks clock hub k)
  obtain ⟨hub', hworkers, heq⟩ := shutdownModules_eq env clock hub
  rw [heq, hloop, hworkers.count]

theorem initializeModule_count (hooks : env.HooksQuiet)
    (clock : HubReading τ ε → Int) (k : Nat) (hub : ModuleHub σ τ ε) :
    (hub.initializeModule env clock k).1.moduleCount = hub.moduleCount := by
  have hcalled := (call_hook hooks (c := .onInitialize k) rfl clock hub).count
  unfold initializeModule
  split
  · rfl
  · split
    · rfl
    · split
      · next heq =>
          rw [heq] at hcalled
          exact hcalled
      · next heq =>
          rw [heq] at hcalled
          exact hcalled

theorem initializeHub_count (hooks : env.HooksQuiet)
    (clock : HubReading τ ε → Int) (hub : ModuleHub σ τ ε) :
    (hub.initializeHub env clock).1.moduleCount = hub.moduleCount := by
  have hinits := forModules_rel
    (R := fun hub hub' => hub'.moduleCount = hub.moduleCount) (fun _ => rfl)
    (fun _ _ _ h h' => h'.trans h) (initializeModule_count hooks clock)
    (List.range hub.moduleCount) 0 hub
  unfold initializeHub
  split
  · rfl
  · split
    · next hub' heq =>
        rw [heq] at hinits
        exact (shutdownModules_count hooks clock hub').trans hinits
    · next hub' n heq =>
        rw [heq] at hinits
        have hworkers := (startWorkers_sameLife env (List.range hub'.moduleCount)
          0 hub').count
        split
        · next hub'' heq' =>
            rw [heq'] at hworkers
            exact (shutdownModules_count hooks clock hub'').trans
              (hworkers.trans hinits)
        · next heq' =>
            rw [heq'] at hworkers
            exact hworkers.trans hinits

theorem initializeHub_refines (hooks : env.HooksQuiet)
    (clock : HubReading τ ε → Int) (hub : ModuleHub σ τ ε) :
    hub.Refines (hub.initializeHub env clock).1 := by
  refine ⟨initializeHub_count hooks clock hub, fun p hp => ?_⟩
  cases initializeHub_outcome hooks clock hp with
  | idle hstands hwrote => exact ⟨p, [], hstands, hwrote, .nil _ p⟩
  | done hp hstands hwrote =>
      subst hp
      refine ⟨.live, _, hstands, hwrote, ?_⟩
      have := HubLife.initialized (n := hub.moduleCount) [] (List.forall_mem_nil _)
      rwa [LifeEvent.processings, List.flatMap_nil, List.append_nil] at this
  | abandoned k hp hk hnone hover hshut hwrote =>
      subst hp
      exact ⟨.ended, _, hover, hwrote, .abandoned hk⟩
  | spawnless hp hover hwrote =>
      subst hp
      refine ⟨.ended, _, hover, hwrote, ?_⟩
      have := HubLife.completed (n := hub.moduleCount) [] (List.forall_mem_nil _)
      rwa [LifeEvent.processings, List.flatMap_nil, List.append_nil] at this

theorem requestStop_sameLife (hub : ModuleHub σ τ ε) :
    hub.SameLife hub.requestStop := by
  have hflag : hub.SameLife { hub with stopRequested := true } :=
    ⟨⟨rfl, rfl, fun _ => ⟨rfl, rfl, rfl⟩⟩, [], rfl, List.forall_mem_nil _⟩
  exact hflag.trans (sameLife_foldl sameLife_requestWorkerStop _ _)

theorem shutdown_count (hooks : env.HooksQuiet) (clock : HubReading τ ε → Int)
    (hub : ModuleHub σ τ ε) :
    (hub.shutdown env clock).moduleCount = hub.moduleCount :=
  (shutdownModules_count hooks clock _).trans hub.requestStop_sameLife.count

/-- The hub is over, and every module that was initialized has been shut down. -/
theorem shutdown_over (hooks : env.HooksQuiet) (clock : HubReading τ ε → Int)
    (hp : hub.Stands p) : (hub.shutdown env clock).Over ∧
      ∃ evs, Wrote hub (hub.shutdown env clock) evs ∧
        HubLife hub.moduleCount p evs .ended := by
  have hasked := hub.requestStop_sameLife
  have hstands := hasked.stands hp
  have hpartly {i : Nat} (h : hub.requestStop.Partly i)
      (hi : i ≤ hub.requestStop.moduleCount) :
      (hub.shutdown env clock).Over ∧
        Wrote hub (hub.shutdown env clock) (LifeEvent.shutdowns i) := by
    obtain ⟨hcount, -, hshut, hwrote⟩ := h.shutdownModules hooks clock hi rfl
    constructor
    · intro k hk
      obtain ⟨hinit, hstopping, hdone⟩ := hshut k (hcount ▸ hk)
      exact ⟨rfl, hinit, hstopping, hdone.stopped⟩
    · exact (hasked.wrote.trans hwrote).congr rfl
  cases p with
  | fresh =>
      obtain ⟨hover, hwrote⟩ := hpartly hstands.2 (Nat.zero_le _)
      exact ⟨hover, _, hwrote, .unused⟩
  | live =>
      obtain ⟨hover, hwrote⟩ := hpartly hstands.2 (Nat.le_refl _)
      rw [hasked.count] at hwrote
      exact ⟨hover, _, hwrote, .stopped [] (List.forall_mem_nil _)⟩
  | ended =>
      have hsame := Over.shutdownModules env clock hstands
      refine ⟨fun k hk => ?_, _, ((hasked.trans hsame).wrote).congr rfl, .ended⟩
      obtain ⟨-, hrest⟩ := hsame.over hstands k hk
      exact ⟨rfl, hrest⟩

theorem shutdown_refines (hooks : env.HooksQuiet)
    (clock : HubReading τ ε → Int) (hub : ModuleHub σ τ ε) :
    hub.Refines (hub.shutdown env clock) := by
  refine ⟨shutdown_count hooks clock hub, fun p hp => ?_⟩
  obtain ⟨hover, evs, hwrote, hlife⟩ := shutdown_over hooks clock hp
  exact ⟨.ended, evs, hover, hwrote, hlife⟩

/-! ## `run()` -/

/-- The flags of the loop are no matter of the lifecycle. -/
theorem sameLife_flags (hub : ModuleHub σ τ ε) (running stopRequested : Bool) :
    hub.SameLife
      { hub with running := running, stopRequested := stopRequested } :=
  ⟨⟨rfl, rfl, fun _ => ⟨rfl, rfl, rfl⟩⟩, [], rfl, List.forall_mem_nil _⟩

theorem runLoop_refines (hooks : env.HooksQuiet) (hcode : CodeRefines env)
    (passes : List (LoopPass σ τ ε)) (hproper : ∀ pass ∈ passes, pass.Proper) :
    ∀ hub : ModuleHub σ τ ε, hub.Refines (hub.runLoop env passes).1 := by
  have hmoves := refines_moves hooks hcode
  induction passes with
  | nil => exact fun hub => (hub.sameLife_flags hub.running true).refines
  | cons pass passes ih =>
      intro hub
      have hothers (hub : ModuleHub σ τ ε) : hub.Refines (pass.others hub) :=
        (hproper pass List.mem_cons_self hub).refines
      have hrest (hub : ModuleHub σ τ ε) :=
        (hothers hub).trans (ih (fun pass hpass =>
          hproper pass (List.mem_cons_of_mem _ hpass)) (pass.others hub))
      have hprocess := hmoves.process pass.clock hub
      unfold runLoop
      split
      · exact .refl hub
      · split
        · next heq => rwa [heq] at hprocess
        · next hub' workDone heq =>
            rw [heq] at hprocess
            refine hprocess.trans ?_
            dsimp only
            split
            · exact hrest hub'
            · split
              · exact .refl hub'
              · have hpending := hmoves.hasPending pass.now hub'
                split
                · exact hpending.trans (hrest _)
                · exact (hpending.trans (hmoves.nextDeadline _)).trans (hrest _)

theorem run_refines (hooks : env.HooksQuiet) (hcode : CodeRefines env)
    (clock : HubReading τ ε → Int) {passes : List (LoopPass σ τ ε)}
    (hproper : ∀ pass ∈ passes, pass.Proper) (hub : ModuleHub σ τ ε) :
    hub.Refines (hub.run env clock passes).1 := by
  have hend (hub : ModuleHub σ τ ε) :
      hub.Refines { hub.shutdown env clock with running := false } :=
    (shutdown_refines hooks clock hub).trans
      (sameLife_flags _ false (hub.shutdown env clock).stopRequested).refines
  unfold run
  split
  · exact .refl hub
  · have hstart := (hub.sameLife_flags true false).refines.trans
      (initializeHub_refines hooks clock _)
    split
    · next heq =>
        rw [heq] at hstart
        exact hstart.trans (hend _)
    · next hub' n heq =>
        rw [heq] at hstart
        have hloop := hstart.trans (runLoop_refines hooks hcode passes hproper hub')
        split
        · next heq' =>
            rw [heq'] at hloop
            exact hloop.trans (hend _)
        · next heq' =>
            rw [heq'] at hloop
            exact hloop.trans (hend _)

/-! ## Whole lives -/

theorem apply_refines (hooks : env.HooksQuiet) (hcode : CodeRefines env)
    {op : HubOp σ τ ε} (hop : op.Proper) (hub : ModuleHub σ τ ε) :
    hub.Refines (hub.apply env op) := by
  cases op with
  | initializeHub clock => exact initializeHub_refines hooks clock hub
  | process clock => exact (refines_moves hooks hcode).process clock hub
  | shutdown clock => exact shutdown_refines hooks clock hub
  | run clock passes => exact run_refines hooks hcode clock hop hub
  | others change => exact SameLife.refines (hop hub)

end ModuleHub

/-- Calls of the hub from the code that it calls. -/
theorem Reenters.refines {hub hub' : ModuleHub σ τ ε} (h : Reenters hub hub') :
    hub.Refines hub' := by
  induction h with
  | quiet h => exact h.refines
  | call env op hooks code hop ih => exact ModuleHub.apply_refines hooks ih hop _
  | trans h h' ih ih' => exact ih.trans ih'

namespace ModuleHub

variable {env : HubProgram σ τ ε} {hub : ModuleHub σ τ ε}

theorem live_refines (henv : env.Orderly) (ops : List (HubOp σ τ ε))
    (hops : ∀ op ∈ ops, op.Proper) :
    ∀ hub : ModuleHub σ τ ε, hub.Refines (hub.live env ops) := by
  have hcode : CodeRefines env := fun c now hub hc hlog =>
    (henv.code c now hub hc hlog).refines
  induction ops with
  | nil => exact .refl
  | cons op ops ih =>
      intro hub
      exact (apply_refines henv.hooks hcode (hops op List.mem_cons_self) hub).trans
        (ih (fun op hop => hops op (List.mem_cons_of_mem _ hop)) _)

theorem Fresh.stands (h : hub.Fresh) : hub.Stands .fresh :=
  ⟨h.initialized, fun k hk => by simpa using h.modules k hk⟩

theorem allOrNothing (henv : env.Orderly) (hfresh : hub.Fresh) :
    hub.AllOrNothing env := by
  have hlive (ops : List (HubOp σ τ ε)) (hops : ∀ op ∈ ops, op.Proper) :
      ∃ q, (hub.live env ops).Stands q ∧
        HubLife hub.moduleCount .fresh (lifeEvents (hub.live env ops).log) q := by
    obtain ⟨q, evs, hq, ⟨notices, hlog, rfl⟩, hlife⟩ :=
      (live_refines henv ops hops hub).lives .fresh hfresh.stands
    rw [hfresh.log, List.append_nil] at hlog
    exact ⟨q, hq, hlog ▸ hlife⟩
  constructor
  · intro ops hops
    obtain ⟨q, -, hlife⟩ := hlive ops hops
    exact hlife.ordered
  · rintro ops hops clock running stopRequested hub' rfl notices hlog k hk
    obtain ⟨q, hq, -⟩ := hlive ops hops
    have hstands := ((hub.live env ops).sameLife_flags running
      stopRequested).stands hq
    have hcount := initializeHub_count henv.hooks clock
      { hub.live env ops with running := running, stopRequested := stopRequested }
    cases initializeHub_outcome henv.hooks clock hstands with
    | idle hstands' hwrote =>
        rw [hwrote.eq hlog] at hk
        exact absurd hk List.not_mem_nil
    | done hp hstands' hwrote =>
        rw [hwrote.eq hlog] at hk
        simp [LifeEvent.mem_initializations] at hk
    | abandoned j hp hj hnone hover hshut hwrote =>
        rw [hwrote.eq hlog] at hk
        simp only [LifeEvent.abandonment, List.mem_append,
          LifeEvent.mem_initializations, LifeEvent.mem_shutdowns] at hk
        have hkj : k = j := by simpa using hk
        subst hkj
        exact ⟨hnone, hwrote.eq hlog, fun j hj => hshut j (hcount ▸ hj)⟩
    | spawnless hp hover hwrote =>
        rw [hwrote.eq hlog] at hk
        simp [LifeEvent.mem_initializations, LifeEvent.mem_shutdowns] at hk
  · rintro ops hops clock evs rfl
    obtain ⟨q, hq, hlife⟩ := hlive ops hops
    have hasked := (hub.live env ops).requestStop_sameLife
    obtain ⟨-, evs, hwrote, hlife'⟩ :=
      shutdown_over henv.hooks clock (hasked.stands hq)
    have hcount : (hub.live env ops).requestStop.moduleCount = hub.moduleCount :=
      hasked.count.trans (live_refines henv ops hops hub).count
    rw [hcount] at hlife'
    have hwhole : lifeEvents ((hub.live env ops).destroy env clock).log =
        lifeEvents (hub.live env ops).log ++ evs := by
      obtain ⟨notices, hlog, hevs⟩ := hasked.wrote.trans hwrote
      unfold destroy
      rw [hlog, lifeEvents_append, hevs, List.nil_append]
    rw [hwhole]
    exact ⟨(hlife.append hlife').ordered, (hlife.append hlife').eachStopped⟩

/-- The hook of the third module throws. -/
def throwingProgram : HubProgram Unit Unit Nat where
  run c _ hub :=
    (hub, match c with
      | .onInitialize 2 => none
      | _ => some 0)
  spawns _ _ := true
  locks _ _ := true
  deadlineHint _ _ := none

def threeModules : ModuleHub Unit Unit Nat where
  program := ()
  moduleCount := 3

theorem throwingProgram_orderly : throwingProgram.Orderly where
  hooks _ _ hub _ _ := ⟨.refl hub, fun _ h => h, fun _ h => h⟩
  code _ _ hub _ _ := .quiet (.refl hub)

theorem allOrNothing_throwing :
    threeModules.AllOrNothing throwingProgram ∧
      lifeEvents (threeModules.initializeHub throwingProgram fun _ => 0).1.log =
        [.initializing 0, .initialized 0, .initializing 1, .initialized 1,
          .initializing 2, .initializeThrew 2, .stopping 1, .stopped 1,
          .stopping 0, .stopped 0] :=
  ⟨allOrNothing throwingProgram_orderly ⟨rfl, rfl, fun _ _ => ⟨rfl, rfl, rfl⟩⟩,
    by decide⟩

end ModuleHub

end EventHub
