import EventHub.Hub.Process
import EventHub.Spec.Lifecycle

/-!
# What `process()` does, move by move

Whatever holds from before to after every single thing that `process()` and the
two queries do holds from before to after the whole call. The single things
are few: they call code of the program, change the tasks of a module or the
bus, and take a stored exception out of a module. Nothing else of the hub
enters.
-/

namespace EventHub

variable {σ τ ε : Type}

namespace ModuleHub

/-- A loop over modules keeps to what its body keeps to. -/
theorem forModules_rel {R : ModuleHub σ τ ε → ModuleHub σ τ ε → Prop}
    (refl : ∀ hub, R hub hub)
    (trans : ∀ hub hub' hub'', R hub hub' → R hub' hub'' → R hub hub'')
    {body : Nat → ModuleHub σ τ ε → ModuleHub σ τ ε × Option Nat}
    (hbody : ∀ k hub, R hub (body k hub).1) (ks : List Nat) :
    ∀ workDone hub, R hub (forModules body ks workDone hub).1 := by
  induction ks with
  | nil => exact fun _ => refl
  | cons k ks ih =>
      intro workDone hub
      have hone := hbody k hub
      unfold forModules
      split
      · next heq =>
          rw [heq] at hone
          exact trans _ _ _ hone (ih _ _)
      · next heq => rwa [heq] at hone

/-- A relation that every single move keeps to. -/
structure Moves (env : HubProgram σ τ ε)
    (R : ModuleHub σ τ ε → ModuleHub σ τ ε → Prop) : Prop where
  refl : ∀ hub, R hub hub
  trans : ∀ hub hub' hub'', R hub hub' → R hub' hub'' → R hub hub''
  count : ∀ hub hub', R hub hub' → hub'.moduleCount = hub.moduleCount
  code : ∀ clock c hub, c.isHook = false → R hub (hub.call env clock c).1
  hook : ∀ clock k hub, k < hub.moduleCount → (hub.modules k).live →
    R hub (hub.call env clock (.onProcess k)).1
  tasks : ∀ k tasks hub, R hub (hub.setTasks k tasks)
  bus : ∀ bus hub, R hub (hub.setBus bus)
  rethrown : ∀ k hub, R hub (hub.rethrowWorkerException k).1

namespace Moves

variable {env : HubProgram σ τ ε}
  {R : ModuleHub σ τ ε → ModuleHub σ τ ε → Prop} {k : Nat}

theorem dispatchRecord (h : Moves env R) (clock : HubReading τ ε → Int)
    (ev : Event ε) (record : CallbackRecord) (hub : ModuleHub σ τ ε) :
    R hub (hub.dispatchRecord env clock ev record).1 := by
  have hcall := h.code clock (.handler record ev) hub rfl
  unfold ModuleHub.dispatchRecord
  split
  · exact h.refl hub
  · split
    · next heq => rwa [heq] at hcall
    · next heq =>
        rw [heq] at hcall
        split
        · exact h.trans _ _ _ hcall (h.code clock .busExceptionHandler _ rfl)
        · exact hcall

theorem dispatchRecords (h : Moves env R) (clock : HubReading τ ε → Int)
    (ev : Event ε) (records : List CallbackRecord) :
    ∀ hub, R hub (ModuleHub.dispatchRecords env clock ev records hub).1 := by
  induction records with
  | nil => exact h.refl
  | cons record records ih =>
      intro hub
      have hrecord := h.dispatchRecord clock ev record hub
      unfold ModuleHub.dispatchRecords
      split
      · next heq =>
          rw [heq] at hrecord
          exact h.trans _ _ _ hrecord (ih _)
      · next heq => rwa [heq] at hrecord

theorem drain (h : Moves env R) (clock : HubReading τ ε → Int)
    (queue : List (QueuedEvent ε)) :
    ∀ processed hub, R hub (ModuleHub.drain env clock queue processed hub).1 := by
  induction queue with
  | nil => exact fun _ => h.refl
  | cons queued rest ih =>
      intro processed hub
      have hdispatch := h.dispatchRecords clock queued.event
        (hub.bus.callbacks queued.event.type) hub
      unfold ModuleHub.drain ModuleHub.dispatch
      split
      · next heq =>
          rw [heq] at hdispatch
          exact h.trans _ _ _ hdispatch (ih _ _)
      · next heq =>
          rw [heq] at hdispatch
          exact h.trans _ _ _ hdispatch (h.bus _ _)

theorem pollTimeout (h : Moves env R) (clock : HubReading τ ε → Int)
    (hub : ModuleHub σ τ ε) (a : Nat) : R hub (hub.pollTimeout env clock a) := by
  unfold ModuleHub.pollTimeout
  split
  · exact h.refl hub
  · split
    · exact h.bus _ hub
    · split
      · dsimp only
        refine h.trans _ _ _ (h.bus (cancelAwaiter a .timeout
          (hub.bus.setAwaiter a
            { hub.bus.awaiters a with onTimeout := false })) hub) ?_
        split
        · refine h.trans _ _ _ (h.code clock (.onTimeout a) _ rfl) ?_
          split
          · next heq => rw [heq]; exact h.refl _
          · next heq =>
              rw [heq]
              split
              · exact h.code clock .busExceptionHandler _ rfl
              · exact h.refl _
        · exact h.refl _
      · exact h.refl hub

theorem processBus (h : Moves env R) (clock : HubReading τ ε → Int)
    (hub : ModuleHub σ τ ε) : R hub (hub.processBus env clock).1 := by
  have hpolls (awaiters : List Nat) : ∀ hub,
      R hub (awaiters.foldl (ModuleHub.pollTimeout env clock) hub) := by
    induction awaiters with
    | nil => exact h.refl
    | cons a awaiters ih =>
        exact fun hub => h.trans _ _ _ (h.pollTimeout clock hub a) (ih _)
  have hdrain := h.trans _ _ _ (h.bus { hub.bus with queue := [] } hub)
    (h.drain clock hub.bus.queue 0 _)
  unfold ModuleHub.processBus
  split
  · next heq =>
      rw [heq] at hdrain
      exact h.trans _ _ _ hdrain
        (h.trans _ _ _ (h.bus _ _) (hpolls _ _))
  · next heq => rwa [heq] at hdrain

theorem runBatch (h : Moves env R) (clock : HubReading τ ε → Int) (k : Nat)
    (batch : List (Entry τ)) :
    ∀ processed hub, R hub (ModuleHub.runBatch env clock k batch processed hub).1 := by
  induction batch with
  | nil => exact fun _ => h.refl
  | cons entry rest ih =>
      intro processed hub
      unfold ModuleHub.runBatch
      split
      · exact ih _ _
      · next tasks hstart =>
          have hcall := h.trans _ _ _ (h.tasks k (tasks.settleStart entry) hub)
            (h.code clock (.task k entry) _ rfl)
          split
          · next heq =>
              rw [heq] at hcall
              exact h.trans _ _ _ hcall (h.trans _ _ _ (h.tasks k _ _) (ih _ _))
          · next hub' heq =>
              rw [heq] at hcall
              dsimp only
              refine h.trans _ _ _ (h.trans _ _ _ hcall (h.tasks k
                ((hub'.modules k).tasks.finishAfterException entry) hub')) ?_
              split
              · refine h.trans _ _ _ (h.code clock (.taskExceptionHandler k) _ rfl) ?_
                split
                · next heq =>
                    rw [heq]
                    exact ih _ _
                · next heq =>
                    rw [heq]
                    exact h.tasks k _ _
              · exact h.tasks k _ _

theorem processTasks (h : Moves env R) (clock : HubReading τ ε → Int)
    (k maxTasks : Nat) (hub : ModuleHub σ τ ε) :
    R hub (hub.processTasks env clock k maxTasks).1 := by
  unfold ModuleHub.processTasks
  split
  · exact h.refl hub
  · exact h.trans _ _ _ (h.tasks k _ hub) (h.runBatch clock k _ 0 _)

theorem processInline (h : Moves env R) (clock : HubReading τ ε → Int)
    (k : Nat) (hub : ModuleHub σ τ ε) : R hub (hub.processInline env clock k).1 := by
  have hrethrow := h.rethrown k hub
  unfold ModuleHub.processInline
  split
  · next heq => rwa [heq] at hrethrow
  · next heq =>
      rw [heq] at hrethrow
      split
      · exact hrethrow
      · exact h.trans _ _ _ hrethrow (h.processTasks clock k _ _)

theorem processModule (h : Moves env R) (clock : HubReading τ ε → Int)
    (hub : ModuleHub σ τ ε) (hk : k < hub.moduleCount) :
    R hub (hub.processModule env clock k).1 := by
  have hrethrow := h.rethrown k hub
  unfold ModuleHub.processModule
  split
  · next heq => rwa [heq] at hrethrow
  · next heq =>
      rw [heq] at hrethrow
      split
      · exact hrethrow
      · next hlive =>
          refine h.trans _ _ _ hrethrow (h.hook clock k _ ?_ (by simpa using hlive))
          rwa [h.count _ _ hrethrow]

theorem forModules (h : Moves env R)
    {body : Nat → ModuleHub σ τ ε → ModuleHub σ τ ε × Option Nat}
    (hbody : ∀ k hub, k < hub.moduleCount → R hub (body k hub).1)
    (ks : List Nat) : ∀ workDone hub, (∀ k ∈ ks, k < hub.moduleCount) →
      R hub (ModuleHub.forModules body ks workDone hub).1 := by
  induction ks with
  | nil => exact fun _ hub _ => h.refl hub
  | cons k ks ih =>
      intro workDone hub hks
      have hone := hbody k hub (hks k List.mem_cons_self)
      unfold ModuleHub.forModules
      split
      · next heq =>
          rw [heq] at hone
          refine h.trans _ _ _ hone (ih _ _ fun j hj => ?_)
          rw [h.count _ _ hone]
          exact hks j (List.mem_cons_of_mem _ hj)
      · next heq => rwa [heq] at hone

theorem process (h : Moves env R) (clock : HubReading τ ε → Int)
    (hub : ModuleHub σ τ ε) : R hub (hub.process env clock).1 := by
  have hrange (hub : ModuleHub σ τ ε) :
      ∀ k ∈ List.range hub.moduleCount, k < hub.moduleCount :=
    fun _ => List.mem_range.mp
  have hbus := h.processBus clock hub
  unfold ModuleHub.process
  split
  · next heq => rwa [heq] at hbus
  · next hub' workDone heq =>
      rw [heq] at hbus
      refine h.trans _ _ _ hbus ?_
      have htasks := h.forModules (fun k hub _ => h.processInline clock k hub) _
        workDone hub' (hrange hub')
      split
      · next heq => rwa [heq] at htasks
      · next heq =>
          rw [heq] at htasks
          exact h.trans _ _ _ htasks (h.forModules
            (fun k hub hk => h.processModule clock hub hk) _ _ _ (hrange _))

/-! ## The queries -/

theorem tasksPending (h : Moves env R) (now : Int) (k : Nat)
    (hub : ModuleHub σ τ ε) : R hub (hub.tasksPending now k).1 := by
  unfold ModuleHub.tasksPending
  split
  · exact h.refl hub
  · split
    · exact h.refl hub
    · exact h.tasks k _ hub

theorem modulesPending (h : Moves env R) (now : Int) (ks : List Nat) :
    ∀ hub, R hub (ModuleHub.modulesPending env now ks hub).1 := by
  induction ks with
  | nil => exact h.refl
  | cons k ks ih =>
      intro hub
      have htasks := h.tasksPending now k hub
      unfold ModuleHub.modulesPending
      split
      · exact ih hub
      · split
        · next heq => rwa [heq] at htasks
        · next heq =>
            rw [heq] at htasks
            split
            · exact htasks
            · exact h.trans _ _ _ htasks (ih _)

theorem hasPending (h : Moves env R) (now : Int) (hub : ModuleHub σ τ ε) :
    R hub (hub.hasPending env now).1 := by
  unfold ModuleHub.hasPending
  split
  · exact h.refl hub
  · exact h.modulesPending now _ hub

theorem modulesDeadline (h : Moves env R) (ks : List Nat) :
    ∀ best hub, R hub (ModuleHub.modulesDeadline env ks best hub).1 := by
  induction ks with
  | nil => exact fun _ => h.refl
  | cons k ks ih =>
      intro best hub
      unfold ModuleHub.modulesDeadline
      split
      · exact ih best hub
      · split
        · exact h.trans _ _ _ (h.tasks k _ hub) (ih _ _)
        · exact ih _ hub

theorem nextDeadline (h : Moves env R) (hub : ModuleHub σ τ ε) :
    R hub (hub.nextDeadline env).1 :=
  h.modulesDeadline _ none hub

end Moves

end ModuleHub

end EventHub
