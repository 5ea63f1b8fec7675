import EventHub.Lib.Wakeup
import EventHub.Loop.HubLoop
import EventHub.Proofs.LoopSources

/-!
# No wake-up is lost on the hub and on its workers

The argument of `Proofs/RunLoop.lean` for the loop of the hub and, module by
module, for the loops of the workers. The hub looks for more: what a module has
is there for the hub while the module is live, and a hint is looked for like a
task, though nobody ever owes a notification of one.
-/

namespace EventHub

variable {ι κ τ ε : Type}

/-! ## What the hub has looked for -/

/-- What the sources have, and the hints of modules. -/
abbrev HubItem (κ : Type) := SourceItem Unit κ (HubFlag κ) ⊕ κ

/-- The exceptions of some workers, and so on. -/
structure HubSearch (κ : Type) where
  exceptions : κ → Prop := fun _ => False
  stop : Prop := False
  bus : Prop := False
  ready : κ → Prop := fun _ => False
  delayed : κ → Prop := fun _ => False
  hints : κ → Prop := fun _ => False

/-- The tasks of modules that are not processed inline are not the hub's. -/
def HubSearch.items (setup : HubSetup ι κ) (search : HubSearch κ) :
    Set (HubItem κ) := fun x =>
  match x with
  | .inl (.flag (.workerException k)) => search.exceptions k
  | .inl (.flag .stop) => search.stop
  | .inl (.flag (.workerStop _)) => False
  | .inl (.event _ _) => search.bus
  | .inl (.ready k _) => search.ready k ∧ setup.execution k = .inlineInHub
  | .inl (.delayed k _) => search.delayed k ∧ setup.execution k = .inlineInHub
  | .inr k => search.hints k

/-- What is looked for up to `has_pending()`. -/
def checkedFlags (setup : HubSetup ι κ) : HubSearch κ where
  exceptions := (· ∈ setup.modules)
  stop := True

def HubLoopPc.search (setup : HubSetup ι κ) :
    HubLoopPc κ → Option (Nat × HubSearch κ)
  | .head | .capture | .returned | .threw => none
  | .bus g | .inBus g | .modules g _ _ | .moduleLive g _ _ _ | .inTasks g _ _ _ =>
      some (g, {})
  | .hooks g rest _ | .hookLive g _ rest _ | .onProcess g _ rest _ =>
      some (g, { exceptions := fun k => k ∈ setup.modules ∧ k ∉ rest })
  | .recheck g => some (g, { exceptions := (· ∈ setup.modules) })
  | .pendingBus g => some (g, checkedFlags setup)
  | .pendingClock g => some (g, { checkedFlags setup with bus := True })
  | .pending g _ rest | .pendingTasks g _ _ rest | .pendingHint g _ _ rest =>
      some (g, { checkedFlags setup with
        bus := True, ready := fun k => k ∈ setup.modules ∧ k ∉ rest })
  | .pendingReady g _ k rest =>
      some (g, { checkedFlags setup with
        bus := True, ready := fun k' => k' ∈ setup.modules ∧ k' ∉ k :: rest })
  | .deadline g rest _ =>
      some (g, { checkedFlags setup with
        bus := True, ready := (· ∈ setup.modules)
        delayed := fun k => k ∈ setup.modules ∧ k ∉ rest
        hints := fun k => k ∈ setup.modules ∧ k ∉ rest })
  | .deadlineTasks g k rest _ =>
      some (g, { checkedFlags setup with
        bus := True, ready := (· ∈ setup.modules)
        delayed := fun k' => k' ∈ setup.modules ∧ k' ∉ k :: rest
        hints := fun k' => k' ∈ setup.modules ∧ k' ∉ k :: rest })
  | .deadlineHint g k rest _ =>
      some (g, { checkedFlags setup with
        bus := True, ready := (· ∈ setup.modules)
        delayed := fun k' => k' ∈ setup.modules ∧ k' ∉ rest
        hints := fun k' => k' ∈ setup.modules ∧ k' ∉ k :: rest })
  | .clock g _ | .waiting g _ =>
      some (g, { checkedFlags setup with
        bus := True, ready := (· ∈ setup.modules)
        delayed := (· ∈ setup.modules), hints := (· ∈ setup.modules) })

/-- The hub is in `process()`. -/
def HubLoopPc.inProcess : HubLoopPc κ → Bool
  | .bus _ | .inBus _ | .modules .. | .moduleLive .. | .inTasks .. | .hooks ..
  | .hookLive .. | .onProcess .. => true
  | _ => false

def HubLoopPc.watch (setup : HubSetup ι κ) (pc : HubLoopPc κ) :
    Option (Nat × Set (HubItem κ)) :=
  (pc.search setup).map fun found => (found.1, found.2.items setup)

/-- A wait up to the deadline, if there is one, is too long for something due. -/
def Precedes (due : Int) (deadline : Option Int) : Prop :=
  ∀ d, deadline = some d → due < d

def HubLoopPc.early : HubLoopPc κ → Int → Prop
  | .deadline _ _ best | .deadlineTasks _ _ _ best | .deadlineHint _ _ _ best =>
      fun due => Precedes due best
  | .clock _ bound => fun due => due < bound
  | .waiting _ wait => fun due => Precedes due (wait.map TimedWait.deadline)
  | _ => fun _ => True

theorem Precedes.upTo {due now d : Int}
    (h : Precedes due ((some (TimedWait.upTo now d)).map TimedWait.deadline)) :
    due < d := h d (congrArg some (TimedWait.deadline_upTo now d))

theorem Precedes.of_earlier {due : Int} {best candidate : Option Int}
    (h : Precedes due (earlierDeadline best candidate)) : Precedes due best := by
  rintro d rfl
  cases candidate with
  | none => exact h d rfl
  | some candidate =>
      have hlt := h _ rfl
      revert hlt
      split_ifs <;> intro hlt <;> omega

theorem not_precedes_earlier {due d : Int} {best : Option Int} (hle : d ≤ due) :
    ¬ Precedes due (earlierDeadline best (some d)) := by
  intro h
  cases best with
  | none => exact absurd (h d rfl) (Int.not_lt.mpr hle)
  | some best =>
      have hlt := h _ rfl
      revert hlt
      split_ifs <;> intro hlt <;> omega

namespace HubLoop

/-- What is there for the hub. -/
def hubItem (loop : HubLoop ι κ τ ε) : HubItem κ → Prop
  | .inl (.ready k id) =>
      loop.live k = true ∧ loop.sources.item loop.pc.early (.ready k id)
  | .inl (.delayed k id) =>
      loop.live k = true ∧ loop.sources.item loop.pc.early (.delayed k id)
  | .inl x => loop.sources.item loop.pc.early x
  | .inr k => loop.live k = true ∧ ∃ due, loop.hint k = some due ∧ loop.pc.early due

def hubOwed (loop : HubLoop ι κ τ ε) : HubItem κ → Prop
  | .inl x => loop.sources.owed x
  | .inr _ => False

def hubWatcher (setup : HubSetup ι κ) : Watcher (HubLoop ι κ τ ε) (HubItem κ) where
  watch loop := loop.pc.watch setup
  generation loop := loop.sources.generation .hub
  item := hubItem
  owed := hubOwed

variable [DecidableEq ι] [DecidableEq κ] [Fintype ι] [RequestTraits ε]
  {setup : HubSetup ι κ} {loop loop' : HubLoop ι κ τ ε}

omit [DecidableEq ι] [DecidableEq κ] [Fintype ι] in
theorem watch_eq_some {pc : HubLoopPc κ} {g : Nat} {X : Set (HubItem κ)}
    (h : pc.watch setup = some (g, X)) :
    ∃ search, pc.search setup = some (g, search) ∧ X = search.items setup := by
  obtain ⟨⟨g', search⟩, hsearch, heq⟩ := Option.map_eq_some_iff.mp h
  cases heq
  exact ⟨search, hsearch, rfl⟩

omit [DecidableEq ι] [DecidableEq κ] [Fintype ι] in
/-- What the hub looks for is the hub's to process. -/
theorem processor_of_mem {search : HubSearch κ}
    {y : SourceItem Unit κ (HubFlag κ)} (hy : .inl y ∈ search.items setup) {t : ι}
    (ht : y.processor setup.wiring = some t) : t = setup.thread := by
  have hconsumer : ∀ k, setup.execution k = .inlineInHub →
      setup.wiring.consumer k = setup.thread := by
    intro k hk
    unfold HubSetup.wiring
    dsimp only
    rw [hk]
  cases y with
  | event =>
      cases ht
      rfl
  | ready k | delayed k => exact (Option.some.inj ht).symm.trans (hconsumer k hy.2)
  | flag f =>
      cases f with
      | workerStop k => cases hy
      | stop | workerException k => cases ht

omit [DecidableEq ι] [DecidableEq κ] [Fintype ι] in
/-- While code of the program runs on the hub, nothing has been looked for but
the exceptions of workers. -/
theorem mem_of_runsCode {pc : HubLoopPc κ} (hpc : pc.runsCode = true) {g : Nat}
    {search : HubSearch κ} (hsearch : pc.search setup = some (g, search))
    {x : HubItem κ} (hx : x ∈ search.items setup) :
    ∃ k, x = .inl (.flag (.workerException k)) := by
  have hexceptions : ∃ exceptions, search = { exceptions := exceptions } := by
    cases pc with
    | inBus | inTasks | onProcess =>
        cases hsearch
        exact ⟨_, rfl⟩
    | returned | threw => cases hsearch
    | _ => cases hpc
  obtain ⟨exceptions, rfl⟩ := hexceptions
  cases x with
  | inl x =>
      cases x with
      | event => cases hx
      | ready k | delayed k => cases hx.1
      | flag f =>
          cases f with
          | workerException k => exact ⟨k, rfl⟩
          | _ => cases hx
  | inr k => cases hx

/-- The hub is not disturbed by a step on the sources that another thread takes,
or that puts nothing back, or that code of the program takes on the hub. -/
theorem hub_looks_of_step
    {a : SourceAction ι Unit κ (HubFlag κ) (HubNotifier κ) τ ε}
    (hwired : loop.sources.Wired setup.wiring)
    (hstep : loop.sources.step setup.wiring a = some loop'.sources)
    (hact : a.consumes = true → a.actor = some setup.thread →
      loop.pc.runsCode = true)
    (hpc : loop'.pc = loop.pc) (hlive : loop'.live = loop.live)
    (hhint : loop'.hint = loop.hint) :
    (hubWatcher setup).Looks loop loop' := by
  refine .of_kept (congrArg (HubLoopPc.watch setup) hpc) fun g X hwatch x hx hitem => ?_
  obtain ⟨search, hsearch, rfl⟩ := watch_eq_some hwatch
  have hsupplied : ∀ y, x = .inl y → loop'.sources.item loop.pc.early y →
      loop.sources.item loop.pc.early y ∨ loop'.sources.owed y := by
    rintro y rfl hy
    refine (Sources.stepped hstep).supplied hwired hy fun hconsumes t ht hactor => ?_
    obtain rfl := processor_of_mem hx ht
    obtain ⟨k, hk⟩ := mem_of_runsCode (hact hconsumes hactor) hsearch hx
    cases hk
    cases ht
  change hubItem loop' x at hitem
  show hubItem loop x ∨ hubOwed loop' x
  cases x with
  | inl y =>
      cases y with
      | ready k id | delayed k id =>
          unfold hubItem at hitem ⊢
          rw [hpc, hlive] at hitem
          exact (hsupplied _ rfl hitem.2).imp_left fun hold => ⟨hitem.1, hold⟩
      | event | flag =>
          unfold hubItem at hitem ⊢
          rw [hpc] at hitem
          exact hsupplied _ rfl hitem
  | inr k =>
      unfold hubItem at hitem ⊢
      rw [hpc, hlive, hhint] at hitem
      exact .inl hitem

/-! ## The steps of the hub -/

/-- What the hub looks for next, where it has come to `pc`: there is none of what
it had not looked for before. -/
structure Extends (setup : HubSetup ι κ) (loop : HubLoop ι κ τ ε)
    (search search' : HubSearch κ) (pc : HubLoopPc κ) : Prop where
  exceptions : ∀ k, search'.exceptions k →
    search.exceptions k ∨ loop.sources.flags (.workerException k) = false
  stop : search'.stop → search.stop ∨ loop.sources.flags .stop = false
  bus : search'.bus → search.bus ∨ (loop.sources.buses ()).world.queue = []
  ready : ∀ k, search'.ready k → setup.execution k = .inlineInHub →
    loop.live k = true →
    search.ready k ∨ ¬ (loop.sources.managers k).mgr.hasReady = true
  delayed : ∀ k, search'.delayed k → setup.execution k = .inlineInHub →
    loop.live k = true → ∀ e, (loop.sources.managers k).Delayed e →
    pc.early e.due → search.delayed k ∧ loop.pc.early e.due
  hints : ∀ k, search'.hints k → loop.live k = true → ∀ due,
    loop.hint k = some due → pc.early due → search.hints k ∧ loop.pc.early due

omit [DecidableEq ι] [DecidableEq κ] [Fintype ι] [RequestTraits ε] in
theorem Extends.looks {search search' : HubSearch κ} {g : Nat}
    (h : Extends setup loop search search' loop'.pc)
    (hsearch : loop.pc.search setup = some (g, search))
    (hsearch' : loop'.pc.search setup = some (g, search'))
    (hwired : loop.sources.Wired setup.wiring)
    (hsources : ∀ early y, loop'.sources.item early y →
      loop.sources.item early y ∨ loop'.sources.owed y)
    (hlive : loop'.live = loop.live) (hhint : loop'.hint = loop.hint) :
    (hubWatcher setup).Looks loop loop' := by
  have hwatch : (hubWatcher setup).watch loop = some (g, search.items setup) := by
    show (loop.pc.search setup).map _ = _
    rw [hsearch]
    rfl
  intro g' X hX
  change (loop'.pc.search setup).map _ = _ at hX
  rw [hsearch'] at hX
  cases hX
  refine .inr ⟨_, hwatch, fun x hx hitem => ?_⟩
  change hubItem loop' x at hitem
  show x ∈ search.items setup ∧ hubItem loop x ∨ hubOwed loop' x
  cases x with
  | inl y =>
      cases y with
      | event b ticket =>
          refine (hsources loop'.pc.early (.event b ticket) hitem).imp_left
            fun hold => ⟨?_, hold⟩
          rcases h.bus hx with hbus | hempty
          · exact hbus
          · obtain ⟨q, hq, -⟩ := hold
            change q ∈ (loop.sources.buses ()).world.queue at hq
            rw [hempty] at hq
            cases hq
      | ready k id =>
          unfold hubItem at hitem
          rw [hlive] at hitem
          refine (hsources _ _ hitem.2).imp_left fun hold => ⟨⟨?_, hx.2⟩, hitem.1, hold⟩
          rcases h.ready k hx.1 hx.2 hitem.1 with hready | hready
          · exact hready
          · exact absurd ((hwired.managers k).ready_iff.mpr ⟨id, hold⟩) hready
      | delayed k id =>
          unfold hubItem at hitem
          rw [hlive] at hitem
          refine (hsources _ _ hitem.2).imp_left fun hold => ?_
          obtain ⟨e, he, hid, hstate, hearly⟩ := hold
          obtain ⟨hdelayed, hearly⟩ :=
            h.delayed k hx.1 hx.2 hitem.1 e ⟨he, hstate⟩ hearly
          exact ⟨⟨hdelayed, hx.2⟩, hitem.1, e, he, hid, hstate, hearly⟩
      | flag f =>
          refine (hsources loop'.pc.early (.flag f) hitem).imp_left
            fun hold => ⟨?_, hold⟩
          have hraised : loop.sources.flags f = true := hold
          cases f with
          | stop =>
              refine (h.stop hx).resolve_right fun hlowered => ?_
              rw [hlowered] at hraised
              cases hraised
          | workerStop k => cases hx
          | workerException k =>
              refine (h.exceptions k hx).resolve_right fun hlowered => ?_
              rw [hlowered] at hraised
              cases hraised
  | inr k =>
      unfold hubItem at hitem ⊢
      rw [hlive, hhint] at hitem
      obtain ⟨hk, due, hdue, hearly⟩ := hitem
      obtain ⟨hhints, hearly⟩ := h.hints k hx hk due hdue hearly
      exact .inl ⟨hhints, hk, due, hdue, hearly⟩

omit [DecidableEq ι] [DecidableEq κ] [Fintype ι] [RequestTraits ε] in
/-- The hub goes on without a step on the sources. -/
theorem Extends.goto {search search' : HubSearch κ} {g : Nat} {pc : HubLoopPc κ}
    (h : Extends setup loop search search' pc)
    (hsearch : loop.pc.search setup = some (g, search))
    (hsearch' : pc.search setup = some (g, search'))
    (hwired : loop.sources.Wired setup.wiring) :
    (hubWatcher setup).Looks loop { loop with pc } :=
  h.looks hsearch hsearch' hwired (fun _ _ => .inl) rfl rfl

omit [DecidableEq ι] [DecidableEq κ] [Fintype ι] [RequestTraits ε] in
/-- The searches before `next_deadline()`. -/
theorem Extends.early {search search' : HubSearch κ} {pc : HubLoopPc κ}
    (hexceptions : ∀ k, search'.exceptions k →
      search.exceptions k ∨ loop.sources.flags (.workerException k) = false)
    (hstop : search'.stop → search.stop ∨ loop.sources.flags .stop = false)
    (hbus : search'.bus → search.bus ∨ (loop.sources.buses ()).world.queue = [])
    (hready : ∀ k, search'.ready k → setup.execution k = .inlineInHub →
      loop.live k = true →
      search.ready k ∨ ¬ (loop.sources.managers k).mgr.hasReady = true)
    (hdelayed : ∀ k, ¬ search'.delayed k) (hhints : ∀ k, ¬ search'.hints k) :
    Extends setup loop search search' pc :=
  ⟨hexceptions, hstop, hbus, hready, fun k h => absurd h (hdelayed k),
    fun k h => absurd h (hhints k)⟩

theorem stepHub_cases {a : SourceAction ι Unit κ (HubFlag κ) (HubNotifier κ) τ ε}
    {pc : HubLoopPc κ} (h : loop.stepHub setup a pc = some loop') :
    ∃ sources, loop.sources.step setup.wiring a = some sources ∧
      loop' = { loop with sources, pc } := by
  obtain ⟨sources, hsources, rfl⟩ := Option.map_eq_some_iff.mp h
  exact ⟨sources, hsources, rfl⟩

/-- `next_deadline()` of a manager puts nothing back. -/
theorem supplied_nextDeadline {sources : Sources ι Unit κ (HubFlag κ) (HubNotifier κ) τ ε}
    (hwired : loop.sources.Wired setup.wiring) {t : ι} {k : κ}
    (hstep : loop.sources.step setup.wiring (.task t k .nextDeadline) = some sources)
    (early : Int → Prop) (y : SourceItem Unit κ (HubFlag κ))
    (hy : sources.item early y) :
    loop.sources.item early y ∨ sources.owed y :=
  (Sources.stepped hstep).supplied hwired hy fun ha => by cases ha

omit [DecidableEq ι] [DecidableEq κ] [Fintype ι] [RequestTraits ε] in
/-- The deadline that has been asked for is the least. -/
theorem le_of_nextDeadline {sources : Sources ι Unit κ (HubFlag κ) (HubNotifier κ) τ ε}
    (hwired : sources.Wired setup.wiring) {k : κ} {e : Entry τ}
    (he : (sources.managers k).Delayed e) :
    ∃ d, (sources.managers k).mgr.nextDeadline.2 = some d ∧ d ≤ e.due := by
  have hreach := hwired.managers k
  cases hdeadline : (sources.managers k).mgr.nextDeadline.2 with
  | none => exact absurd he.2 (hreach.absent.mp hdeadline e.id)
  | some d => exact ⟨d, rfl, ((hreach.earliest d).mp hdeadline).2 ⟨e, he, rfl⟩⟩

omit [DecidableEq ι] [DecidableEq κ] [Fintype ι] [RequestTraits ε] in
theorem watch_of_search {g : Nat} {search : HubSearch κ}
    (h : loop.pc.search setup = some (g, search)) :
    (hubWatcher setup).watch loop = some (g, search.items setup) := by
  show (loop.pc.search setup).map _ = _
  rw [h]
  rfl

omit [DecidableEq ι] [DecidableEq κ] [Fintype ι] [RequestTraits ε] in
theorem items_empty : ({} : HubSearch κ).items setup = ∅ := by
  ext x
  refine iff_of_false (fun hx => ?_) (Set.notMem_empty x)
  cases x with
  | inl y =>
      cases y with
      | event => cases hx
      | ready | delayed => cases hx.1
      | flag f => cases f <;> cases hx
  | inr k => cases hx

omit [DecidableEq ι] [DecidableEq κ] [Fintype ι] [RequestTraits ε] in
/-- Up to the hooks nothing is looked for. -/
theorem looks_of_unsearched {g : Nat} {search : HubSearch κ}
    (h : loop.pc.search setup = some (g, search))
    (h' : loop'.pc.search setup = some (g, {})) :
    (hubWatcher setup).Looks loop loop' := by
  refine .of_empty (watch_of_search h) ?_
  rw [watch_of_search h', items_empty]

/-- The rounds of `process()`. -/
theorem hub_looks_process {now : Int} (hwired : loop.sources.Wired setup.wiring)
    (h : loop.advance setup now = some loop')
    (hprocess : loop.pc.inProcess = true) :
    (hubWatcher setup).Looks loop loop' := by
  obtain ⟨sources, live, hint, pc, workers⟩ := loop
  cases pc with
  | bus g =>
      simp only [advance] at h
      split at h
      · obtain ⟨sources', -, rfl⟩ := stepHub_cases h
        exact looks_of_unsearched rfl rfl
      · cases h
  | modules g rest workDone =>
      cases rest with
      | nil =>
          cases h
          refine Extends.goto ?_ rfl rfl hwired
          exact .early (fun k hk => absurd hk.1 hk.2) .inl .inl
            (fun _ hk _ _ => .inl hk) (fun _ => id) fun _ => id
      | cons k rest =>
          simp only [advance] at h
          split at h
          · obtain ⟨sources', -, rfl⟩ := stepHub_cases h
            exact .of_none rfl
          · cases h
            exact looks_of_unsearched rfl rfl
  | moduleLive g k rest workDone =>
      simp only [advance] at h
      split at h
      · obtain ⟨sources', -, rfl⟩ := stepHub_cases h
        exact looks_of_unsearched rfl rfl
      · cases h
        exact looks_of_unsearched rfl rfl
  | hooks g rest workDone =>
      cases rest with
      | nil =>
          simp only [advance] at h
          split at h <;> cases h
          · exact .of_none rfl
          · refine Extends.goto ?_ rfl rfl hwired
            exact .early (fun k hk => .inl ⟨hk, List.not_mem_nil⟩) .inl .inl
              (fun _ hk _ _ => .inl hk) (fun _ => id) fun _ => id
      | cons k rest =>
          simp only [advance] at h
          split at h
          · obtain ⟨sources', -, rfl⟩ := stepHub_cases h
            exact .of_none rfl
          · next hlowered =>
              cases h
              refine Extends.goto ?_ rfl rfl hwired
              refine .early (fun k' hk' => ?_) .inl .inl
                (fun _ hk _ _ => .inl hk) (fun _ => id) fun _ => id
              by_cases hkk : k' = k
              · subst hkk
                exact .inr (Bool.eq_false_of_not_eq_true hlowered)
              · exact .inl ⟨hk'.1, fun hmem =>
                  (List.mem_cons.mp hmem).elim hkk hk'.2⟩
  | hookLive g k rest workDone =>
      simp only [advance] at h
      split at h <;> cases h
      all_goals
        refine Extends.goto ?_ rfl rfl hwired
        exact .early (fun _ => .inl) .inl .inl (fun _ hk _ _ => .inl hk)
          (fun _ => id) fun _ => id
  | inBus | inTasks | onProcess => cases h
  | _ => cases hprocess

omit [DecidableEq κ] in
theorem not_mem_cons {k k' : κ} {rest : List κ} (hne : k' ≠ k) (h : k' ∉ rest) :
    k' ∉ k :: rest :=
  fun hmem => (List.mem_cons.mp hmem).elim hne h

theorem hub_looks_advance {now : Int} (hwired : loop.sources.Wired setup.wiring)
    (h : loop.advance setup now = some loop') :
    (hubWatcher setup).Looks loop loop' := by
  obtain ⟨sources, live, hint, pc, workers⟩ := loop
  cases pc with
  | head =>
      simp only [advance] at h
      split at h <;> cases h <;> exact .of_none rfl
  | capture =>
      cases h
      refine .of_read ?_
      rw [watch_of_search rfl, items_empty]
      rfl
  | bus | inBus | modules | moduleLive | inTasks | hooks | hookLive | onProcess =>
      exact hub_looks_process hwired h rfl
  | recheck g =>
      simp only [advance] at h
      split at h <;> cases h
      · exact .of_none rfl
      · next hlowered =>
          refine Extends.goto ?_ rfl rfl hwired
          exact .early (fun _ => .inl)
            (fun _ => .inr (Bool.eq_false_of_not_eq_true hlowered)) .inl
            (fun _ hk _ _ => .inl hk) (fun _ => id) fun _ => id
  | pendingBus g =>
      simp only [advance] at h
      split at h <;> cases h
      · next hempty =>
          refine Extends.goto ?_ rfl rfl hwired
          exact .early (fun _ => .inl) .inl (fun _ => .inr hempty)
            (fun _ hk _ _ => .inl hk) (fun _ => id) fun _ => id
      · exact .of_none rfl
  | pendingClock g =>
      cases h
      refine Extends.goto ?_ rfl rfl hwired
      exact .early (fun _ => .inl) .inl .inl
        (fun _ hk _ _ => absurd hk.1 hk.2) (fun _ => id) fun _ => id
  | pending g clock rest =>
      cases rest with
      | nil =>
          cases h
          refine Extends.goto ?_ rfl rfl hwired
          exact ⟨fun _ => .inl, .inl, .inl,
            fun _ hk _ _ => .inl ⟨hk, List.not_mem_nil⟩,
            fun _ hk => absurd hk.1 hk.2, fun _ hk => absurd hk.1 hk.2⟩
      | cons k rest =>
          simp only [advance] at h
          split at h
          · split at h <;> cases h
            · refine Extends.goto ?_ rfl rfl hwired
              exact .early (fun _ => .inl) .inl .inl (fun _ hk _ _ => .inl hk)
                (fun _ => id) fun _ => id
            · next hmode =>
                refine Extends.goto ?_ rfl rfl hwired
                refine .early (fun _ => .inl) .inl .inl (fun k' hk' hinline _ => .inl ?_)
                  (fun _ => id) fun _ => id
                exact ⟨hk'.1, not_mem_cons (fun heq => hmode (heq ▸ hinline)) hk'.2⟩
          · next hdead =>
              cases h
              refine Extends.goto ?_ rfl rfl hwired
              refine .early (fun _ => .inl) .inl .inl (fun k' hk' _ hlive => .inl ?_)
                (fun _ => id) fun _ => id
              exact ⟨hk'.1, not_mem_cons (fun heq => hdead (heq ▸ hlive)) hk'.2⟩
  | pendingReady g clock k rest =>
      simp only [advance] at h
      split at h <;> cases h
      · exact .of_none rfl
      · next hready =>
          refine Extends.goto ?_ rfl rfl hwired
          refine .early (fun _ => .inl) .inl .inl (fun k' hk' _ _ => ?_)
            (fun _ => id) fun _ => id
          by_cases hkk : k' = k
          · subst hkk
            exact .inr hready
          · exact .inl ⟨hk'.1, not_mem_cons hkk hk'.2⟩
  | pendingTasks g clock k rest =>
      obtain ⟨sources', hsources, rfl⟩ := stepHub_cases h
      split
      · exact .of_none rfl
      · refine Extends.looks ?_ rfl rfl hwired
          (supplied_nextDeadline hwired hsources) rfl rfl
        exact .early (fun _ => .inl) .inl .inl (fun _ hk _ _ => .inl hk)
          (fun _ => id) fun _ => id
  | pendingHint g clock k rest =>
      simp only [advance] at h
      split at h <;> cases h
      · exact .of_none rfl
      · refine Extends.goto ?_ rfl rfl hwired
        exact .early (fun _ => .inl) .inl .inl (fun _ hk _ _ => .inl hk)
          (fun _ => id) fun _ => id
  | deadline g rest best =>
      cases rest with
      | nil =>
          cases best with
          | none =>
              cases h
              refine Extends.goto ?_ rfl rfl hwired
              exact ⟨fun _ => .inl, .inl, .inl, fun _ hk _ _ => .inl hk,
                fun _ hk _ _ _ _ hearly => ⟨⟨hk, List.not_mem_nil⟩, hearly⟩,
                fun _ hk _ _ _ hearly => ⟨⟨hk, List.not_mem_nil⟩, hearly⟩⟩
          | some d =>
              cases h
              refine Extends.goto ?_ rfl rfl hwired
              exact ⟨fun _ => .inl, .inl, .inl, fun _ hk _ _ => .inl hk,
                fun _ hk _ _ _ _ hearly => ⟨⟨hk, List.not_mem_nil⟩, fun d' hd' =>
                  Option.some.inj hd' ▸ hearly⟩,
                fun _ hk _ _ _ hearly => ⟨⟨hk, List.not_mem_nil⟩, fun d' hd' =>
                  Option.some.inj hd' ▸ hearly⟩⟩
      | cons k rest =>
          simp only [advance] at h
          split at h
          · split at h <;> cases h
            · refine Extends.goto ?_ rfl rfl hwired
              exact ⟨fun _ => .inl, .inl, .inl, fun _ hk _ _ => .inl hk,
                fun _ hk _ _ _ _ hearly => ⟨hk, hearly⟩,
                fun _ hk _ _ _ hearly => ⟨hk, hearly⟩⟩
            · next hmode =>
                refine Extends.goto ?_ rfl rfl hwired
                exact ⟨fun _ => .inl, .inl, .inl, fun _ hk _ _ => .inl hk,
                  fun k' hk' hinline _ _ _ hearly =>
                    ⟨⟨hk'.1, not_mem_cons (fun heq => hmode (heq ▸ hinline)) hk'.2⟩,
                      hearly⟩,
                  fun _ hk _ _ _ hearly => ⟨hk, hearly⟩⟩
          · next hdead =>
              cases h
              refine Extends.goto ?_ rfl rfl hwired
              exact ⟨fun _ => .inl, .inl, .inl, fun _ hk _ _ => .inl hk,
                fun k' hk' _ hlive _ _ hearly =>
                  ⟨⟨hk'.1, not_mem_cons (fun heq => hdead (heq ▸ hlive)) hk'.2⟩, hearly⟩,
                fun k' hk' hlive _ _ hearly =>
                  ⟨⟨hk'.1, not_mem_cons (fun heq => hdead (heq ▸ hlive)) hk'.2⟩, hearly⟩⟩
  | deadlineTasks g k rest best =>
      obtain ⟨sources', hsources, rfl⟩ := stepHub_cases h
      refine Extends.looks ?_ rfl rfl hwired (supplied_nextDeadline hwired hsources)
        rfl rfl
      refine ⟨fun _ => .inl, .inl, .inl, fun _ hk _ _ => .inl hk, ?_,
        fun _ hk _ _ _ hearly => ⟨hk, Precedes.of_earlier hearly⟩⟩
      intro k' hk' _ _ e he hearly
      refine ⟨⟨hk'.1, not_mem_cons ?_ hk'.2⟩, Precedes.of_earlier hearly⟩
      rintro rfl
      obtain ⟨d, hd, hle⟩ := le_of_nextDeadline hwired he
      change Precedes e.due (earlierDeadline best _) at hearly
      rw [hd] at hearly
      exact not_precedes_earlier hle hearly
  | deadlineHint g k rest best =>
      cases h
      refine Extends.goto ?_ rfl rfl hwired
      refine ⟨fun _ => .inl, .inl, .inl, fun _ hk _ _ => .inl hk,
        fun _ hk _ _ _ _ hearly => ⟨hk, Precedes.of_earlier hearly⟩, ?_⟩
      intro k' hk' _ due hdue hearly
      refine ⟨⟨hk'.1, not_mem_cons ?_ hk'.2⟩, Precedes.of_earlier hearly⟩
      rintro rfl
      change Precedes due (earlierDeadline best (hint k')) at hearly
      rw [show hint k' = some due from hdue] at hearly
      exact not_precedes_earlier (Int.le_refl due) hearly
  | clock g d =>
      simp only [advance] at h
      split at h <;> cases h
      · exact .of_none rfl
      · refine Extends.goto ?_ rfl rfl hwired
        exact ⟨fun _ => .inl, .inl, .inl, fun _ hk _ _ => .inl hk,
          fun _ hk _ _ _ _ hearly => ⟨hk, hearly.upTo⟩,
          fun _ hk _ _ _ hearly => ⟨hk, hearly.upTo⟩⟩
  | waiting | returned | threw => cases h

/-! ## The steps of all threads -/

omit [Fintype ι] [RequestTraits ε] in
/-- Where the hub may be after a step of a program. -/
theorem search_afterSource (setup : HubSetup ι κ)
    (old new : Sources ι Unit κ (HubFlag κ) (HubNotifier κ) τ ε)
    (a : SourceAction ι Unit κ (HubFlag κ) (HubNotifier κ) τ ε)
    (pc : HubLoopPc κ) :
    afterSource setup old new a pc = pc ∨
      (afterSource setup old new a pc).search setup = none ∨
      ∃ g, pc.search setup = some (g, {}) ∧
        (afterSource setup old new a pc).search setup = some (g, {}) := by
  cases pc with
  | inBus g =>
      simp only [afterSource]
      split
      · exact .inl rfl
      · exact .inr (.inr ⟨g, rfl, rfl⟩)
      · exact .inr (.inl rfl)
  | inTasks g k rest workDone =>
      simp only [afterSource]
      split
      · exact .inl rfl
      · exact .inr (.inr ⟨g, rfl, rfl⟩)
      · exact .inr (.inl rfl)
  | _ => exact .inl rfl

omit [DecidableEq ι] [DecidableEq κ] [Fintype ι] [RequestTraits ε] in
theorem mayAct_thread : loop.mayAct setup setup.thread = loop.pc.runsCode := by
  unfold mayAct
  rw [setup.role_thread]

omit [DecidableEq ι] [DecidableEq κ] [Fintype ι] in
theorem worker_ne (setup : HubSetup ι κ) (k : κ) : setup.worker k ≠ setup.thread := by
  intro heq
  have hrole := setup.role_worker k
  rw [heq, setup.role_thread] at hrole
  cases hrole

theorem hub_looks_source
    {a : SourceAction ι Unit κ (HubFlag κ) (HubNotifier κ) τ ε}
    (hwired : loop.sources.Wired setup.wiring)
    (h : loop.step setup (.source a) = some loop') :
    (hubWatcher setup).Looks loop loop' := by
  simp only [step] at h
  split at h
  · next hmay =>
      obtain ⟨sources, hsources, rfl⟩ := Option.map_eq_some_iff.mp h
      rcases search_afterSource setup loop.sources sources a loop.pc with
        hpc | hpc | ⟨g, hpc, hpc'⟩
      · refine hub_looks_of_step hwired hsources (fun _ hactor => ?_) hpc rfl rfl
        rw [hactor, Option.all_some, mayAct_thread] at hmay
        exact hmay
      · refine .of_none ?_
        show (HubLoopPc.search setup _).map _ = none
        rw [hpc]
        rfl
      · exact looks_of_unsearched hpc hpc'
  · cases h

omit [DecidableEq ι] [DecidableEq κ] [Fintype ι] [RequestTraits ε] in
/-- A step of another loop, or of `request_stop` and `shutdown`. -/
theorem hub_looks_of_kept (hsources : loop'.sources = loop.sources)
    (hpc : loop'.pc = loop.pc) (hhint : loop'.hint = loop.hint)
    (hlive : ∀ k, loop'.live k = true → loop.live k = true) :
    (hubWatcher setup).Looks loop loop' := by
  refine .of_kept (congrArg (HubLoopPc.watch setup) hpc) fun g X _ x _ hitem => .inl ?_
  change hubItem loop' x at hitem
  show hubItem loop x
  cases x with
  | inl y =>
      cases y with
      | ready k id | delayed k id =>
          unfold hubItem at hitem ⊢
          rw [hpc, hsources] at hitem
          exact ⟨hlive k hitem.1, hitem.2⟩
      | event | flag =>
          unfold hubItem at hitem ⊢
          rw [hpc, hsources] at hitem
          exact hitem
  | inr k =>
      unfold hubItem at hitem ⊢
      rw [hpc, hhint] at hitem
      exact ⟨hlive k hitem.1, hitem.2⟩

omit [DecidableEq ι] [DecidableEq κ] [Fintype ι] [RequestTraits ε] in
/-- What code on the hub's thread does to its modules. -/
theorem hub_looks_of_runsCode (hcode : loop.pc.runsCode = true)
    (hsources : loop'.sources = loop.sources) (hpc : loop'.pc = loop.pc) :
    (hubWatcher setup).Looks loop loop' := by
  refine .of_kept (congrArg (HubLoopPc.watch setup) hpc) fun g X hwatch x hx hitem => .inl ?_
  obtain ⟨search, hsearch, rfl⟩ := watch_eq_some hwatch
  obtain ⟨k, rfl⟩ := mem_of_runsCode hcode hsearch hx
  change loop'.sources.flags _ = true at hitem
  rwa [hsources] at hitem

/-- A step of `run_worker_loop` is one of the worker's thread, if it is one on
the sources at all. -/
theorem advanceWorker_cases {k : κ} {now : Int}
    (h : loop.advanceWorker setup k now = some loop') :
    ∃ sources pc, loop' = { loop with sources }.setWorker k pc ∧
      (sources = loop.sources ∨
        ∃ a, a.actor = some (setup.worker k) ∧
          loop.sources.step setup.wiring a = some sources) := by
  have hstep : ∀ {a pc}, a.actor = some (setup.worker k) →
      loop.stepWorker setup k a pc = some loop' →
      ∃ sources pc, loop' = { loop with sources }.setWorker k pc ∧
        (sources = loop.sources ∨
          ∃ a, a.actor = some (setup.worker k) ∧
            loop.sources.step setup.wiring a = some sources) := by
    intro a pc hactor h
    obtain ⟨sources, hsources, rfl⟩ := Option.map_eq_some_iff.mp h
    exact ⟨sources, pc, rfl, .inr ⟨a, hactor, hsources⟩⟩
  unfold advanceWorker at h
  dsimp only at h
  split at h
  case h_1 | h_4 | h_5 | h_7 =>
    split at h <;> cases h <;> exact ⟨_, _, rfl, .inl rfl⟩
  case h_2 =>
    cases h
    exact ⟨_, _, rfl, .inl rfl⟩
  case h_3 | h_6 | h_8 | h_9 | h_10 => exact hstep rfl h
  case h_11 => cases h

/-- Nor does a step of the hub touch the workers. -/
theorem advance_cases {now : Int} (h : loop.advance setup now = some loop') :
    loop'.workers = loop.workers ∧
      (loop'.sources = loop.sources ∨
        ∃ a, a.actor = some setup.thread ∧
          loop.sources.step setup.wiring a = some loop'.sources) := by
  have hstep : ∀ {a pc}, a.actor = some setup.thread →
      loop.stepHub setup a pc = some loop' →
      loop'.workers = loop.workers ∧
        (loop'.sources = loop.sources ∨
          ∃ a, a.actor = some setup.thread ∧
            loop.sources.step setup.wiring a = some loop'.sources) := by
    intro a pc hactor h
    obtain ⟨sources, hsources, rfl⟩ := stepHub_cases h
    exact ⟨rfl, .inr ⟨a, hactor, hsources⟩⟩
  unfold advance at h
  dsimp only at h
  split at h
  case h_2 | h_4 | h_12 | h_13 | h_18 | h_19 | h_22 =>
    cases h
    exact ⟨rfl, .inl rfl⟩
  case h_3 =>
    split at h
    · exact hstep rfl h
    · cases h
  case h_5 | h_6 | h_8 =>
    split at h
    · exact hstep rfl h
    · cases h
      exact ⟨rfl, .inl rfl⟩
  case h_14 | h_20 =>
    split at h
    · split at h <;> cases h <;> exact ⟨rfl, .inl rfl⟩
    · cases h
      exact ⟨rfl, .inl rfl⟩
  case h_16 | h_21 => exact hstep rfl h
  case h_24 => cases h
  all_goals split at h <;> cases h <;> exact ⟨rfl, .inl rfl⟩

theorem step_sources {a : HubLoopAction ι κ τ ε}
    (h : loop.step setup a = some loop') :
    loop'.sources = loop.sources ∨
      ∃ act, loop.sources.step setup.wiring act = some loop'.sources := by
  cases a with
  | source act =>
      simp only [step] at h
      split at h
      · obtain ⟨sources, hsources, rfl⟩ := Option.map_eq_some_iff.mp h
        exact .inr ⟨act, hsources⟩
      · cases h
  | advance now =>
      exact (advance_cases h).2.imp_right fun ⟨act, _, hact⟩ => ⟨act, hact⟩
  | worker k now =>
      obtain ⟨sources, pc, rfl, hsources⟩ := advanceWorker_cases h
      exact hsources.imp_right fun ⟨act, _, hact⟩ => ⟨act, hact⟩
  | onProcessReturned | wake | wakeWorker =>
      simp only [step] at h
      split at h
      · split at h <;> cases h
        exact .inl rfl
      · cases h
  | onProcessThrew | stopping | initialized | hint =>
      simp only [step] at h
      split at h <;> cases h
      exact .inl rfl

theorem wired_step {a : HubLoopAction ι κ τ ε}
    (h : loop.sources.Wired setup.wiring) (hstep : loop.step setup a = some loop') :
    loop'.sources.Wired setup.wiring := by
  rcases step_sources hstep with heq | ⟨act, hact⟩
  · rw [heq]
    exact h
  · exact h.step (Sources.stepped hact)

theorem hub_looks {a : HubLoopAction ι κ τ ε}
    (hwired : loop.sources.Wired setup.wiring) (h : loop.step setup a = some loop') :
    (hubWatcher setup).Looks loop loop' := by
  cases a with
  | source act => exact hub_looks_source hwired h
  | advance now => exact hub_looks_advance hwired h
  | worker k now =>
      obtain ⟨sources, pc, rfl, rfl | ⟨act, hactor, hact⟩⟩ := advanceWorker_cases h
      · exact hub_looks_of_kept rfl rfl rfl fun _ => id
      · refine hub_looks_of_step hwired hact (fun _ hthread => ?_) rfl rfl rfl
        exact absurd (Option.some.inj (hactor.symm.trans hthread)) (worker_ne setup k)
  | onProcessReturned count =>
      obtain ⟨sources, live, hint, pc, workers⟩ := loop
      cases pc with
      | onProcess g k rest workDone =>
          simp only [step] at h
          split at h <;> cases h
          refine Extends.goto ?_ rfl rfl hwired
          exact .early (fun _ => .inl) .inl .inl (fun _ hk _ _ => .inl hk)
            (fun _ => id) fun _ => id
      | _ => cases h
  | onProcessThrew =>
      simp only [step] at h
      split at h <;> cases h
      exact .of_none rfl
  | wake =>
      simp only [step] at h
      split at h
      · split at h <;> cases h
        exact .of_none rfl
      · cases h
  | wakeWorker k =>
      simp only [step] at h
      split at h
      · split at h <;> cases h
        exact hub_looks_of_kept rfl rfl rfl fun _ => id
      · cases h
  | stopping t k =>
      simp only [step] at h
      split at h <;> cases h
      refine hub_looks_of_kept rfl rfl rfl fun k' hk' => ?_
      change Function.update loop.live k false k' = true at hk'
      by_cases hkk : k' = k
      · subst hkk
        rw [Function.update_self] at hk'
        cases hk'
      · rwa [Function.update_of_ne hkk] at hk'
  | initialized k | hint k due =>
      simp only [step] at h
      split at h
      · next hcode =>
          cases h
          exact hub_looks_of_runsCode hcode rfl rfl
      · cases h

omit [DecidableEq ι] [DecidableEq κ] [Fintype ι] in
theorem notifier_of_mem {search : HubSearch κ}
    {y : SourceItem Unit κ (HubFlag κ)} (hy : .inl y ∈ search.items setup) :
    y.notifier setup.wiring = .hub := by
  have hnotifier : ∀ k, setup.execution k = .inlineInHub →
      setup.wiring.tasks k = .hub := by
    intro k hk
    unfold HubSetup.wiring
    dsimp only
    rw [hk]
  cases y with
  | event => rfl
  | ready k | delayed k => exact hnotifier k hy.2
  | flag f =>
      cases f with
      | workerStop k => cases hy
      | stop | workerException k => rfl

theorem generation_le {a : HubLoopAction ι κ τ ε}
    (h : loop.step setup a = some loop') (n : HubNotifier κ) :
    loop.sources.generation n ≤ loop'.sources.generation n := by
  rcases step_sources h with heq | ⟨act, hact⟩
  · rw [heq]
  · exact (Sources.stepped hact).generation_le n

theorem owed_paid {a : HubLoopAction ι κ τ ε}
    (hwired : loop.sources.Wired setup.wiring) (h : loop.step setup a = some loop')
    {y : SourceItem Unit κ (HubFlag κ)} (hy : loop.sources.owed y) :
    loop'.sources.owed y ∨ loop.sources.generation (y.notifier setup.wiring) <
      loop'.sources.generation (y.notifier setup.wiring) := by
  rcases step_sources h with heq | ⟨act, hact⟩
  · rw [heq]
    exact .inl hy
  · exact (Sources.stepped hact).paid (fun b => (hwired.buses b).notifier) hy

theorem hub_attends (setup : HubSetup ι κ) :
    (hubWatcher setup).Attends (step (τ := τ) (ε := ε) setup)
      fun loop => loop.sources.Wired setup.wiring where
  grows loop a loop' _ h := generation_le h .hub
  paid loop a loop' g X x hwired h hwatch hx howed := by
    obtain ⟨search, -, rfl⟩ := watch_eq_some hwatch
    cases x with
    | inl y =>
        have hpaid := owed_paid hwired h howed
        rwa [notifier_of_mem hx] at hpaid
    | inr k => cases howed
  looks loop a loop' hwired h := hub_looks hwired h

/-! ## The workers -/

end HubLoop

/-- The stop flag of the worker, and the tasks of its module. -/
def workerItems (k : κ) (ready delayed : Prop) :
    Set (SourceItem Unit κ (HubFlag κ)) := fun x =>
  match x with
  | .event _ _ => False
  | .ready k' _ => k' = k ∧ ready
  | .delayed k' _ => k' = k ∧ delayed
  | .flag (.workerStop k') => k' = k
  | .flag _ => False

def WorkerPc.watch (k : κ) :
    WorkerPc → Option (Nat × Set (SourceItem Unit κ (HubFlag κ)))
  | .process g | .inTasks g | .recheck g => some (g, ∅)
  | .ready g => some (g, workerItems k False False)
  | .deadline g => some (g, workerItems k True False)
  | .clock g _ | .waiting g _ => some (g, workerItems k True True)
  | _ => none

def WorkerPc.early : WorkerPc → Int → Prop
  | .clock _ bound => fun due => due < bound
  | .waiting _ wait => fun due => Precedes due (wait.map TimedWait.deadline)
  | _ => fun _ => True

namespace HubLoop

def workerWatcher (k : κ) :
    Watcher (HubLoop ι κ τ ε) (SourceItem Unit κ (HubFlag κ)) where
  watch loop := (loop.workers k).watch k
  generation loop := loop.sources.generation (.worker k)
  item loop := loop.sources.item (loop.workers k).early
  owed loop := loop.sources.owed

variable [DecidableEq ι] [DecidableEq κ] [Fintype ι] [RequestTraits ε]
  {setup : HubSetup ι κ} {loop loop' : HubLoop ι κ τ ε} {k : κ}

omit [DecidableEq κ] in
theorem mem_workerItems_of_watch {pc : WorkerPc} {g : Nat}
    {X : Set (SourceItem Unit κ (HubFlag κ))} (h : pc.watch k = some (g, X))
    {x : SourceItem Unit κ (HubFlag κ)} (hx : x ∈ X) :
    x ∈ workerItems k True True := by
  have hsub : ∀ {ready delayed : Prop}, x ∈ workerItems k ready delayed →
      x ∈ workerItems k True True := by
    intro ready delayed hx
    cases x with
    | event => cases hx
    | ready | delayed => exact ⟨hx.1, trivial⟩
    | flag f =>
        cases f with
        | workerStop => exact hx
        | _ => cases hx
  cases pc with
  | process | inTasks | recheck =>
      cases h
      exact absurd hx (Set.notMem_empty x)
  | ready | deadline | clock | waiting =>
      cases h
      exact hsub hx
  | _ => cases h

omit [DecidableEq ι] [DecidableEq κ] [Fintype ι] in
/-- All of it is the worker's to process and comes with its notifier. -/
theorem wiring_of_mem (hk : setup.execution k = .privateThread)
    {x : SourceItem Unit κ (HubFlag κ)} (hx : x ∈ workerItems k True True) :
    x.processor setup.wiring = some (setup.worker k) ∧
      x.notifier setup.wiring = .worker k := by
  have hconsumer : setup.wiring.consumer k = setup.worker k ∧
      setup.wiring.tasks k = .worker k := by
    unfold HubSetup.wiring
    dsimp only
    rw [hk]
    exact ⟨rfl, rfl⟩
  cases x with
  | event => cases hx
  | ready k' | delayed k' =>
      obtain ⟨rfl, -⟩ := hx
      exact ⟨congrArg some hconsumer.1, hconsumer.2⟩
  | flag f =>
      cases f with
      | workerStop k' =>
          obtain rfl : k' = k := hx
          exact ⟨rfl, rfl⟩
      | _ => cases hx

theorem worker_looks_of_step
    {a : SourceAction ι Unit κ (HubFlag κ) (HubNotifier κ) τ ε}
    (hk : setup.execution k = .privateThread)
    (hwired : loop.sources.Wired setup.wiring)
    (hstep : loop.sources.step setup.wiring a = some loop'.sources)
    (hact : a.actor = some (setup.worker k) → (loop.workers k).runsCode = true)
    (hpc : loop'.workers k = loop.workers k) :
    (workerWatcher k).Looks loop loop' := by
  refine .of_kept (congrArg (WorkerPc.watch k) hpc) fun g X hwatch x hx hitem => ?_
  change loop'.sources.item (loop'.workers k).early x at hitem
  rw [hpc] at hitem
  refine (Sources.stepped hstep).supplied hwired hitem fun _ t ht hactor => ?_
  change (loop.workers k).watch k = _ at hwatch
  obtain rfl : setup.worker k = t := Option.some.inj <|
    (wiring_of_mem hk (mem_workerItems_of_watch hwatch hx)).1.symm.trans ht
  -- while its tasks run the worker has looked for nothing
  have hcode := hact hactor
  cases hloc : loop.workers k with
  | inTasks g' =>
      rw [hloc] at hwatch
      cases hwatch
      exact absurd hx (Set.notMem_empty x)
  | _ =>
      rw [hloc] at hcode
      cases hcode

omit [DecidableEq ι] [DecidableEq κ] [Fintype ι] [RequestTraits ε] in
theorem worker_looks_of_same (hsources : loop'.sources = loop.sources)
    (hpc : loop'.workers k = loop.workers k) :
    (workerWatcher k).Looks loop loop' := by
  refine .of_kept (congrArg (WorkerPc.watch k) hpc) fun g X _ x _ hitem => .inl ?_
  change loop'.sources.item (loop'.workers k).early x at hitem
  rwa [hsources, hpc] at hitem

theorem worker_looks_source
    {a : SourceAction ι Unit κ (HubFlag κ) (HubNotifier κ) τ ε}
    (hk : setup.execution k = .privateThread)
    (hwired : loop.sources.Wired setup.wiring)
    (h : loop.step setup (.source a) = some loop') :
    (workerWatcher k).Looks loop loop' := by
  simp only [step] at h
  split at h
  · next hmay =>
      obtain ⟨sources, hsources, rfl⟩ := Option.map_eq_some_iff.mp h
      have hsame : workerAfterSource k loop.sources a (loop.workers k) =
          loop.workers k → (workerWatcher k).Looks loop
          { loop with
            sources
            pc := afterSource setup loop.sources sources a loop.pc
            workers := fun k => workerAfterSource k loop.sources a (loop.workers k) } := by
        intro hpc
        refine worker_looks_of_step hk hwired hsources (fun hactor => ?_) hpc
        rw [hactor, Option.all_some, mayAct, setup.role_worker] at hmay
        exact hmay
      cases hloc : loop.workers k with
      | inTasks g =>
          have hwatch : (workerWatcher k).watch loop = some (g, ∅) := by
            show (loop.workers k).watch k = _
            rw [hloc]
            rfl
          cases hcall : Sources.taskCall k loop.sources a with
          | underWay =>
              refine hsame ?_
              rw [hloc, workerAfterSource, hcall]
          | returned n =>
              by_cases hn : n = 0
              · refine .of_empty hwatch ?_
                show (workerAfterSource k loop.sources a (loop.workers k)).watch k = _
                rw [hloc, workerAfterSource, hcall]
                simp only [hn, ne_eq, not_true_eq_false, if_false]
                rfl
              · refine .of_none ?_
                show (workerAfterSource k loop.sources a (loop.workers k)).watch k = _
                rw [hloc, workerAfterSource, hcall]
                simp only [hn, ne_eq, not_false_eq_true, if_true]
                rfl
          | threw =>
              refine .of_none ?_
              show (workerAfterSource k loop.sources a (loop.workers k)).watch k = _
              rw [hloc, workerAfterSource, hcall]
              rfl
      | _ =>
          refine hsame ?_
          rw [hloc]
          rfl
  · cases h

omit [DecidableEq ι] [Fintype ι] [RequestTraits ε] in
theorem worker_watch (loop : HubLoop ι κ τ ε) (k : κ) (pc : WorkerPc) :
    (workerWatcher k).watch (loop.setWorker k pc) = pc.watch k := by
  show (Function.update loop.workers k pc k).watch k = _
  rw [Function.update_self]

omit [DecidableEq ι] [Fintype ι] [RequestTraits ε] in
theorem worker_item (loop : HubLoop ι κ τ ε) (k : κ) (pc : WorkerPc)
    (x : SourceItem Unit κ (HubFlag κ)) :
    (workerWatcher k).item (loop.setWorker k pc) x = loop.sources.item pc.early x := by
  show loop.sources.item (Function.update loop.workers k pc k).early x = _
  rw [Function.update_self]

/-- `next_deadline()` is asked for. -/
theorem worker_looks_deadline
    {sources : Sources ι Unit κ (HubFlag κ) (HubNotifier κ) τ ε} {g : Nat}
    {pc : WorkerPc} (hwired : loop.sources.Wired setup.wiring)
    (hloc : loop.workers k = .deadline g)
    (hstep : loop.sources.step setup.wiring
      (.task (setup.worker k) k .nextDeadline) = some sources)
    (hwatch : pc.watch k = some (g, workerItems k True True))
    (hearly : ∀ e, (loop.sources.managers k).Delayed e → ¬ pc.early e.due) :
    (workerWatcher k).Looks loop ({ loop with sources }.setWorker k pc) := by
  intro g' X hX
  rw [worker_watch, hwatch] at hX
  cases hX
  refine .inr ⟨_, congrArg (WorkerPc.watch k) hloc, fun x hx hitem => ?_⟩
  rw [worker_item] at hitem
  have hold := (Sources.stepped hstep).supplied hwired hitem fun ha => by cases ha
  refine hold.imp_left fun hold => ?_
  show x ∈ workerItems k True False ∧ loop.sources.item (loop.workers k).early x
  cases x with
  | event => cases hx
  | ready k' id => exact ⟨hx, hold⟩
  | delayed k' id =>
      obtain ⟨rfl, -⟩ := hx
      obtain ⟨e, he, hid, hstate, hdue⟩ := hold
      exact absurd hdue (hearly e ⟨he, hstate⟩)
  | flag f => cases f <;> exact ⟨hx, hold⟩

theorem worker_looks_own {now : Int} (hwired : loop.sources.Wired setup.wiring)
    (h : loop.advanceWorker setup k now = some loop') :
    (workerWatcher k).Looks loop loop' := by
  have hwatch : ∀ {pc}, loop.workers k = pc →
      (workerWatcher k).watch loop = pc.watch k := congrArg (WorkerPc.watch k)
  unfold advanceWorker at h
  dsimp only at h
  split at h
  case h_1 => split at h <;> cases h <;> exact .of_none (worker_watch ..)
  case h_2 =>
    cases h
    exact .of_read (worker_watch ..)
  case h_3 g hloc =>
    obtain ⟨sources, -, rfl⟩ := Option.map_eq_some_iff.mp h
    exact .of_empty (hwatch hloc) (worker_watch ..)
  case h_4 g hloc =>
    split at h <;> cases h
    · exact .of_none (worker_watch ..)
    · next hlowered =>
        refine .of_same (hwatch hloc) (worker_watch ..) fun x hx hitem => ?_
        rw [worker_item] at hitem
        cases x with
        | event => cases hx
        | ready | delayed => cases hx.2
        | flag f =>
            cases f with
            | workerStop k' =>
                obtain rfl : k' = k := hx
                exact absurd hitem hlowered
            | _ => cases hx
  case h_5 g hloc =>
    split at h <;> cases h
    · exact .of_none (worker_watch ..)
    · next hready =>
        refine .of_same (hwatch hloc) (worker_watch ..) fun x hx hitem => ?_
        rw [worker_item] at hitem
        cases x with
        | event => cases hx
        | ready k' id =>
            obtain ⟨rfl, -⟩ := hx
            exact absurd ((hwired.managers k').ready_iff.mpr ⟨id, hitem⟩) hready
        | delayed => cases hx.2
        | flag f => cases f <;> exact ⟨hx, hitem⟩
  case h_6 g hloc =>
    obtain ⟨sources, hstep, rfl⟩ := Option.map_eq_some_iff.mp h
    cases hdeadline : (loop.sources.managers k).mgr.nextDeadline.2 with
    | none =>
        refine worker_looks_deadline hwired hloc hstep rfl fun e he => ?_
        obtain ⟨d, hd, -⟩ := le_of_nextDeadline hwired he
        rw [hdeadline] at hd
        cases hd
    | some d =>
        refine worker_looks_deadline hwired hloc hstep rfl fun e he hlt => ?_
        obtain ⟨d', hd, hle⟩ := le_of_nextDeadline hwired he
        obtain rfl : d = d' := Option.some.inj (hdeadline.symm.trans hd)
        exact absurd hle (Int.not_le.mpr hlt)
  case h_7 g d hloc =>
    split at h <;> cases h
    · exact .of_none (worker_watch ..)
    · refine .of_same (hwatch hloc) (worker_watch ..) fun x hx hitem => ⟨hx, ?_⟩
      rw [worker_item] at hitem
      show loop.sources.item (loop.workers k).early x
      rw [hloc]
      cases x with
      | delayed k' id =>
          obtain ⟨e, he, hid, hstate, hearly⟩ := hitem
          exact ⟨e, he, hid, hstate, hearly.upTo⟩
      | _ => exact hitem
  case h_8 | h_9 | h_10 =>
    obtain ⟨sources, -, rfl⟩ := Option.map_eq_some_iff.mp h
    exact .of_none (worker_watch ..)
  case h_11 => cases h

theorem worker_looks {a : HubLoopAction ι κ τ ε}
    (hk : setup.execution k = .privateThread)
    (hwired : loop.sources.Wired setup.wiring) (h : loop.step setup a = some loop') :
    (workerWatcher k).Looks loop loop' := by
  have hother : ∀ {loop : HubLoop ι κ τ ε} {k' pc}, k' ≠ k →
      (loop.setWorker k' pc).workers k = loop.workers k :=
    fun hne => Function.update_of_ne hne.symm ..
  cases a with
  | source act => exact worker_looks_source hk hwired h
  | advance now =>
      obtain ⟨hworkers, hsources | ⟨act, hactor, hact⟩⟩ := advance_cases h
      · exact worker_looks_of_same hsources (congrFun hworkers k)
      · refine worker_looks_of_step hk hwired hact (fun hworker => ?_)
          (congrFun hworkers k)
        exact absurd (Option.some.inj (hworker.symm.trans hactor)) (worker_ne setup k)
  | worker k' now =>
      by_cases hkk : k' = k
      · subst hkk
        exact worker_looks_own hwired h
      · obtain ⟨sources, pc, rfl, rfl | ⟨act, hactor, hact⟩⟩ := advanceWorker_cases h
        · exact worker_looks_of_same rfl (hother hkk)
        · refine worker_looks_of_step hk hwired hact (fun hworker => ?_) (hother hkk)
          have hsame : setup.worker k' = setup.worker k :=
            Option.some.inj (hactor.symm.trans hworker)
          have hrole := setup.role_worker k'
          rw [hsame, setup.role_worker] at hrole
          exact absurd (HubRole.worker.inj hrole).symm hkk
  | onProcessReturned | wake =>
      simp only [step] at h
      split at h
      · split at h <;> cases h
        exact worker_looks_of_same rfl rfl
      · cases h
  | onProcessThrew | stopping | initialized | hint =>
      simp only [step] at h
      split at h <;> cases h
      exact worker_looks_of_same rfl rfl
  | wakeWorker k' =>
      simp only [step] at h
      split at h
      · split at h <;> cases h
        by_cases hkk : k' = k
        · subst hkk
          exact .of_none (worker_watch ..)
        · exact worker_looks_of_same rfl (hother hkk)
      · cases h

theorem worker_attends (hk : setup.execution k = .privateThread) :
    (workerWatcher k).Attends (step (τ := τ) (ε := ε) setup)
      fun loop => loop.sources.Wired setup.wiring where
  grows loop a loop' _ h := generation_le h (.worker k)
  paid loop a loop' g X x hwired h hwatch hx howed := by
    have hpaid := owed_paid hwired h howed
    rwa [(wiring_of_mem hk (mem_workerItems_of_watch hwatch hx)).2] at hpaid
  looks loop a loop' hwired h := worker_looks hk hwired h

/-! ## No wake-up is lost -/

/-- The loops are about to run, those of some workers perhaps not at all, and
their sources are set up. -/
structure Started (setup : HubSetup ι κ) (loop : HubLoop ι κ τ ε) : Prop where
  pc : loop.pc = .head
  workers : ∀ k, loop.workers k = .head ∨ loop.workers k = .exited
  wired : loop.sources.Wired setup.wiring

/-- The wait ends no later than that. -/
def EndsBy (deadline : Option Int) (due : Int) : Prop :=
  ∃ d, deadline = some d ∧ d ≤ due

/-- What is there while the hub waits is owed a notification, and the wait ends
with the next deadline of a module. -/
structure HubNoLostWakeup (setup : HubSetup ι κ) (loop : HubLoop ι κ τ ε)
    (deadline : Option Int) : Prop where
  events : ∀ q ∈ (loop.sources.buses ()).world.queue,
    loop.sources.owed (.event () q.ticket)
  ready : ∀ k ∈ setup.modules, setup.execution k = .inlineInHub →
    loop.live k = true → ∀ id,
      (loop.sources.managers k).mgr.stateOf id = .queuedReady →
        loop.sources.owed (.ready k id)
  delayed : ∀ k ∈ setup.modules, setup.execution k = .inlineInHub →
    loop.live k = true → ∀ e, (loop.sources.managers k).Delayed e →
      EndsBy deadline e.due ∨ loop.sources.owed (.delayed k e.id)
  hints : ∀ k ∈ setup.modules, loop.live k = true → ∀ due,
    loop.hint k = some due → EndsBy deadline due
  exceptions : ∀ k ∈ setup.modules,
    loop.sources.flags (.workerException k) = true →
      loop.sources.owed (.flag (.workerException k))
  stop : loop.sources.flags .stop = true → loop.sources.owed (.flag .stop)

structure WorkerNoLostWakeup (loop : HubLoop ι κ τ ε) (k : κ)
    (deadline : Option Int) : Prop where
  ready : ∀ id, (loop.sources.managers k).mgr.stateOf id = .queuedReady →
    loop.sources.owed (.ready k id)
  delayed : ∀ e, (loop.sources.managers k).Delayed e →
    EndsBy deadline e.due ∨ loop.sources.owed (.delayed k e.id)
  stop : loop.sources.flags (.workerStop k) = true →
    loop.sources.owed (.flag (.workerStop k))

theorem precedes_of_not_endsBy {deadline : Option Int} {due : Int}
    (h : ¬ EndsBy deadline due) : Precedes due deadline :=
  fun d hd => Int.not_le.mp fun hle => h ⟨d, hd, hle⟩

omit [DecidableEq ι] [DecidableEq κ] [Fintype ι] [RequestTraits ε] in
theorem hubNoLostWakeup_of_waiting (h : (hubWatcher setup).NoneMissed loop) {g : Nat}
    {wait : Option TimedWait} (hpc : loop.pc = .waiting g wait)
    (hgeneration : loop.sources.generation .hub = g) :
    HubNoLostWakeup setup loop (wait.map TimedWait.deadline) := by
  have hnone : ∀ x ∈ HubSearch.items setup
      { checkedFlags setup with
        bus := True, ready := (· ∈ setup.modules)
        delayed := (· ∈ setup.modules), hints := (· ∈ setup.modules) },
      hubItem loop x → hubOwed loop x :=
    (h g _ (congrArg (HubLoopPc.watch setup) hpc)).2 hgeneration
  refine ⟨fun q hq => hnone (.inl (.event () q.ticket)) trivial ⟨q, hq, rfl⟩,
    fun k hk hinline hlive id hst =>
      hnone (.inl (.ready k id)) ⟨hk, hinline⟩ ⟨hlive, hst⟩,
    fun k hk hinline hlive e he => ?_, fun k hk hlive due hdue => ?_,
    fun k hk hraised => hnone (.inl (.flag (.workerException k))) hk hraised,
    fun hraised => hnone (.inl (.flag .stop)) trivial hraised⟩
  · by_cases hends : EndsBy (wait.map TimedWait.deadline) e.due
    · exact .inl hends
    · refine .inr (hnone (.inl (.delayed k e.id)) ⟨hk, hinline⟩
        ⟨hlive, e, he.1, rfl, he.2, ?_⟩)
      rw [hpc]
      exact precedes_of_not_endsBy hends
  · refine Classical.byContradiction fun hends => ?_
    refine hnone (.inr k) hk ⟨hlive, due, hdue, ?_⟩
    rw [hpc]
    exact precedes_of_not_endsBy hends

omit [DecidableEq ι] [DecidableEq κ] [Fintype ι] [RequestTraits ε] in
theorem workerNoLostWakeup_of_waiting (h : (workerWatcher k).NoneMissed loop) {g : Nat}
    {wait : Option TimedWait} (hpc : loop.workers k = .waiting g wait)
    (hgeneration : loop.sources.generation (.worker k) = g) :
    WorkerNoLostWakeup loop k (wait.map TimedWait.deadline) := by
  have hnone : ∀ x ∈ workerItems k True True,
      loop.sources.item (loop.workers k).early x → loop.sources.owed x :=
    (h g _ (congrArg (WorkerPc.watch k) hpc)).2 hgeneration
  refine ⟨fun id hst => hnone (.ready k id) ⟨rfl, trivial⟩ hst, fun e he => ?_,
    fun hraised => hnone (.flag (.workerStop k)) rfl hraised⟩
  by_cases hends : EndsBy (wait.map TimedWait.deadline) e.due
  · exact .inl hends
  · refine .inr (hnone (.delayed k e.id) ⟨rfl, trivial⟩ ⟨e, he.1, rfl, he.2, ?_⟩)
    rw [hpc]
    exact precedes_of_not_endsBy hends

/-- Whoever runs beside the hub and its workers, in whatever order. -/
theorem run_noLostWakeup_hub {acts : List (HubLoopAction ι κ τ ε)}
    (hstart : Started setup loop)
    (hrun : Lts.run (step setup) loop acts = some loop') :
    (∀ g wait, loop'.pc = .waiting g wait →
      loop'.sources.generation .hub = g →
      HubNoLostWakeup setup loop' (wait.map TimedWait.deadline)) ∧
    ∀ k, setup.execution k = .privateThread → ∀ g wait,
      loop'.workers k = .waiting g wait →
      loop'.sources.generation (.worker k) = g →
      WorkerNoLostWakeup loop' k (wait.map TimedWait.deadline) := by
  constructor
  · have hidle : (hubWatcher setup).NoneMissed loop :=
      .of_idle (congrArg (HubLoopPc.watch setup) hstart.pc)
    have hend := (hub_attends setup).noneMissed_run (fun _ _ _ => wired_step)
      hstart.wired hidle hrun
    exact fun g wait => hubNoLostWakeup_of_waiting hend.2
  · intro k hk
    have hidle : (workerWatcher k).NoneMissed loop := by
      refine .of_idle ?_
      show (loop.workers k).watch k = none
      rcases hstart.workers k with h | h
      · rw [h]
        rfl
      · rw [h]
        rfl
    have hend := (worker_attends hk).noneMissed_run (fun _ _ _ => wired_step)
      hstart.wired hidle hrun
    exact fun g wait => workerNoLostWakeup_of_waiting hend.2

/-! ## A run -/

/-- Module `false` is processed by the hub, module `true` by a worker. -/
def oneOfBoth : HubSetup (Fin 5) Bool where
  thread := 0
  worker k := if k then 1 else 2
  manual _ := 3
  role t :=
    if t = 0 then .hub
    else if t = 1 then .worker true
    else if t = 2 then .worker false
    else .other
  role_thread := rfl
  role_worker k := by cases k <;> rfl
  modules := [false, true]
  options k :=
    if k then { defaultOptions with execution := .privateThread } else defaultOptions

def idleHub : HubLoop (Fin 5) Bool Unit Nat where
  sources := { buses := fun _ => { world := { notifier := some 0 } } }
  live _ := true
  workers k := if k then .head else .exited

theorem idleHub_started : idleHub.Started oneOfBoth where
  pc := rfl
  workers k := by
    cases k with
    | false => exact .inr rfl
    | true => exact .inl rfl
  wired := {
    buses := fun _ => ⟨rfl, fun _ _ f hf => by
      obtain rfl : f = .user .main := List.mem_singleton.mp hf
      rfl⟩
    managers := fun _ => Lts.Reachable.refl _
    owing := fun _ _ _ h => by cases h }

/-- The hub waits for a task that is due at 5, the worker has none to wait for.
Threads 3 and 4 have made something available and have yet to notify. -/
def lateForBoth : List (HubLoopAction (Fin 5) Bool Unit Nat) :=
  [.source (.task 3 false (.postAt 0 5 (some ()) {})), .source (.notify 3)] ++
  List.replicate 3 (.advance 0) ++
  List.replicate 5 (.source (.bus () (.advance 0))) ++
  [.advance 0, .advance 0, .source (.task 0 false .processEnd)] ++
  List.replicate 5 (.advance 0) ++
  [.onProcessReturned 0, .advance 0, .advance 0, .onProcessReturned 0] ++
  List.replicate 18 (.advance 0) ++
  List.replicate 3 (.worker true 0) ++
  [.source (.task 1 true .processEnd)] ++
  List.replicate 3 (.worker true 0) ++
  [.source (.bus () (.call 3 (.post ⟨1, 2⟩))), .source (.bus () (.advance 3)),
    .source (.task 4 true (.post (some ()) {}))]

theorem run_noLostWakeup_hub_late : ∃ loop,
    Lts.run (step oneOfBoth) idleHub lateForBoth = some loop ∧
      loop.pc = .waiting 1 (some { now := 0, duration := 5 }) ∧
      loop.workers true = .waiting 0 none ∧
      (loop.sources.buses ()).world.queue.map (·.ticket) = [0] ∧
      (loop.sources.managers true).mgr.hasReady = true ∧
      HubNoLostWakeup oneOfBoth loop (some 5) ∧ WorkerNoLostWakeup loop true none := by
  obtain ⟨loop, hrun, hpc, hworker, hhub, hown, hqueue, hready⟩ : ∃ loop,
      Lts.run (step oneOfBoth) idleHub lateForBoth = some loop ∧
        loop.pc = .waiting 1 (some { now := 0, duration := 5 }) ∧
        loop.workers true = .waiting 0 none ∧
        loop.sources.generation .hub = 1 ∧
        loop.sources.generation (.worker true) = 0 ∧
        (loop.sources.buses ()).world.queue.map (·.ticket) = [0] ∧
        (loop.sources.managers true).mgr.hasReady = true :=
    Lts.exists_run_of_decide (by decide +kernel)
  have hend := run_noLostWakeup_hub idleHub_started hrun
  exact ⟨loop, hrun, hpc, hworker, hqueue, hready, hend.1 1 _ hpc hhub,
    hend.2 true rfl 0 none hworker hown⟩

end HubLoop

end EventHub
