import EventHub.Loop.RunLoop
import EventHub.Proofs.LoopSources

/-!
# No wake-up is lost on the loop

The generation is read before anything is looked for, and what has been looked
for and not found is listed beside the point the loop has reached. From the
first check on the thread takes no step on the sources but the pruning of
`next_deadline`, so whatever comes to be there is brought by another thread or
by `should_stop()`, and the general argument of `Lib/Wakeup.lean` applies.
-/

namespace EventHub

variable {ι β κ τ ε : Type}

/-! ## What has been looked for -/

/-- The stop flag, the events of some buses, and the ready and the delayed tasks
of some managers. -/
def lookedFor (buses : β → Prop) (ready delayed : κ → Prop) :
    Set (SourceItem β κ Unit) := fun x =>
  match x with
  | .event b _ => buses b
  | .ready k _ => ready k
  | .delayed k _ => delayed k
  | .flag _ => True

/-- The generation read in this round and what was looked for since. -/
def LoopPc.watch (setup : RunLoopSetup ι β κ) :
    LoopPc β κ → Option (Nat × Set (SourceItem β κ Unit))
  | .head | .shouldStop none | .capture | .returned | .threw => none
  | .buses g _ _ | .inBus g _ _ _ | .managers g _ _ | .inManager g _ _ _
  | .recheck g => some (g, ∅)
  | .shouldStop (some g) =>
      some (g, lookedFor (fun _ => False) (fun _ => False) fun _ => False)
  | .pending g rest =>
      some (g, lookedFor (fun b => b ∈ setup.buses ∧ b ∉ rest) (fun _ => False)
        fun _ => False)
  | .ready g rest =>
      some (g, lookedFor (· ∈ setup.buses)
        (fun k => k ∈ setup.taskManagers ∧ k ∉ rest) fun _ => False)
  | .clock g =>
      some (g, lookedFor (· ∈ setup.buses) (· ∈ setup.taskManagers)
        fun _ => False)
  | .nextWait g _ rest _ =>
      some (g, lookedFor (· ∈ setup.buses) (· ∈ setup.taskManagers)
        fun k => k ∈ setup.taskManagers ∧ k ∉ rest)
  | .deadline g _ k rest _ =>
      some (g, lookedFor (· ∈ setup.buses) (· ∈ setup.taskManagers)
        fun k' => k' ∈ setup.taskManagers ∧ k' ∉ k :: rest)
  | .waiting g _ _ =>
      some (g, lookedFor (· ∈ setup.buses) (· ∈ setup.taskManagers)
        (· ∈ setup.taskManagers))

/-- The loop would wait that long, and past the deadline. -/
def Outlasts (now : Int) (wait : Option Int) (due : Int) : Prop :=
  ∀ w, wait = some w → 0 < w ∧ due - now < w

/-- The delayed tasks that the wait, as far as it is known, would be too long for. -/
def LoopPc.early : LoopPc β κ → Int → Prop
  | .nextWait _ now _ best | .deadline _ now _ _ best => Outlasts now best
  | .waiting _ now wait => fun due => ∀ w, wait = some w → due - now < w
  | _ => fun _ => True

theorem Outlasts.of_shorter {now due : Int} {best deadline : Option Int}
    (h : Outlasts now (shorterWait now best deadline) due) :
    Outlasts now best due := by
  rintro w rfl
  cases deadline with
  | none => exact h w rfl
  | some deadline =>
      obtain ⟨hpos, hlt⟩ := h _ rfl
      revert hpos hlt
      split_ifs <;> intro hpos hlt <;> constructor <;> omega

/-- The deadline that `next_task_wait` has been told of is not outlasted. -/
theorem not_outlasts_shorter {now due d : Int} {best : Option Int} (hle : d ≤ due) :
    ¬ Outlasts now (shorterWait now best (some d)) due := by
  intro h
  cases best with
  | none =>
      obtain ⟨hpos, hlt⟩ := h _ rfl
      revert hpos hlt
      split_ifs <;> intro hpos hlt <;> omega
  | some best =>
      obtain ⟨hpos, hlt⟩ := h _ rfl
      revert hpos hlt
      split_ifs <;> intro hpos hlt <;> omega

namespace RunLoop

def watcher (setup : RunLoopSetup ι β κ) :
    Watcher (RunLoop ι β κ τ ε) (SourceItem β κ Unit) where
  watch loop := loop.pc.watch setup
  generation loop := loop.sources.generation ()
  item loop := loop.sources.item loop.pc.early
  owed loop := loop.sources.owed

variable [DecidableEq ι] [DecidableEq β] [DecidableEq κ] [Fintype ι]
  [RequestTraits ε] {setup : RunLoopSetup ι β κ} {loop loop' : RunLoop ι β κ τ ε}

/-! ## Steps on the sources -/

omit [Fintype ι] [RequestTraits ε] in
/-- Where the thread may be after a step of a program. -/
theorem watch_afterSource {old new : Sources ι β κ Unit Unit τ ε}
    {a : SourceAction ι β κ Unit Unit τ ε} {pc : LoopPc β κ} {g : Nat}
    {X : Set (SourceItem β κ Unit)}
    (h : (afterSource setup old new a pc).watch setup = some (g, X)) :
    afterSource setup old new a pc = pc ∨
      X = ∅ ∧ pc.watch setup = some (g, ∅) := by
  cases pc with
  | inBus g' b rest workDone =>
      simp only [afterSource] at h ⊢
      split at h
      · exact .inl rfl
      · cases h
        exact .inr ⟨rfl, rfl⟩
      · cases h
  | inManager g' k rest workDone =>
      simp only [afterSource] at h ⊢
      split at h
      · exact .inl rfl
      · cases h
        exact .inr ⟨rfl, rfl⟩
      · cases h
  | _ => exact .inl rfl

omit [DecidableEq ι] [DecidableEq β] [DecidableEq κ] [Fintype ι] in
/-- While code of the program runs on the thread, nothing but the stop flag has
been looked for. -/
theorem processor_of_runsCode {pc : LoopPc β κ} (hpc : pc.runsCode = true) {g : Nat}
    {X : Set (SourceItem β κ Unit)} (hwatch : pc.watch setup = some (g, X))
    {x : SourceItem β κ Unit} (hx : x ∈ X) :
    x.processor setup.wiring = none := by
  cases pc with
  | shouldStop generation =>
      cases generation with
      | none => cases hwatch
      | some g =>
          cases hwatch
          cases x with
          | flag => rfl
          | _ => cases hx
  | inBus | inManager =>
      cases hwatch
      cases hx
  | _ => cases hpc

theorem looks_source {a : SourceAction ι β κ Unit Unit τ ε}
    (hwired : loop.sources.Wired setup.wiring)
    (h : loop.step setup (.source a) = some loop') : (watcher setup).Looks loop loop' := by
  simp only [step] at h
  split at h
  · cases h
  · next hmay =>
      obtain ⟨sources, hsources, rfl⟩ := Option.map_eq_some_iff.mp h
      intro g X hwatch
      rcases watch_afterSource hwatch with hpc | ⟨rfl, hpc⟩
      · change (afterSource setup loop.sources sources a loop.pc).watch setup = _
          at hwatch
        rw [hpc] at hwatch
        refine .inr ⟨X, hwatch, fun x hx hitem => ?_⟩
        have hitem : sources.item loop.pc.early x := by
          change sources.item
            (afterSource setup loop.sources sources a loop.pc).early x at hitem
          rwa [hpc] at hitem
        refine ((Sources.stepped hsources).supplied hwired hitem
          fun _ t ht hactor => ?_).imp_left fun hitem => ⟨hx, hitem⟩
        have hthread : t = setup.thread := by
          cases x <;> cases ht <;> rfl
        subst hthread
        have hruns : loop.pc.runsCode = true :=
          Bool.eq_true_of_not_eq_false fun hruns => hmay ⟨hactor, hruns⟩
        rw [processor_of_runsCode hruns hwatch hx] at ht
        cases ht
      · exact .inr ⟨∅, hpc, fun x hx => absurd hx (Set.notMem_empty x)⟩

/-! ## Steps of the loop -/

theorem advance_sources {now : Int} (h : loop.advance setup now = some loop') :
    loop'.sources = loop.sources ∨
      ∃ a, loop.sources.step setup.wiring a = some loop'.sources := by
  obtain ⟨sources, pc⟩ := loop
  cases pc with
  | head | recheck =>
      simp only [advance] at h
      split at h <;> cases h <;> exact .inl rfl
  | capture | clock =>
      cases h
      exact .inl rfl
  | buses g rest workDone =>
      cases rest with
      | nil =>
          cases h
          exact .inl rfl
      | cons b rest =>
          simp only [advance] at h
          split at h
          · obtain ⟨sources', hsources, rfl⟩ := Option.map_eq_some_iff.mp h
            exact .inr ⟨_, hsources⟩
          · cases h
  | managers g rest workDone =>
      cases rest with
      | nil =>
          simp only [advance] at h
          split at h <;> cases h <;> exact .inl rfl
      | cons k rest =>
          obtain ⟨sources', hsources, rfl⟩ := Option.map_eq_some_iff.mp h
          exact .inr ⟨_, hsources⟩
  | pending g rest =>
      cases rest with
      | nil =>
          cases h
          exact .inl rfl
      | cons b rest =>
          simp only [advance] at h
          split at h <;> cases h <;> exact .inl rfl
  | ready g rest =>
      cases rest with
      | nil =>
          cases h
          exact .inl rfl
      | cons k rest =>
          simp only [advance] at h
          split at h <;> cases h <;> exact .inl rfl
  | nextWait g now' rest best =>
      cases rest with
      | nil | cons k rest =>
          simp only [advance] at h
          split at h <;> cases h <;> exact .inl rfl
  | deadline g now' k rest best =>
      obtain ⟨sources', hsources, rfl⟩ := Option.map_eq_some_iff.mp h
      exact .inr ⟨_, hsources⟩
  | _ => cases h

omit [DecidableEq ι] [DecidableEq β] [DecidableEq κ] [Fintype ι]
  [RequestTraits ε] in
/-- A manager that is not ready has no ready task. -/
theorem not_ready (hwired : loop.sources.Wired setup.wiring) {k : κ}
    (h : ¬ (loop.sources.managers k).mgr.hasReady = true) (id : Nat) :
    (loop.sources.managers k).mgr.stateOf id ≠ .queuedReady :=
  fun hst => h ((hwired.managers k).ready_iff.mpr ⟨id, hst⟩)

theorem looks_deadline {sources : Sources ι β κ Unit Unit τ ε} {g : Nat}
    {now : Int} {k : κ} {rest : List κ} {best : Option Int}
    (hpc : loop.pc = .deadline g now k rest best)
    (hwired : loop.sources.Wired setup.wiring)
    (hstep : loop.sources.step setup.wiring
      (.task setup.thread k .nextDeadline) = some sources) :
    (watcher setup).Looks loop
      { sources := sources,
        pc := .nextWait g now rest (shorterWait now best
          (loop.sources.managers k).mgr.nextDeadline.2) } := by
  intro g' X hwatch
  cases hwatch
  refine .inr ⟨_, congrArg (LoopPc.watch setup) hpc, fun x hx hitem => ?_⟩
  have hold := (Sources.stepped hstep).supplied hwired hitem fun ha => by cases ha
  refine hold.imp_left fun hold => ?_
  show _ ∧ loop.sources.item loop.pc.early x
  rw [hpc]
  cases x with
  | delayed k' id =>
      obtain ⟨e, he, hid, hstate, hearly⟩ := hold
      refine ⟨⟨hx.1, fun hmem => ?_⟩, e, he, hid, hstate, Outlasts.of_shorter hearly⟩
      obtain rfl : k' = k := (List.mem_cons.mp hmem).resolve_right hx.2
      -- the deadline that has been asked for is the least
      have hreach := hwired.managers k'
      have hdelayed : (loop.sources.managers k').Delayed e := ⟨he, hstate⟩
      cases hdeadline : (loop.sources.managers k').mgr.nextDeadline.2 with
      | none => exact hreach.absent.mp hdeadline e.id hstate
      | some d =>
          have hleast := ((hreach.earliest d).mp hdeadline).2 ⟨e, hdelayed, rfl⟩
          rw [hdeadline] at hearly
          exact not_outlasts_shorter hleast hearly
  | _ => exact ⟨hx, hold⟩

theorem looks_advance {now : Int} (hwired : loop.sources.Wired setup.wiring)
    (h : loop.advance setup now = some loop') : (watcher setup).Looks loop loop' := by
  obtain ⟨sources, pc⟩ := loop
  cases pc with
  | head =>
      simp only [advance] at h
      split at h <;> cases h <;> exact .of_none rfl
  | capture =>
      cases h
      exact .of_read rfl
  | buses g rest workDone =>
      cases rest with
      | nil =>
          cases h
          exact .of_empty rfl rfl
      | cons b rest =>
          simp only [advance] at h
          split at h
          · obtain ⟨sources', hsources, rfl⟩ := Option.map_eq_some_iff.mp h
            exact .of_empty rfl rfl
          · cases h
  | managers g rest workDone =>
      cases rest with
      | nil =>
          simp only [advance] at h
          split at h <;> cases h
          · exact .of_none rfl
          · exact .of_empty rfl rfl
      | cons k rest =>
          obtain ⟨sources', hsources, rfl⟩ := Option.map_eq_some_iff.mp h
          exact .of_empty rfl rfl
  | recheck g =>
      simp only [advance] at h
      split at h <;> cases h
      · exact .of_none rfl
      · next hflag =>
          refine .of_same rfl rfl fun x hx hitem => ?_
          cases x with
          | flag => exact absurd hitem hflag
          | _ => cases hx
  | pending g rest =>
      cases rest with
      | nil =>
          cases h
          refine .of_same rfl rfl fun x hx hitem => ?_
          cases x with
          | event b ticket => exact ⟨⟨hx, List.not_mem_nil⟩, hitem⟩
          | ready k id => exact absurd hx.1 hx.2
          | delayed => cases hx
          | flag => exact ⟨hx, hitem⟩
      | cons b rest =>
          simp only [advance] at h
          split at h <;> cases h
          · next hempty =>
              refine .of_same rfl rfl fun x hx hitem => ⟨?_, ?_⟩
              · cases x with
                | event b' ticket =>
                    refine ⟨hx.1, fun hmem => ?_⟩
                    obtain rfl : b' = b := (List.mem_cons.mp hmem).resolve_right hx.2
                    obtain ⟨q, hq, -⟩ := hitem
                    change q ∈ (sources.buses b').world.queue at hq
                    rw [hempty] at hq
                    cases hq
                | _ => exact hx
              · cases x with
                | delayed => cases hx
                | _ => exact hitem
          · exact .of_none rfl
  | ready g rest =>
      cases rest with
      | nil =>
          cases h
          refine .of_same rfl rfl fun x hx hitem => ?_
          cases x with
          | ready k id => exact ⟨⟨hx, List.not_mem_nil⟩, hitem⟩
          | delayed => cases hx
          | _ => exact ⟨hx, hitem⟩
      | cons k rest =>
          simp only [advance] at h
          split at h <;> cases h
          · exact .of_none rfl
          · next hready =>
              refine .of_same rfl rfl fun x hx hitem => ⟨?_, ?_⟩
              · cases x with
                | ready k' id =>
                    refine ⟨hx.1, fun hmem => ?_⟩
                    obtain rfl : k' = k := (List.mem_cons.mp hmem).resolve_right hx.2
                    exact not_ready hwired hready id hitem
                | _ => exact hx
              · cases x with
                | delayed => cases hx
                | _ => exact hitem
  | clock g =>
      cases h
      refine .of_same rfl rfl fun x hx hitem => ?_
      cases x with
      | delayed k id => exact absurd hx.1 hx.2
      | _ => exact ⟨hx, hitem⟩
  | nextWait g now' rest best =>
      cases rest with
      | nil =>
          simp only [advance] at h
          split at h <;> cases h
          · exact .of_none rfl
          · next hpos =>
              refine .of_same rfl rfl fun x hx hitem => ?_
              cases x with
              | delayed k id =>
                  obtain ⟨e, he, hid, hstate, hearly⟩ := hitem
                  refine ⟨⟨hx, List.not_mem_nil⟩, e, he, hid, hstate, fun w hw => ?_⟩
                  rw [hw, Option.any_some, decide_eq_true_eq] at hpos
                  exact ⟨Int.not_le.mp hpos, hearly w hw⟩
              | _ => exact ⟨hx, hitem⟩
      | cons k rest =>
          simp only [advance] at h
          split at h <;> cases h
          · exact .of_none rfl
          · refine .of_same rfl rfl fun x hx hitem => ⟨hx, ?_⟩
            cases x <;> exact hitem
  | deadline g now' k rest best =>
      obtain ⟨sources', hsources, rfl⟩ := Option.map_eq_some_iff.mp h
      exact looks_deadline rfl hwired hsources
  | _ => cases h

theorem step_sources {a : RunLoopAction ι β κ τ ε}
    (h : loop.step setup a = some loop') :
    loop'.sources = loop.sources ∨
      ∃ a, loop.sources.step setup.wiring a = some loop'.sources := by
  cases a with
  | source a =>
      simp only [step] at h
      split at h
      · cases h
      · obtain ⟨sources, hsources, rfl⟩ := Option.map_eq_some_iff.mp h
        exact .inr ⟨a, hsources⟩
  | advance now => exact advance_sources h
  | shouldStop result =>
      simp only [step] at h
      split at h
      · split at h <;> cases h
        exact .inl rfl
      · cases h
  | shouldStopThrew =>
      simp only [step] at h
      split at h <;> cases h
      exact .inl rfl
  | wake =>
      simp only [step] at h
      split at h
      · split at h <;> cases h
        exact .inl rfl
      · cases h

theorem looks {a : RunLoopAction ι β κ τ ε}
    (hwired : loop.sources.Wired setup.wiring)
    (h : loop.step setup a = some loop') : (watcher setup).Looks loop loop' := by
  cases a with
  | source a => exact looks_source hwired h
  | advance now => exact looks_advance hwired h
  | shouldStop result =>
      simp only [step] at h
      split at h
      · next generation hpc =>
          split at h <;> cases h
          cases result with
          | true => exact .of_none rfl
          | false =>
              cases generation with
              | none => exact .of_none rfl
              | some g =>
                  refine .of_same (congrArg (LoopPc.watch setup) hpc) rfl
                    fun x hx hitem => ?_
                  show _ ∧ loop.sources.item loop.pc.early x
                  rw [hpc]
                  cases x with
                  | event b ticket => exact absurd hx.1 hx.2
                  | flag => exact ⟨hx, hitem⟩
                  | _ => cases hx
      · cases h
  | shouldStopThrew =>
      simp only [step] at h
      split at h <;> cases h
      exact .of_none rfl
  | wake =>
      simp only [step] at h
      split at h
      · split at h <;> cases h
        exact .of_none rfl
      · cases h

theorem attends (setup : RunLoopSetup ι β κ) :
    (watcher setup).Attends (step (τ := τ) (ε := ε) setup)
      fun loop => loop.sources.Wired setup.wiring where
  grows loop a loop' _ h := by
    rcases step_sources h with heq | ⟨act, hact⟩
    · exact (congrArg (fun sources => sources.generation ()) heq).ge
    · exact (Sources.stepped hact).generation_le ()
  paid loop a loop' g X x hwired h _ _ hx := by
    rcases step_sources h with heq | ⟨act, hact⟩
    · left
      show loop'.sources.owed x
      rw [heq]
      exact hx
    · exact (Sources.stepped hact).paid (fun b => (hwired.buses b).notifier) hx
  looks loop a loop' hwired h := looks hwired h

/-- The loop is about to run, and its sources are set up. -/
structure Started (setup : RunLoopSetup ι β κ) (loop : RunLoop ι β κ τ ε) : Prop where
  pc : loop.pc = .head
  wired : loop.sources.Wired setup.wiring

/-- What is there while the loop waits is owed a notification, and the wait is
no longer than the time to the next deadline. -/
structure NoLostWakeup (setup : RunLoopSetup ι β κ)
    (sources : Sources ι β κ Unit Unit τ ε) (now : Int) (wait : Option Int) :
    Prop where
  events : ∀ b ∈ setup.buses, ∀ q ∈ (sources.buses b).world.queue,
    sources.owed (.event b q.ticket)
  ready : ∀ k ∈ setup.taskManagers, ∀ id,
    (sources.managers k).mgr.stateOf id = .queuedReady →
      sources.owed (.ready k id)
  delayed : ∀ k ∈ setup.taskManagers, ∀ e, (sources.managers k).Delayed e →
    (∃ w, wait = some w ∧ w ≤ e.due - now) ∨ sources.owed (.delayed k e.id)
  stop : sources.flags () = true → sources.owed (.flag ())

theorem wired_step {a : RunLoopAction ι β κ τ ε}
    (h : loop.sources.Wired setup.wiring) (hstep : loop.step setup a = some loop') :
    loop'.sources.Wired setup.wiring := by
  rcases step_sources hstep with heq | ⟨act, hact⟩
  · rw [heq]
    exact h
  · exact h.step (Sources.stepped hact)

omit [DecidableEq ι] [DecidableEq β] [DecidableEq κ] [Fintype ι]
  [RequestTraits ε] in
theorem noLostWakeup_of_waiting (h : (watcher setup).NoneMissed loop) {g : Nat}
    {now : Int} {wait : Option Int} (hpc : loop.pc = .waiting g now wait)
    (hgeneration : loop.sources.generation () = g) :
    NoLostWakeup setup loop.sources now wait := by
  have hnone := (h g _ (congrArg (LoopPc.watch setup) hpc)).2 hgeneration
  refine ⟨fun b hb q hq => hnone (.event b q.ticket) hb ⟨q, hq, rfl⟩,
    fun k hk id hst => hnone (.ready k id) hk hst, fun k hk e he => ?_,
    fun hflag => hnone (.flag ()) trivial hflag⟩
  by_cases hearly : ∃ w, wait = some w ∧ w ≤ e.due - now
  · exact .inl hearly
  · refine .inr (hnone (.delayed k e.id) hk ⟨e, he.1, rfl, he.2, ?_⟩)
    rw [hpc]
    intro w hw
    exact Int.not_le.mp fun hle => hearly ⟨w, hw, hle⟩

/-- Whoever runs beside the loop, in whatever order. -/
theorem run_noLostWakeup {acts : List (RunLoopAction ι β κ τ ε)}
    (hstart : Started setup loop)
    (hrun : Lts.run (step setup) loop acts = some loop') {g : Nat} {now : Int}
    {wait : Option Int} (hpc : loop'.pc = .waiting g now wait)
    (hgeneration : loop'.sources.generation () = g) :
    NoLostWakeup setup loop'.sources now wait := by
  have hidle : (watcher setup).NoneMissed loop :=
    .of_idle (congrArg (LoopPc.watch setup) hstart.pc)
  have hend := (attends setup).noneMissed_run (fun _ _ _ => wired_step) hstart.wired
    hidle hrun
  exact noLostWakeup_of_waiting hend.2 hpc hgeneration

/-! ## A run -/

/-- Thread `false` runs the loop. -/
def oneOfEach : RunLoopSetup Bool Unit Unit where
  thread := false
  buses := [()]
  taskManagers := [()]

def idleLoop : RunLoop Bool Unit Unit Unit Nat where
  sources := { buses := fun _ => { world := { notifier := some 0 } } }

theorem idleLoop_started : idleLoop.Started oneOfEach where
  pc := rfl
  wired := {
    buses := fun _ => ⟨rfl, fun _ _ f hf => by
      obtain rfl : f = .user .main := List.mem_singleton.mp hf
      rfl⟩
    managers := fun _ => Lts.Reachable.refl _
    owing := fun _ _ _ h => by cases h }

/-- A task is due at 5 and nothing else is found, so the loop waits. Meanwhile
thread `true` has put an event into the queue and has yet to notify. -/
def lateEvent : List (RunLoopAction Bool Unit Unit Unit Nat) :=
  [.source (.task true () (.postAt 0 5 (some ()) {})), .source (.notify true),
    .advance 0, .shouldStop false, .advance 0, .advance 0] ++
  List.replicate 5 (.source (.bus () (.advance false))) ++
  [.advance 0, .advance 0, .source (.task false () .processEnd), .advance 0,
    .advance 0, .shouldStop false] ++
  List.replicate 7 (.advance 0) ++
  [.source (.bus () (.call true (.post ⟨1, 2⟩))),
    .source (.bus () (.advance true)), .advance 0]

theorem run_noLostWakeup_late : ∃ loop,
    Lts.run (step oneOfEach) idleLoop lateEvent = some loop ∧
      loop.pc = .waiting 1 0 (some 5) ∧ loop.sources.generation () = 1 ∧
      (loop.sources.buses ()).world.queue.map (·.ticket) = [0] ∧
      NoLostWakeup oneOfEach loop.sources 0 (some 5) := by
  obtain ⟨loop, hrun, hpc, hgeneration, hqueue⟩ : ∃ loop,
      Lts.run (step oneOfEach) idleLoop lateEvent = some loop ∧
        loop.pc = .waiting 1 0 (some 5) ∧ loop.sources.generation () = 1 ∧
        (loop.sources.buses ()).world.queue.map (·.ticket) = [0] :=
    Lts.exists_run_of_decide (by decide +kernel)
  exact ⟨loop, hrun, hpc, hgeneration, hqueue,
    run_noLostWakeup idleLoop_started hrun hpc hgeneration⟩

end RunLoop

end EventHub
