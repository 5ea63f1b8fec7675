import EventHub.Calendar.Step

/-!
# What a step of the calendar can do

The top frame of one thread is replaced. `CalendarMoved` lists the ways in
which that happens. What a frame of the library does is then asked once for
each invariant; that rules and frames speak of rules that exist is asked here.
-/

namespace EventHub

variable {ι : Type}

/-- The action `a` turns the top frame `f` of thread `t` into `o`. -/
inductive CalendarMoved (s : CalendarSystem ι) :
    CalendarAction ι → ι → CalendarFrame → CalendarOutcome → Prop
  | advance {t : ι} {f : CalendarFrame} {o : CalendarOutcome}
      {result : Option Int} (reading : Reading)
      (hmode : s.mode t = .running result)
      (h : f.advance s.world result reading = some o) :
      CalendarMoved s (.advance t reading) t f o
  | unwind {t : ι} {f : CalendarFrame} {o : CalendarOutcome} (reading : Reading)
      (hmode : s.mode t = .throwing) (h : f.unwind s.world = some o) :
      CalendarMoved s (.advance t reading) t f o
  | call {t : ι} {code : CalendarCode} {w : CalendarWorld}
      {frames : List CalendarFrame} (c : CalendarCall)
      (h : s.world.call c = some (w, frames)) :
      CalendarMoved s (.call t c) t (.user code)
        { world := w, frames := frames ++ [.user code] }
  | ret {t : ι} {code : CalendarCode} (value : Option Int)
      (hcode : code ≠ .main) :
      CalendarMoved s (.ret t value) t (.user code)
        { world := s.world, frames := [], mode := .running value }
  | throw {t : ι} {code : CalendarCode} (hcode : code ≠ .main) :
      CalendarMoved s (.throw t) t (.user code)
        { world := s.world, frames := [], mode := .throwing }
  | catch {t : ι} {code : CalendarCode} :
      CalendarMoved s (.catch t) t (.user code)
        { world := s.world, frames := [.user code] }

namespace CalendarSystem

variable {s s' : CalendarSystem ι}

theorem outcome_cases {a : CalendarAction ι} {t : ι} {o : CalendarOutcome}
    (h : s.outcome a = some (t, o)) :
    ∃ f rest, s.frames t = f :: rest ∧ CalendarMoved s a t f o := by
  cases a with
  | advance u reading =>
      simp only [outcome] at h
      split at h
      · next f rest result hf hm =>
          obtain ⟨o', ho', heq⟩ := Option.map_eq_some_iff.mp h
          cases heq
          exact ⟨f, rest, hf, .advance reading hm ho'⟩
      · next f rest hf hm =>
          obtain ⟨o', ho', heq⟩ := Option.map_eq_some_iff.mp h
          cases heq
          exact ⟨f, rest, hf, .unwind reading hm ho'⟩
      · cases h
  | call u c =>
      simp only [outcome] at h
      split at h
      · next code rest result hf hm =>
          obtain ⟨⟨w, frames⟩, hcall, heq⟩ := Option.map_eq_some_iff.mp h
          cases heq
          exact ⟨_, rest, hf, .call c hcall⟩
      · cases h
  | ret u value =>
      simp only [outcome] at h
      split at h
      · cases h
      · next code rest result hne hf hm =>
          cases h
          exact ⟨_, rest, hf, .ret value fun hc => hne (hc ▸ rfl)⟩
      · cases h
  | throw u =>
      simp only [outcome] at h
      split at h
      · cases h
      · next code rest hne hf =>
          cases h
          exact ⟨_, rest, hf, .throw fun hc => hne (hc ▸ rfl)⟩
      · cases h
  | «catch» u =>
      simp only [outcome] at h
      split at h
      · next code rest hf hm =>
          cases h
          exact ⟨_, rest, hf, .catch⟩
      · cases h

theorem step_cases [DecidableEq ι] {a : CalendarAction ι}
    (h : step s a = some s') :
    ∃ t f rest o, s.frames t = f :: rest ∧ CalendarMoved s a t f o ∧
      s' = s.put t o := by
  obtain ⟨⟨t, o⟩, ho, rfl⟩ := Option.map_eq_some_iff.mp h
  obtain ⟨f, rest, hf, hmoved⟩ := outcome_cases ho
  exact ⟨t, f, rest, o, hf, hmoved, rfl⟩

end CalendarSystem

/-! ## What a frame does -/

namespace CalendarFrame

/-- Code of the program, or a call whose end nothing depends on. -/
def plain : CalendarFrame → Bool
  | .user _ | .addReturn _ | .nowProvided | .readClock | .emitting => true
  | _ => false

/-- The frames that matter. -/
def core (fs : List CalendarFrame) : List CalendarFrame :=
  fs.filter fun f => !f.plain

variable {f : CalendarFrame} {fs gs : List CalendarFrame} {w : CalendarWorld}
  {r : Nat}

@[simp] theorem core_nil : core [] = [] := rfl

@[simp] theorem core_append : core (fs ++ gs) = core fs ++ core gs :=
  List.filter_append ..

theorem core_cons_of_plain (h : f.plain) : core (f :: fs) = core fs :=
  List.filter_cons_of_neg (by rw [h]; decide)

theorem core_cons (h : f.plain = false) : core (f :: fs) = f :: core fs :=
  List.filter_cons_of_pos (by rw [h]; decide)

theorem countP_core {p : CalendarFrame → Bool}
    (hp : ∀ g, g.plain → p g = false) : (core fs).countP p = fs.countP p := by
  unfold core
  rw [List.countP_filter]
  refine List.countP_congr fun g _ => ?_
  cases hg : g.plain with
  | false => simp
  | true => simp [hp g hg]

@[simp] theorem core_nowFrames : core (w.nowFrames r) = [] := by
  unfold CalendarWorld.nowFrames
  split <;> rfl

@[simp] theorem core_emitFrames : core (w.emitFrames r) = [] := by
  unfold CalendarWorld.emitFrames
  split <;> rfl

@[simp] theorem core_cancelFrames : core (w.cancelFrames r) = w.cancelFrames r := by
  unfold CalendarWorld.cancelFrames
  dsimp only
  split <;> rfl

theorem core_succeeded (caller : SchedulePc) : core (caller.succeeded r) = [] := by
  cases caller <;> rfl

end CalendarFrame

/-- An event of `run_due` that is emitted at this point, and the next point. -/
def RunPc.emits : RunPc → Option (CalendarObserverEvent × RunPc)
  | .due => some (.due, .before)
  | .before => some (.beforeCallback, .calling)
  | .failed => some (.afterCallback, .rethrowing)
  | .after => some (.afterCallback, .checkContext)
  | _ => none

/-- The points of `add_rule` at which an occurrence may still be found missed. -/
def AddPc.mayMiss : AddPc → Bool
  | .firstDue _ | .missing _ => true
  | _ => false

/-- The points of `run_due` between which it only decides. -/
inductive RunPc.Walks : RunPc → RunPc → Prop
  | returned : Walks .called .settling
  | threw : Walks .called .failed
  | context : Walks .checkContext .finishing
  | contextKept : Walks .checkContext .checkState
  | gone : Walks .checkState .finishing
  | kept : Walks .checkState .next

/-- The points of `schedule_after_run` that wait for the provider. -/
def RunPc.asks : RunPc → Bool
  | .asked | .skipping => true
  | _ => false

/-- The points from which `schedule_one` is called. -/
def RunPc.plans : RunPc → Bool
  | .asked | .missed _ | .skipping => true
  | _ => false

open CalendarFrame in
/-- What a step does to the world, and the frames that matter among those that
replace `f`. -/
inductive CalendarMove (a : CalendarAction ι) (mode : CalendarMode)
    (w : CalendarWorld) : CalendarFrame → CalendarWorld → List CalendarFrame → Prop
  | plain {f : CalendarFrame} (hf : f.plain) : CalendarMove a mode w f w []
  | added (id : Nat) :
      CalendarMove a mode w (.addReturn id) (w.note (.addReturned id)) []
  /- The program calls. -/
  | produced {code : CalendarCode} {act : TaskAction Unit}
      {tasks : TaskSystem Unit} (ha : ∃ t, a = .call t (.manager act))
      (hact : act.produces) (h : w.tasks.step act = some tasks) :
      CalendarMove a mode w (.user code) { w with tasks := tasks } []
  | nothingBegan {code : CalendarCode} {now : Int} {tasks : TaskSystem Unit}
      (h : w.tasks.step (.processBegin now 0) = some tasks) :
      CalendarMove a mode w (.user code) { w with tasks := tasks } []
  | began {code : CalendarCode} {now : Int} {maxTasks : Nat}
      {tasks : TaskSystem Unit}
      (h : w.tasks.step (.processBegin now maxTasks) = some tasks)
      (hmax : maxTasks ≠ 0) :
      CalendarMove a mode w (.user code) { w with tasks := tasks } [.process]
  | addCalled {code : CalendarCode} (options : CalendarTaskOptions) :
      CalendarMove a mode w (.user code) w [.addRule options]
  | cancelCalled {code : CalendarCode} (r : Nat) :
      CalendarMove a mode w (.user code) w [.cancelRule r true]
  | cancelAllCalled {code : CalendarCode} (close : Bool) :
      CalendarMove a mode w (.user code) w [.cancelAll close w.registered]
  | cancelTaskCalled {code : CalendarCode} (i : Nat)
      (ha : ∃ t, a = .call t (.cancelTask i)) :
      CalendarMove a mode w (.user code) w [.cancelTask i true]
  /- `TaskManager::cancel`. -/
  | loaded {i : Nat} {called : Bool} {tasks : TaskSystem Unit}
      (h : w.tasks.step (.cancelLoad i) = some tasks)
      (hheld : tasks.cancelling.isSome) :
      CalendarMove a mode w (.cancelTask i called) { w with tasks := tasks }
        [.exchanging]
  | unloaded {i : Nat} {called : Bool} {tasks : TaskSystem Unit}
      (h : w.tasks.step (.cancelLoad i) = some tasks)
      (hfree : tasks.cancelling = none) :
      CalendarMove a mode w (.cancelTask i called) { w with tasks := tasks } []
  | exchanged {tasks : TaskSystem Unit}
      (h : w.tasks.step .cancelExchange = some tasks) :
      CalendarMove a mode w .exchanging { w with tasks := tasks } []
  /- `TaskManager::process`. -/
  | processed {act : TaskAction Unit} {tasks : TaskSystem Unit}
      (hact : act = .processEnd ∨ act = .exceptionEscaped)
      (h : w.tasks.step act = some tasks) :
      CalendarMove a mode w .process { w with tasks := tasks } []
  | started {entry : Entry Unit} {unrun : List (Entry Unit)}
      {tasks : TaskSystem Unit} (hphase : w.tasks.phase = .scanning (entry :: unrun))
      (h : w.tasks.step .processStart = some tasks)
      (hwon : tasks.phase.current.isSome) :
      CalendarMove a mode w .process { w with tasks := tasks }
        [.starting entry.id ((w.job entry.id).map Occurrence.rule), .process]
  | passed {tasks : TaskSystem Unit}
      (h : w.tasks.step .processStart = some tasks)
      (hlost : tasks.phase.current.isNone) :
      CalendarMove a mode w .process { w with tasks := tasks } [.process]
  | returned {tasks : TaskSystem Unit} (hmode : mode ≠ .throwing) (now now' : Int)
      (h : w.tasks.step (.callbackReturned now now') = some tasks) :
      CalendarMove a mode w .process { w with tasks := tasks } [.process]
  | threw {act : TaskAction Unit} {tasks : TaskSystem Unit}
      (hact : act = .callbackThrew ∨ act = .exceptionHandled)
      (h : w.tasks.step act = some tasks) :
      CalendarMove a mode w .process { w with tasks := tasks } [.process]
  | settled {i r : Nat} {tasks : TaskSystem Unit}
      (h : w.tasks.step .processSettle = some tasks) :
      CalendarMove a mode w (.starting i (some r)) { w with tasks := tasks }
        [.runDue r i]
  | otherSettled {i : Nat} {tasks : TaskSystem Unit}
      (h : w.tasks.step .processSettle = some tasks) :
      CalendarMove a mode w (.starting i none) { w with tasks := tasks } []
  /- `add_rule`. -/
  | refused (options : CalendarTaskOptions) :
      CalendarMove a mode w (.addRule options) (w.note (.addReturned 0)) []
  | registered (options : CalendarTaskOptions) (hopen : w.closed = false) :
      CalendarMove a mode w (.addRule options) (w.register options)
        [.adding w.nextId .created]
  | announced {r : Nat} (info : CalendarObserverInfo)
      (hinfo : info.event = .created) (observed : Int) :
      CalendarMove a mode w (.adding r .created) (w.emit r none info)
        [.adding r (.firstDue observed)]
  | askedFirst {r : Nat} {pc pc' : AddPc} (hpc : pc ≠ .created)
      (hpc' : pc' ≠ .created) (hmay : pc'.mayMiss → pc.mayMiss)
      (after observed : Int) :
      CalendarMove a mode w (.adding r pc) (w.note (.asked r none after observed))
        [.adding r pc']
  | missedFirst {r : Nat} {pc pc' : AddPc} (hpc : pc ≠ .created)
      (hpc' : pc' ≠ .created) (hmay : pc.mayMiss) (hmissed : pc'.mayMiss = false)
      (info : CalendarObserverInfo)
      (hinfo : info.event = .missed) :
      CalendarMove a mode w (.adding r pc) (w.emit r none info) [.adding r pc']
  | abandoned {r : Nat} {pc : AddPc} (hpc : pc ≠ .created) :
      CalendarMove a mode w (.adding r pc) w [.cancelRule r false]
  | plannedFirst {r : Nat} {pc : AddPc} (hpc : pc ≠ .created)
      (planned observed : Int) (immediate : Bool) :
      CalendarMove a mode w (.adding r pc) w
        [.scheduleOne r planned observed immediate .addRule]
  /- `schedule_one`. -/
  | unposted {r : Nat} {planned observed : Int} {immediate : Bool}
      {tasks : TaskSystem Unit} (now due : Int) (options : TaskOptions)
      (h : w.tasks.step (.postAt now due (some ()) options) = some tasks) :
      CalendarMove a mode w (.scheduleOne r planned observed immediate .addRule)
        { w with tasks := tasks } [.cancelRule r false]
  | unpostedAfterRun {r : Nat} {planned observed : Int} {immediate : Bool}
      {tasks : TaskSystem Unit} (now due : Int) (options : TaskOptions)
      (h : w.tasks.step (.postAt now due (some ()) options) = some tasks)
      (hid : (w.tasks.mgr.postAt now due (some ()) options).2 = 0) :
      CalendarMove a mode w
        (.scheduleOne r planned observed immediate .scheduleAfterRun)
        { w with tasks := tasks } [.markCompleted r]
  | posted {r : Nat} {planned observed : Int} {immediate : Bool}
      {caller : SchedulePc} {tasks : TaskSystem Unit} (now due : Int)
      (options : TaskOptions) {i : Nat}
      (h : w.tasks.step (.postAt now due (some ()) options) = some tasks)
      (hid : (w.tasks.mgr.postAt now due (some ()) options).2 = i) (hi : i ≠ 0) :
      CalendarMove a mode w (.scheduleOne r planned observed immediate caller)
        (CalendarWorld.occupy { w with tasks := tasks } r planned
          (scheduleDelay planned observed immediate) i)
        [.publish r planned observed i caller]
  | unpublished {r : Nat} {planned observed : Int} {i : Nat} (hgone : w.gone r) :
      CalendarMove a mode w (.publish r planned observed i .addRule) w
        [.cancelTask i false, .cancelRule r false]
  | unpublishedAfterRun {r : Nat} {planned observed : Int} {i : Nat}
      (hgone : w.gone r) :
      CalendarMove a mode w (.publish r planned observed i .scheduleAfterRun) w
        [.cancelTask i false, .markCompleted r]
  | published {r : Nat} {planned observed : Int} {i : Nat}
      {caller : SchedulePc} (hkept : w.gone r = false)
      (info : CalendarObserverInfo) (hinfo : info.event = .scheduled) :
      CalendarMove a mode w (.publish r planned observed i caller)
        ((w.publish r planned i).emit r none info) []
  /- `run_due`. -/
  | dropped {r i : Nat} (hgone : w.gone r) : CalendarMove a mode w (.runDue r i) w []
  | consumed {r i : Nat} (hkept : w.gone r = false) :
      CalendarMove a mode w (.runDue r i) (w.consume r i)
        [.running
          { rule := r, task := i, planned := (w.states r).plannedUtcMs,
            taskId := (w.states r).scheduledTaskId,
            runCount := (w.states r).runCount } .due]
  | emitted {run : Run} {pc pc' : RunPc} {event : CalendarObserverEvent}
      (hpc : pc.emits = some (event, pc')) (observed : Int) :
      CalendarMove a mode w (.running run pc)
        (w.emit run.rule (some run.task)
          (Run.info { run with observed := observed } event))
        [.running { run with observed := observed } pc']
  | entered (run : Run) :
      CalendarMove a mode w (.running run .calling)
        (w.note (.callbackStarted run.rule)) [.running run .called]
  | walked (run : Run) {pc pc' : RunPc}
      (hkept : pc' = .next → w.gone run.rule = false) (hpc : pc.Walks pc') :
      CalendarMove a mode w (.running run pc) w [.running run pc']
  | stopped (run : Run) (observed : Int) :
      CalendarMove a mode w (.running run .settling)
        (w.setState run.rule { w.states run.rule with cancelled := true })
        [.running { run with observed := observed } .after]
  | counted (run : Run) (observed : Int) (hkept : w.gone run.rule = false) :
      CalendarMove a mode w (.running run .settling)
        (w.setState run.rule { w.states run.rule with
          runCount := (w.states run.rule).runCount + 1 })
        [.running { run with
          observed := observed
          runCount := (w.states run.rule).runCount + 1 } .after]
  | rethrown (run : Run) :
      CalendarMove a mode w (.running run .rethrowing) (w.markCompleted run.rule) []
  | finished (run : Run) :
      CalendarMove a mode w (.running run .finishing) (w.markCompleted run.rule)
        [.running run .cancelled]
  | lastEmitted (run : Run) :
      CalendarMove a mode w (.running run .cancelled)
        (w.emit run.rule (some run.task) (run.info .cancelled)) []
  /- `schedule_after_run`. -/
  | askedNext (run : Run) :
      CalendarMove a mode w (.running run .next)
        (w.note (.asked run.rule (some run.task) run.planned run.observed))
        [.running run .asked]
  | askedAgain (run : Run) (next : Int) :
      CalendarMove a mode w (.running run (.missed next))
        (w.note (.asked run.rule none run.observed run.observed))
        [.running run .skipping]
  | missedNext (run : Run) (next : Int) (info : CalendarObserverInfo)
      (hinfo : info.event = .missed) :
      CalendarMove a mode w (.running run .asked) (w.emit run.rule none info)
        [.running run (.missed next)]
  | exhausted (run : Run) {pc : RunPc} (hpc : pc.asks) :
      CalendarMove a mode w (.running run pc) w [.markCompleted run.rule]
  | plannedNext (run : Run) {pc : RunPc} (hpc : pc.plans)
      (planned observed : Int) (immediate : Bool) :
      CalendarMove a mode w (.running run pc) w
        [.scheduleOne run.rule planned observed immediate .scheduleAfterRun]
  | escaped (run : Run) {pc : RunPc} (hmode : mode = .throwing) (hpc : pc.asks) :
      CalendarMove a mode w (.running run pc) w []
  | completed (r : Nat) :
      CalendarMove a mode w (.markCompleted r) (w.markCompleted r) []
  /- `cancel_on_core`. -/
  | cancelRefused {r : Nat}
      (hno : r ∉ w.registered ∨ (w.states r).cancelled) :
      CalendarMove a mode w (.cancelRule r true)
        (w.note (.cancelReturned r false)) []
  | cancelIgnored {r : Nat}
      (hno : r ∉ w.registered ∨ (w.states r).cancelled) :
      CalendarMove a mode w (.cancelRule r false) w []
  | cancelTaken {r : Nat} {called : Bool} (hr : r ∈ w.registered)
      (hkept : (w.states r).cancelled = false)
      (hqueued : (w.states r).scheduledTaskId ≠ 0) :
      CalendarMove a mode w (.cancelRule r called) (w.markCompleted r)
        [.cancelTask (w.states r).scheduledTaskId false,
          .cancellingRule r (w.states r).plannedUtcMs
            (w.states r).scheduledTaskId (w.states r).runCount called]
  | cancelTakenAlone {r : Nat} {called : Bool} (hr : r ∈ w.registered)
      (hkept : (w.states r).cancelled = false)
      (hqueued : (w.states r).scheduledTaskId = 0) :
      CalendarMove a mode w (.cancelRule r called) (w.markCompleted r)
        [.cancellingRule r (w.states r).plannedUtcMs
          (w.states r).scheduledTaskId (w.states r).runCount called]
  | cancelEmitted {r : Nat} {planned : Int} {taskId runCount : Nat}
      {called : Bool} (info : CalendarObserverInfo)
      (hinfo : info.event = .cancelled) :
      CalendarMove a mode w (.cancellingRule r planned taskId runCount called)
        (w.emit r none info) [.cancelledRule r called]
  | cancelReturned {r : Nat} :
      CalendarMove a mode w (.cancelledRule r true)
        (w.note (.cancelReturned r true)) []
  | cancelDone {r : Nat} : CalendarMove a mode w (.cancelledRule r false) w []
  /- `cancel_all_on_core`. -/
  | noneFound {close : Bool} {found : Finset Nat} (hnone : w.registered = ∅) :
      CalendarMove a mode w (.cancelAll close found)
        (w.note (.cancelAllReturned found)) []
  | allTaken {close : Bool} {found : Finset Nat} :
      CalendarMove a mode w (.cancelAll close found) (w.takeAll close)
        [.cancellingAll w.registered (found ∪ w.registered)]
  | allReturned {rules : Finset Nat} :
      CalendarMove a mode w (.cancellingAll ∅ rules)
        (w.note (.cancelAllReturned rules)) []
  | onePicked {rest rules : Finset Nat} {r : Nat} (hr : r ∈ rest)
      (hqueued : (w.states r).scheduledTaskId ≠ 0) :
      CalendarMove a mode w (.cancellingAll rest rules) w
        [.cancelTask (w.states r).scheduledTaskId false, .cancellingOne r,
          .cancellingAll (rest.erase r) rules]
  | onePickedAlone {rest rules : Finset Nat} {r : Nat} (hr : r ∈ rest)
      (hqueued : (w.states r).scheduledTaskId = 0) :
      CalendarMove a mode w (.cancellingAll rest rules) w
        [.cancellingOne r, .cancellingAll (rest.erase r) rules]
  | oneEmitted {r : Nat} (info : CalendarObserverInfo)
      (hinfo : info.event = .cancelled) :
      CalendarMove a mode w (.cancellingOne r) (w.emit r none info) []

/-! ## Every step is such a move -/

open CalendarFrame

variable {a : CalendarAction ι} {mode : CalendarMode} {w w' : CalendarWorld}
  {o : CalendarOutcome} {result : Option Int}

theorem CalendarWorld.manage_eq_some {act : TaskAction Unit} :
    w.manage act = some w' ↔
      ∃ tasks, w.tasks.step act = some tasks ∧ { w with tasks := tasks } = w' :=
  Option.map_eq_some_iff

/-- A step of the manager on behalf of a frame. -/
theorem CalendarWorld.map_manage_eq_some {act : TaskAction Unit}
    {k : CalendarWorld → CalendarOutcome}
    (h : (w.manage act).map k = some o) :
    ∃ tasks, w.tasks.step act = some tasks ∧ o = k { w with tasks := tasks } := by
  obtain ⟨w', hw', rfl⟩ := Option.map_eq_some_iff.mp h
  obtain ⟨tasks, htasks, rfl⟩ := CalendarWorld.manage_eq_some.mp hw'
  exact ⟨tasks, htasks, rfl⟩

theorem advanceAdd_move {r : Nat} {pc : AddPc} :
    CalendarMove a mode w (.adding r pc) (advanceAdd w result r pc).world
      (core (advanceAdd w result r pc).frames) := by
  cases pc with
  | created =>
      rw [advanceAdd, CalendarWorld.emitThen, core_append, core_emitFrames]
      exact .announced _ rfl _
  | firstDue observed =>
      cases hlast : (w.states r).options.lastDueUtcMs with
      | none =>
          simp only [advanceAdd, hlast]
          exact .askedFirst (by simp) (by simp) (by simp [AddPc.mayMiss]) _ _
      | some last =>
          simp only [advanceAdd, hlast]
          exact .askedFirst (by simp) (by simp) (by simp [AddPc.mayMiss]) _ _
  | missing observed =>
      cases result with
      | none => exact .abandoned (by simp)
      | some missed =>
          simp only [advanceAdd]
          split
          · rw [CalendarWorld.emitThen, core_append, core_emitFrames]
            exact .missedFirst (by simp) (by simp) rfl rfl _ rfl
          · exact .plannedFirst (by simp) _ _ _
  | missed observed planned =>
      simp only [advanceAdd]
      split
      · exact .plannedFirst (by simp) _ _ _
      · exact .askedFirst (by simp) (by simp) (by simp [AddPc.mayMiss]) _ _
  | planning observed =>
      cases result with
      | none => exact .abandoned (by simp)
      | some planned => exact .plannedFirst (by simp) _ _ _

theorem advanceRun_move {run : Run} {pc : RunPc}
    (h : advanceRun w result run pc = some o) :
    CalendarMove a mode w (.running run pc) o.world (core o.frames) := by
  cases pc with
  | due | before | failed | after =>
      cases h
      rw [CalendarWorld.emitThen, core_append, core_emitFrames]
      exact .emitted rfl _
  | calling =>
      cases h
      exact .entered run
  | called =>
      cases h
      rw [core_append, core_nowFrames]
      exact .walked run nofun .returned
  | rethrowing =>
      cases h
      exact .rethrown run
  | settling =>
      simp only [advanceRun] at h
      split at h
      · cases h
        exact .stopped run _
      · next hkept =>
          split at h
          · cases h
          · split at h
            · cases h
              exact .stopped run _
            · cases h
              exact .counted run _ (Bool.eq_false_iff.mpr hkept)
  | checkContext =>
      simp only [advanceRun] at h
      split at h
      · cases h
      · split at h
        · cases h
          exact .walked run nofun .context
        · cases h
          exact .walked run nofun .contextKept
  | checkState =>
      simp only [advanceRun] at h
      split at h
      · cases h
        exact .walked run nofun .gone
      · next hkept =>
          cases h
          exact .walked run (fun _ => Bool.eq_false_iff.mpr hkept) .kept
  | finishing =>
      cases h
      exact .finished run
  | cancelled =>
      cases h
      rw [CalendarWorld.emitThen, core_append, core_emitFrames]
      exact .lastEmitted run
  | next =>
      cases h
      exact .askedNext run
  | asked =>
      cases result with
      | none =>
          cases h
          exact .exhausted run rfl
      | some next =>
          simp only [advanceRun] at h
          split at h
          · cases h
            rw [CalendarWorld.emitThen, core_append, core_emitFrames]
            exact .missedNext run next _ rfl
          · cases h
            exact .plannedNext run rfl _ _ _
  | missed next =>
      simp only [advanceRun] at h
      split at h
      · cases h
        exact .plannedNext run rfl _ _ _
      · cases h
        exact .askedAgain run next
  | skipping =>
      cases result with
      | none =>
          cases h
          exact .exhausted run rfl
      | some next =>
          cases h
          exact .plannedNext run rfl _ _ _

theorem advanceProcess_move {reading : Reading} (hmode : mode ≠ .throwing)
    (h : advanceProcess w reading = some o) :
    CalendarMove a mode w .process o.world (core o.frames) := by
  unfold advanceProcess at h
  split at h
  · obtain ⟨tasks, htasks, rfl⟩ := CalendarWorld.map_manage_eq_some h
    exact .processed (.inl rfl) htasks
  · next entry unrun hphase =>
      obtain ⟨tasks, htasks, rfl⟩ := CalendarWorld.map_manage_eq_some h
      dsimp only
      split
      · next hwon => exact .started hphase htasks hwon
      · next hlost => exact .passed htasks (by simpa using hlost)
  · obtain ⟨tasks, htasks, rfl⟩ := CalendarWorld.map_manage_eq_some h
    exact .returned hmode _ _ htasks
  · obtain ⟨tasks, htasks, rfl⟩ := CalendarWorld.map_manage_eq_some h
    exact .threw (.inr rfl) htasks
  · cases h
  · cases h

theorem CalendarFrame.advance_move {f : CalendarFrame} {reading : Reading}
    (hmode : mode = .running result)
    (h : f.advance w result reading = some o) :
    CalendarMove a mode w f o.world (core o.frames) := by
  cases f with
  | user code => cases h
  | process => exact advanceProcess_move (by rw [hmode]; nofun) h
  | starting i rule =>
      obtain ⟨tasks, htasks, rfl⟩ := CalendarWorld.map_manage_eq_some h
      cases rule with
      | none => exact .otherSettled htasks
      | some r => exact .settled htasks
  | addRule options =>
      simp only [CalendarFrame.advance] at h
      split at h
      · cases h
        exact .refused options
      · next hopen =>
          cases h
          rw [core_append, core_nowFrames]
          exact .registered options (by simp_all)
  | adding r pc =>
      cases h
      exact advanceAdd_move
  | addReturn id =>
      cases h
      exact .added id
  | scheduleOne r planned observed immediate caller =>
      obtain ⟨tasks, htasks, rfl⟩ := CalendarWorld.map_manage_eq_some h
      dsimp only
      split
      · next hid =>
          cases caller with
          | addRule => exact .unposted _ _ _ htasks
          | scheduleAfterRun => exact .unpostedAfterRun _ _ _ htasks hid
      · next hid => exact .posted _ _ _ htasks rfl hid
  | publish r planned observed i caller =>
      simp only [CalendarFrame.advance] at h
      split at h
      · next hgone =>
          cases h
          cases caller with
          | addRule => exact .unpublished hgone
          | scheduleAfterRun => exact .unpublishedAfterRun hgone
      · next hkept =>
          cases h
          rw [CalendarWorld.emitThen, core_append, core_emitFrames,
            core_succeeded]
          exact .published (Bool.eq_false_iff.mpr hkept) _ rfl
  | runDue r i =>
      simp only [CalendarFrame.advance] at h
      split at h
      · next hgone =>
          cases h
          exact .dropped hgone
      · next hkept =>
          cases h
          rw [core_append, core_nowFrames]
          exact .consumed (Bool.eq_false_iff.mpr hkept)
  | running run pc => exact advanceRun_move h
  | markCompleted r =>
      cases h
      exact .completed r
  | nowProvided | readClock | emitting =>
      cases h
      exact .plain rfl
  | cancelTask i called =>
      obtain ⟨tasks, htasks, rfl⟩ := CalendarWorld.map_manage_eq_some h
      dsimp only
      split
      · next hheld => exact .loaded htasks hheld
      · next hfree => exact .unloaded htasks (by simpa using hfree)
  | exchanging =>
      obtain ⟨tasks, htasks, rfl⟩ := CalendarWorld.map_manage_eq_some h
      exact .exchanged htasks
  | cancelRule r called =>
      simp only [CalendarFrame.advance] at h
      split at h
      · next hno =>
          cases h
          cases called with
          | true => exact .cancelRefused hno
          | false => exact .cancelIgnored hno
      · next hyes =>
          cases h
          obtain ⟨hr, hkept⟩ := not_or.mp hyes
          rw [core_append, core_append, core_nowFrames, core_cancelFrames,
            List.append_nil, CalendarWorld.cancelFrames]
          dsimp only
          split
          · next hqueued =>
              exact .cancelTaken (not_not.mp hr) (Bool.eq_false_iff.mpr hkept)
                hqueued
          · next hqueued =>
              exact .cancelTakenAlone (not_not.mp hr)
                (Bool.eq_false_iff.mpr hkept) (not_not.mp hqueued)
  | cancellingRule r planned taskId runCount called =>
      cases h
      rw [CalendarWorld.emitThen, core_append, core_emitFrames]
      exact .cancelEmitted _ rfl
  | cancelledRule r called =>
      cases h
      cases called with
      | true => exact .cancelReturned
      | false => exact .cancelDone
  | cancelAll close found =>
      simp only [CalendarFrame.advance] at h
      split at h
      · next hnone =>
          cases h
          exact .noneFound hnone.2.2
      · cases h
        exact .allTaken
  | cancellingAll rest rules =>
      simp only [CalendarFrame.advance] at h
      split at h
      · next hrest =>
          cases h
          subst hrest
          exact .allReturned
      · split at h
        · next hr =>
            cases h
            rw [core_append, core_append, core_nowFrames, core_cancelFrames,
              List.append_nil, CalendarWorld.cancelFrames]
            dsimp only
            split
            · next hqueued => exact .onePicked hr hqueued
            · next hqueued => exact .onePickedAlone hr (not_not.mp hqueued)
        · cases h
  | cancellingOne r =>
      cases h
      rw [CalendarWorld.emitThen, core_append, core_emitFrames]
      exact .oneEmitted _ rfl

theorem CalendarFrame.unwind_move {f : CalendarFrame}
    (hmode : mode = .throwing)
    (h : f.unwind w = some o) :
    CalendarMove a mode w f o.world (core o.frames) := by
  unfold CalendarFrame.unwind at h
  split at h
  · cases h
    exact .plain rfl
  · cases h
    exact .plain rfl
  · cases h
    exact .abandoned (by simp)
  · cases h
    exact .abandoned (by simp)
  · cases h
    rw [core_append, core_nowFrames]
    exact .walked _ nofun .threw
  · cases h
    exact .escaped _ hmode rfl
  · cases h
    exact .escaped _ hmode rfl
  · split at h
    · obtain ⟨tasks, htasks, rfl⟩ := CalendarWorld.map_manage_eq_some h
      exact .threw (.inl rfl) htasks
    · obtain ⟨tasks, htasks, rfl⟩ := CalendarWorld.map_manage_eq_some h
      exact .processed (.inr rfl) htasks
    · cases h
  · cases h

theorem CalendarWorld.call_move {code : CalendarCode} {c : CalendarCall}
    {frames : List CalendarFrame} {t : ι} (h : w.call c = some (w', frames)) :
    CalendarMove (.call t c) mode w (.user code) w' (core (frames ++ [.user code])) := by
  cases c with
  | addRule options =>
      cases h
      exact .addCalled options
  | cancel r =>
      cases h
      exact .cancelCalled r
  | cancelAll | destroy =>
      cases h
      exact .cancelAllCalled _
  | process now maxTasks =>
      obtain ⟨w', hw', heq⟩ := Option.map_eq_some_iff.mp h
      obtain ⟨tasks, htasks, rfl⟩ := CalendarWorld.manage_eq_some.mp hw'
      cases heq
      split
      · next hzero =>
          subst hzero
          exact .nothingBegan htasks
      · next hmax => exact .began htasks hmax
  | cancelTask i =>
      cases h
      exact .cancelTaskCalled i ⟨t, rfl⟩
  | manager act =>
      simp only [CalendarWorld.call] at h
      split at h
      · next hact =>
          obtain ⟨w', hw', heq⟩ := Option.map_eq_some_iff.mp h
          obtain ⟨tasks, htasks, rfl⟩ := CalendarWorld.manage_eq_some.mp hw'
          cases heq
          exact .produced ⟨t, rfl⟩ hact htasks
      · cases h

theorem CalendarMoved.move {s : CalendarSystem ι} {t : ι} {f : CalendarFrame}
    (h : CalendarMoved s a t f o) :
    CalendarMove a (s.mode t) s.world f o.world (core o.frames) := by
  cases h with
  | advance reading hmode h => exact CalendarFrame.advance_move hmode h
  | unwind reading hmode h => exact CalendarFrame.unwind_move hmode h
  | call c h => exact CalendarWorld.call_move h
  | ret | throw | «catch» => exact .plain rfl

end EventHub
