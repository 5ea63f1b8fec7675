import EventHub.Calendar.History
import EventHub.Proofs.CalendarCancel
import EventHub.Proofs.CalendarOccurrences
import EventHub.Proofs.TaskHistory

/-!
# Rules only move forward

Where one thread adds rules and processes tasks, a task is published before it
can be started, and so `run_due` takes what its task was queued for. The times
then grow by what each caller of the provider asks for: later than the last due
time, than the occurrence that ran, or than the clock where that is later.
-/

namespace EventHub

open CalendarFrame CalendarSystem Threads

variable {ι : Type}

/-! ## One thread -/

namespace CalendarFrame

/-- A frame of `add_rule` or of `process()`. -/
def works : CalendarFrame → Bool
  | .process | .starting .. | .addRule _ | .adding .. | .scheduleOne ..
  | .publish .. | .runDue .. | .running .. => true
  | _ => false

def unpublished : CalendarFrame → Bool
  | .publish .. => true
  | _ => false

theorem works_of_plain {g : CalendarFrame} (h : g.plain) : g.works = false := by
  cases g <;> first | rfl | cases h

theorem works_of_publishes {g : CalendarFrame} {r i : Nat}
    (h : g.publishes r i) : g.works ∧ g.unpublished := by
  cases g <;> first | exact ⟨rfl, rfl⟩ | cases h

theorem exists_publishes {g : CalendarFrame} (h : g.unpublished) :
    ∃ r i, g.publishes r i := by
  cases g
  case publish r planned observed i caller => exact ⟨r, i, by simp [publishes]⟩
  all_goals cases h

end CalendarFrame

section Move

variable {a : CalendarAction ι} {mode : CalendarMode} {w w' : CalendarWorld}
  {f : CalendarFrame} {fs : List CalendarFrame}

/-- Work is begun by the program. -/
theorem CalendarMove.works (h : CalendarMove a mode w f w' fs) :
    (∀ g ∈ fs, g.works = false) ∨ f.works ∨ ∃ code, f = .user code := by
  cases h
  case began | addCalled => exact .inr (.inr ⟨_, rfl⟩)
  case started | passed | returned | threw | settled | registered | announced |
      askedFirst | missedFirst | plannedFirst | posted | consumed | emitted |
      entered | walked | stopped | counted | finished | askedNext | askedAgain |
      missedNext | plannedNext =>
    exact .inr (.inl rfl)
  case unpublished | unpublishedAfterRun | cancelTaken | onePickedAlone =>
    exact .inl (List.forall_mem_cons.mpr ⟨rfl, List.forall_mem_singleton.mpr rfl⟩)
  case onePicked =>
    exact .inl (List.forall_mem_cons.mpr
      ⟨rfl, List.forall_mem_cons.mpr ⟨rfl, List.forall_mem_singleton.mpr rfl⟩⟩)
  case plain | added | produced | nothingBegan | unloaded | exchanged | processed |
      otherSettled | refused | published | dropped | rethrown | lastEmitted |
      escaped | completed | cancelRefused | cancelIgnored | cancelReturned |
      cancelDone | noneFound | allReturned | oneEmitted =>
    exact .inl (List.forall_mem_nil _)
  all_goals exact .inl (List.forall_mem_singleton.mpr rfl)

end Move

section Moved

variable {s : CalendarSystem ι} {a : CalendarAction ι} {t : ι}
  {f : CalendarFrame} {o : CalendarOutcome}

theorem CalendarMoved.works (h : CalendarMoved s a t f o)
    (hf : f.works = false) (ha : t ∉ a.works) :
    ∀ g ∈ o.frames, g.works = false := by
  intro g hg
  by_cases hp : g.plain
  · exact works_of_plain hp
  · have hg' : g ∈ core o.frames := List.mem_filter.mpr ⟨hg, by simpa using hp⟩
    rcases h.move.works with hnone | hworks | ⟨code, rfl⟩
    · exact hnone g hg'
    · rw [hf] at hworks
      cases hworks
    · cases h with
      | advance reading hmode h | unwind reading hmode h => cases h
      | call c h =>
          cases c with
          | addRule options => exact absurd rfl ha
          | process now maxTasks => exact absurd rfl ha
          | cancel | cancelAll | destroy | cancelTask =>
              cases h
              rcases List.mem_pair.mp hg with rfl | rfl <;> rfl
          | manager act =>
              simp only [CalendarWorld.call] at h
              split at h
              · obtain ⟨w, -, heq⟩ := Option.map_eq_some_iff.mp h
                cases heq
                rw [List.mem_singleton.mp hg]
                rfl
              · cases h
      | ret | throw => cases hg
      | «catch» =>
          rw [List.mem_singleton.mp hg]
          rfl

/-- A frame that has queued a task calls nothing before it publishes it. -/
theorem CalendarMoved.unpublished (h : CalendarMoved s a t f o)
    (hinv : s.world.tasks.Inv) : ∀ g ∈ o.frames.tail, g.unpublished = false := by
  intro g hg
  cases hp : g.unpublished with
  | false => rfl
  | true =>
      obtain ⟨r, i, hpub⟩ := exists_publishes hp
      rcases h.move.jobs hinv with ⟨-, -, hnone⟩ |
        ⟨q, planned, observed, immediate, caller, j, rfl, -, -⟩
      · refine absurd hpub (List.countP_eq_zero.mp (hnone r i) g ?_)
        refine List.mem_filter.mpr ⟨List.mem_of_mem_tail hg, ?_⟩
        cases g <;> first | rfl | cases hp
      · cases h with
        | advance reading hmode h =>
            obtain ⟨tasks, -, rfl⟩ := CalendarWorld.map_manage_eq_some h
            dsimp only at hg
            split at hg
            · cases caller with
              | addRule =>
                  rw [List.mem_singleton.mp hg] at hp
                  cases hp
              | scheduleAfterRun => cases hg
            · cases hg
        | unwind reading hmode h => cases h

end Moved

namespace CalendarSystem

/-- Work is done on thread `t`, and a task that is not published is on top. -/
structure OneThread (s : CalendarSystem ι) (t : ι) : Prop where
  others : ∀ u ≠ t, ∀ f ∈ s.frames u, f.works = false
  top : ∀ f ∈ (s.frames t).tail, f.unpublished = false

variable [DecidableEq ι] {s s' : CalendarSystem ι} {a : CalendarAction ι} {t : ι}

omit [DecidableEq ι] in
theorem OneThread.init : OneThread ({} : CalendarSystem ι) t where
  others u _ f hf := by
    rw [List.mem_singleton.mp hf]
    rfl
  top := by nofun

theorem OneThread.step (h : s.OneThread t) (hs : s.Reachable)
    (hstep : step s a = some s') (ha : ∀ u ∈ a.works, u = t) : s'.OneThread t := by
  obtain ⟨u, f, rest, o, hf, hmoved, rfl⟩ := step_cases hstep
  constructor
  · intro v hv g hg
    change g ∈ replaceTop s.frames u o.frames v at hg
    by_cases hvu : v = u
    · subst hvu
      rw [replaceTop_self, hf, List.tail_cons, List.mem_append] at hg
      rcases hg with hg | hg
      · refine hmoved.works (h.others v hv f (hf ▸ List.mem_cons_self)) ?_ g hg
        exact fun hmem => hv (ha v hmem)
      · exact h.others v hv g (hf ▸ List.mem_cons_of_mem _ hg)
    · rw [replaceTop_of_ne hvu] at hg
      exact h.others v hv g hg
  · intro g hg
    change g ∈ (replaceTop s.frames u o.frames t).tail at hg
    by_cases htu : t = u
    · subst htu
      have htop := h.top
      rw [hf, List.tail_cons] at htop
      rw [replaceTop_self, hf, List.tail_cons] at hg
      cases hfs : o.frames with
      | nil =>
          rw [hfs, List.nil_append] at hg
          exact htop g (List.mem_of_mem_tail hg)
      | cons g' gs =>
          rw [hfs, List.cons_append, List.tail_cons, List.mem_append] at hg
          rcases hg with hg | hg
          · refine hmoved.unpublished hs.tasks.inv g ?_
            rw [hfs]
            exact hg
          · exact htop g hg
    · rw [replaceTop_of_ne htu] at hg
      exact h.top g hg

/-- What is started has been published. -/
theorem OneThread.takesNamed [Fintype ι] (h : s.OneThread t) (hnamed : s.NamedTask) :
    AtTop TakesNamed s a := by
  cases a with
  | advance u reading =>
      intro f hf x hx hkept
      obtain ⟨rest, hrest⟩ := List.head?_eq_some_iff.mp hf
      obtain ⟨r, i⟩ := x
      rw [eq_runDue_of_takes hx] at hrest
      have hut : u = t := by
        by_contra hne
        cases h.others u hne _ (hrest ▸ List.mem_cons_self)
      subst hut
      have hentering : s.Entering r i :=
        hnamed.entering.top hrest r i (by simp [enters])
      rcases hentering.2.2 with hgone | hname | ⟨v, hv⟩
      · rw [hkept] at hgone
        cases hgone
      · exact hname
      · obtain ⟨g, hg, hpub⟩ := List.any_eq_true.mp hv
        obtain ⟨hworks, hun⟩ := works_of_publishes hpub
        have hvu : v = u := by
          by_contra hne
          cases (h.others v hne g hg).symm.trans hworks
        subst hvu
        rw [hrest] at hg
        rcases List.mem_cons.mp hg with rfl | hg
        · cases hun
        · have hfalse := h.top g (by rw [hrest]; exact hg)
          cases hfalse.symm.trans hun
  | call | ret | throw | «catch» => trivial

end CalendarSystem

/-! ## No reschedule -/

/-- A request to run again is made through the context, by the program. -/
theorem CalendarMove.requested {a : CalendarAction ι} {mode : CalendarMode}
    {w w' : CalendarWorld} {f : CalendarFrame} {fs : List CalendarFrame}
    (h : CalendarMove a mode w f w' fs) (hinv : w.tasks.Inv) {i : Nat}
    (hi : i < w.tasks.mgr.nextId) (hst : w'.tasks.mgr.stateOf i = .executing)
    (hreq : (w'.tasks.mgr.control i).rescheduleRequested) :
    (w.tasks.mgr.control i).rescheduleRequested ∧
        (w.tasks.mgr.stateOf i = .executing ∨ w.tasks.waits i) ∨
      i ∈ a.rescheduled := by
  have hother {act : TaskAction Unit} {tasks : TaskSystem Unit}
      (hstep : w.tasks.step act = some tasks)
      (hst : tasks.mgr.stateOf i = .executing)
      (hreq : (tasks.mgr.control i).rescheduleRequested)
      (hact : ∀ due, act ≠ .contextReschedule i due) :
      (w.tasks.mgr.control i).rescheduleRequested ∧
          (w.tasks.mgr.stateOf i = .executing ∨ w.tasks.waits i) ∨
        i ∈ a.rescheduled := by
    rcases (TaskSystem.step_waited hinv hi hstep).requested hst hreq with
      hold | ⟨due, heq⟩
    · exact .inl hold
    · exact absurd heq (hact due)
  cases h
  case produced act tasks ha hact h =>
    rcases (TaskSystem.step_waited hinv hi h).requested hst hreq with
      hold | ⟨due, rfl⟩
    · exact .inl hold
    · obtain ⟨t, rfl⟩ := ha
      exact .inr rfl
  case processed hact h | threw hact h =>
    refine hother h hst hreq fun due heq => ?_
    rcases hact with hact | hact <;> cases hact.symm.trans heq
  case nothingBegan h | began h _ | loaded h _ | unloaded h _ | exchanged h |
      started h _ | passed h _ | returned h | settled h | otherSettled h |
      unposted h | unpostedAfterRun h _ | posted h _ _ =>
    exact hother h hst hreq nofun
  all_goals exact .inl ⟨hreq, .inl hst⟩

namespace CalendarSystem

/-- No occurrence has asked to run again. -/
def NoneRequested (s : CalendarSystem ι) : Prop :=
  ∀ i, ∀ o ∈ s.world.job i, s.world.tasks.mgr.stateOf i = .executing →
    (s.world.tasks.mgr.control i).rescheduleRequested = false

variable [Fintype ι] [DecidableEq ι] {s s' : CalendarSystem ι}
  {a : CalendarAction ι} {t : ι} {f : CalendarFrame} {fs : List CalendarFrame}

theorem NoneRequested.step (h : s.NoneRequested) (hsingle : s.SingleTask)
    (hs : s.Reachable) (hst : Stepped s a t f fs s') (hkeeps : s.KeepsSchedule a) :
    s'.NoneRequested := by
  intro i o ho hexec
  have hold (ho : o ∈ s.world.job i) :
      (s'.world.tasks.mgr.control i).rescheduleRequested = false := by
    refine Bool.eq_false_iff.mpr fun hreq => ?_
    rcases hst.move.requested hs.tasks.inv (hsingle.handedOut i o ho) hexec hreq with
      ⟨hreq', hexec' | hw⟩ | hmem
    · cases (h i o ho hexec').symm.trans hreq'
    · cases ((hs.tasks.logged i).waiting hw).1.symm.trans hreq'
    · cases (hkeeps i hmem).symm.trans ho
  rcases hst.move.jobs hs.tasks.inv with ⟨hjobs, -⟩ |
    ⟨r, planned, observed, immediate, caller, j, rfl, rfl, hj, hnew, tasks, hw⟩
  · exact hold (hjobs ▸ ho)
  · by_cases hij : i = j
    · subst hij
      have hwaits := hnew.waits
      unfold TaskSystem.waits at hwaits
      rw [hexec] at hwaits
      cases hwaits
    · rw [hw] at ho
      exact hold ((Function.update_of_ne hij ..).symm.trans ho)

omit [Fintype ι] [DecidableEq ι] in
theorem NoneRequested.runsOnce (h : s.NoneRequested) : AtTop RunsOnce s a := by
  cases a with
  | advance u reading =>
      intro f hf hproc hmode entry hentry hjob hexec _
      obtain ⟨o, ho⟩ := Option.ne_none_iff_exists'.mp hjob
      exact h entry.id o ho hexec
  | call | ret | throw | «catch» => trivial

end CalendarSystem

/-! ## The trace -/

section Trace

variable {r q : Nat} {planned observed : Int} {trace : List CalendarNotice}

@[simp] theorem dues_nil : dues r [] = [] := rfl

@[simp] theorem dues_scheduled :
    dues r (.scheduled q planned :: trace) = dues r trace :=
  (History.observed_cons ..).trans (List.append_nil _)

@[simp] theorem dues_ended :
    dues r (.ended q observed :: trace) = dues r trace :=
  (History.observed_cons ..).trans (List.append_nil _)

theorem dues_due :
    dues r (.due q planned :: trace) =
      dues r trace ++ if q = r then [planned] else [] :=
  History.observed_cons ..

theorem lastEnd_ended :
    lastEnd r (.ended q observed :: trace) =
      if q = r then some observed else lastEnd r trace := rfl

/-- Nothing has become of the rule yet. -/
def Unnoticed (r : Nat) (trace : List CalendarNotice) : Prop :=
  dues r trace = [] ∧ lastEnd r trace = none

theorem Unnoticed.of_forall (h : ∀ n ∈ trace, n.rule ≠ r) : Unnoticed r trace := by
  induction trace with
  | nil => exact ⟨rfl, rfl⟩
  | cons n trace ih =>
      rw [List.forall_mem_cons] at h
      obtain ⟨hdues, hend⟩ := ih h.2
      cases n with
      | scheduled q planned => exact ⟨by rw [dues_scheduled, hdues], hend⟩
      | due q planned =>
          have hq : q ≠ r := h.1
          exact ⟨by rw [dues_due, hdues, if_neg hq]; rfl, hend⟩
      | ended q observed =>
          have hq : q ≠ r := h.1
          exact ⟨by rw [dues_ended, hdues], by rw [lastEnd_ended, if_neg hq, hend]⟩

/-- The time is later than all that were due. -/
structure Later (w : CalendarWorld) (trace : List CalendarNotice) (r : Nat)
    (x : Int) : Prop where
  last : ∀ last ∈ (w.states r).options.lastDueUtcMs, last < x
  dues : ∀ d ∈ dues r trace, d < x

/-- The time may be the next one. -/
structure Fits (w : CalendarWorld) (trace : List CalendarNotice) (r : Nat)
    (x : Int) : Prop extends Later w trace r x where
  ended : (w.states r).options.overlapPolicy = .skip →
    ∀ observed ∈ lastEnd r trace, observed < x

/-- The time was the last that was due. -/
structure Newest (w : CalendarWorld) (trace : List CalendarNotice) (r : Nat)
    (x : Int) : Prop where
  last : ∀ last ∈ (w.states r).options.lastDueUtcMs, last < x
  dues : ∀ d ∈ dues r trace, d ≤ x

variable {w w' : CalendarWorld} {trace' : List CalendarNotice} {x y : Int}

theorem Newest.later (h : Newest w trace r x) (hxy : x < y) :
    Later w trace r y where
  last last hlast := (h.last last hlast).trans hxy
  dues d hd := (h.dues d hd).trans_lt hxy

theorem Newest.of_due (h : Later w trace r x) :
    Newest w (.due r x :: trace) r x where
  last := h.last
  dues d hd := by
    rw [dues_due, if_pos rfl, List.mem_append, List.mem_singleton] at hd
    rcases hd with hd | rfl
    · exact (h.dues d hd).le
    · exact Int.le_refl _

theorem Newest.of_ended (h : Newest w trace r x) :
    Newest w (.ended q observed :: trace) r x where
  last := h.last
  dues := by rw [dues_ended]; exact h.dues

theorem Unnoticed.fits (h : Unnoticed r trace)
    (hlast : ∀ last ∈ (w.states r).options.lastDueUtcMs, last < x) :
    Fits w trace r x where
  last := hlast
  dues := by rw [h.1]; nofun
  ended _ := by rw [h.2]; nofun

/-- The two states know the same of a rule. -/
structure SameTimes (w w' : CalendarWorld) (trace trace' : List CalendarNotice)
    (r : Nat) : Prop where
  options : (w'.states r).options = (w.states r).options
  dues : dues r trace' = dues r trace
  lastEnd : lastEnd r trace' = lastEnd r trace

theorem Later.congr (h : Later w trace r x) (hsame : SameTimes w w' trace trace' r) :
    Later w' trace' r x where
  last := by rw [hsame.options]; exact h.last
  dues := by rw [hsame.dues]; exact h.dues

theorem Fits.congr (h : Fits w trace r x) (hsame : SameTimes w w' trace trace' r) :
    Fits w' trace' r x where
  toLater := h.toLater.congr hsame
  ended := by rw [hsame.options, hsame.lastEnd]; exact h.ended

theorem Newest.congr (h : Newest w trace r x)
    (hsame : SameTimes w w' trace trace' r) : Newest w' trace' r x where
  last := by rw [hsame.options]; exact h.last
  dues := by rw [hsame.dues]; exact h.dues

theorem Unnoticed.congr (h : Unnoticed r trace)
    (hsame : SameTimes w w' trace trace' r) : Unnoticed r trace' :=
  ⟨hsame.dues.trans h.1, hsame.lastEnd.trans h.2⟩

end Trace

/-! ## What the frames hold -/

def AddPc.Ahead (w : CalendarWorld) (trace : List CalendarNotice) (r : Nat)
    (pc : AddPc) : Prop :=
  Unnoticed r trace ∧
    match pc with
    | .created | .firstDue _ | .missing _ => True
    | .missed observed planned =>
        (∀ last ∈ (w.states r).options.lastDueUtcMs, last < planned) ∧
          planned ≤ observed
    | .planning observed =>
        ∀ last ∈ (w.states r).options.lastDueUtcMs, last < observed

def RunPc.Ahead (w : CalendarWorld) (trace : List CalendarNotice) (run : Run) :
    RunPc → Prop
  | .due => Later w trace run.rule run.planned
  | .before | .calling | .called | .settling | .after =>
      Newest w trace run.rule run.planned
  | .checkContext | .checkState | .next | .asked =>
      Newest w trace run.rule run.planned ∧
        lastEnd run.rule trace = some run.observed
  | .missed upcoming =>
      Newest w trace run.rule run.planned ∧
        lastEnd run.rule trace = some run.observed ∧ run.planned < upcoming ∧
        upcoming ≤ run.observed
  | .skipping =>
      Newest w trace run.rule run.planned ∧
        lastEnd run.rule trace = some run.observed ∧ run.planned < run.observed
  | .failed | .rethrowing | .finishing | .cancelled => True

def CalendarFrame.Ahead (w : CalendarWorld) (trace : List CalendarNotice) :
    CalendarFrame → Prop
  | .adding r pc => pc.Ahead w trace r
  | .scheduleOne r planned .. | .publish r planned .. => Fits w trace r planned
  | .starting i (some r) | .runDue r i =>
      ∃ planned, w.job i = some { rule := r, plannedUtcMs := planned } ∧
        Later w trace r planned
  | .running run pc => pc.Ahead w trace run
  | _ => True

section Frames

variable {r : Nat} {trace trace' : List CalendarNotice} {w w' : CalendarWorld}

theorem AddPc.Ahead.congr {pc : AddPc} (h : pc.Ahead w trace r)
    (hsame : SameTimes w w' trace trace' r) : pc.Ahead w' trace' r := by
  refine ⟨h.1.congr hsame, ?_⟩
  cases pc with
  | created | firstDue | missing => trivial
  | missed observed planned =>
      dsimp only
      rw [hsame.options]
      exact h.2
  | planning observed =>
      dsimp only
      rw [hsame.options]
      exact h.2

theorem RunPc.Ahead.congr {run : Run} {pc : RunPc} (h : pc.Ahead w trace run)
    (hsame : SameTimes w w' trace trace' run.rule) : pc.Ahead w' trace' run := by
  cases pc with
  | due => exact Later.congr h hsame
  | before | calling | called | settling | after => exact Newest.congr h hsame
  | checkContext | checkState | next | asked | missed | skipping =>
      exact ⟨h.1.congr hsame, by rw [hsame.lastEnd]; exact h.2⟩
  | failed | rethrowing | finishing | cancelled => trivial

/-- What a frame holds is about the rules it works for. -/
theorem CalendarFrame.Ahead.congr {g : CalendarFrame} (h : g.Ahead w trace)
    (hsame : ∀ r, g.queues r ∨ g.occupies r → SameTimes w w' trace trace' r)
    (hjob : ∀ i o, o ∈ w.job i → o ∈ w'.job i) : g.Ahead w' trace' := by
  cases g with
  | adding r pc => exact AddPc.Ahead.congr h (hsame r (.inl (decide_eq_true rfl)))
  | scheduleOne r planned observed immediate caller =>
      exact Fits.congr h (hsame r (.inl (decide_eq_true rfl)))
  | publish r planned observed i caller =>
      exact Fits.congr h (hsame r (.inl (decide_eq_true rfl)))
  | starting i rule =>
      cases rule with
      | none => trivial
      | some r =>
          obtain ⟨planned, ho, hlater⟩ := h
          exact ⟨planned, hjob i _ ho,
            hlater.congr (hsame r (.inr (decide_eq_true rfl)))⟩
  | runDue r i =>
      obtain ⟨planned, ho, hlater⟩ := h
      exact ⟨planned, hjob i _ ho,
        hlater.congr (hsame r (.inr (decide_eq_true rfl)))⟩
  | running run pc => exact RunPc.Ahead.congr h (hsame run.rule (.inl (decide_eq_true rfl)))
  | _ => trivial

variable {result : Option Int}

theorem advanceAdd_ahead {pc : AddPc} (h : pc.Ahead w trace r)
    (hlater : ∀ after ∈ (CalendarFrame.adding r pc).after w, ∀ next ∈ result,
      after < next) :
    ∀ g ∈ core (advanceAdd w result r pc).frames, g.Ahead w trace := by
  cases pc with
  | created =>
      rw [advanceAdd, CalendarWorld.emitThen, core_append, core_emitFrames]
      exact List.forall_mem_singleton.mpr ⟨h.1, trivial⟩
  | firstDue observed =>
      cases hlast : (w.states r).options.lastDueUtcMs with
      | none =>
          simp only [advanceAdd, hlast]
          refine List.forall_mem_singleton.mpr ⟨h.1, ?_⟩
          dsimp only
          rw [hlast]
          rintro _ ⟨⟩
      | some last =>
          simp only [advanceAdd, hlast]
          exact List.forall_mem_singleton.mpr ⟨h.1, trivial⟩
  | missing observed =>
      cases result with
      | none => exact List.forall_mem_singleton.mpr trivial
      | some missed =>
          have hlast : ∀ last ∈ (w.states r).options.lastDueUtcMs, last < missed :=
            fun last hlast => hlater last hlast missed rfl
          simp only [advanceAdd]
          split
          · next hle =>
              rw [CalendarWorld.emitThen, core_append, core_emitFrames]
              exact List.forall_mem_singleton.mpr ⟨h.1, hlast, hle⟩
          · exact List.forall_mem_singleton.mpr (h.1.fits hlast)
  | missed observed planned =>
      obtain ⟨hnone, hlast, hle⟩ := h
      simp only [advanceAdd]
      split
      · exact List.forall_mem_singleton.mpr (hnone.fits hlast)
      · exact List.forall_mem_singleton.mpr
          ⟨hnone, fun last hmem => (hlast last hmem).trans_le hle⟩
  | planning observed =>
      cases result with
      | none => exact List.forall_mem_singleton.mpr trivial
      | some planned =>
          exact List.forall_mem_singleton.mpr (h.1.fits fun last hmem =>
            (h.2 last hmem).trans (hlater observed rfl planned rfl))

/-- What `schedule_after_run` asks for comes after the run. -/
theorem Newest.fits {run : Run} {x : Int}
    (h : Newest w trace run.rule run.planned)
    (hend : lastEnd run.rule trace = some run.observed) (hx : run.planned < x)
    (hskip : (w.states run.rule).options.overlapPolicy = .skip →
      run.observed < x) : Fits w trace run.rule x where
  toLater := h.later hx
  ended hpolicy observed hmem := by
    rw [hend] at hmem
    cases hmem
    exact hskip hpolicy

theorem advanceRun_ahead {run : Run} {pc : RunPc} {o : CalendarOutcome}
    (h : advanceRun w result run pc = some o) (hpc : pc.Ahead w trace run)
    (hlater : ∀ after ∈ (CalendarFrame.running run pc).after w, ∀ next ∈ result,
      after < next) :
    ∀ g ∈ core o.frames,
      g.Ahead w ((CalendarFrame.running run pc).notices w result ++ trace) := by
  cases pc with
  | due =>
      cases h
      rw [CalendarWorld.emitThen, core_append, core_emitFrames]
      exact List.forall_mem_singleton.mpr (Newest.of_due hpc)
  | before =>
      cases h
      rw [CalendarWorld.emitThen, core_append, core_emitFrames]
      exact List.forall_mem_singleton.mpr hpc
  | calling =>
      cases h
      exact List.forall_mem_singleton.mpr hpc
  | called =>
      cases h
      rw [core_append, core_nowFrames]
      exact List.forall_mem_singleton.mpr hpc
  | failed =>
      cases h
      rw [CalendarWorld.emitThen, core_append, core_emitFrames]
      exact List.forall_mem_singleton.mpr trivial
  | rethrowing =>
      cases h
      exact List.forall_mem_nil _
  | settling =>
      simp only [advanceRun] at h
      split at h
      · cases h
        exact List.forall_mem_singleton.mpr hpc
      · split at h
        · cases h
        · split at h <;> cases h <;> exact List.forall_mem_singleton.mpr hpc
  | after =>
      cases h
      rw [CalendarWorld.emitThen, core_append, core_emitFrames]
      exact List.forall_mem_singleton.mpr ⟨Newest.of_ended hpc, if_pos rfl⟩
  | checkContext =>
      simp only [advanceRun] at h
      split at h
      · cases h
      · split at h <;> cases h
        · exact List.forall_mem_singleton.mpr trivial
        · exact List.forall_mem_singleton.mpr hpc
  | checkState =>
      simp only [advanceRun] at h
      split at h <;> cases h
      · exact List.forall_mem_singleton.mpr trivial
      · exact List.forall_mem_singleton.mpr hpc
  | finishing =>
      cases h
      exact List.forall_mem_singleton.mpr trivial
  | cancelled =>
      cases h
      rw [CalendarWorld.emitThen, core_append, core_emitFrames]
      exact List.forall_mem_nil _
  | next =>
      cases h
      exact List.forall_mem_singleton.mpr hpc
  | asked =>
      obtain ⟨hnewest, hend⟩ := hpc
      cases result with
      | none =>
          cases h
          exact List.forall_mem_singleton.mpr trivial
      | some next =>
          have hnext : run.planned < next := hlater _ rfl _ rfl
          simp only [advanceRun] at h
          split at h
          · next hle =>
              cases h
              rw [CalendarWorld.emitThen, core_append, core_emitFrames]
              exact List.forall_mem_singleton.mpr ⟨hnewest, hend, hnext, hle⟩
          · next hgt =>
              cases h
              exact List.forall_mem_singleton.mpr
                (hnewest.fits hend hnext fun _ => Int.not_le.mp hgt)
  | missed next =>
      obtain ⟨hnewest, hend, hnext, hle⟩ := hpc
      simp only [advanceRun] at h
      split at h
      · next hpolicy =>
          cases h
          refine List.forall_mem_singleton.mpr (hnewest.fits hend hnext fun hskip => ?_)
          cases hskip.symm.trans hpolicy
      · cases h
        exact List.forall_mem_singleton.mpr ⟨hnewest, hend, hnext.trans_le hle⟩
  | skipping =>
      obtain ⟨hnewest, hend, hbefore⟩ := hpc
      cases result with
      | none =>
          cases h
          exact List.forall_mem_singleton.mpr trivial
      | some next =>
          have hnext : run.observed < next := hlater _ rfl _ rfl
          cases h
          exact List.forall_mem_singleton.mpr
            (hnewest.fits hend (hbefore.trans hnext) fun _ => hnext)

end Frames

/-! ## A step -/

section Move

variable {a : CalendarAction ι} {mode : CalendarMode} {w w' : CalendarWorld}
  {f : CalendarFrame} {fs : List CalendarFrame}

/-- The options of a rule never change. -/
theorem CalendarMove.options (h : CalendarMove a mode w f w' fs) (q : Nat) :
    (w'.states q).options = (w.states q).options ∨
      q = w.nextId ∧ ∃ options, f = .addRule options := by
  cases h
  case registered options hopen =>
    by_cases hq : q = w.nextId
    · exact .inr ⟨hq, options, rfl⟩
    · exact .inl (by rw [CalendarWorld.register_states_of_ne hq])
  case posted =>
    exact .inl (CalendarWorld.occupy_congr (·.options) (fun _ => rfl) q)
  case published =>
    exact .inl (CalendarWorld.publish_congr (·.options) (fun _ => rfl) q)
  case consumed =>
    exact .inl (CalendarWorld.consume_congr (·.options) (fun _ => rfl) q)
  case stopped | counted =>
    exact .inl (CalendarWorld.setState_congr (·.options) (by rfl) q)
  case rethrown | finished | completed | cancelTaken | cancelTakenAlone =>
    exact .inl (CalendarWorld.markCompleted_congr (·.options) (fun _ => rfl) q)
  case allTaken =>
    exact .inl (CalendarWorld.takeAll_congr (·.options) (fun _ => rfl) q)
  all_goals exact .inl rfl

/-- The frames that are neither those of `add_rule` nor those of `run_due`
after its first section. -/
theorem CalendarMove.ahead (h : CalendarMove a mode w f w' fs)
    {trace trace' : List CalendarNotice} (hf : f.Ahead w trace)
    (hadd : ∀ r pc, f ≠ .adding r pc) (hrun : ∀ run pc, f ≠ .running run pc)
    (hsame : ∀ r < w.nextId, SameTimes w w' trace trace' r)
    (hknown : ∀ r ∈ f.rules, r < w.nextId)
    (hnew : ∀ n ∈ trace', n.rule < w.nextId)
    (hwaiting : ∀ i, ∀ o ∈ w.job i, w.tasks.waits i →
      o.rule < w.nextId ∧ Later w trace o.rule o.plannedUtcMs)
    (htakes : ∀ r i, f = .runDue r i → w.gone r = false → ∀ o ∈ w.job i,
      o.plannedUtcMs = (w.states r).plannedUtcMs) :
    ∀ g ∈ fs, g.Ahead w' trace' := by
  cases h
  case started entry unrun tasks hphase h hwon =>
    refine List.forall_mem_cons.mpr ⟨?_, List.forall_mem_singleton.mpr trivial⟩
    cases hjob : w.job entry.id with
    | none => trivial
    | some o =>
        obtain ⟨-, hw, -⟩ := TaskSystem.step_processStart hphase h hwon
        obtain ⟨hlt, hlater⟩ := hwaiting entry.id o hjob hw
        exact ⟨o.plannedUtcMs, hjob, hlater.congr (hsame o.rule hlt)⟩
  case settled i r tasks h =>
    obtain ⟨planned, ho, hlater⟩ := hf
    have hr := hknown r (by simp [CalendarFrame.rules])
    exact List.forall_mem_singleton.mpr ⟨planned, ho, hlater.congr (hsame r hr)⟩
  case registered options hopen =>
    refine List.forall_mem_singleton.mpr ⟨.of_forall fun n hn => ?_, trivial⟩
    exact Nat.ne_of_lt (hnew n hn)
  case posted r planned observed immediate caller tasks now due options i h hid hi =>
    have hr := hknown r (Finset.mem_singleton_self r)
    exact List.forall_mem_singleton.mpr (Fits.congr hf (hsame r hr))
  case consumed r i hkept =>
    obtain ⟨planned, ho, hlater⟩ := hf
    have hr := hknown r (Finset.mem_singleton_self r)
    have heq := htakes r i rfl hkept _ ho
    dsimp only at heq
    rw [heq] at hlater
    exact List.forall_mem_singleton.mpr (hlater.congr (hsame r hr))
  case announced | askedFirst | missedFirst | abandoned | plannedFirst =>
    exact absurd rfl (hadd _ _)
  case emitted | entered | walked | stopped | counted | rethrown | finished |
      lastEmitted | askedNext | askedAgain | missedNext | exhausted |
      plannedNext | escaped =>
    exact absurd rfl (hrun _ _)
  case unpublished | unpublishedAfterRun | cancelTaken | onePickedAlone =>
    exact List.forall_mem_cons.mpr ⟨trivial, List.forall_mem_singleton.mpr trivial⟩
  case onePicked =>
    exact List.forall_mem_cons.mpr
      ⟨trivial, List.forall_mem_cons.mpr
        ⟨trivial, List.forall_mem_singleton.mpr trivial⟩⟩
  case plain | added | produced | nothingBegan | unloaded | exchanged |
      processed | otherSettled | refused | published | dropped | completed |
      cancelRefused | cancelIgnored | cancelReturned | cancelDone | noneFound |
      allReturned | oneEmitted =>
    exact List.forall_mem_nil _
  all_goals exact List.forall_mem_singleton.mpr trivial

end Move

section Notices

variable {f : CalendarFrame} {w : CalendarWorld} {result : Option Int}
  {trace : List CalendarNotice} {r : Nat}

/-- Only a run has something become of its rule. -/
theorem CalendarFrame.notices_same (h : ∀ run pc, f = .running run pc → run.rule ≠ r) :
    dues r (f.notices w result ++ trace) = dues r trace ∧
      lastEnd r (f.notices w result ++ trace) = lastEnd r trace := by
  cases f with
  | publish q planned observed i caller =>
      simp only [notices]
      split
      · exact ⟨rfl, rfl⟩
      · exact ⟨dues_scheduled, rfl⟩
  | running run pc =>
      have hr := h run pc rfl
      cases pc with
      | due =>
          refine ⟨?_, rfl⟩
          change dues r (.due run.rule run.planned :: trace) = _
          rw [dues_due, if_neg hr, List.append_nil]
      | after | failed => exact ⟨dues_ended, if_neg hr⟩
      | _ => exact ⟨rfl, rfl⟩
  | _ => exact ⟨rfl, rfl⟩

theorem CalendarFrame.notices_rules : ∀ n ∈ f.notices w result, n.rule ∈ f.rules := by
  intro n hn
  cases f with
  | publish q planned observed i caller =>
      simp only [notices] at hn
      split at hn
      · cases hn
      · rw [List.mem_singleton.mp hn]
        exact Finset.mem_singleton_self q
  | running run pc =>
      cases pc with
      | due | after | failed =>
          rw [List.mem_singleton.mp hn]
          exact Finset.mem_singleton_self run.rule
      | _ => cases hn
  | _ => cases hn

theorem MovesForward.congr {options options' : Nat → CalendarTaskOptions}
    (h : MovesForward options trace)
    (heq : ∀ n ∈ trace, options' n.rule = options n.rule) :
    MovesForward options' trace where
  increasing := h.increasing
  afterLast n hn := by
    rw [heq n hn]
    exact h.afterLast n hn
  afterRun := h.afterRun.imp fun n hn earlier hrun r planned hscheduled => by
    have hr := heq n hn
    rw [hscheduled] at hr
    change options' r = options r at hr
    rw [hr]
    exact hrun r planned hscheduled

theorem MovesForward.notices (h : MovesForward (fun r => (w.states r).options) trace)
    (hf : f.Ahead w trace) :
    MovesForward (fun r => (w.states r).options) (f.notices w result ++ trace) := by
  cases f with
  | publish q planned observed i caller =>
      simp only [CalendarFrame.notices]
      split
      · exact h
      · exact
          { increasing := fun r => by
              rw [List.singleton_append, dues_scheduled]
              exact h.increasing r
            afterLast := List.forall_mem_cons.mpr
              ⟨fun last hlast planned hplanned => by
                cases hplanned
                exact hf.last last hlast, h.afterLast⟩
            afterRun := ⟨fun r planned heq hskip observed hend => by
              cases heq
              exact hf.ended hskip observed hend, h.afterRun⟩ }
  | running run pc =>
      cases pc with
      | due =>
          exact
            { increasing := fun r => by
                change (dues r (.due run.rule run.planned :: trace)).Pairwise _
                rw [dues_due]
                split
                · next hr =>
                    subst hr
                    exact List.pairwise_append.mpr
                      ⟨h.increasing _, List.pairwise_singleton .., fun d hd x hx => by
                        rw [List.mem_singleton.mp hx]
                        exact Later.dues hf d hd⟩
                · rw [List.append_nil]
                  exact h.increasing r
              afterLast := List.forall_mem_cons.mpr
                ⟨fun last hlast planned hplanned => by
                  cases hplanned
                  exact Later.last hf last hlast, h.afterLast⟩
              afterRun := ⟨nofun, h.afterRun⟩ }
      | after | failed =>
          exact
            { increasing := fun r => by
                change (dues r (.ended ..  :: trace)).Pairwise _
                rw [dues_ended]
                exact h.increasing r
              afterLast := List.forall_mem_cons.mpr ⟨nofun, h.afterLast⟩
              afterRun := ⟨nofun, h.afterRun⟩ }
      | _ => exact h
  | _ => exact h

end Notices

/-! ## Runs -/

/-- What a step adds to the trace is what the frame says that moves. -/
theorem CalendarMoved.notices {s : CalendarSystem ι} {a : CalendarAction ι}
    {t : ι} {f : CalendarFrame} {rest : List CalendarFrame} {o : CalendarOutcome}
    (h : CalendarMoved s a t f o) (hf : s.frames t = f :: rest) :
    s.notices a = [] ∨
      ∃ result reading, s.mode t = .running result ∧ a = .advance t reading ∧
        f.advance s.world result reading = some o ∧
        s.notices a = f.notices s.world result := by
  cases h with
  | advance reading hmode h =>
      refine .inr ⟨_, reading, hmode, rfl, h, ?_⟩
      simp only [CalendarSystem.notices, hf, hmode]
  | unwind reading hmode h =>
      refine .inl ?_
      simp only [CalendarSystem.notices, hf, hmode]
  | call | ret | throw | «catch» => exact .inl rfl

namespace TracedCalendar

/-- Frames, queued tasks and trace agree on what comes next. -/
structure Forward (s : TracedCalendar ι) : Prop where
  known : ∀ n ∈ s.trace, n.rule < s.calendar.world.nextId
  frames : Forall (CalendarFrame.Ahead s.calendar.world s.trace) s.calendar.frames
  waiting : ∀ i, ∀ o ∈ s.calendar.world.job i, s.calendar.world.tasks.waits i →
    Later s.calendar.world s.trace o.rule o.plannedUtcMs
  moves : MovesForward (fun r => (s.calendar.world.states r).options) s.trace

theorem Forward.init : Forward ({} : TracedCalendar ι) where
  known := by nofun
  frames t f hf := by
    rw [List.mem_singleton.mp hf]
    trivial
  waiting := by nofun
  moves :=
    { increasing := fun _ => .nil
      afterLast := by nofun
      afterRun := trivial }

variable [Fintype ι] [DecidableEq ι] {s s' : TracedCalendar ι}
  {a : CalendarAction ι} {t : ι}

/-- Unwinding leaves nothing that queues an occurrence. -/
theorem unwind_ahead {w w' : CalendarWorld} {trace : List CalendarNotice}
    {f : CalendarFrame} {o : CalendarOutcome}
    (hf : (∃ r pc, f = .adding r pc) ∨ ∃ run pc, f = .running run pc)
    (h : f.unwind w = some o) : ∀ g ∈ core o.frames, g.Ahead w' trace := by
  rcases hf with ⟨r, pc, rfl⟩ | ⟨run, pc, rfl⟩
  · cases pc with
    | missing | planning =>
        cases h
        exact List.forall_mem_singleton.mpr trivial
    | created | firstDue | missed => cases h
  · cases pc with
    | called =>
        cases h
        rw [core_append, core_nowFrames]
        exact List.forall_mem_singleton.mpr trivial
    | asked | skipping =>
        cases h
        exact List.forall_mem_nil _
    | _ => cases h

omit [Fintype ι] in
/-- What the frame that moves leaves. -/
theorem Forward.new_frames (h : s.Forward) (hs : s.calendar.Reachable)
    {f : CalendarFrame} {rest : List CalendarFrame} {o : CalendarOutcome}
    (hf : s.calendar.frames t = f :: rest)
    (hmoved : CalendarMoved s.calendar a t f o)
    (hlater : AtTop ProvidesLater s.calendar a)
    (htakes : ∀ r i, f = .runDue r i → s.calendar.world.gone r = false →
      ∀ o ∈ s.calendar.world.job i,
        o.plannedUtcMs = (s.calendar.world.states r).plannedUtcMs)
    (hsame : ∀ q, q < s.calendar.world.nextId ∨ (∀ options, f ≠ .addRule options) →
      (∀ run pc, f = .running run pc → run.rule ≠ q) →
      SameTimes s.calendar.world o.world s.trace (s.calendar.notices a ++ s.trace) q)
    (hknown : ∀ n ∈ s.calendar.notices a ++ s.trace,
      n.rule < s.calendar.world.nextId)
    (hjob : ∀ i o', o' ∈ s.calendar.world.job i → o' ∈ o.world.job i) :
    ∀ g ∈ core o.frames, g.Ahead o.world (s.calendar.notices a ++ s.trace) := by
  have hahead := h.frames.top hf
  by_cases hplans : (∃ r pc, f = .adding r pc) ∨ ∃ run pc, f = .running run pc
  · cases hmoved with
    | @advance _ _ _ result reading hmode hadv =>
        have hnotices : s.calendar.notices (.advance t reading) =
            f.notices s.calendar.world result := by
          simp only [CalendarSystem.notices, hf, hmode]
        have hnext := hlater f (by rw [hf]; rfl)
        unfold ProvidesLater at hnext
        rw [hmode] at hnext
        rcases hplans with ⟨r, pc, rfl⟩ | ⟨run, pc, rfl⟩
        · cases hadv
          intro g hg
          exact (advanceAdd_ahead hahead hnext g hg).congr
            (fun q _ => hsame q (.inr nofun) nofun) hjob
        · intro g hg
          have hnew := advanceRun_ahead hadv hahead hnext g hg
          rw [← hnotices] at hnew
          refine hnew.congr (fun q _ => ?_) hjob
          have hmove : CalendarMove (.advance t reading) (.running result)
              s.calendar.world (.running run pc) o.world (core o.frames) :=
            CalendarFrame.advance_move rfl hadv
          exact
            { options := (hmove.options q).resolve_right nofun
              dues := rfl
              lastEnd := rfl }
    | unwind reading hmode hunw => exact unwind_ahead hplans hunw
    | call | ret | throw | «catch» => simp at hplans
  · obtain ⟨hadd, hrun⟩ := not_or.mp hplans
    exact hmoved.move.ahead hahead (fun r pc heq => hadd ⟨r, pc, heq⟩)
      (fun run pc heq => hrun ⟨run, pc, heq⟩)
      (fun q hq => hsame q (.inl hq) fun run pc heq => (hrun ⟨run, pc, heq⟩).elim)
      (hs.known.frames.top hf) hknown
      (fun i o' ho' hw => ⟨hs.known.jobs i o' ho', h.waiting i o' ho' hw⟩) htakes

theorem Forward.step (h : s.Forward) (hs : s.calendar.Reachable)
    (hsingle : s.calendar.SingleTask) (hnamed : s.calendar.NamedTask)
    (hstep : TracedCalendar.step s a = some s')
    (hlater : AtTop ProvidesLater s.calendar a)
    (hruns : AtTop RunsOnce s.calendar a)
    (htakes : AtTop TakesNamed s.calendar a) : s'.Forward := by
  obtain ⟨c, hc, rfl⟩ := Option.map_eq_some_iff.mp hstep
  obtain ⟨t, f, rest, o, hf, hmoved, rfl⟩ := step_cases hc
  have hst := stepped_of_moved hf hmoved
  have hahead := h.frames.top hf
  have hrules := hs.known.frames.top hf
  have hknown : ∀ n ∈ s.calendar.notices a ++ s.trace,
      n.rule < s.calendar.world.nextId := by
    refine List.forall_mem_append.mpr ⟨fun n hn => ?_, h.known⟩
    rcases hmoved.notices hf with hnone | ⟨result, -, -, -, -, heq⟩
    · rw [hnone] at hn
      cases hn
    · exact hrules _ (notices_rules n (heq ▸ hn))
  have hsame (q : Nat)
      (hq : q < s.calendar.world.nextId ∨ ∀ options, f ≠ .addRule options)
      (hno : ∀ run pc, f = .running run pc → run.rule ≠ q) :
      SameTimes s.calendar.world o.world s.trace
        (s.calendar.notices a ++ s.trace) q := by
    have hoptions : (o.world.states q).options =
        (s.calendar.world.states q).options := by
      rcases hst.move.options q with heq | ⟨hnew, options, hadd⟩
      · exact heq
      · rcases hq with hlt | hne
        · exact absurd hnew (Nat.ne_of_lt hlt)
        · exact absurd hadd (hne options)
    rcases hmoved.notices hf with hnone | ⟨result, -, -, -, -, heq⟩
    · rw [hnone]
      exact { options := hoptions, dues := rfl, lastEnd := rfl }
    · rw [heq]
      obtain ⟨hdues, hend⟩ := notices_same hno
      exact { options := hoptions, dues := hdues, lastEnd := hend }
  have htakes' (r i : Nat) (hrun : f = .runDue r i)
      (hkept : s.calendar.world.gone r = false) (o' : Occurrence)
      (ho' : o' ∈ s.calendar.world.job i) :
      o'.plannedUtcMs = (s.calendar.world.states r).plannedUtcMs := by
    obtain ⟨-, hjob⟩ := hnamed.takes hst htakes hrun hkept
    rw [show s.calendar.world.job i = some o' from ho', Option.some.injEq] at hjob
    rw [hjob]
  exact
    { known := fun n hn => by
        rcases hst.move.nextId with heq | heq
        · exact (hknown n hn).trans_eq heq.symm
        · exact (hknown n hn).trans_le (heq ▸ Nat.le_succ _)
      frames := by
        refine hst.forall_put (fun u g hg => ?_) (fun g hg => ?_)
          (h.new_frames hs hf hmoved hlater htakes' hsame hknown
            fun i o' => hsingle.job_of hs hst)
        · refine (Stepped.rest h.frames u g hg).congr (fun q hq => ?_)
            fun i o' => hsingle.job_of hs hst
          refine hsame q (.inl ?_) fun run pc hrun hr => ?_
          · exact Stepped.rest hs.known.frames u g hg q
              (hq.elim mem_rules_of_queues mem_rules_of_occupies)
          · -- the rule of a run has no other frame
            subst hrun
            rcases hq with hq | hq
            · cases (hst.alone (hnamed.frames q) (decide_eq_true hr) u g hg).symm.trans hq
            · cases (hst.alone (hsingle.frames q) (decide_eq_true hr) u g hg).symm.trans hq
        · cases g <;> trivial
      waiting := fun i o' ho' hw' => by
        have hold (ho : o' ∈ s.calendar.world.job i) :
            Later o.world (s.calendar.notices a ++ s.trace) o'.rule o'.plannedUtcMs := by
          have hw := hsingle.waits_of hs hst hruns ho hw'
          have hzero := (hsingle.waiting i o' ho hw).1
          refine (h.waiting i o' ho hw).congr
            (hsame _ (.inl (hs.known.jobs i o' ho)) fun run pc hrun hr => ?_)
          have hfree := hst.of_forall (total_eq_zero_iff.mp hzero)
          rw [hrun] at hfree
          exact absurd hr (of_decide_eq_false hfree)
        rcases hst.move.jobs hs.tasks.inv with ⟨hjobs, -⟩ |
          ⟨r, planned, observed, immediate, caller, j, rfl, hfs, hj, hnew, tasks, hw⟩
        · exact hold (hjobs ▸ ho')
        · by_cases hij : i = j
          · subst hij
            change o' ∈ o.world.job i at ho'
            rw [show o.world.job = _ from congrArg CalendarWorld.job hw] at ho'
            cases (Function.update_self ..).symm.trans ho'
            exact (Fits.toLater hahead).congr (hsame r
              (.inl (hrules r (Finset.mem_singleton_self r))) nofun)
          · change o' ∈ o.world.job i at ho'
            rw [show o.world.job = _ from congrArg CalendarWorld.job hw] at ho'
            exact hold ((Function.update_of_ne hij ..).symm.trans ho')
      moves := by
        have hmoves : MovesForward (fun r => (s.calendar.world.states r).options)
            (s.calendar.notices a ++ s.trace) := by
          rcases hmoved.notices hf with hnone | ⟨result, -, -, -, -, heq⟩
          · rw [hnone]
            exact h.moves
          · rw [heq]
            exact h.moves.notices hahead
        refine hmoves.congr fun n hn => ?_
        rcases hst.move.options n.rule with heq | ⟨hnew, -⟩
        · exact heq
        · exact absurd hnew (Nat.ne_of_lt (hknown n hn)) }

/-- All that a run on one thread keeps. -/
structure Inv (s : TracedCalendar ι) (t : ι) : Prop where
  reachable : s.calendar.Reachable
  single : s.calendar.SingleTask
  named : s.calendar.NamedTask
  oneThread : s.calendar.OneThread t
  noneRequested : s.calendar.NoneRequested
  forward : s.Forward

theorem Inv.init : Inv ({} : TracedCalendar ι) t where
  reachable := Lts.Reachable.refl _
  single := .init
  named := .init
  oneThread := .init
  noneRequested := by nofun
  forward := .init

theorem Inv.step (h : s.Inv t) (hstep : TracedCalendar.step s a = some s')
    (hlater : AtTop ProvidesLater s.calendar a)
    (hkeeps : s.calendar.KeepsSchedule a) (hthread : ∀ u ∈ a.works, u = t) :
    s'.Inv t := by
  obtain ⟨c, hc, hs'⟩ := Option.map_eq_some_iff.mp hstep
  obtain ⟨u, f, fs, hst⟩ := step_stepped hc
  have hruns : AtTop RunsOnce s.calendar a := h.noneRequested.runsOnce
  have htakes : AtTop TakesNamed s.calendar a := h.oneThread.takesNamed h.named
  have hcalendar : s'.calendar = c := by rw [← hs']
  exact
    { reachable := by
        rw [hcalendar]
        exact h.reachable.trans_run (Lts.run_one hc)
      single := by
        rw [hcalendar]
        exact h.single.step h.reachable hst hruns
      named := by
        rw [hcalendar]
        exact h.named.step h.single h.reachable hst hruns htakes
      oneThread := by
        rw [hcalendar]
        exact h.oneThread.step h.reachable hc hthread
      noneRequested := by
        rw [hcalendar]
        exact h.noneRequested.step h.single h.reachable hst hkeeps
      forward :=
        h.forward.step h.reachable h.single h.named hstep hlater hruns htakes }

end TracedCalendar

/-! ## What observers see -/

section Log

variable {a : CalendarAction ι} {mode : CalendarMode} {w w' : CalendarWorld}
  {f : CalendarFrame} {fs : List CalendarFrame} {result : Option Int}

theorem CalendarWorld.filterMap_emit {r : Nat} {run : Option Nat}
    {info : CalendarObserverInfo} {n : Option CalendarNotice}
    (hn : CalendarObs.notice (.emitted r run info) = n) :
    ((w.emit r run info).log.filterMap CalendarObs.notice).Sublist
      (n.toList ++ w.log.filterMap CalendarObs.notice) := by
  unfold CalendarWorld.emit
  dsimp only
  split
  · rw [List.filterMap_cons, hn]
    cases n with
    | none => exact List.Sublist.refl _
    | some n => exact List.Sublist.refl _
  · exact List.sublist_append_right ..

/-- No other frame says anything of times. -/
theorem CalendarMove.unnoticed (h : CalendarMove a mode w f w' fs)
    (hf : f.unpublished = false)
    (hf' : ∀ run pc, f = .running run pc → pc ≠ .due ∧ pc ≠ .after ∧ pc ≠ .failed) :
    (w'.log.filterMap CalendarObs.notice).Sublist
      (w.log.filterMap CalendarObs.notice) := by
  have hemit {x : CalendarWorld} {r : Nat} {run : Option Nat}
      {info : CalendarObserverInfo} (hx : x.log = w.log)
      (hn : CalendarObs.notice (.emitted r run info) = none) :
      ((x.emit r run info).log.filterMap CalendarObs.notice).Sublist
        (w.log.filterMap CalendarObs.notice) := by
    rw [← hx]
    exact CalendarWorld.filterMap_emit hn
  cases h
  case announced info hinfo observed =>
    exact hemit rfl (by rw [CalendarObs.notice, hinfo])
  case cancelEmitted info hinfo | oneEmitted info hinfo | missedNext info hinfo |
      missedFirst info hinfo =>
    exact hemit rfl (by rw [CalendarObs.notice, hinfo])
  case lastEmitted => exact hemit rfl rfl
  case published => cases hf
  case emitted run pc pc' event hpc observed =>
    obtain ⟨hdue, hafter, hfailed⟩ := hf' run pc rfl
    cases pc <;> cases hpc
    case before => exact hemit rfl rfl
    case due => exact absurd rfl hdue
    case after => exact absurd rfl hafter
    case failed => exact absurd rfl hfailed
  all_goals exact List.Sublist.refl _

/-- What a frame makes the observer see is in the trace. -/
theorem CalendarFrame.advance_notice {reading : Reading} {o : CalendarOutcome}
    (h : f.advance w result reading = some o) :
    (o.world.log.filterMap CalendarObs.notice).Sublist
      (f.notices w result ++ w.log.filterMap CalendarObs.notice) := by
  have hquiet (hf : f.unpublished = false)
      (hf' : ∀ run pc, f = .running run pc → pc ≠ .due ∧ pc ≠ .after ∧ pc ≠ .failed) :
      (o.world.log.filterMap CalendarObs.notice).Sublist
        (f.notices w result ++ w.log.filterMap CalendarObs.notice) := by
    have hmove : CalendarMove (ι := Unit) (.advance () reading) (.running result) w f
        o.world (core o.frames) := CalendarFrame.advance_move rfl h
    exact (hmove.unnoticed hf hf').trans (List.sublist_append_right ..)
  cases f with
  | publish r planned observed i caller =>
      simp only [CalendarFrame.advance] at h
      simp only [CalendarFrame.notices]
      split at h
      · next hgone =>
          cases h
          rw [if_pos hgone]
          exact List.Sublist.refl _
      · next hkept =>
          cases h
          rw [if_neg hkept]
          exact CalendarWorld.filterMap_emit (n := some _) rfl
  | running run pc =>
      cases pc with
      | due | after | failed =>
          cases h
          exact CalendarWorld.filterMap_emit (n := some _) rfl
      | _ => exact hquiet rfl (by rintro run' pc' heq; cases heq; simp)
  | _ => exact hquiet rfl (by rintro _ _ ⟨⟩)

end Log

namespace TracedCalendar

variable [DecidableEq ι] {s s' : TracedCalendar ι} {a : CalendarAction ι}

/-- The events of the rules with an observer, in this order. -/
def Observed (s : TracedCalendar ι) : Prop :=
  (s.calendar.world.log.filterMap CalendarObs.notice).Sublist s.trace

theorem Observed.step (h : s.Observed) (hstep : step s a = some s') :
    s'.Observed := by
  obtain ⟨c, hc, rfl⟩ := Option.map_eq_some_iff.mp hstep
  obtain ⟨t, f, rest, o, hf, hmoved, rfl⟩ := step_cases hc
  have hquiet (hf : f.unpublished = false)
      (hf' : ∀ run pc, f = .running run pc → pc ≠ .due ∧ pc ≠ .after ∧ pc ≠ .failed) :
      (o.world.log.filterMap CalendarObs.notice).Sublist
        (s.calendar.notices a ++ s.trace) :=
    ((hmoved.move.unnoticed hf hf').trans h).trans (List.sublist_append_right ..)
  cases hmoved with
  | @advance _ _ _ result reading hmode hadv =>
      have hnotices : s.calendar.notices (.advance t reading) =
          f.notices s.calendar.world result := by
        simp only [CalendarSystem.notices, hf, hmode]
      unfold Observed
      dsimp only
      rw [hnotices]
      exact (CalendarFrame.advance_notice hadv).trans (h.append_left _)
  | unwind reading hmode hunw =>
      refine hquiet ?_ fun run pc hrun => ?_
      · cases f <;> first | rfl | cases hunw
      · subst hrun
        cases pc <;> first | exact ⟨by decide, by decide, by decide⟩ | cases hunw
  | call | ret | throw | «catch» => exact hquiet rfl nofun

variable [Fintype ι]

/-- Rules only move forward, where one thread adds rules and processes tasks,
providers return times after their lower bounds and no occurrence is
rescheduled through its context. The trace has the events that observers
see. -/
theorem run_movesForward {as : List (CalendarAction ι)} (t : ι)
    (hrun : Lts.run step {} as = some s)
    (hlater : Lts.RunMeets step (fun s a => AtTop ProvidesLater s.calendar a) {} as)
    (hkeeps : Lts.RunMeets step (fun s a => s.calendar.KeepsSchedule a) {} as)
    (hthread : ∀ a ∈ as, ∀ u ∈ a.works, u = t) :
    MovesForward (fun r => (s.calendar.world.states r).options) s.trace ∧
      s.Observed := by
  have h : s.Inv t ∧ s.Observed :=
    Lts.run_invariant_of_meets (P := fun s => s.Inv t ∧ s.Observed)
      (fun s a s' h hC hstep =>
        ⟨h.1.step hstep hC.1 hC.2.1 hC.2.2, h.2.step hstep⟩)
      ⟨.init, List.Sublist.refl _⟩ (hlater.and (hkeeps.and (.of_mem hthread))) hrun
  exact ⟨h.1.forward.moves, h.2⟩

/-- The rule was due last at 5. Its occurrence for 10 ends at 12, so that the
one for 11 is missed and the next is the one for 20. -/
def skipsMissed : List (CalendarAction Unit) :=
  [.call () (.addRule { lastDueUtcMs := some 5 }), .advance () {},
    .advance () { utc := 7 }] ++ calendarAdvances () 2 ++
  [.ret () (some 10)] ++ calendarAdvances () 4 ++
  [.call () (.process 3000000 1)] ++ calendarAdvances () 3 ++
  [.advance () { utc := 10 }] ++ calendarAdvances () 3 ++
  [.ret () none, .advance () {}, .advance () { utc := 12 }] ++
  calendarAdvances () 5 ++ [.ret () (some 11)] ++ calendarAdvances () 2 ++
  [.ret () (some 20)] ++ calendarAdvances () 3

theorem run_movesForward_skipsMissed : ∃ s : TracedCalendar Unit,
    Lts.run step {} skipsMissed = some s ∧
      s.trace = [.scheduled 1 20, .ended 1 12, .due 1 10, .scheduled 1 10] ∧
      MovesForward (fun r => (s.calendar.world.states r).options) s.trace := by
  obtain ⟨s, hs, htrace⟩ : ∃ s : TracedCalendar Unit,
      Lts.run step {} skipsMissed = some s ∧
        s.trace = [.scheduled 1 20, .ended 1 12, .due 1 10, .scheduled 1 10] :=
    Lts.exists_run_of_decide (by decide)
  exact ⟨s, hs, htrace, (run_movesForward () hs (.of_checks (by decide))
    (.of_checks (by decide)) fun _ _ _ _ => rfl).1⟩

end TracedCalendar

end EventHub
