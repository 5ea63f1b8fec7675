import EventHub.Calendar.Backlog
import EventHub.Proofs.CalendarForward
import EventHub.Proofs.CalendarProvider
import EventHub.Proofs.CalendarPublish

/-!
# What was missed before a rule is created

The account of a rule is what the trace says of it. Its first occurrence is
either the missed one, and nothing has run yet, or later than the creation. The
occurrence after the missed one is later than the creation as well where the
condition on `schedule_after_run` is met, and from then on all are.
-/

namespace EventHub

open CalendarFrame CalendarSystem Threads

variable {ι : Type}

/-! ## What is promised -/

namespace CalendarFrame

/-- The frame works on the first occurrence of rule `r`. -/
def adds (r : Nat) : CalendarFrame → Bool
  | .adding q _ | .scheduleOne q _ _ _ .addRule
  | .publish q _ _ _ .addRule => q = r
  | _ => false

/-- The frame is about to take rule `r` out. -/
def withdraws (r : Nat) : CalendarFrame → Bool
  | .cancelRule q _ => q = r
  | _ => false

/-- The callback of rule `r` is about to be called, planned for this time. -/
def callsFor (r : Nat) (planned : Int) : CalendarFrame → Bool
  | .running run .due | .running run .before | .running run .calling =>
      run.rule = r && run.planned = planned
  | _ => false

end CalendarFrame

namespace CalendarSystem

/-- The task is queued or was withdrawn, or was started and has not found its
rule yet. -/
def Pending (s : CalendarSystem ι) (r i : Nat) : Prop :=
  s.world.tasks.waits i ∨ withdrawn i s.world.tasks.log ∨
    Threads.Exists (enters r i) s.frames

/-- The occurrence of rule `r` planned for this time is on its way, its task due
at once, or the rule is no more. -/
inductive Underway (s : CalendarSystem ι) (r : Nat) (planned : Int) : Prop
  | adding (h : Threads.Exists (adds r) s.frames)
  | pending (i : Nat)
      (hjob : s.world.job i = some { rule := r, plannedUtcMs := planned })
      (hdelay : s.world.delays i = 0) (h : s.Pending r i)
  | calling (h : Threads.Exists (callsFor r planned) s.frames)
  | withdrawn (h : Threads.Exists (withdraws r) s.frames)
  | gone (h : s.world.gone r)

end CalendarSystem

namespace BacklogCalendar

variable {Zone : Type}

/-- What was missed before a rule was created makes it run at most once. -/
structure OneCatchUp (rules : BuiltinRules Zone) (s : BacklogCalendar ι) : Prop where
  skip : ∀ r, (s.calendar.world.states r).options.missedPolicy = .skip →
    catchUps r s.trace = 0
  atMost : ∀ r, catchUps r s.trace ≤ 1
  /-- Nothing was missed. -/
  none : ∀ r, ∀ created ∈ createdAt r s.trace,
    ∀ last ∈ (s.calendar.world.states r).options.lastDueUtcMs,
      (∀ next ∈ rules.next r last, created < next) → catchUps r s.trace = 0
  exact : ∀ r,
    (s.calendar.world.states r).options.missedPolicy = .runOnceImmediately →
    ∀ created ∈ createdAt r s.trace,
      ∀ last ∈ (s.calendar.world.states r).options.lastDueUtcMs,
        ∀ missed ∈ rules.next r last, missed ≤ created →
          catchUps r s.trace = 1 ∨ s.calendar.Underway r missed

end BacklogCalendar

/-! ## The rules -/

section Rules

variable {Zone : Type} {ts : TimeShield Zone} {rules : BuiltinRules Zone} {r : Nat}
  {after next created : Int} {options : CalendarTaskOptions}

theorem scanLocalDays_later {clock : ZonedClock Zone} {maxDays : Nat}
    {dayAllowed : DateTimeStruct → Bool} {secondsForDay : DateTimeStruct → List Int}
    (h : scanLocalDays ts clock after maxDays dayAllowed secondsForDay = some next) :
    after < next := by
  obtain ⟨offset, -, hday⟩ := List.exists_of_findSome?_eq_some h
  dsimp only at hday
  split at hday
  · obtain ⟨second, -, hdue⟩ := List.exists_of_findSome?_eq_some hday
    unfold dueAfter at hdue
    dsimp only at hdue
    split at hdue
    · cases hdue
    · split at hdue
      · next hlater =>
          cases hdue
          exact hlater
      · cases hdue
  · cases hday

theorem BuiltinRules.next_later (h : next ∈ rules.next r after) : after < next := by
  obtain ⟨provider, hprovider, hnext⟩ := Option.bind_eq_some_iff.mp h
  cases hrule : rules.rule r with
  | daily second =>
      rw [hrule, CalendarRule.provider] at hprovider
      split at hprovider
      · cases hprovider
        exact scanLocalDays_later hnext
      · cases hprovider
  | weekly schedule | monthly schedule =>
      rw [hrule, CalendarRule.provider] at hprovider
      dsimp only at hprovider
      split at hprovider
      · cases hprovider
        simp only [makeWeeklyProvider, makeMonthlyProvider] at hnext
        exact scanLocalDays_later hnext
      · cases hprovider

theorem BuiltinRules.backlog_of_last {last : Int}
    (hlast : options.lastDueUtcMs = some last) :
    rules.backlog options r created =
      if options.missedPolicy = .runOnceImmediately then
        (rules.next r last).filter (· ≤ created)
      else none := by
  unfold BuiltinRules.backlog
  rw [hlast]
  cases options.missedPolicy <;> rfl

theorem BuiltinRules.backlog_of_none (hlast : options.lastDueUtcMs = none) :
    rules.backlog options r created = none := by
  unfold BuiltinRules.backlog
  rw [hlast]
  cases options.missedPolicy <;> rfl

theorem BuiltinRules.backlog_eq_some {missed : Int}
    (h : rules.backlog options r created = some missed) :
    options.missedPolicy = .runOnceImmediately ∧ missed ≤ created := by
  cases hlast : options.lastDueUtcMs with
  | none => cases (backlog_of_none hlast).symm.trans h
  | some last =>
      rw [backlog_of_last hlast] at h
      split at h
      · next hpolicy =>
          exact ⟨hpolicy, of_decide_eq_true (Option.filter_eq_some_iff.mp h).2⟩
      · cases h

end Rules

/-! ## Accounts -/

/-- What is known of a rule. -/
structure Account where
  options : CalendarTaskOptions
  heard : Bool
  created : Option Int
  catchUps : Nat

def accountOf (w : CalendarWorld) (trace : List BacklogNotice) (r : Nat) :
    Account where
  options := (w.states r).options
  heard := trace.any (·.rule = r)
  created := createdAt r trace
  catchUps := catchUps r trace

namespace Account

/-- `add_rule` has read the clock. -/
def create (x : Account) (observed : Int) : Account :=
  { x with heard := true, created := some observed, catchUps := 0 }

/-- The callback was called. -/
def run (x : Account) (planned : Int) : Account :=
  { x with
    heard := true
    catchUps := x.catchUps + if x.created.any (planned ≤ ·) then 1 else 0 }

/-- The time is later than the creation. -/
def Later (x : Account) (planned : Int) : Prop :=
  ∀ created ∈ x.created, created < planned

def Opened (x : Account) (observed : Int) : Prop :=
  x.created = some observed ∧ x.catchUps = 0

variable {Zone : Type} (rules : BuiltinRules Zone) (r : Nat)

def missed (x : Account) : Option Int := x.created.bind (rules.backlog x.options r)

/-- The rule has caught up. -/
def Done (x : Account) : Prop :=
  x.catchUps = if (x.missed rules r).isSome then 1 else 0

/-- The next run may be planned for this time. -/
def Fits (x : Account) (planned : Int) : Prop :=
  x.missed rules r = some planned ∧ x.catchUps = 0 ∨
    x.Later planned ∧ x.Done rules r

/-- What was missed is queued without delay. -/
def Prompt (x : Account) (planned delay : Int) : Prop :=
  x.missed rules r = some planned → delay = 0

/-- The condition on the run for the missed occurrence. -/
def Clears (x : Account) (run : Run) : Prop :=
  x.options.missedPolicy = .runOnceImmediately →
  ∀ created ∈ x.created, ∀ next ∈ rules.next run.rule run.planned,
    created < next ∨ x.options.overlapPolicy = .skip ∧ next ≤ run.observed ∧
      ∀ later ∈ rules.next run.rule run.observed, created < later

end Account

section Accounts

variable {Zone : Type} {rules : BuiltinRules Zone} {r : Nat} {w w' : CalendarWorld}
  {trace : List BacklogNotice} {x : Account} {planned next observed delay : Int}

theorem accountOf_cons {n : BacklogNotice} (h : n.rule ≠ r) :
    accountOf w (n :: trace) r = accountOf w trace r := by
  cases n with
  | created q observed =>
      have hq : q ≠ r := h
      simp [accountOf, catchUps, createdAt, BacklogNotice.rule, BacklogNotice.runsBy, hq]
  | ran q planned =>
      have hq : q ≠ r := h
      simp [accountOf, catchUps, createdAt, BacklogNotice.rule, BacklogNotice.runsBy, hq]

/-- Other rules have nothing to do with it. -/
theorem accountOf_append {new : List BacklogNotice} (h : ∀ n ∈ new, n.rule ≠ r) :
    accountOf w (new ++ trace) r = accountOf w trace r := by
  induction new with
  | nil => rfl
  | cons n new ih =>
      rw [List.forall_mem_cons] at h
      exact (accountOf_cons h.1).trans (ih h.2)

theorem accountOf_congr (h : (w'.states r).options = (w.states r).options) :
    accountOf w' trace r = accountOf w trace r := by
  unfold accountOf
  rw [h]

theorem accountOf_unheard (h : ∀ n ∈ trace, n.rule ≠ r) :
    accountOf w trace r = accountOf w [] r := by
  have heq : accountOf w (trace ++ []) r = accountOf w [] r := accountOf_append h
  rwa [List.append_nil] at heq

theorem accountOf_created (h : (accountOf w trace r).heard = false) :
    accountOf w (.created r observed :: trace) r =
      (accountOf w trace r).create observed := by
  have hnone : ∀ n ∈ trace, n.runsBy r observed = false := by
    intro n hn
    have hrule : n.rule ≠ r := by simpa using List.any_eq_false.mp h n hn
    cases n with
    | created => rfl
    | ran q planned => exact Bool.and_eq_false_iff.mpr (.inl (decide_eq_false hrule))
  have hcount : trace.countP (BacklogNotice.runsBy r observed) = 0 :=
    List.countP_eq_zero.mpr fun n hn => by rw [hnone n hn]; decide
  simp [accountOf, Account.create, catchUps, createdAt, BacklogNotice.rule,
    BacklogNotice.runsBy, hcount]

theorem accountOf_ran :
    accountOf w (.ran r planned :: trace) r = (accountOf w trace r).run planned := by
  cases hc : createdAt r trace with
  | none => simp [accountOf, Account.run, catchUps, createdAt, BacklogNotice.rule, hc]
  | some created =>
      simp [accountOf, Account.run, catchUps, createdAt, BacklogNotice.rule,
        BacklogNotice.runsBy, hc, List.countP_cons]

namespace Account

theorem missed_eq_some (h : x.missed rules r = some planned) :
    x.options.missedPolicy = .runOnceImmediately ∧
      ∃ created, x.created = some created ∧ planned ≤ created := by
  obtain ⟨created, hcreated, hmissed⟩ := Option.bind_eq_some_iff.mp h
  obtain ⟨hpolicy, hle⟩ := BuiltinRules.backlog_eq_some hmissed
  exact ⟨hpolicy, created, hcreated, hle⟩

theorem missed_of_opened (h : x.Opened observed) :
    x.missed rules r = rules.backlog x.options r observed := by
  unfold missed
  rw [h.1, Option.bind_some]

theorem Later.trans (h : x.Later planned) (hnext : planned < next) : x.Later next :=
  fun created hcreated => (h created hcreated).trans hnext

theorem Later.prompt (h : x.Later planned) : x.Prompt rules r planned delay := by
  intro hmissed
  obtain ⟨-, created, hcreated, hle⟩ := missed_eq_some hmissed
  exact absurd hle (Int.not_le.mpr (h created hcreated))

theorem Prompt.of_none (hmissed : x.missed rules r = none) :
    x.Prompt rules r planned delay := by
  intro hsome
  cases hmissed.symm.trans hsome

theorem Done.of_none (h : x.catchUps = 0) (hmissed : x.missed rules r = none) :
    x.Done rules r := by
  unfold Done
  rw [h, hmissed]
  rfl

/-- A rule that was added at the time and missed nothing starts later. -/
theorem Opened.fits (h : x.Opened observed) (hmissed : x.missed rules r = none)
    (hlater : observed < planned) : x.Fits rules r planned := by
  refine .inr ⟨fun created hcreated => ?_, .of_none h.2 hmissed⟩
  cases h.1.symm.trans hcreated
  exact hlater

/-- The callback is called where that fits. -/
theorem Fits.run (h : x.Fits rules r planned) :
    (x.run planned).Done rules r ∧
      ((x.run planned).Later planned ∨ (x.run planned).missed rules r = some planned) := by
  rcases h with ⟨hmissed, hzero⟩ | ⟨hlater, hdone⟩
  · obtain ⟨-, created, hcreated, hle⟩ := missed_eq_some hmissed
    refine ⟨?_, .inr hmissed⟩
    change x.catchUps + _ = if (x.missed rules r).isSome then 1 else 0
    rw [hmissed, hzero, hcreated]
    simp [hle]
  · refine ⟨?_, .inl hlater⟩
    have hno : x.created.any (planned ≤ ·) = false := by
      rw [Option.any_eq_false]
      intro created hcreated
      exact decide_eq_false (Int.not_le.mpr (hlater created hcreated))
    change x.catchUps + _ = if (x.missed rules r).isSome then 1 else 0
    rw [hno]
    exact hdone

end Account

end Accounts

/-! ## What the frames hold -/

section Frames

variable {Zone : Type} (rules : BuiltinRules Zone)

def AddPc.Sound (r : Nat) (x : Account) : AddPc → Prop
  | .created => x.heard = false
  | .firstDue observed => x.Opened observed
  | .missing observed => x.Opened observed ∧ x.options.lastDueUtcMs ≠ none
  | .missed observed planned =>
      x.Opened observed ∧ x.missed rules r =
        if x.options.missedPolicy = .runOnceImmediately then some planned else none
  | .planning observed => x.Opened observed ∧ x.missed rules r = none

def SchedulePc.Sound (r : Nat) (x : Account) (planned : Int) : SchedulePc → Prop
  | .addRule => x.Fits rules r planned
  | .scheduleAfterRun => x.Later planned ∧ x.Done rules r

def RunPc.Sound (run : Run) (x : Account) : RunPc → Prop
  | .due | .before | .calling => x.Fits rules run.rule run.planned
  | .called | .settling | .after | .checkContext | .checkState | .next | .asked =>
      x.Done rules run.rule ∧
        (x.Later run.planned ∨ x.missed rules run.rule = some run.planned)
  | .missed upcoming =>
      x.Done rules run.rule ∧ upcoming ≤ run.observed ∧
        (x.Later upcoming ∨ x.options.overlapPolicy = .skip ∧
          ∀ later ∈ rules.next run.rule run.observed, x.Later later)
  | .skipping =>
      x.Done rules run.rule ∧
        ∀ later ∈ rules.next run.rule run.observed, x.Later later
  | .failed | .rethrowing | .finishing => x.Done rules run.rule
  | .cancelled => True

/-- The rule has been taken out. -/
def RunPc.ended : RunPc → Bool
  | .cancelled => true
  | _ => false

def CalendarFrame.Sound (w : CalendarWorld) (trace : List BacklogNotice) :
    CalendarFrame → Prop
  | .adding r pc => pc.Sound rules r (accountOf w trace r)
  | .scheduleOne r planned observed immediate caller =>
      caller.Sound rules r (accountOf w trace r) planned ∧
        (accountOf w trace r).Prompt rules r planned
          (scheduleDelay planned observed immediate)
  | .publish r planned _ i caller =>
      caller.Sound rules r (accountOf w trace r) planned ∧
        w.job i = some { rule := r, plannedUtcMs := planned } ∧
        (accountOf w trace r).Prompt rules r planned (w.delays i)
  | .starting i (some r) | .runDue r i => ∃ o ∈ w.job i, o.rule = r
  | .running run pc => pc.Sound rules run (accountOf w trace run.rule)
  | .markCompleted r => (accountOf w trace r).Done rules r
  | _ => True

/-- The frame will queue an occurrence of rule `r`, or take the rule out. -/
def CalendarFrame.tends (r : Nat) : CalendarFrame → Bool
  | .adding q _ | .scheduleOne q .. | .publish q .. | .markCompleted q => q = r
  | .running run pc => !pc.ended && run.rule = r
  | _ => false

variable {rules} {r : Nat} {w w' : CalendarWorld} {trace trace' : List BacklogNotice}

theorem SchedulePc.Sound.fits {caller : SchedulePc} {x : Account} {planned : Int}
    (h : caller.Sound rules r x planned) : x.Fits rules r planned := by
  cases caller with
  | addRule => exact h
  | scheduleAfterRun => exact .inr h

/-- What a frame holds is about the rule it tends. -/
theorem CalendarFrame.Sound.congr {g : CalendarFrame} (h : g.Sound rules w trace)
    (hsame : ∀ r, g.tends r → accountOf w' trace' r = accountOf w trace r)
    (hjob : ∀ i o, o ∈ w.job i → o ∈ w'.job i ∧ w'.delays i = w.delays i) :
    g.Sound rules w' trace' := by
  cases g with
  | adding r pc =>
      change pc.Sound rules r (accountOf w' trace' r)
      rw [hsame r (decide_eq_true rfl)]
      exact h
  | scheduleOne r planned observed immediate caller =>
      change caller.Sound rules r (accountOf w' trace' r) planned ∧
        (accountOf w' trace' r).Prompt rules r planned
          (scheduleDelay planned observed immediate)
      rw [hsame r (decide_eq_true rfl)]
      exact h
  | publish r planned observed i caller =>
      obtain ⟨hcaller, ho, hprompt⟩ := h
      obtain ⟨ho', hdelay⟩ := hjob i _ ho
      change caller.Sound rules r (accountOf w' trace' r) planned ∧ _ ∧
        (accountOf w' trace' r).Prompt rules r planned (w'.delays i)
      rw [hsame r (decide_eq_true rfl), hdelay]
      exact ⟨hcaller, ho', hprompt⟩
  | running run pc =>
      cases hpc : pc.ended with
      | true => cases pc <;> trivial
      | false =>
          change pc.Sound rules run (accountOf w' trace' run.rule)
          rw [hsame run.rule (by simp [tends, hpc])]
          exact h
  | markCompleted r =>
      change (accountOf w' trace' r).Done rules r
      rw [hsame r (decide_eq_true rfl)]
      exact h
  | starting i rule =>
      cases rule with
      | none => trivial
      | some r =>
          obtain ⟨o, ho, hr⟩ := h
          exact ⟨o, (hjob i o ho).1, hr⟩
  | runDue r i =>
      obtain ⟨o, ho, hr⟩ := h
      exact ⟨o, (hjob i o ho).1, hr⟩
  | _ => trivial

variable {result : Option Int}

theorem advanceAdd_sound {pc : AddPc} (h : pc.Sound rules r (accountOf w trace r))
    (hprov : ∀ q ∈ (CalendarFrame.adding r pc).asksFor w,
      result = rules.next q.1 q.2) :
    ∀ g ∈ core (advanceAdd w result r pc).frames,
      g.Sound rules w ((CalendarFrame.adding r pc).backlogNotices result ++ trace) := by
  cases pc with
  | created =>
      rw [advanceAdd, CalendarWorld.emitThen, core_append, core_emitFrames]
      refine List.forall_mem_singleton.mpr ?_
      change (accountOf w (.created r (result.getD 0) :: trace) r).Opened _
      rw [accountOf_created h]
      exact ⟨rfl, rfl⟩
  | firstDue observed =>
      cases hlast : (w.states r).options.lastDueUtcMs with
      | none =>
          simp only [advanceAdd, hlast]
          exact List.forall_mem_singleton.mpr
            ⟨h, (Account.missed_of_opened h).trans (BuiltinRules.backlog_of_none hlast)⟩
      | some last =>
          simp only [advanceAdd, hlast]
          refine List.forall_mem_singleton.mpr ⟨h, fun hnone => ?_⟩
          cases hlast.symm.trans hnone
  | missing observed =>
      obtain ⟨hopened, hlast⟩ := h
      obtain ⟨last, hlast⟩ := Option.ne_none_iff_exists'.mp hlast
      have hmissed : (accountOf w trace r).missed rules r =
          if (w.states r).options.missedPolicy = .runOnceImmediately then
            result.filter (· ≤ observed)
          else none := by
        rw [Account.missed_of_opened hopened, BuiltinRules.backlog_of_last hlast,
          hprov (r, last) (Option.map_eq_some_iff.mpr ⟨last, hlast, rfl⟩)]
        rfl
      cases result with
      | none => exact List.forall_mem_singleton.mpr trivial
      | some missed =>
          simp only [advanceAdd]
          split
          · next hle =>
              rw [CalendarWorld.emitThen, core_append, core_emitFrames]
              have hfilter : (some missed).filter (· ≤ observed) = some missed :=
                Option.filter_some_pos (decide_eq_true hle)
              rw [hfilter] at hmissed
              exact List.forall_mem_singleton.mpr ⟨hopened, hmissed⟩
          · next hgt =>
              have hfilter : (some missed).filter (· ≤ observed) = none :=
                Option.filter_some_neg (by simpa using hgt)
              rw [hfilter, ite_self] at hmissed
              exact List.forall_mem_singleton.mpr
                ⟨hopened.fits hmissed (Int.not_le.mp hgt), .of_none hmissed⟩
  | missed observed planned =>
      obtain ⟨hopened, hmissed⟩ := h
      simp only [advanceAdd]
      split
      · next hpolicy =>
          exact List.forall_mem_singleton.mpr
            ⟨.inl ⟨hmissed.trans (if_pos hpolicy), hopened.2⟩, fun _ => rfl⟩
      · next hpolicy =>
          exact List.forall_mem_singleton.mpr ⟨hopened, hmissed.trans (if_neg hpolicy)⟩
  | planning observed =>
      obtain ⟨hopened, hmissed⟩ := h
      cases result with
      | none => exact List.forall_mem_singleton.mpr trivial
      | some planned =>
          have hlater : observed < planned :=
            BuiltinRules.next_later (hprov (r, observed) rfl).symm
          exact List.forall_mem_singleton.mpr
            ⟨hopened.fits hmissed hlater, .of_none hmissed⟩

/-- The occurrence after a run is not a missed one, or is skipped. -/
theorem Account.after_run {x : Account} {run : Run} {upcoming : Int}
    (h : x.Later run.planned ∨ x.missed rules run.rule = some run.planned)
    (hnext : upcoming ∈ rules.next run.rule run.planned) (hclears : x.Clears rules run) :
    x.Later upcoming ∨ x.options.overlapPolicy = .skip ∧ upcoming ≤ run.observed ∧
      ∀ later ∈ rules.next run.rule run.observed, x.Later later := by
  rcases h with hlater | hmissed
  · exact .inl (hlater.trans (BuiltinRules.next_later hnext))
  · obtain ⟨hpolicy, created, hcreated, -⟩ := missed_eq_some hmissed
    have hall {planned : Int} (hlt : created < planned) : x.Later planned := by
      intro created' hcreated'
      cases hcreated.symm.trans hcreated'
      exact hlt
    rcases hclears hpolicy created hcreated upcoming hnext with hlt | ⟨hskip, hle, hlt⟩
    · exact .inl (hall hlt)
    · exact .inr ⟨hskip, hle, fun later hlater => hall (hlt later hlater)⟩

theorem advanceRun_sound {run : Run} {pc : RunPc} {o : CalendarOutcome}
    (h : advanceRun w result run pc = some o)
    (hpc : pc.Sound rules run (accountOf w trace run.rule))
    (hprov : ∀ q ∈ (CalendarFrame.running run pc).asksFor w,
      result = rules.next q.1 q.2)
    (hclears : pc = .asked → (accountOf w trace run.rule).Clears rules run) :
    ∀ g ∈ core o.frames,
      g.Sound rules w ((CalendarFrame.running run pc).backlogNotices result ++ trace) := by
  cases pc with
  | due | before | after =>
      cases h
      rw [CalendarWorld.emitThen, core_append, core_emitFrames]
      exact List.forall_mem_singleton.mpr hpc
  | calling =>
      cases h
      refine List.forall_mem_singleton.mpr ?_
      change RunPc.Sound rules run
        (accountOf w (.ran run.rule run.planned :: trace) run.rule) .called
      rw [accountOf_ran]
      exact Account.Fits.run hpc
  | called =>
      cases h
      rw [core_append, core_nowFrames]
      exact List.forall_mem_singleton.mpr hpc
  | failed =>
      cases h
      rw [CalendarWorld.emitThen, core_append, core_emitFrames]
      exact List.forall_mem_singleton.mpr hpc
  | rethrowing =>
      cases h
      exact List.forall_mem_nil _
  | settling =>
      simp only [advanceRun] at h
      split at h
      · cases h
        exact List.forall_mem_singleton.mpr hpc
      · split at h
        · cases h
        · split at h <;> cases h <;> exact List.forall_mem_singleton.mpr hpc
  | checkContext =>
      simp only [advanceRun] at h
      split at h
      · cases h
      · split at h <;> cases h
        · exact List.forall_mem_singleton.mpr hpc.1
        · exact List.forall_mem_singleton.mpr hpc
  | checkState =>
      simp only [advanceRun] at h
      split at h <;> cases h
      · exact List.forall_mem_singleton.mpr hpc.1
      · exact List.forall_mem_singleton.mpr hpc
  | finishing =>
      cases h
      exact List.forall_mem_singleton.mpr trivial
  | cancelled =>
      cases h
      rw [CalendarWorld.emitThen, core_append, core_emitFrames]
      exact List.forall_mem_nil _
  | next =>
      cases h
      exact List.forall_mem_singleton.mpr hpc
  | asked =>
      obtain ⟨hdone, hplanned⟩ := hpc
      cases result with
      | none =>
          cases h
          exact List.forall_mem_singleton.mpr hdone
      | some upcoming =>
          have hnext := Account.after_run hplanned (hprov (run.rule, run.planned) rfl).symm
            (hclears rfl)
          simp only [advanceRun] at h
          split at h
          · next hle =>
              cases h
              rw [CalendarWorld.emitThen, core_append, core_emitFrames]
              exact List.forall_mem_singleton.mpr
                ⟨hdone, hle, hnext.imp_right fun hskip => ⟨hskip.1, hskip.2.2⟩⟩
          · next hgt =>
              cases h
              have hlater := hnext.resolve_right fun hskip => hgt hskip.2.1
              exact List.forall_mem_singleton.mpr ⟨⟨hlater, hdone⟩, hlater.prompt⟩
  | missed upcoming =>
      obtain ⟨hdone, hle, hnext⟩ := hpc
      simp only [advanceRun] at h
      split at h
      · next hpolicy =>
          cases h
          have hlater := hnext.resolve_right fun hskip => by
            cases hskip.1.symm.trans hpolicy
          exact List.forall_mem_singleton.mpr ⟨⟨hlater, hdone⟩, hlater.prompt⟩
      · cases h
        refine List.forall_mem_singleton.mpr ⟨hdone, fun later hlater => ?_⟩
        rcases hnext with hupcoming | ⟨-, hall⟩
        · exact hupcoming.trans (hle.trans_lt (BuiltinRules.next_later hlater))
        · exact hall later hlater
  | skipping =>
      obtain ⟨hdone, hall⟩ := hpc
      cases result with
      | none =>
          cases h
          exact List.forall_mem_singleton.mpr hdone
      | some upcoming =>
          cases h
          have hlater := hall upcoming (hprov (run.rule, run.observed) rfl).symm
          exact List.forall_mem_singleton.mpr ⟨⟨hlater, hdone⟩, hlater.prompt⟩

end Frames

/-! ## A step -/

namespace TaskSystem

variable {τ : Type} {s s' : TaskSystem τ} {a : TaskAction τ} {j : Nat}

/-- A task that waits keeps waiting, or is cancelled, or is started. -/
theorem step_of_waits (hinv : s.Inv) (hj : j < s.mgr.nextId)
    (h : s.step a = some s') (hw : s.waits j) :
    s'.waits j ∨ s'.mgr.stateOf j = .cancelled ∨
      a = .processStart ∧ ∃ entry, s'.phase.current = some entry ∧ entry.id = j := by
  cases (step_waited hinv hj h).waiting with
  | kept heq => exact .inl (heq.trans hw)
  | started ha hcurrent hid => exact .inr (.inr ⟨ha, _, hcurrent, hid⟩)
  | again ha hcurrent hid hst =>
      unfold waits at hw
      rw [hst] at hw
      cases hw
  | cleared ha hw' =>
      subst ha
      simp only [TaskSystem.step, stepLocked] at h
      split at h
      · cases h
        have hdropped := TaskManager.Dropped.clearPending s.mgr
        by_cases hmem : j ∈ s.mgr.clearPending.2
        · exact .inr (.inl (hdropped.state j hmem))
        · refine .inl ?_
          unfold waits TaskManager.stateOf at hw ⊢
          rw [hdropped.other j hmem]
          exact hw
      · cases h
  | cancelled ha hc hw' =>
      subst ha
      simp only [TaskSystem.step, stepExchange, hc] at h
      cases h
      rcases s.mgr.cancelLoaded_spec j _ with ⟨-, hwithdrew⟩ | ⟨-, hm⟩
      · exact .inr (.inl hwithdrew.state)
      · refine .inl ?_
        unfold waits TaskManager.stateOf at hw ⊢
        dsimp only
        rw [hm]
        exact hw

end TaskSystem

section Move

variable {Zone : Type} {rules : BuiltinRules Zone} {a : CalendarAction ι}
  {mode : CalendarMode} {w w' : CalendarWorld} {f : CalendarFrame}
  {fs : List CalendarFrame}

theorem CalendarFrame.tends_of_plain {r : Nat} {g : CalendarFrame} (h : g.plain) :
    g.tends r = false := by
  cases g <;> first | rfl | cases h

theorem CalendarFrame.mem_rules_of_tends {r : Nat} {g : CalendarFrame}
    (h : g.tends r) : r ∈ g.rules := by
  cases g
  case adding | scheduleOne | publish | markCompleted =>
    exact Finset.mem_singleton.mpr (of_decide_eq_true h).symm
  case running =>
    exact Finset.mem_singleton.mpr (of_decide_eq_true (Bool.and_eq_true_iff.mp h).2).symm
  all_goals cases h

/-- What tends a rule adds it, or is part of its run. -/
theorem CalendarFrame.adds_or_runs {r : Nat} {g : CalendarFrame} (h : g.tends r) :
    g.adds r ∨ g.runs := by
  cases g
  case adding => exact .inl h
  case scheduleOne caller | publish caller =>
    cases caller with
    | addRule => exact .inl h
    | scheduleAfterRun => exact .inr rfl
  case running | markCompleted => exact .inr rfl
  all_goals cases h

theorem CalendarFrame.tends_of_adds {r : Nat} {g : CalendarFrame} (h : g.adds r) :
    g.tends r := by
  cases g
  case adding => exact h
  case scheduleOne caller | publish caller =>
    cases caller with
    | addRule => exact h
    | scheduleAfterRun => cases h
  all_goals cases h

theorem CalendarFrame.tends_of_publishes {r i : Nat} {g : CalendarFrame}
    (h : g.publishes r i) : g.tends r := by
  cases g
  case publish =>
    simp only [publishes, Bool.and_eq_true, decide_eq_true_eq] at h
    exact decide_eq_true h.1
  all_goals cases h

theorem CalendarMove.tends (h : CalendarMove a mode w f w' fs) (r : Nat) :
    fs.countP (tends r) ≤ [f].countP (tends r) ∨
      fs.countP (tends r) = 1 ∧
        (r = w.nextId ∧ w'.nextId = w.nextId + 1 ∨
          w.gone r = false ∧ ∃ i, f = .runDue r i) := by
  cases h
  case registered =>
    by_cases hr : w.nextId = r
    · exact .inr ⟨by simp [CalendarFrame.tends, hr], .inl ⟨hr.symm, rfl⟩⟩
    · exact .inl (Nat.le_of_eq (by simp [CalendarFrame.tends, hr]))
  case consumed q i hkept =>
    by_cases hr : q = r
    · refine .inr ⟨?_, .inr ⟨hr ▸ hkept, i, by rw [hr]⟩⟩
      simp [CalendarFrame.tends, RunPc.ended, hr]
    · exact .inl (Nat.le_of_eq (by simp [CalendarFrame.tends, hr]))
  case emitted run pc pc' event hpc observed =>
    cases pc <;> cases hpc <;> exact .inl (Nat.le_refl _)
  case walked hpc => cases hpc <;> exact .inl (Nat.le_refl _)
  case exhausted run pc hpc | plannedNext run pc hpc _ _ _ =>
    cases pc <;> first | exact .inl (Nat.le_refl _) | cases hpc
  case posted | announced | askedFirst | missedFirst | plannedFirst | entered |
      stopped | counted | askedNext | askedAgain | missedNext | unpostedAfterRun |
      unpublishedAfterRun =>
    exact .inl (Nat.le_refl _)
  all_goals exact .inl (Nat.zero_le _)

theorem CalendarMove.registers (h : CalendarMove a mode w f w' fs) :
    w'.nextId = w.nextId ∨
      w'.nextId = w.nextId + 1 ∧ fs = [.adding w.nextId .created] := by
  cases h
  case registered => exact .inr ⟨rfl, rfl⟩
  all_goals exact .inl rfl

/-- What adds a rule is new, or comes in the place of another that does and has
queued nothing. -/
theorem CalendarMove.adds (h : CalendarMove a mode w f w' fs) {g : CalendarFrame}
    (hg : g ∈ fs) {r : Nat} (hr : g.adds r) :
    r = w.nextId ∧ w'.job = w.job ∨ f.adds r ∧ ∀ i, f.publishes r i = false := by
  have hnone (hfs : fs.countP (CalendarFrame.adds r) = 0) :
      r = w.nextId ∧ w'.job = w.job ∨ f.adds r ∧ ∀ i, f.publishes r i = false :=
    absurd hr (List.countP_eq_zero.mp hfs g hg)
  cases h
  case registered =>
    rw [List.mem_singleton.mp hg] at hr
    exact .inl ⟨(of_decide_eq_true hr).symm, rfl⟩
  case announced | askedFirst | missedFirst | plannedFirst =>
    rw [List.mem_singleton.mp hg] at hr
    exact .inr ⟨hr, fun _ => rfl⟩
  case posted caller tasks now due options i h hid hi =>
    rw [List.mem_singleton.mp hg] at hr
    cases caller with
    | addRule => exact .inr ⟨hr, fun _ => rfl⟩
    | scheduleAfterRun => cases hr
  all_goals exact hnone (by rfl)

/-- What becomes of the frame that tends a rule. -/
theorem CalendarMove.tended (h : CalendarMove a mode w f w' fs) {r : Nat}
    (hf : f.tends r) :
    (∃ g ∈ fs, g.tends r) ∨ w'.gone r ∨
      (∃ g ∈ fs, g.withdraws r) ∧ w'.job = w.job ∧ f.adds r ∧
        (∀ i, f.publishes r i = false) ∨
      (∃ planned observed i caller, f = .publish r planned observed i caller ∧
        w.gone r = false ∧ (w'.states r).plannedUtcMs = planned) ∨
      mode = .throwing ∧ ∃ run pc, f = .running run pc ∧ pc.asks := by
  have hmarked {q : Nat} (hq : q = r) : (w.markCompleted q).gone r := by
    simp [CalendarWorld.gone, hq]
  cases h
  case emitted run pc pc' event hpc observed =>
    cases pc <;> cases hpc <;> exact .inl ⟨_, List.mem_singleton_self _, hf⟩
  case walked hpc => cases hpc <;> exact .inl ⟨_, List.mem_singleton_self _, hf⟩
  case exhausted | plannedNext =>
    exact .inl ⟨_, List.mem_singleton_self _, (Bool.and_eq_true_iff.mp hf).2⟩
  case announced | askedFirst | missedFirst | plannedFirst | posted | entered |
      stopped | counted | askedNext | askedAgain | missedNext | unpostedAfterRun =>
    exact .inl ⟨_, List.mem_singleton_self _, hf⟩
  case abandoned | unposted =>
    exact .inr (.inr (.inl ⟨⟨_, List.mem_singleton_self _, hf⟩, rfl, hf, fun _ => rfl⟩))
  case unpublished hgone | unpublishedAfterRun hgone =>
    exact .inr (.inl (of_decide_eq_true hf ▸ hgone))
  case published q planned observed i caller hkept info hinfo =>
    obtain rfl : q = r := of_decide_eq_true hf
    refine .inr (.inr (.inr (.inl ⟨planned, observed, i, caller, rfl, hkept, ?_⟩)))
    rw [CalendarWorld.emit_states, CalendarWorld.publish_states_self]
  case rethrown run | finished run =>
    exact .inr (.inl (hmarked (of_decide_eq_true hf)))
  case completed q => exact .inr (.inl (hmarked (of_decide_eq_true hf)))
  case escaped run pc hmode hpc =>
    exact .inr (.inr (.inr (.inr ⟨hmode, run, pc, rfl, hpc⟩)))
  case plain hf' => cases f <;> first | cases hf | cases hf'
  all_goals cases hf

/-- `run_due` works on the occurrence it takes. -/
theorem CalendarMove.taken {r i : Nat} (h : CalendarMove a mode w (.runDue r i) w' fs)
    (hkept : w.gone r = false) : ∃ g ∈ fs, g.tends r := by
  cases h
  case plain hf => cases hf
  case dropped hgone => cases hgone.symm.trans hkept
  case consumed => exact ⟨_, List.mem_singleton_self _, decide_eq_true rfl⟩

theorem CalendarMove.withdrawn (h : CalendarMove a mode w f w' fs) {r : Nat}
    (hf : f.withdraws r) : w'.gone r := by
  cases h
  case cancelRefused q hno | cancelIgnored q hno =>
    obtain rfl : q = r := of_decide_eq_true hf
    simp [CalendarWorld.gone, hno]
  case cancelTaken q _ _ _ _ | cancelTakenAlone q _ _ _ _ =>
    obtain rfl : q = r := of_decide_eq_true hf
    simp [CalendarWorld.gone]
  case plain hf' => cases f <;> first | cases hf | cases hf'
  all_goals cases hf

/-- A task that waits keeps waiting, or is cancelled, or is started. -/
theorem CalendarMove.waiting (h : CalendarMove a mode w f w' fs) (hinv : w.tasks.Inv)
    {i : Nat} (hi : i < w.tasks.mgr.nextId) (hw : w.tasks.waits i) :
    w'.tasks.waits i ∨ w'.tasks.mgr.stateOf i = .cancelled ∨
      .starting i ((w.job i).map Occurrence.rule) ∈ fs := by
  have hother {act : TaskAction Unit} {tasks : TaskSystem Unit}
      (hstep : w.tasks.step act = some tasks) (hact : act ≠ .processStart) :
      tasks.waits i ∨ tasks.mgr.stateOf i = .cancelled ∨
        .starting i ((w.job i).map Occurrence.rule) ∈ fs := by
    rcases TaskSystem.step_of_waits hinv hi hstep hw with hw | hst | ⟨heq, -⟩
    · exact .inl hw
    · exact .inr (.inl hst)
    · exact absurd heq hact
  cases h
  case started entry unrun tasks hphase h hwon =>
    rcases TaskSystem.step_of_waits hinv hi h hw with hw | hst | ⟨-, entry', hcurrent, rfl⟩
    · exact .inl hw
    · exact .inr (.inl hst)
    · obtain ⟨hcurrent', -⟩ := TaskSystem.step_processStart hphase h hwon
      cases hcurrent.symm.trans hcurrent'
      exact .inr (.inr List.mem_cons_self)
  case passed h hlost =>
    rcases TaskSystem.step_of_waits hinv hi h hw with hw | hst | ⟨-, entry, hcurrent, -⟩
    · exact .inl hw
    · exact .inr (.inl hst)
    · rw [hcurrent] at hlost
      cases hlost
  case produced act tasks ha hact h =>
    exact hother h (by rintro rfl; cases hact)
  case processed hact h | threw hact h =>
    exact hother h (by rintro rfl; rcases hact with hact | hact <;> cases hact)
  case nothingBegan h | began h _ | loaded h _ | unloaded h _ | exchanged h |
      returned h | settled h | otherSettled h | unposted h |
      unpostedAfterRun h _ | posted h _ _ =>
    exact hother h nofun
  all_goals exact .inl hw

/-- The frames that are neither those of `add_rule` nor those of `run_due`
after its first section. -/
theorem CalendarMove.sound (h : CalendarMove a mode w f w' fs)
    {trace trace' : List BacklogNotice} (hf : f.Sound rules w trace)
    (hadd : ∀ r pc, f ≠ .adding r pc) (hrun : ∀ run pc, f ≠ .running run pc)
    (hsame : ∀ r < w.nextId, accountOf w' trace' r = accountOf w trace r)
    (hknown : ∀ r ∈ f.rules, r < w.nextId)
    (hnew : ∀ n ∈ trace', n.rule < w.nextId)
    (hjob : ∀ i o, o ∈ w.job i → o ∈ w'.job i ∧ w'.delays i = w.delays i)
    (htakes : ∀ r i, f = .runDue r i → w.gone r = false →
      (accountOf w trace r).Fits rules r (w.states r).plannedUtcMs) :
    ∀ g ∈ fs, g.Sound rules w' trace' := by
  cases h
  case started entry unrun tasks hphase h hwon =>
    refine List.forall_mem_cons.mpr ⟨?_, List.forall_mem_singleton.mpr trivial⟩
    cases ho : w.job entry.id with
    | none => trivial
    | some o => exact ⟨o, ho, rfl⟩
  case settled i r tasks h =>
    obtain ⟨o, ho, hr⟩ := hf
    exact List.forall_mem_singleton.mpr ⟨o, (hjob i o ho).1, hr⟩
  case registered options hopen =>
    refine List.forall_mem_singleton.mpr (List.any_eq_false.mpr fun n hn => ?_)
    simpa using Nat.ne_of_lt (hnew n hn)
  case posted r planned observed immediate caller tasks now due options i h hid hi =>
    refine List.forall_mem_singleton.mpr ⟨?_, Function.update_self .., ?_⟩
    · rw [hsame r (hknown r (Finset.mem_singleton_self r))]
      exact hf.1
    · rw [hsame r (hknown r (Finset.mem_singleton_self r)),
        show CalendarWorld.delays _ i = _ from Function.update_self ..]
      exact hf.2
  case unpostedAfterRun r planned observed immediate tasks now due options h hid =>
    refine List.forall_mem_singleton.mpr ?_
    change (accountOf _ trace' r).Done rules r
    rw [hsame r (hknown r (Finset.mem_singleton_self r))]
    exact hf.1.2
  case unpublishedAfterRun r planned observed i hgone =>
    refine List.forall_mem_cons.mpr ⟨trivial, List.forall_mem_singleton.mpr ?_⟩
    change (accountOf _ trace' r).Done rules r
    rw [hsame r (hknown r (Finset.mem_singleton_self r))]
    exact hf.1.2
  case consumed r i hkept =>
    refine List.forall_mem_singleton.mpr ?_
    change (accountOf _ trace' r).Fits rules r _
    rw [hsame r (hknown r (Finset.mem_singleton_self r))]
    exact htakes r i rfl hkept
  case announced | askedFirst | missedFirst | abandoned | plannedFirst =>
    exact absurd rfl (hadd _ _)
  case emitted | entered | walked | stopped | counted | rethrown | finished |
      lastEmitted | askedNext | askedAgain | missedNext | exhausted |
      plannedNext | escaped =>
    exact absurd rfl (hrun _ _)
  case unpublished | cancelTaken | onePickedAlone =>
    exact List.forall_mem_cons.mpr ⟨trivial, List.forall_mem_singleton.mpr trivial⟩
  case onePicked =>
    exact List.forall_mem_cons.mpr
      ⟨trivial, List.forall_mem_cons.mpr
        ⟨trivial, List.forall_mem_singleton.mpr trivial⟩⟩
  case plain | added | produced | nothingBegan | unloaded | exchanged |
      processed | otherSettled | refused | published | dropped | completed |
      cancelRefused | cancelIgnored | cancelReturned | cancelDone | noneFound |
      allReturned | oneEmitted =>
    exact List.forall_mem_nil _
  all_goals exact List.forall_mem_singleton.mpr trivial

end Move

/-- What a step adds to the trace, and by which frame. -/
theorem CalendarMoved.backlogNotices {s : CalendarSystem ι} {a : CalendarAction ι}
    {t : ι} {f : CalendarFrame} {rest : List CalendarFrame} {o : CalendarOutcome}
    (h : CalendarMoved s a t f o) (hf : s.frames t = f :: rest) :
    s.backlogNotices a = [] ∨
      (∃ r observed, f = .adding r .created ∧
        s.backlogNotices a = [.created r observed]) ∨
      ∃ run, f = .running run .calling ∧
        s.backlogNotices a = [.ran run.rule run.planned] := by
  cases h with
  | @advance _ _ _ result reading hmode h =>
      have heq : s.backlogNotices (.advance t reading) = f.backlogNotices result := by
        simp only [CalendarSystem.backlogNotices, hf, hmode]
      rw [heq]
      cases f with
      | adding r pc =>
          cases pc with
          | created => exact .inr (.inl ⟨r, _, rfl, rfl⟩)
          | _ => exact .inl rfl
      | running run pc =>
          cases pc with
          | calling => exact .inr (.inr ⟨run, rfl, rfl⟩)
          | _ => exact .inl rfl
      | _ => exact .inl rfl
  | unwind reading hmode h =>
      refine .inl ?_
      simp only [CalendarSystem.backlogNotices, hf, hmode]
  | call | ret | throw | «catch» => exact .inl rfl

namespace CalendarSystem

variable [DecidableEq ι] {s s' : CalendarSystem ι} {a : CalendarAction ι} {t : ι}
  {f : CalendarFrame} {fs : List CalendarFrame}

/-- A task is pending until it finds its rule. -/
theorem Pending.step {r i : Nat} (h : s.Pending r i) (hs : s.Reachable)
    (hst : Stepped s a t f fs s') {o : Occurrence} (ho : s.world.job i = some o)
    (hr : o.rule = r) (hi : i < s.world.tasks.mgr.nextId) :
    s'.Pending r i ∨ s.world.gone r ∨ f = .runDue r i ∧ s.world.gone r = false := by
  have htasks : s'.world.tasks.Reachable ∧ s.world.tasks.log <:+ s'.world.tasks.log := by
    rcases hst.move.tasks with heq | ⟨act, hact⟩
    · rw [heq]
      exact ⟨hs.tasks, List.suffix_rfl⟩
    · exact ⟨hs.tasks.trans_run (Lts.run_one hact), TaskSystem.step_log hact⟩
  rcases h with hw | hwithdrawn | hex
  · rcases hst.move.waiting hs.tasks.inv hi hw with hw | hst' | hmem
    · exact .inl (.inl hw)
    · exact .inl (.inr (.inl ((htasks.1.logged i).withdrawn.mpr hst')))
    · rw [ho] at hmem
      exact .inl (.inr (.inr (hst.exists_new hmem (by simp [enters, hr]))))
  · obtain ⟨obs, hobs⟩ := htasks.2
    refine .inl (.inr (.inl ?_))
    unfold withdrawn at hwithdrawn ⊢
    rw [← hobs, List.any_append, hwithdrawn, Bool.or_true]
  · cases hf : f.enters r i with
    | false => exact .inl (.inr (.inr (hst.exists_of hex hf)))
    | true =>
        rcases hst.move.enters_or hf with ⟨g, hg, hg'⟩ | hgone | ⟨hrun, hkept, -⟩
        · exact .inl (.inr (.inr (hst.exists_new hg hg')))
        · exact .inr (.inl hgone)
        · exact .inr (.inr ⟨hrun, hkept⟩)

end CalendarSystem

/-! ## Runs -/

namespace BacklogCalendar

variable {Zone : Type} (rules : BuiltinRules Zone)

/-- Where the next occurrence of the rule comes from. -/
def Accounted (s : BacklogCalendar ι) (r : Nat) : Prop :=
  s.calendar.world.gone r ∨ Threads.Exists (tends r) s.calendar.frames ∨
    (Threads.Exists (withdraws r) s.calendar.frames ∧
      ∀ i, ∀ o ∈ s.calendar.world.job i, o.rule ≠ r) ∨
    let planned := (s.calendar.world.states r).plannedUtcMs
    (accountOf s.calendar.world s.trace r).Fits rules r planned ∧
      ∃ i, s.calendar.world.job i = some { rule := r, plannedUtcMs := planned } ∧
        (accountOf s.calendar.world s.trace r).Prompt rules r planned
          (s.calendar.world.delays i) ∧ s.calendar.Pending r i

structure Accounts [Fintype ι] (s : BacklogCalendar ι) : Prop where
  known : ∀ n ∈ s.trace, n.rule < s.calendar.world.nextId
  handedOut : ∀ i, ∀ o ∈ s.calendar.world.job i,
    i < s.calendar.world.tasks.mgr.nextId
  one : ∀ r, total (tends r) s.calendar.frames ≤ 1
  frames : Forall (CalendarFrame.Sound rules s.calendar.world s.trace) s.calendar.frames
  /-- What adds a rule has queued all the tasks it has. -/
  first : Forall (fun g => ∀ r, g.adds r → ∀ i, ∀ o ∈ s.calendar.world.job i,
    o.rule = r → g.publishes r i) s.calendar.frames
  pending : Forall (fun g => ∀ r i, g.publishes r i →
    s.calendar.world.gone r ∨ s.calendar.Pending r i) s.calendar.frames
  bound : ∀ r, catchUps r s.trace = 0 ∨
    (accountOf s.calendar.world s.trace r).Done rules r
  accounted : ∀ r < s.calendar.world.nextId, s.Accounted rules r

theorem Accounts.init [Fintype ι] : Accounts rules ({} : BacklogCalendar ι) where
  known := List.forall_mem_nil _
  handedOut := by nofun
  one r := by
    have hnone : total (tends r) (fun _ : ι => [CalendarFrame.user .main]) = 0 :=
      total_eq_zero_iff.mpr fun t f hf => by
        rw [List.mem_singleton.mp hf]
        rfl
    exact hnone.trans_le (Nat.zero_le _)
  frames t f hf := by
    rw [List.mem_singleton.mp hf]
    trivial
  first t f hf := by
    rw [List.mem_singleton.mp hf]
    nofun
  pending t f hf := by
    rw [List.mem_singleton.mp hf]
    nofun
  bound r := .inl rfl
  accounted r hr := .inl rfl

section Step

variable {rules} [Fintype ι] [DecidableEq ι] {s : BacklogCalendar ι}
  {c : CalendarSystem ι} {a : CalendarAction ι} {t : ι} {f : CalendarFrame}
  {fs : List CalendarFrame}

/-- The rule that `run_due` finds has no other frame. -/
theorem Accounts.takes_alone (h : s.Accounts rules) (hs : s.calendar.Reachable)
    {r i : Nat} (hst : Stepped s.calendar a t (.runDue r i) fs c)
    (hrace : AtTop Unraced s.calendar a) (hkept : s.calendar.world.gone r = false) :
    Forall (fun g => g.tends r = false) (replaceTop s.calendar.frames t []) := by
  obtain ⟨o, ho, hr⟩ := hst.of_forall h.frames
  have hunpublished : ¬ Threads.Exists (publishes r i) s.calendar.frames :=
    hst.meets hrace rfl (r, i) rfl hkept
  intro u g hg
  refine Bool.eq_false_iff.mpr fun htends => ?_
  rcases adds_or_runs htends with hadds | hruns
  · have hpub := Stepped.rest h.first u g hg r hadds i o ho hr
    cases (Stepped.rest (not_exists_iff.mp hunpublished) u g hg).symm.trans hpub
  · cases (hst.alone hs.oneConsumer.runs_le rfl u g hg).symm.trans hruns

theorem Accounts.one_step (h : s.Accounts rules) (hs : s.calendar.Reachable)
    (hst : Stepped s.calendar a t f fs c) (hrace : AtTop Unraced s.calendar a)
    (r : Nat) : total (tends r) c.frames ≤ 1 := by
  have hcount := hst.total fun g => tends_of_plain (r := r) (g := g)
  have hone := h.one r
  rcases hst.move.tends r with hle | ⟨hnew, ⟨hr, -⟩ | ⟨hkept, i, rfl⟩⟩
  · omega
  · have hzero := hs.known.total_eq_zero (p := tends r) hr.ge
      fun g => mem_rules_of_tends
    omega
  · have hrest := hst.total_rest (tends r)
    rw [total_eq_zero_iff.mpr (h.takes_alone hs hst hrace hkept)] at hrest
    omega

/-- What is taken was to be taken next. -/
theorem Accounts.takes (h : s.Accounts rules) (hs : s.calendar.Reachable)
    {r i : Nat} (hst : Stepped s.calendar a t (.runDue r i) fs c)
    (hrace : AtTop Unraced s.calendar a) (hkept : s.calendar.world.gone r = false) :
    (accountOf s.calendar.world s.trace r).Fits rules r
      (s.calendar.world.states r).plannedUtcMs := by
  obtain ⟨o, ho, hr⟩ := hst.of_forall h.frames
  rcases h.accounted r (hr ▸ hs.known.jobs i o ho) with hgone | hex | ⟨-, hnone⟩ | ⟨hfits, -⟩
  · cases hgone.symm.trans hkept
  · obtain ⟨rest, gs, ht, -, -⟩ := hst.top
    have htop : replaceTop s.calendar.frames t [.runDue r i] = s.calendar.frames := by
      unfold replaceTop
      rw [ht]
      exact Function.update_eq_self_iff.mpr ht.symm
    have hnone : Forall (fun g => g.tends r = false)
        (replaceTop s.calendar.frames t [.runDue r i]) :=
      (h.takes_alone hs hst hrace hkept).put (List.forall_mem_singleton.mpr rfl)
    exact absurd hex (not_exists_iff.mpr (htop ▸ hnone))
  · exact absurd hr (hnone i o ho)
  · exact hfits

variable {o : CalendarOutcome} {rest : List CalendarFrame}

omit [Fintype ι] [DecidableEq ι] in
/-- The account of a rule that no new notice is about. -/
theorem accountOf_moved (hmoved : CalendarMoved s.calendar a t f o) {r : Nat}
    (hr : r < s.calendar.world.nextId)
    (hno : ∀ n ∈ s.calendar.backlogNotices a, n.rule ≠ r) :
    accountOf o.world (s.calendar.backlogNotices a ++ s.trace) r =
      accountOf s.calendar.world s.trace r := by
  rw [accountOf_append hno]
  refine accountOf_congr ((hmoved.move.options r).resolve_right ?_)
  exact fun hnew => absurd hnew.1 (Nat.ne_of_lt hr)

omit [Fintype ι] [DecidableEq ι] in
theorem notices_tends (hmoved : CalendarMoved s.calendar a t f o)
    (hf : s.calendar.frames t = f :: rest) :
    ∀ n ∈ s.calendar.backlogNotices a, f.tends n.rule := by
  rcases hmoved.backlogNotices hf with heq | ⟨r, observed, rfl, heq⟩ | ⟨run, rfl, heq⟩
  · rw [heq]
    exact List.forall_mem_nil _
  · rw [heq]
    exact List.forall_mem_singleton.mpr (decide_eq_true rfl)
  · rw [heq]
    exact List.forall_mem_singleton.mpr (decide_eq_true rfl)

/-- Unwinding leaves nothing that queues an occurrence. -/
theorem unwind_sound {w : CalendarWorld} {trace : List BacklogNotice}
    (hf : (∃ r pc, f = .adding r pc) ∨ ∃ run pc, f = .running run pc)
    (hsound : f.Sound rules w trace) (h : f.unwind w = some o) :
    ∀ g ∈ core o.frames, g.Sound rules w trace := by
  rcases hf with ⟨r, pc, rfl⟩ | ⟨run, pc, rfl⟩
  · cases pc with
    | missing | planning =>
        cases h
        exact List.forall_mem_singleton.mpr trivial
    | created | firstDue | missed => cases h
  · cases pc with
    | called =>
        cases h
        rw [core_append, core_nowFrames]
        exact List.forall_mem_singleton.mpr hsound.1
    | asked | skipping =>
        cases h
        exact List.forall_mem_nil _
    | _ => cases h

/-- What the frame that moves leaves. -/
theorem Accounts.new_frames (h : s.Accounts rules) (hs : s.calendar.Reachable)
    (hf : s.calendar.frames t = f :: rest) (hmoved : CalendarMoved s.calendar a t f o)
    (hprov : s.Provides rules a) (hclears : s.Clears rules a)
    (hrace : AtTop Unraced s.calendar a)
    (hknown : ∀ n ∈ s.calendar.backlogNotices a ++ s.trace,
      n.rule < s.calendar.world.nextId)
    (hjob : ∀ i o', o' ∈ s.calendar.world.job i →
      o' ∈ o.world.job i ∧ o.world.delays i = s.calendar.world.delays i) :
    ∀ g ∈ core o.frames,
      g.Sound rules o.world (s.calendar.backlogNotices a ++ s.trace) := by
  have hsound := h.frames.top hf
  have hst := stepped_of_moved hf hmoved
  by_cases hplans : (∃ r pc, f = .adding r pc) ∨ ∃ run pc, f = .running run pc
  · have hworld {trace : List BacklogNotice} (r : Nat) :
        accountOf o.world trace r = accountOf s.calendar.world trace r := by
      refine accountOf_congr ((hmoved.move.options r).resolve_right ?_)
      rintro ⟨-, options, rfl⟩
      simp at hplans
    cases hmoved with
    | @advance _ _ _ result reading hmode hadv =>
        have hnotices : s.calendar.backlogNotices (.advance t reading) =
            f.backlogNotices result := by
          simp only [CalendarSystem.backlogNotices, hf, hmode]
        have htop : (t, f) ∈ s.calendar.top (.advance t reading) := by
          simp [CalendarSystem.top, hf]
        have hresult : ∀ q ∈ f.asksFor s.calendar.world,
            result = rules.next q.1 q.2 := by
          intro q hq
          have heq := hprov (t, f) htop q hq
          rw [hmode] at heq
          injection heq
        rw [hnotices]
        intro g hg
        rcases hplans with ⟨r, pc, rfl⟩ | ⟨run, pc, rfl⟩
        · cases hadv
          exact (advanceAdd_sound hsound hresult g hg).congr
            (fun r _ => hworld r) hjob
        · refine (advanceRun_sound hadv hsound hresult ?_ g hg).congr
            (fun r _ => hworld r) hjob
          rintro rfl
          exact hclears (t, _) htop run rfl
    | unwind reading hmode hunw =>
        have hnotices : s.calendar.backlogNotices (.advance t reading) = [] := by
          simp only [CalendarSystem.backlogNotices, hf, hmode]
        rw [hnotices]
        intro g hg
        exact (unwind_sound hplans hsound hunw g hg).congr (fun r _ => hworld r) hjob
    | call | ret | throw | «catch» => simp at hplans
  · obtain ⟨hadd, hrun⟩ := not_or.mp hplans
    have hsilent : s.calendar.backlogNotices a = [] := by
      rcases hmoved.backlogNotices hf with heq | ⟨r, -, rfl, -⟩ | ⟨run, rfl, -⟩
      · exact heq
      · exact absurd ⟨r, _, rfl⟩ hadd
      · exact absurd ⟨run, _, rfl⟩ hrun
    refine hmoved.move.sound hsound (fun r pc heq => hadd ⟨r, pc, heq⟩)
      (fun run pc heq => hrun ⟨run, pc, heq⟩) (fun r hr => ?_)
      (hs.known.frames.top hf) hknown hjob fun r i heq hkept => ?_
    · exact accountOf_moved hmoved hr (by rw [hsilent]; nofun)
    · subst heq
      exact h.takes hs hst hrace hkept

/-- A frame that stays holds what it held. -/
theorem Accounts.frames_step (h : s.Accounts rules) (hs : s.calendar.Reachable)
    (hf : s.calendar.frames t = f :: rest) (hmoved : CalendarMoved s.calendar a t f o)
    (hprov : s.Provides rules a) (hclears : s.Clears rules a)
    (hrace : AtTop Unraced s.calendar a)
    (hknown : ∀ n ∈ s.calendar.backlogNotices a ++ s.trace,
      n.rule < s.calendar.world.nextId)
    (hjob : ∀ i o', o' ∈ s.calendar.world.job i →
      o' ∈ o.world.job i ∧ o.world.delays i = s.calendar.world.delays i) :
    Forall (CalendarFrame.Sound rules o.world (s.calendar.backlogNotices a ++ s.trace))
      (s.calendar.put t o).frames := by
  have hst := stepped_of_moved hf hmoved
  refine hst.forall_put (fun u g hg => ?_) (fun g hg => ?_)
    (h.new_frames hs hf hmoved hprov hclears hrace hknown hjob)
  · refine (Stepped.rest h.frames u g hg).congr (fun r hr => ?_) hjob
    refine accountOf_moved hmoved
      (Stepped.rest hs.known.frames u g hg r (mem_rules_of_tends hr)) ?_
    rintro n hn rfl
    -- the frame that moves is the only one that tends its rule
    have htends := notices_tends hmoved hf n hn
    cases (hst.alone (h.one n.rule) htends u g hg).symm.trans hr
  · cases g <;> trivial

/-- Only what adds a rule has queued a task of it. -/
theorem Accounts.first_step (h : s.Accounts rules) (hs : s.calendar.Reachable)
    (hst : Stepped s.calendar a t f fs c) :
    Forall (fun g => ∀ r, g.adds r → ∀ i, ∀ o ∈ c.world.job i, o.rule = r →
      g.publishes r i) c.frames := by
  refine hst.forall_put (fun u g hg r hr i o ho hrule => ?_) (fun g hg r hr => ?_)
    fun g hg r hr i o ho hrule => ?_
  · rcases hst.move.jobs hs.tasks.inv with ⟨hjobs, -⟩ |
      ⟨q, planned, observed, immediate, caller, j, rfl, rfl, hj, hnew, tasks, hw⟩
    · rw [hjobs] at ho
      exact Stepped.rest h.first u g hg r hr i o ho hrule
    · rw [hw] at ho
      by_cases hij : i = j
      · subst hij
        cases (Function.update_self ..).symm.trans ho
        subst hrule
        have hfree := hst.alone (h.one q) (decide_eq_true rfl) u g hg
        cases hfree.symm.trans (tends_of_adds hr)
      · exact Stepped.rest h.first u g hg r hr i o
          ((Function.update_of_ne hij ..).symm.trans ho) hrule
  · cases g <;> first | cases hr | cases hg
  · rcases hst.move.adds hg hr with ⟨hnew, hjobs⟩ | ⟨hadds, hnone⟩
    · rw [hjobs] at ho
      exact absurd (hrule.trans hnew) (Nat.ne_of_lt (hs.known.jobs i o ho))
    · have hno (ho : o ∈ s.calendar.world.job i) : False := by
        cases (hnone i).symm.trans (hst.of_forall h.first r hadds i o ho hrule)
      rcases hst.move.jobs hs.tasks.inv with ⟨hjobs, -⟩ |
        ⟨q, planned, observed, immediate, caller, j, rfl, rfl, hj, hnew, tasks, hw⟩
      · rw [hjobs] at ho
        exact (hno ho).elim
      · rw [hw] at ho
        by_cases hij : i = j
        · subst hij
          cases (Function.update_self ..).symm.trans ho
          subst hrule
          rw [List.mem_singleton.mp hg]
          simp [publishes]
        · exact (hno ((Function.update_of_ne hij ..).symm.trans ho)).elim

/-- What is published is pending. -/
theorem Accounts.pending_step (h : s.Accounts rules) (hs : s.calendar.Reachable)
    (hst : Stepped s.calendar a t f fs c) (hrace : AtTop Unraced s.calendar a) :
    Forall (fun g => ∀ r i, g.publishes r i → c.world.gone r ∨ c.Pending r i)
      c.frames := by
  refine hst.forall_put (fun u g hg r i hi => ?_) (fun g hg r i hi => ?_)
    fun g hg r i hi => ?_
  · have hr : r < s.calendar.world.nextId :=
      Stepped.rest hs.known.frames u g hg r (mem_rules_of_tends (tends_of_publishes hi))
    have hjob : ∃ planned, s.calendar.world.job i =
        some { rule := r, plannedUtcMs := planned } := by
      have hsound := Stepped.rest h.frames u g hg
      cases g
      case publish q planned observed j caller =>
        simp only [publishes, Bool.and_eq_true, decide_eq_true_eq] at hi
        obtain ⟨rfl, rfl⟩ := hi
        exact ⟨planned, hsound.2.1⟩
      all_goals cases hi
    obtain ⟨planned, ho⟩ := hjob
    rcases Stepped.rest h.pending u g hg r i hi with hgone | hpending
    · exact .inl (hst.move.gone hr hgone)
    · rcases hpending.step hs hst ho rfl (h.handedOut i _ ho) with
        hpending | hgone | ⟨rfl, hkept⟩
      · exact .inr hpending
      · exact .inl (hst.move.gone hr hgone)
      · have hno := not_exists_iff.mp (hst.meets hrace rfl (r, i) rfl hkept)
        cases (Stepped.rest hno u g hg).symm.trans hi
  · cases g <;> first | cases hi | cases hg
  · rcases hst.move.jobs hs.tasks.inv with ⟨-, -, hnone⟩ |
      ⟨q, planned, observed, immediate, caller, j, rfl, rfl, hj, hnew, tasks, hw⟩
    · exact absurd hi (List.countP_eq_zero.mp (hnone r i) g hg)
    · rw [List.mem_singleton.mp hg] at hi
      simp only [publishes, Bool.and_eq_true, decide_eq_true_eq] at hi
      exact .inr (.inl (hi.2 ▸ hnew.waits))

omit [Fintype ι] in
theorem catchUps_eq_zero {trace : List BacklogNotice} {r : Nat}
    (h : ∀ n ∈ trace, n.rule ≠ r) : catchUps r trace = 0 :=
  congrArg Account.catchUps (accountOf_unheard (w := {}) h)

omit [DecidableEq ι] in
/-- What was missed has not run, or all that was to run of it. -/
theorem Accounts.bound_step (h : s.Accounts rules)
    (hf : s.calendar.frames t = f :: rest) (hmoved : CalendarMoved s.calendar a t f o)
    (hknown : ∀ n ∈ s.calendar.backlogNotices a ++ s.trace,
      n.rule < s.calendar.world.nextId) (r : Nat) :
    catchUps r (s.calendar.backlogNotices a ++ s.trace) = 0 ∨
      (accountOf o.world (s.calendar.backlogNotices a ++ s.trace) r).Done rules r := by
  by_cases hr : r < s.calendar.world.nextId
  · by_cases hno : ∀ n ∈ s.calendar.backlogNotices a, n.rule ≠ r
    · have hsame := accountOf_moved hmoved hr hno
      rw [hsame]
      exact (h.bound r).imp_left ((congrArg Account.catchUps hsame).trans ·)
    · have hsound := h.frames.top hf
      have hworld {trace : List BacklogNotice} :
          accountOf o.world trace r = accountOf s.calendar.world trace r :=
        accountOf_congr ((hmoved.move.options r).resolve_right
          fun hnew => absurd hnew.1 (Nat.ne_of_lt hr))
      rcases hmoved.backlogNotices hf with heq | ⟨q, observed, rfl, heq⟩ | ⟨run, rfl, heq⟩
      · rw [heq] at hno
        exact absurd (List.forall_mem_nil _) hno
      · rw [heq, List.forall_mem_singleton, not_not] at hno
        obtain rfl : q = r := hno
        rw [heq]
        exact .inl (congrArg Account.catchUps (accountOf_created hsound))
      · rw [heq, List.forall_mem_singleton, not_not] at hno
        obtain rfl : run.rule = r := hno
        rw [heq, hworld]
        refine .inr ?_
        rw [List.singleton_append, accountOf_ran]
        exact (Account.Fits.run hsound).1
  · refine .inl (catchUps_eq_zero fun n hn => ?_)
    exact Nat.ne_of_lt ((hknown n hn).trans_le (Nat.not_lt.mp hr))

omit [Fintype ι] in
theorem Provides.mode {run : Run} {pc : RunPc} (h : s.Provides rules a)
    (hst : Stepped s.calendar a t (.running run pc) fs c) (hpc : pc.asks) :
    s.calendar.mode t ≠ .throwing := by
  obtain ⟨reading, rfl⟩ := hst.advanced rfl
  obtain ⟨rest, gs, ht, -, -⟩ := hst.top
  have htop : (t, CalendarFrame.running run pc) ∈ s.calendar.top (.advance t reading) := by
    simp [CalendarSystem.top, ht]
  cases pc with
  | asked =>
      rw [h _ htop (run.rule, run.planned) rfl]
      nofun
  | skipping =>
      rw [h _ htop (run.rule, run.observed) rfl]
      nofun
  | _ => cases hpc

omit [Fintype ι] [DecidableEq ι] in
/-- The next occurrence of the rule has its task. -/
theorem Accounted.pending {x : Account} {r i : Nat} {planned delay : Int}
    (hx : accountOf s.calendar.world s.trace r = x)
    (hplanned : (s.calendar.world.states r).plannedUtcMs = planned)
    (hfits : x.Fits rules r planned)
    (ho : s.calendar.world.job i = some { rule := r, plannedUtcMs := planned })
    (hdelay : s.calendar.world.delays i = delay)
    (hprompt : x.Prompt rules r planned delay) (hpending : s.calendar.Pending r i) :
    s.Accounted rules r := by
  subst hx hplanned hdelay
  exact .inr (.inr (.inr ⟨hfits, i, ho, hprompt, hpending⟩))

/-- What the frame that tends a rule leaves. -/
theorem Accounts.tended_step (h : s.Accounts rules) (hs : s.calendar.Reachable)
    (hf : s.calendar.frames t = f :: rest) (hmoved : CalendarMoved s.calendar a t f o)
    (hprov : s.Provides rules a)
    (hjob : ∀ i o', o' ∈ s.calendar.world.job i →
      o' ∈ o.world.job i ∧ o.world.delays i = s.calendar.world.delays i) {r : Nat}
    (hr : r < s.calendar.world.nextId) (htends : f.tends r) :
    Accounted rules
      { calendar := s.calendar.put t o,
        trace := s.calendar.backlogNotices a ++ s.trace } r := by
  have hst := stepped_of_moved hf hmoved
  rcases hst.move.tended htends with ⟨g, hg, hg'⟩ | hgone |
    ⟨⟨g, hg, hg'⟩, hjobs, hadds, hnone⟩ |
    ⟨planned, observed, i, caller, rfl, hkept, hplanned⟩ | ⟨hmode, run, pc, rfl, hpc⟩
  · exact .inr (.inl (hst.exists_new hg hg'))
  · exact .inl hgone
  · refine .inr (.inr (.inl ⟨hst.exists_new hg hg', fun i o' ho hrule => ?_⟩))
    change o' ∈ o.world.job i at ho
    rw [show o.world.job = _ from hjobs] at ho
    cases (hnone i).symm.trans (h.first.top hf r hadds i o' ho hrule)
  · obtain ⟨hsound, ho, hprompt⟩ := h.frames.top hf
    have hpending := (h.pending.top hf r i (by simp [publishes])).resolve_left
      (by rw [hkept]; decide)
    have hsilent : s.calendar.backlogNotices a = [] := by
      rcases hmoved.backlogNotices hf with hnone | ⟨_, _, hno, _⟩ | ⟨_, hno, _⟩
      · exact hnone
      · cases hno
      · cases hno
    have hsame := accountOf_moved hmoved hr (by rw [hsilent]; rintro _ ⟨⟩)
    rcases hpending.step hs hst ho rfl (h.handedOut i _ ho) with
      hpending | hgone | ⟨heq, -⟩
    · obtain ⟨ho', hdelay⟩ := hjob i _ ho
      exact .pending hsame hplanned hsound.fits ho' hdelay hprompt hpending
    · cases hgone.symm.trans hkept
    · cases heq
  · exact absurd hmode (hprov.mode hst hpc)

theorem Accounts.accounted_step (h : s.Accounts rules) (hs : s.calendar.Reachable)
    (hf : s.calendar.frames t = f :: rest) (hmoved : CalendarMoved s.calendar a t f o)
    (hprov : s.Provides rules a)
    (hjob : ∀ i o', o' ∈ s.calendar.world.job i →
      o' ∈ o.world.job i ∧ o.world.delays i = s.calendar.world.delays i) {r : Nat}
    (hr : r < o.world.nextId) :
    Accounted rules
      { calendar := s.calendar.put t o,
        trace := s.calendar.backlogNotices a ++ s.trace } r := by
  have hst := stepped_of_moved hf hmoved
  by_cases hold : r < s.calendar.world.nextId
  · by_cases htends : f.tends r
    · exact h.tended_step hs hf hmoved hprov hjob hold htends
    by_cases hrun : ∃ i, f = .runDue r i
    · obtain ⟨i, rfl⟩ := hrun
      cases hkept : s.calendar.world.gone r with
      | true => exact .inl (hst.move.gone hold hkept)
      | false =>
          obtain ⟨g, hg, hg'⟩ := hst.move.taken hkept
          exact .inr (.inl (hst.exists_new hg hg'))
    rcases h.accounted r hold with
      hgone | hex | ⟨hex, hnone⟩ | ⟨hfits, i, ho, hprompt, hpending⟩
    · exact .inl (hst.move.gone hold hgone)
    · exact .inr (.inl (hst.exists_of hex (Bool.eq_false_iff.mpr htends)))
    · cases hwithdraws : f.withdraws r with
      | true => exact .inl (hst.move.withdrawn hwithdraws)
      | false =>
          refine .inr (.inr (.inl ⟨hst.exists_of hex hwithdraws, fun i o' ho hrule => ?_⟩))
          rcases hst.move.jobs hs.tasks.inv with ⟨hjobs, -⟩ |
            ⟨q, planned, observed, immediate, caller, j, rfl, -, -, -, tasks, hw⟩
          · exact hnone i o' (hjobs ▸ ho) hrule
          · change o' ∈ o.world.job i at ho
            rw [show o.world.job = _ from congrArg CalendarWorld.job hw] at ho
            by_cases hij : i = j
            · subst hij
              cases (Function.update_self ..).symm.trans ho
              exact htends (decide_eq_true hrule)
            · exact hnone i o' ((Function.update_of_ne hij ..).symm.trans ho) hrule
    · have hsame := accountOf_moved hmoved hold fun n hn hrule =>
        htends (hrule ▸ notices_tends hmoved hf n hn)
      have hplanned : (o.world.states r).plannedUtcMs =
          (s.calendar.world.states r).plannedUtcMs := by
        rcases hst.move.schedule r with ⟨-, heq⟩ | ⟨_, _, _, _, rfl, -⟩ | ⟨-, hnew | hdue⟩
        · exact heq
        · exact absurd (decide_eq_true rfl) htends
        · exact absurd hnew (Nat.ne_of_lt hold)
        · exact absurd hdue hrun
      rcases hpending.step hs hst ho rfl (h.handedOut i _ ho) with
        hpending | hgone | ⟨heq, -⟩
      · obtain ⟨ho', hdelay⟩ := hjob i _ ho
        exact .pending hsame hplanned hfits ho' hdelay hprompt hpending
      · exact .inl (hst.move.gone hold hgone)
      · exact absurd ⟨i, heq⟩ hrun
  · rcases hst.move.registers with heq | ⟨heq, hfs⟩
    · exact absurd (heq ▸ hr) hold
    · refine .inr (.inl (hst.exists_new (hfs ▸ List.mem_singleton_self _) ?_))
      change r < (s.calendar.put t o).world.nextId at hr
      exact decide_eq_true (by omega)

theorem Accounts.step {s' : BacklogCalendar ι} (h : s.Accounts rules)
    (hs : s.calendar.Reachable) (hstep : BacklogCalendar.step s a = some s')
    (hprov : s.Provides rules a) (hclears : s.Clears rules a)
    (hrace : AtTop Unraced s.calendar a) : s'.Accounts rules := by
  obtain ⟨c, hc, rfl⟩ := Option.map_eq_some_iff.mp hstep
  obtain ⟨t, f, rest, o, hf, hmoved, rfl⟩ := step_cases hc
  have hst := stepped_of_moved hf hmoved
  have hknown : ∀ n ∈ s.calendar.backlogNotices a ++ s.trace,
      n.rule < s.calendar.world.nextId :=
    List.forall_mem_append.mpr ⟨fun n hn => hs.known.frames.top hf _
      (mem_rules_of_tends (notices_tends hmoved hf n hn)), h.known⟩
  have hjob (i : Nat) (o' : Occurrence) (ho : o' ∈ s.calendar.world.job i) :
      o' ∈ o.world.job i ∧ o.world.delays i = s.calendar.world.delays i := by
    rcases hst.move.jobs hs.tasks.inv with ⟨hjobs, -, hnone⟩ |
      ⟨r, planned, observed, immediate, caller, j, -, -, -, hnew, tasks, hw⟩
    · exact ⟨(congrFun hjobs i).trans ho, congrFun (hst.move.delays hnone) i⟩
    · have hne := Nat.ne_of_lt ((h.handedOut i o' ho).trans_le hnew.fresh)
      rw [show o.world.job = _ from congrArg CalendarWorld.job hw,
        show o.world.delays = _ from congrArg CalendarWorld.delays hw]
      exact ⟨(Function.update_of_ne hne ..).trans ho, Function.update_of_ne hne ..⟩
  exact
    { known := fun n hn => by
        rcases hst.move.nextId with heq | heq
        · exact (hknown n hn).trans_eq heq.symm
        · exact (hknown n hn).trans_le (heq ▸ Nat.le_succ _)
      handedOut := fun i o' ho => by
        rcases hst.move.jobs hs.tasks.inv with ⟨hjobs, -⟩ |
          ⟨r, planned, observed, immediate, caller, j, -, -, -, hnew, tasks, hw⟩
        · exact (hst.move.handedOut hs.tasks.inv (h.handedOut i o' (hjobs ▸ ho))).1
        · by_cases hij : i = j
          · exact hij ▸ hnew.known
          · change o' ∈ o.world.job i at ho
            rw [show o.world.job = _ from congrArg CalendarWorld.job hw] at ho
            exact (hst.move.handedOut hs.tasks.inv
              (h.handedOut i o' ((Function.update_of_ne hij ..).symm.trans ho))).1
      one := h.one_step hs hst hrace
      frames := h.frames_step hs hf hmoved hprov hclears hrace hknown hjob
      first := h.first_step hs hst
      pending := h.pending_step hs hst hrace
      bound := h.bound_step hf hmoved hknown
      accounted := fun _ => h.accounted_step hs hf hmoved hprov hjob }

omit [DecidableEq ι] in
/-- A rule that has something to catch up with has done so, or is about to. -/
theorem Accounts.underway (h : s.Accounts rules) {r : Nat} {missed : Int}
    (hr : r < s.calendar.world.nextId)
    (hmissed : (accountOf s.calendar.world s.trace r).missed rules r = some missed) :
    catchUps r s.trace = 1 ∨ s.calendar.Underway r missed := by
  have hdone (hd : (accountOf s.calendar.world s.trace r).Done rules r) :
      catchUps r s.trace = 1 := by
    unfold Account.Done at hd
    rw [hmissed] at hd
    exact hd
  have hfits {planned : Int}
      (hfit : (accountOf s.calendar.world s.trace r).Fits rules r planned) :
      catchUps r s.trace = 1 ∨ planned = missed := by
    rcases hfit with ⟨heq, -⟩ | ⟨-, hd⟩
    · exact .inr (Option.some.inj (heq.symm.trans hmissed))
    · exact .inl (hdone hd)
  rcases h.accounted r hr with
    hgone | ⟨t, ht⟩ | ⟨hex, -⟩ | ⟨hfit, i, ho, hprompt, hpending⟩
  · exact .inr (.gone hgone)
  · obtain ⟨g, hg, htends⟩ := List.any_eq_true.mp ht
    have hsound := h.frames t g hg
    have hadding (hadds : g.adds r) : s.calendar.Underway r missed :=
      .adding ⟨t, List.any_eq_true.mpr ⟨g, hg, hadds⟩⟩
    cases g
    case adding => exact .inr (hadding htends)
    case scheduleOne q planned observed immediate caller =>
      cases caller with
      | addRule => exact .inr (hadding htends)
      | scheduleAfterRun =>
          obtain rfl : q = r := of_decide_eq_true htends
          exact .inl (hdone hsound.1.2)
    case publish q planned observed i caller =>
      cases caller with
      | addRule => exact .inr (hadding htends)
      | scheduleAfterRun =>
          obtain rfl : q = r := of_decide_eq_true htends
          exact .inl (hdone hsound.1.2)
    case running run pc =>
      obtain ⟨hended, hrule⟩ := Bool.and_eq_true_iff.mp htends
      obtain rfl : run.rule = r := of_decide_eq_true hrule
      have hcalling (hfit : (accountOf s.calendar.world s.trace run.rule).Fits rules
          run.rule run.planned)
          (hcalls : callsFor run.rule run.planned (.running run pc)) :
          catchUps run.rule s.trace = 1 ∨ s.calendar.Underway run.rule missed := by
        refine (hfits hfit).imp_right fun heq => .calling ⟨t, ?_⟩
        exact List.any_eq_true.mpr ⟨_, hg, heq ▸ hcalls⟩
      cases pc
      case due | before | calling =>
        exact hcalling hsound (by simp [callsFor])
      case cancelled => cases hended
      case failed | rethrowing | finishing => exact .inl (hdone hsound)
      all_goals exact .inl (hdone hsound.1)
    case markCompleted q =>
      obtain rfl : q = r := of_decide_eq_true htends
      exact .inl (hdone hsound)
    all_goals cases htends
  · exact .inr (.withdrawn hex)
  · refine (hfits hfit).imp_right fun heq => ?_
    rw [heq] at ho hprompt
    exact .pending i ho (hprompt hmissed) hpending

omit [DecidableEq ι] in
theorem Accounts.oneCatchUp (h : s.Accounts rules) : s.OneCatchUp rules := by
  have hmissed {r : Nat} {created last : Int} (hcreated : createdAt r s.trace = some created)
      (hlast : (s.calendar.world.states r).options.lastDueUtcMs = some last) :
      (accountOf s.calendar.world s.trace r).missed rules r =
        if (s.calendar.world.states r).options.missedPolicy = .runOnceImmediately then
          (rules.next r last).filter (· ≤ created)
        else none := by
    unfold Account.missed
    rw [show (accountOf s.calendar.world s.trace r).created = some created from hcreated,
      Option.bind_some]
    exact BuiltinRules.backlog_of_last hlast
  have hnone {r : Nat}
      (hno : (accountOf s.calendar.world s.trace r).missed rules r = none) :
      catchUps r s.trace = 0 := by
    rcases h.bound r with hzero | hd
    · exact hzero
    · unfold Account.Done at hd
      rw [hno] at hd
      exact hd
  refine
    { skip := fun r hskip => hnone ?_
      atMost := fun r => ?_
      none := fun r created hcreated last hlast hafter => hnone ?_
      exact := fun r honce created hcreated last hlast missed hnext hle => ?_ }
  · refine Option.eq_none_iff_forall_ne_some.mpr fun missed heq => ?_
    cases hskip.symm.trans (Account.missed_eq_some heq).1
  · rcases h.bound r with hzero | hd
    · exact hzero.trans_le (Nat.zero_le 1)
    · change (accountOf s.calendar.world s.trace r).catchUps ≤ 1
      rw [hd]
      split <;> decide
  · rw [hmissed hcreated hlast]
    have hfilter : (rules.next r last).filter (· ≤ created) = none :=
      Option.filter_eq_none_iff.mpr fun next hnext =>
        by simpa using hafter next hnext
    rw [hfilter, ite_self]
  · refine h.underway ?_ ?_
    · by_contra hlt
      have hunheard : ∀ n ∈ s.trace, n.rule ≠ r := fun n hn =>
        Nat.ne_of_lt ((h.known n hn).trans_le (Nat.not_lt.mp hlt))
      have hnever : createdAt r s.trace = none :=
        congrArg Account.created (accountOf_unheard (w := {}) hunheard)
      cases hnever.symm.trans hcreated
    · rw [hmissed hcreated hlast, if_pos honce]
      exact Option.filter_eq_some_iff.mpr ⟨hnext, decide_eq_true hle⟩

/-- In every run in which built-in providers answer and no rule is found before
its task is published, what was missed before a rule was created makes it run at
most once, provided that the run for it clears the rest. -/
theorem run_oneCatchUp {as : List (CalendarAction ι)} {s : BacklogCalendar ι}
    (hrun : Lts.run BacklogCalendar.step {} as = some s)
    (hprov : Lts.RunMeets BacklogCalendar.step (Provides rules) {} as)
    (hrace : Lts.RunMeets BacklogCalendar.step
      (fun s a => AtTop Unraced s.calendar a) {} as)
    (hclears : Lts.RunMeets BacklogCalendar.step (Clears rules) {} as) :
    s.OneCatchUp rules := by
  have h : s.calendar.Reachable ∧ s.Accounts rules := by
    refine Lts.run_invariant_of_meets
      (P := fun s => s.calendar.Reachable ∧ s.Accounts rules) ?_
      ⟨Lts.Reachable.refl _, .init rules⟩ (hprov.and (hrace.and hclears)) hrun
    rintro s a s' ⟨hs, h⟩ ⟨hprov, hrace, hclears⟩ hstep
    refine ⟨?_, h.step hs hstep hprov hclears hrace⟩
    obtain ⟨c, hc, rfl⟩ := Option.map_eq_some_iff.mp hstep
    exact hs.trans_run (Lts.run_one hc)
  exact h.2.oneCatchUp

end Step

/-! ## A rule that has missed two -/

/-- Every rule is due at nine. -/
def dueAtNine : BuiltinRules Unit where
  ts := summerTime
  rule _ := .daily 32400
  clock _ := { hasNamedZone := false, zone := (), offsetAtUtcMs := fun _ => 0 }

/-- The rule was due last on day 0 and is added on day 2, at ten. -/
def missesTwo (overlap : CalendarOverlapPolicy) : List (CalendarAction Unit) :=
  [.call () (.addRule
      { missedPolicy := .runOnceImmediately, overlapPolicy := overlap,
        lastDueUtcMs := some 32400000 }),
    .advance () {}, .advance () { utc := 208800000 }] ++ calendarAdvances () 2 ++
  [.ret () (some 118800000)] ++ calendarAdvances () 5

/-- `process()` up to the callback of the rule. -/
def callsBack : List (CalendarAction Unit) :=
  [.call () (.process 0 1)] ++ calendarAdvances () 3 ++
  [.advance () { utc := 208800000 }] ++ calendarAdvances () 3

/-- The callback returns, and the provider is asked for the next occurrence. -/
def asksAgain : List (CalendarAction Unit) :=
  [.ret () none, .advance () {}, .advance () { utc := 208800000 }] ++
  calendarAdvances () 5 ++ [.ret () (some 205200000)] ++ calendarAdvances () 2

/-- Where one occurrence is queued after the current one, both run. -/
theorem oneCatchUp_fails : ∃ s : BacklogCalendar Unit,
    Lts.run BacklogCalendar.step {} (missesTwo .queueOneAfterCurrent ++ callsBack ++
      asksAgain ++ calendarAdvances () 4 ++ callsBack) = some s ∧
    Lts.RunMeets BacklogCalendar.step (Provides dueAtNine) {}
      (missesTwo .queueOneAfterCurrent ++ callsBack ++ asksAgain ++
        calendarAdvances () 4 ++ callsBack) ∧
    ¬ s.OneCatchUp dueAtNine := by
  obtain ⟨s, hs, htwo⟩ : ∃ s : BacklogCalendar Unit,
      Lts.run BacklogCalendar.step {} (missesTwo .queueOneAfterCurrent ++ callsBack ++
        asksAgain ++ calendarAdvances () 4 ++ callsBack) = some s ∧
      catchUps 1 s.trace = 2 :=
    Lts.exists_run_of_decide (by decide +kernel)
  refine ⟨s, hs, .of_checks (by decide +kernel), fun h => ?_⟩
  exact absurd (htwo ▸ h.atMost 1) (by decide)

/-- Where they are skipped, only the first does. -/
theorem run_oneCatchUp_skips : ∃ s : BacklogCalendar Unit,
    Lts.run BacklogCalendar.step {} (missesTwo .skip ++ callsBack ++ asksAgain ++
      [.ret () (some 291600000)] ++ calendarAdvances () 5) = some s ∧
      catchUps 1 s.trace = 1 ∧ s.OneCatchUp dueAtNine := by
  obtain ⟨s, hs, hone⟩ : ∃ s : BacklogCalendar Unit,
      Lts.run BacklogCalendar.step {} (missesTwo .skip ++ callsBack ++ asksAgain ++
        [.ret () (some 291600000)] ++ calendarAdvances () 5) = some s ∧
      catchUps 1 s.trace = 1 :=
    Lts.exists_run_of_decide (by decide +kernel)
  exact ⟨s, hs, hone, run_oneCatchUp hs (.of_checks (by decide +kernel))
    (.of_checks (by decide +kernel)) (.of_checks (by decide +kernel))⟩

end BacklogCalendar

end EventHub
