import EventHub.Lib.Lts
import EventHub.Loop.Rounds
import EventHub.Proofs.HubLoop
import EventHub.Proofs.RunLoop

/-!
# What a wait is as long as

By the time a loop waits it has processed every bus in the same round, and has
asked every source for its deadline; the wait ends with the earliest that was
answered. Awaiters of a bus are looked at in its `process()` and not asked, so
their timeouts bound no wait.
-/

namespace EventHub

variable {ι β κ τ ε : Type}

/-- Each of `l` is still to come or done with. -/
def Covers {α : Type} (l rest done : List α) : Prop :=
  ∀ x ∈ l, x ∈ rest ∨ x ∈ done

theorem Covers.start {α : Type} (l done : List α) : Covers l l done := fun _ => .inl

theorem Covers.next {α : Type} {l rest done : List α} {x : α}
    (h : Covers l (x :: rest) done) : Covers l rest (x :: done) := by
  intro y hy
  rcases h y hy with hy | hy
  · rcases List.mem_cons.mp hy with rfl | hy
    · exact .inr List.mem_cons_self
    · exact .inl hy
  · exact .inr (List.mem_cons_of_mem _ hy)

theorem Covers.all {α : Type} {l done : List α} (h : Covers l [] done) :
    ∀ x ∈ l, x ∈ done :=
  fun x hx => (h x hx).resolve_left List.not_mem_nil

namespace Round

def asked (round : Round β κ) : List κ := round.tasks.map Prod.fst

@[simp] theorem deadlines_answered (round : Round β κ) (k : κ) (answer : Option Int) :
    (round.answered k answer).deadlines = answer.toList ++ round.deadlines := by
  cases answer <;> rfl

theorem mem_deadlines_hinted (round : Round β κ) (k : κ) (answer : Option Int)
    (d : Int) : d ∈ (round.hinted k answer).deadlines ↔
      answer = some d ∨ d ∈ round.deadlines := by
  unfold deadlines hinted
  cases answer <;> simp [List.filterMap_append, or_left_comm, eq_comm]

end Round

/-! ## `RunLoop` -/

/-- The time from `now` to a deadline. -/
def waitUntil (now d : Int) : Int := if d ≤ now then 0 else d - now

/-- The shortest of the waits until these deadlines. -/
structure ShortestWait (now : Int) (ds : List Int) (wait : Option Int) : Prop where
  none_iff : wait = none ↔ ds = []
  reached : ∀ w, wait = some w → ∃ d ∈ ds, w = waitUntil now d
  least : ∀ w, wait = some w → ∀ d ∈ ds, w ≤ waitUntil now d

theorem ShortestWait.nil (now : Int) : ShortestWait now [] none where
  none_iff := ⟨fun _ => rfl, fun _ => rfl⟩
  reached _ h := by cases h
  least _ h := by cases h

theorem ShortestWait.shorter {now : Int} {ds : List Int} {best : Option Int}
    (h : ShortestWait now ds best) (answer : Option Int) :
    ShortestWait now (answer.toList ++ ds) (shorterWait now best answer) := by
  cases answer with
  | none => exact h
  | some d =>
      cases best with
      | none =>
          obtain rfl := h.none_iff.mp rfl
          refine ⟨by simp [shorterWait], ?_, ?_⟩
          · rintro w ⟨⟩
            exact ⟨d, List.mem_singleton.mpr rfl, rfl⟩
          · rintro w ⟨⟩ d' hd'
            rw [List.mem_singleton.mp hd']
            exact Int.le_refl _
      | some best =>
          have hwait : shorterWait now (some best) (some d) =
              some (if waitUntil now d < best then waitUntil now d else best) := rfl
          obtain ⟨d₀, hd₀, hbest⟩ := h.reached best rfl
          rw [hwait]
          refine ⟨by simp, ?_, ?_⟩
          · rintro w ⟨⟩
            split
            · exact ⟨d, List.mem_cons_self, rfl⟩
            · exact ⟨d₀, List.mem_cons_of_mem _ hd₀, hbest⟩
          · rintro w ⟨⟩ d' hd'
            rcases List.mem_cons.mp hd' with rfl | hd'
            · split <;> omega
            · have hle := h.least best rfl d' hd'
              split <;> omega

/-- What the round of a `RunLoop` has done by the time it waits. -/
structure WaitOfRound (setup : RunLoopSetup ι β κ) (round : Round β κ) (now : Int)
    (wait : Option Int) : Prop where
  processed : ∀ b ∈ setup.buses, b ∈ round.processed
  asked : ∀ k ∈ setup.taskManagers, k ∈ round.asked
  unbounded : wait = none ↔ round.deadlines = []
  reached : ∀ w, wait = some w → ∃ d ∈ round.deadlines, w = d - now
  least : ∀ w, wait = some w → ∀ d ∈ round.deadlines, w ≤ d - now

/-- No source has been asked yet. -/
structure Unasked (setup : RunLoopSetup ι β κ) (rest : List β) (round : Round β κ) :
    Prop where
  processed : Covers setup.buses rest round.processed
  deadlines : round.deadlines = []

structure Asking (setup : RunLoopSetup ι β κ) (now : Int) (rest : List κ)
    (best : Option Int) (round : Round β κ) : Prop where
  processed : Covers setup.buses [] round.processed
  asked : Covers setup.taskManagers rest round.asked
  shortest : ShortestWait now round.deadlines best

def LoopPc.InRound (setup : RunLoopSetup ι β κ) (round : Round β κ) :
    LoopPc β κ → Prop
  | .head | .shouldStop none | .capture | .returned | .threw => True
  | .buses _ rest _ => Unasked setup rest round
  | .inBus _ b rest _ => Unasked setup (b :: rest) round
  | .managers .. | .inManager .. | .recheck _ | .shouldStop (some _) | .pending ..
  | .ready .. | .clock _ => Unasked setup [] round
  | .nextWait _ now rest best => Asking setup now rest best round
  | .deadline _ now k rest best => Asking setup now (k :: rest) best round
  | .waiting _ now wait => WaitOfRound setup round now wait

theorem Asking.next {setup : RunLoopSetup ι β κ} {now : Int} {k : κ} {rest : List κ}
    {best : Option Int} {round : Round β κ} (h : Asking setup now (k :: rest) best round)
    (answer : Option Int) :
    Asking setup now rest (shorterWait now best answer) (round.answered k answer) where
  processed := h.processed
  asked := h.asked.next
  shortest := by
    rw [Round.deadlines_answered]
    exact h.shortest.shorter answer

/-- Nothing is due, so the loop waits. -/
theorem Asking.waits {setup : RunLoopSetup ι β κ} {now : Int} {best : Option Int}
    {round : Round β κ} (h : Asking setup now [] best round)
    (hlate : ¬ best.any (· ≤ 0) = true) : WaitOfRound setup round now best := by
  have hpos : ∀ w, best = some w → 0 < w := by
    rintro w rfl
    simpa using hlate
  refine ⟨h.processed.all, h.asked.all, h.shortest.none_iff, fun w hw => ?_,
    fun w hw d hd => ?_⟩
  · obtain ⟨d, hd, hwait⟩ := h.shortest.reached w hw
    have := hpos w hw
    refine ⟨d, hd, ?_⟩
    unfold waitUntil at hwait
    split at hwait <;> omega
  · have hle := h.shortest.least w hw d hd
    have := hpos w hw
    unfold waitUntil at hle
    split at hle <;> omega

variable [DecidableEq ι] [DecidableEq β] [DecidableEq κ] [Fintype ι] [RequestTraits ε]

namespace RecordedLoop

variable {setup : RunLoopSetup ι β κ} {s s' : RecordedLoop ι β κ τ ε}

theorem inRound_advance {now : Int} {loop : RunLoop ι β κ τ ε}
    (hs : s.loop.pc.InRound setup s.round)
    (h : s.loop.advance setup now = some loop) :
    loop.pc.InRound setup (s.recorded loop.pc) := by
  obtain ⟨⟨sources, pc⟩, round⟩ := s
  change pc.InRound setup round at hs
  cases pc with
  | head =>
      simp only [RunLoop.advance] at h
      split at h <;> cases h <;> trivial
  | capture =>
      cases h
      exact ⟨.start _ _, rfl⟩
  | buses g rest workDone =>
      cases rest with
      | nil =>
          cases h
          exact hs
      | cons b rest =>
          simp only [RunLoop.advance] at h
          split at h
          · obtain ⟨sources', -, rfl⟩ := Option.map_eq_some_iff.mp h
            exact hs
          · cases h
  | managers g rest workDone =>
      cases rest with
      | nil =>
          simp only [RunLoop.advance] at h
          split at h <;> cases h
          · trivial
          · exact hs
      | cons k rest =>
          obtain ⟨sources', -, rfl⟩ := Option.map_eq_some_iff.mp h
          exact hs
  | recheck g =>
      simp only [RunLoop.advance] at h
      split at h <;> cases h
      · trivial
      · exact hs
  | pending g rest | ready g rest =>
      cases rest with
      | nil =>
          cases h
          exact hs
      | cons =>
          simp only [RunLoop.advance] at h
          split at h <;> cases h <;> first | exact hs | exact True.intro
  | clock g =>
      cases h
      have hshortest : ShortestWait now round.deadlines none := by
        rw [hs.deadlines]
        exact .nil now
      exact ⟨hs.processed, .start _ _, hshortest⟩
  | nextWait g now' rest best =>
      cases rest with
      | nil =>
          simp only [RunLoop.advance] at h
          split at h <;> cases h
          · trivial
          · next hlate => exact hs.waits hlate
      | cons k rest =>
          simp only [RunLoop.advance] at h
          split at h <;> cases h
          · trivial
          · exact hs
  | deadline g now' k rest best =>
      obtain ⟨sources', -, rfl⟩ := Option.map_eq_some_iff.mp h
      exact hs.next _
  | inBus | inManager | shouldStop | waiting | returned | threw => cases h

omit [Fintype ι] [RequestTraits ε] in
theorem inRound_source {a : SourceAction ι β κ Unit Unit τ ε}
    {sources : Sources ι β κ Unit Unit τ ε} (hs : s.loop.pc.InRound setup s.round) :
    (RunLoop.afterSource setup s.loop.sources sources a s.loop.pc).InRound setup
      (s.recorded (RunLoop.afterSource setup s.loop.sources sources a s.loop.pc)) := by
  obtain ⟨⟨sources₀, pc⟩, round⟩ := s
  change pc.InRound setup round at hs
  cases pc with
  | inBus g b rest workDone =>
      simp only [RunLoop.afterSource]
      split
      · exact hs
      · exact ⟨hs.processed.next, hs.deadlines⟩
      · trivial
  | inManager g k rest workDone =>
      simp only [RunLoop.afterSource]
      split
      · exact hs
      · exact hs
      · trivial
  | shouldStop generation => cases generation <;> exact hs
  | _ => exact hs

theorem inRound_step {a : RunLoopAction ι β κ τ ε}
    (hs : s.loop.pc.InRound setup s.round) (h : s.step setup a = some s') :
    s'.loop.pc.InRound setup s'.round := by
  obtain ⟨loop, hloop, rfl⟩ := Option.map_eq_some_iff.mp h
  show loop.pc.InRound setup (s.recorded loop.pc)
  cases a with
  | source act =>
      simp only [RunLoop.step] at hloop
      split at hloop
      · cases hloop
      · obtain ⟨sources, -, rfl⟩ := Option.map_eq_some_iff.mp hloop
        exact inRound_source hs
  | advance now => exact inRound_advance hs hloop
  | shouldStop result =>
      obtain ⟨⟨sources, pc⟩, round⟩ := s
      cases pc with
      | shouldStop generation =>
          simp only [RunLoop.step] at hloop
          split at hloop <;> cases hloop
          cases result with
          | true => trivial
          | false =>
              cases generation with
              | none => trivial
              | some g => exact hs
      | _ => cases hloop
  | shouldStopThrew =>
      simp only [RunLoop.step] at hloop
      split at hloop <;> cases hloop
      trivial
  | wake =>
      simp only [RunLoop.step] at hloop
      split at hloop
      · split at hloop <;> cases hloop
        trivial
      · cases hloop

end RecordedLoop

/-! ## The hub -/

/-- The earliest of these deadlines. -/
structure EarliestDeadline (ds : List Int) (best : Option Int) : Prop where
  none_iff : best = none ↔ ds = []
  mem : ∀ d, best = some d → d ∈ ds
  least : ∀ d, best = some d → ∀ d' ∈ ds, d ≤ d'

theorem EarliestDeadline.nil : EarliestDeadline [] none where
  none_iff := ⟨fun _ => rfl, fun _ => rfl⟩
  mem _ h := by cases h
  least _ h := by cases h

theorem EarliestDeadline.earlier {ds ds' : List Int} {best answer : Option Int}
    (h : EarliestDeadline ds best)
    (hds : ∀ d, d ∈ ds' ↔ answer = some d ∨ d ∈ ds) :
    EarliestDeadline ds' (earlierDeadline best answer) := by
  cases answer with
  | none =>
      have hsame : ∀ d, d ∈ ds' ↔ d ∈ ds := fun d => by simp [hds]
      refine ⟨?_, fun d hd => (hsame d).mpr (h.mem d hd),
        fun d hd d' hd' => h.least d hd d' ((hsame d').mp hd')⟩
      refine h.none_iff.trans ?_
      simp only [List.eq_nil_iff_forall_not_mem, hsame]
  | some e =>
      have he : e ∈ ds' := (hds e).mpr (.inl rfl)
      have hold : ∀ d ∈ ds, d ∈ ds' := fun d hd => (hds d).mpr (.inr hd)
      have hnot : ds' ≠ [] := List.ne_nil_of_mem he
      cases best with
      | none =>
          obtain rfl := h.none_iff.mp rfl
          refine ⟨by simp [earlierDeadline, hnot], ?_, ?_⟩
          · rintro d ⟨⟩
            exact he
          · rintro d ⟨⟩ d' hd'
            rcases (hds d').mp hd' with heq | hd'
            · exact (Option.some.inj heq).le
            · exact absurd hd' List.not_mem_nil
      | some best =>
          have hbest : earlierDeadline (some best) (some e) =
              some (if e < best then e else best) := rfl
          rw [hbest]
          refine ⟨by simp [hnot], ?_, ?_⟩
          · rintro d ⟨⟩
            split
            · exact he
            · exact hold best (h.mem best rfl)
          · rintro d ⟨⟩ d' hd'
            rcases (hds d').mp hd' with heq | hd'
            · have hd : e = d' := Option.some.inj heq
              split <;> omega
            · have hle := h.least best rfl d' hd'
              split <;> omega

section Hub

variable {ι κ : Type}

/-- The module has been asked for its hint, and for the deadline of its tasks if
they are the hub's. -/
structure Answered (setup : HubSetup ι κ) (round : Round Unit κ) (k : κ) : Prop where
  hint : k ∈ round.hints.map Prod.fst
  tasks : setup.execution k = .inlineInHub → k ∈ round.asked

/-- What the round of a hub has done by the time it waits. -/
structure HubWaitOfRound (setup : HubSetup ι κ) (live : κ → Bool)
    (round : Round Unit κ) (deadline : Option Int) : Prop where
  processed : () ∈ round.processed
  asked : ∀ k ∈ setup.modules, live k = true → Answered setup round k
  earliest : EarliestDeadline round.deadlines deadline

structure HubAsking (setup : HubSetup ι κ) (live : κ → Bool) (rest : List κ)
    (best : Option Int) (round : Round Unit κ) : Prop where
  processed : () ∈ round.processed
  asked : ∀ k ∈ setup.modules, live k = true → k ∈ rest ∨ Answered setup round k
  earliest : EarliestDeadline round.deadlines best

def HubLoopPc.InRound (setup : HubSetup ι κ) (live : κ → Bool)
    (round : Round Unit κ) : HubLoopPc κ → Prop
  | .head | .capture | .returned | .threw => True
  | .bus _ | .inBus _ => round.deadlines = []
  | .deadline _ rest best => HubAsking setup live rest best round
  | .deadlineTasks _ k rest best => HubAsking setup live (k :: rest) best round
  | .deadlineHint _ k rest best =>
      HubAsking setup live (k :: rest) best round ∧
        (setup.execution k = .inlineInHub → k ∈ round.asked)
  | .clock _ d => HubWaitOfRound setup live round (some d)
  | .waiting _ wait =>
      HubWaitOfRound setup live round (wait.map TimedWait.deadline)
  | _ => () ∈ round.processed ∧ round.deadlines = []

variable {setup : HubSetup ι κ} {live live' : κ → Bool} {round : Round Unit κ}
  {k : κ} {rest : List κ} {best : Option Int}

theorem Answered.answered (h : Answered setup round k) (j : κ) (answer : Option Int) :
    Answered setup (round.answered j answer) k where
  hint := h.hint
  tasks hk := List.mem_cons_of_mem _ (h.tasks hk)

theorem Answered.hinted (h : Answered setup round k) (j : κ) (answer : Option Int) :
    Answered setup (round.hinted j answer) k where
  hint := List.mem_cons_of_mem _ h.hint
  tasks := h.tasks

/-- `next_deadline()` of a module's manager has answered. -/
theorem HubAsking.answered (h : HubAsking setup live rest best round) (j : κ)
    (answer : Option Int) :
    HubAsking setup live rest (earlierDeadline best answer) (round.answered j answer) where
  processed := h.processed
  asked k hk hlive := (h.asked k hk hlive).imp_right fun h => h.answered j answer
  earliest := h.earliest.earlier fun d => by
    rw [Round.deadlines_answered, List.mem_append, Option.mem_toList]

/-- A module is done with. -/
theorem HubAsking.hinted (h : HubAsking setup live (k :: rest) best round)
    (hasked : setup.execution k = .inlineInHub → k ∈ round.asked)
    (answer : Option Int) :
    HubAsking setup live rest (earlierDeadline best answer) (round.hinted k answer) where
  processed := h.processed
  asked j hj hlive := by
    rcases h.asked j hj hlive with hmem | hdone
    · rcases List.mem_cons.mp hmem with rfl | hmem
      · exact .inr ⟨List.mem_cons_self, hasked⟩
      · exact .inl hmem
    · exact .inr (hdone.hinted k answer)
  earliest := h.earliest.earlier (round.mem_deadlines_hinted k answer)

/-- So is one that is not live. -/
theorem HubAsking.skip (h : HubAsking setup live (k :: rest) best round)
    (hdead : ¬ live k = true) : HubAsking setup live rest best round where
  processed := h.processed
  asked j hj hlive := by
    refine (h.asked j hj hlive).imp_left fun hmem => ?_
    rcases List.mem_cons.mp hmem with rfl | hmem
    · exact absurd hlive hdead
    · exact hmem
  earliest := h.earliest

theorem HubAsking.waits (h : HubAsking setup live [] best round) :
    HubWaitOfRound setup live round best where
  processed := h.processed
  asked k hk hlive := (h.asked k hk hlive).resolve_left List.not_mem_nil
  earliest := h.earliest

/-- Modules may cease to be live. -/
theorem HubLoopPc.InRound.mono {pc : HubLoopPc κ} (h : pc.InRound setup live round)
    (hlive : ∀ k, live' k = true → live k = true) : pc.InRound setup live' round := by
  cases pc with
  | deadline | deadlineTasks =>
      exact ⟨h.processed, fun k hk hk' => h.asked k hk (hlive k hk'), h.earliest⟩
  | deadlineHint =>
      exact ⟨⟨h.1.processed, fun k hk hk' => h.1.asked k hk (hlive k hk'),
        h.1.earliest⟩, h.2⟩
  | clock | waiting =>
      exact ⟨h.processed, fun k hk hk' => h.asked k hk (hlive k hk'), h.earliest⟩
  | _ => exact h

/-- While code of the program runs on the hub's thread, no module has been asked. -/
theorem HubLoopPc.InRound.of_runsCode {pc : HubLoopPc κ}
    (h : pc.InRound setup live round) (hcode : pc.runsCode = true) :
    pc.InRound setup live' round := by
  cases pc with
  | inBus | inTasks | onProcess | returned | threw => exact h
  | _ => cases hcode

end Hub

namespace RecordedHub

variable {setup : HubSetup ι κ} {s s' : RecordedHub ι κ τ ε}

theorem inRound_advance {now : Int} {hub : HubLoop ι κ τ ε}
    (hs : s.hub.pc.InRound setup s.hub.live s.round)
    (h : s.hub.advance setup now = some hub) :
    hub.pc.InRound setup hub.live (s.recorded hub.pc) := by
  obtain ⟨⟨sources, live, hint, pc, workers⟩, round⟩ := s
  change pc.InRound setup live round at hs
  cases pc with
  | head =>
      simp only [HubLoop.advance] at h
      split at h <;> cases h <;> trivial
  | capture =>
      cases h
      rfl
  | bus g =>
      simp only [HubLoop.advance] at h
      split at h
      · obtain ⟨sources', -, rfl⟩ := Option.map_eq_some_iff.mp h
        exact hs
      · cases h
  | modules g rest workDone | hooks g rest workDone =>
      cases rest with
      | nil =>
          first
          | (cases h; exact hs)
          | (simp only [HubLoop.advance] at h
             split at h <;> cases h <;> first | exact hs | exact True.intro)
      | cons k rest =>
          simp only [HubLoop.advance] at h
          split at h
          · obtain ⟨sources', -, rfl⟩ := Option.map_eq_some_iff.mp h
            trivial
          · cases h
            exact hs
  | moduleLive g k rest workDone =>
      simp only [HubLoop.advance] at h
      split at h
      · obtain ⟨sources', -, rfl⟩ := Option.map_eq_some_iff.mp h
        exact hs
      · cases h
        exact hs
  | hookLive g k rest workDone =>
      simp only [HubLoop.advance] at h
      split at h <;> cases h <;> exact hs
  | recheck g | pendingBus g | pendingReady g clock k rest
  | pendingHint g clock k rest =>
      simp only [HubLoop.advance] at h
      split at h <;> cases h <;> first | exact hs | exact True.intro
  | pendingClock g =>
      cases h
      exact hs
  | pending g clock rest =>
      cases rest with
      | nil =>
          cases h
          refine ⟨hs.1, fun k hk _ => .inl hk, ?_⟩
          show EarliestDeadline round.deadlines none
          rw [hs.2]
          exact .nil
      | cons k rest =>
          simp only [HubLoop.advance] at h
          split at h
          · split at h <;> cases h <;> exact hs
          · cases h
            exact hs
  | pendingTasks g clock k rest =>
      obtain ⟨sources', -, rfl⟩ := Option.map_eq_some_iff.mp h
      split
      · trivial
      · exact hs
  | deadline g rest best =>
      cases rest with
      | nil =>
          cases best with
          | none =>
              cases h
              exact hs.waits
          | some d =>
              cases h
              exact hs.waits
      | cons k rest =>
          simp only [HubLoop.advance] at h
          split at h
          · split at h <;> cases h
            · exact hs
            · next hmode => exact ⟨hs, fun hinline => absurd hinline hmode⟩
          · next hdead =>
              cases h
              exact hs.skip hdead
  | deadlineTasks g k rest best =>
      obtain ⟨sources', -, rfl⟩ := Option.map_eq_some_iff.mp h
      exact ⟨hs.answered k _, fun _ => List.mem_cons_self⟩
  | deadlineHint g k rest best =>
      cases h
      exact hs.1.hinted hs.2 _
  | clock g d =>
      simp only [HubLoop.advance] at h
      split at h <;> cases h
      · trivial
      · show HubWaitOfRound setup _ _ (some (TimedWait.upTo now d).deadline)
        rw [TimedWait.deadline_upTo]
        exact hs
  | inBus | inTasks | onProcess | waiting | returned | threw => cases h

omit [Fintype ι] [RequestTraits ε] in
theorem inRound_source {a : SourceAction ι Unit κ (HubFlag κ) (HubNotifier κ) τ ε}
    {sources : Sources ι Unit κ (HubFlag κ) (HubNotifier κ) τ ε}
    (hs : s.hub.pc.InRound setup s.hub.live s.round) :
    (HubLoop.afterSource setup s.hub.sources sources a s.hub.pc).InRound setup
      s.hub.live
      (s.recorded (HubLoop.afterSource setup s.hub.sources sources a s.hub.pc)) := by
  obtain ⟨⟨sources₀, live, hint, pc, workers⟩, round⟩ := s
  change pc.InRound setup live round at hs
  cases pc with
  | inBus g =>
      simp only [HubLoop.afterSource]
      split
      · exact hs
      · exact ⟨List.mem_cons_self, hs⟩
      · trivial
  | inTasks g k rest workDone =>
      simp only [HubLoop.afterSource]
      split
      · exact hs
      · exact hs
      · trivial
  | _ => exact hs

omit [DecidableEq ι] [DecidableEq κ] [Fintype ι] [RequestTraits ε] in
/-- Where the hub stays, nothing is recorded. -/
theorem recorded_self : s.recorded s.hub.pc = s.round := by
  obtain ⟨⟨sources, live, hint, pc, workers⟩, round⟩ := s
  cases pc <;> rfl

theorem inRound_step {a : HubLoopAction ι κ τ ε}
    (hs : s.hub.pc.InRound setup s.hub.live s.round)
    (h : s.step setup a = some s') :
    s'.hub.pc.InRound setup s'.hub.live s'.round := by
  obtain ⟨hub, hhub, rfl⟩ := Option.map_eq_some_iff.mp h
  show hub.pc.InRound setup hub.live (s.recorded hub.pc)
  have hstay : hub.pc = s.hub.pc → (∀ k, hub.live k = true → s.hub.live k = true) →
      hub.pc.InRound setup hub.live (s.recorded hub.pc) := by
    intro hpc hlive
    rw [hpc, recorded_self]
    exact hs.mono hlive
  cases a with
  | source act =>
      simp only [HubLoop.step] at hhub
      split at hhub
      · obtain ⟨sources, -, rfl⟩ := Option.map_eq_some_iff.mp hhub
        exact inRound_source hs
      · cases hhub
  | advance now => exact inRound_advance hs hhub
  | onProcessReturned count =>
      obtain ⟨⟨sources, live, hint, pc, workers⟩, round⟩ := s
      cases pc with
      | onProcess g k rest workDone =>
          simp only [HubLoop.step] at hhub
          split at hhub <;> cases hhub
          exact hs
      | _ => cases hhub
  | onProcessThrew =>
      simp only [HubLoop.step] at hhub
      split at hhub <;> cases hhub
      trivial
  | wake =>
      simp only [HubLoop.step] at hhub
      split at hhub
      · split at hhub <;> cases hhub
        trivial
      · cases hhub
  | worker k now =>
      obtain ⟨sources, pc, rfl, -⟩ := HubLoop.advanceWorker_cases hhub
      exact hstay rfl fun _ => id
  | wakeWorker k =>
      simp only [HubLoop.step] at hhub
      split at hhub
      · split at hhub <;> cases hhub
        exact hstay rfl fun _ => id
      · cases hhub
  | stopping t k =>
      simp only [HubLoop.step] at hhub
      split at hhub <;> cases hhub
      refine hstay rfl fun k' hk' => ?_
      change Function.update s.hub.live k false k' = true at hk'
      by_cases hkk : k' = k
      · subst hkk
        rw [Function.update_self] at hk'
        cases hk'
      · rwa [Function.update_of_ne hkk] at hk'
  | initialized k =>
      simp only [HubLoop.step] at hhub
      split at hhub
      · next hcode =>
          cases hhub
          rw [recorded_self]
          exact hs.of_runsCode hcode
      · cases hhub
  | hint k due =>
      simp only [HubLoop.step] at hhub
      split at hhub <;> cases hhub
      exact hstay rfl fun _ => id

end RecordedHub

/-! ## Both loops -/

/-- In every round that comes to a wait. -/
theorem run_waitsForDeadlines :
    (∀ (setup : RunLoopSetup ι β κ) (loop : RunLoop ι β κ τ ε)
      (s : RecordedLoop ι β κ τ ε) (acts : List (RunLoopAction ι β κ τ ε)),
      loop.pc = .head →
      Lts.run (RecordedLoop.step setup) { loop := loop } acts = some s →
      ∀ g now wait, s.loop.pc = .waiting g now wait →
        WaitOfRound setup s.round now wait) ∧
    ∀ (setup : HubSetup ι κ) (hub : HubLoop ι κ τ ε) (s : RecordedHub ι κ τ ε)
      (acts : List (HubLoopAction ι κ τ ε)),
      hub.pc = .head →
      Lts.run (RecordedHub.step setup) { hub := hub } acts = some s →
      ∀ g wait, s.hub.pc = .waiting g wait →
        HubWaitOfRound setup s.hub.live s.round (wait.map TimedWait.deadline) := by
  constructor
  · intro setup loop s acts hpc hrun g now wait hwaiting
    have hinit : loop.pc.InRound setup {} := by
      rw [hpc]
      trivial
    have hend : s.loop.pc.InRound setup s.round :=
      Lts.run_invariant (fun _ _ _ => RecordedLoop.inRound_step) hinit hrun
    rwa [hwaiting] at hend
  · intro setup hub s acts hpc hrun g wait hwaiting
    have hinit : hub.pc.InRound setup hub.live {} := by
      rw [hpc]
      trivial
    have hend : s.hub.pc.InRound setup s.hub.live s.round :=
      Lts.run_invariant (fun _ _ _ => RecordedHub.inRound_step) hinit hrun
    rwa [hwaiting] at hend

/-! ## Runs -/

open RunLoop HubLoop

/-- With a task that is due at 5, both loops wait for 5. -/
theorem run_waitsForDeadlines_late :
    (∃ s, Lts.run (RecordedLoop.step oneOfEach) { loop := idleLoop } lateEvent =
        some s ∧
      s.loop.pc = .waiting 1 0 (some 5) ∧ s.round.deadlines = [5] ∧
      WaitOfRound oneOfEach s.round 0 (some 5)) ∧
    ∃ s, Lts.run (RecordedHub.step oneOfBoth) { hub := idleHub } lateForBoth =
        some s ∧
      s.hub.pc = .waiting 1 (some { now := 0, duration := 5 }) ∧ s.round.deadlines = [5] ∧
      HubWaitOfRound oneOfBoth s.hub.live s.round (some 5) := by
  constructor
  · obtain ⟨s, hrun, hpc, hdeadlines⟩ : ∃ s,
        Lts.run (RecordedLoop.step oneOfEach) { loop := idleLoop } lateEvent =
            some s ∧
          s.loop.pc = .waiting 1 0 (some 5) ∧ s.round.deadlines = [5] :=
      Lts.exists_run_of_decide (by decide +kernel)
    exact ⟨s, hrun, hpc, hdeadlines,
      run_waitsForDeadlines.1 oneOfEach idleLoop s lateEvent rfl hrun 1 0 (some 5) hpc⟩
  · obtain ⟨s, hrun, hpc, hdeadlines⟩ : ∃ s,
        Lts.run (RecordedHub.step oneOfBoth) { hub := idleHub } lateForBoth =
            some s ∧
          s.hub.pc = .waiting 1 (some { now := 0, duration := 5 }) ∧ s.round.deadlines = [5] :=
      Lts.exists_run_of_decide (by decide +kernel)
    exact ⟨s, hrun, hpc, hdeadlines,
      (run_waitsForDeadlines (β := Unit)).2 oneOfBoth idleHub s lateForBoth rfl hrun 1
        _ hpc⟩

/-- A loop that waits does so no longer than until the deadline of any active
awaiter of its buses. -/
def HonoursTimeouts (setup : RunLoopSetup ι β κ) (loop : RunLoop ι β κ τ ε) : Prop :=
  ∀ g now wait, loop.pc = .waiting g now wait → ∀ b ∈ setup.buses,
    ∀ a ∈ (loop.sources.buses b).world.registered,
      (loop.sources.buses b).world.isActive a = true → ∀ due : Nat,
        ((loop.sources.buses b).world.awaiters a).deadline = some due →
          ∃ w, wait = some w ∧ w ≤ due - now

/-- Thread `true` has created an awaiter with a timeout of 5; the loop polls it at
0 and waits, and the clock goes on to 10. -/
def unheardTimeout : List (RunLoopAction Bool Unit Unit Unit Nat) :=
  [.source (.bus () (.call true
    (.createAwaiter { type := 0, timeout := 5, onTimeout := true } none)))] ++
  List.replicate 5 (.source (.bus () (.advance true))) ++
  [.advance 0, .shouldStop false, .advance 0, .advance 0] ++
  List.replicate 9 (.source (.bus () (.advance false))) ++
  [.advance 0, .advance 0, .source (.task false () .processEnd), .advance 0,
    .advance 0, .shouldStop false] ++
  List.replicate 8 (.advance 0) ++ [.source (.bus () (.tick 10))]

/-- The awaiter is due, and nothing wakes the loop. -/
theorem honoursTimeouts_fails : ∃ loop,
    Lts.run (RunLoop.step oneOfEach) idleLoop unheardTimeout = some loop ∧
      ¬ HonoursTimeouts oneOfEach loop ∧
      (loop.sources.buses ()).world.deadlinePassed 0 = true ∧
      loop.step oneOfEach .wake = none := by
  obtain ⟨loop, hrun, hpc, hregistered, hactive, hdeadline, hpassed, hgeneration⟩ :
      ∃ loop, Lts.run (RunLoop.step oneOfEach) idleLoop unheardTimeout = some loop ∧
        loop.pc = .waiting 0 0 none ∧
        0 ∈ (loop.sources.buses ()).world.registered ∧
        (loop.sources.buses ()).world.isActive 0 = true ∧
        ((loop.sources.buses ()).world.awaiters 0).deadline = some 5 ∧
        (loop.sources.buses ()).world.deadlinePassed 0 = true ∧
        loop.sources.generation () = 0 :=
    Lts.exists_run_of_decide (by decide +kernel)
  refine ⟨loop, hrun, fun hhonours => ?_, hpassed, ?_⟩
  · obtain ⟨w, hw, -⟩ := hhonours 0 0 none hpc () (List.mem_singleton.mpr rfl) 0
      hregistered hactive 5 hdeadline
    cases hw
  · unfold RunLoop.step
    dsimp only
    rw [hpc]
    dsimp only
    rw [hgeneration, if_neg]
    simp

end EventHub
