import EventHub.Proofs.HubLoop
import EventHub.Proofs.RunLoop

/-!
# How the loops end

A loop returns when it is asked to and not before. Once it is asked to, it reads
its generation at most once more, and that only if it had already found its flag
down at the head of the round.
-/

namespace EventHub

variable {ι β κ φ ν τ ε : Type}

def SourceAction.raises (f : φ) : SourceAction ι β κ φ ν τ ε → Prop
  | .raise _ f' | .mark _ f' => f' = f
  | _ => False

def SourceAction.lowers (f : φ) : SourceAction ι β κ φ ν τ ε → Prop
  | .lower _ f' => f' = f
  | _ => False

namespace Sources

variable [DecidableEq ι] [DecidableEq β] [DecidableEq κ] [DecidableEq φ]
  [DecidableEq ν] [Fintype ι] [RequestTraits ε] {w : Wiring ι β κ φ ν}
  {s s' : Sources ι β κ φ ν τ ε} {a : SourceAction ι β κ φ ν τ ε} {f : φ}

/-- Flags are raised and lowered by no other actions. -/
theorem flag_of_step (h : s.step w a = some s') (hraise : s.flags f = true ∨ ¬ a.raises f)
    (hlower : s.flags f = false ∨ ¬ a.lowers f) : s'.flags f = s.flags f := by
  cases stepped h with
  | @raise t f' _ | @mark t f' _ =>
      show Function.update s.flags f' true f = _
      rcases hraise with htrue | hother
      · rw [Function.update_apply, htrue, ite_self]
      · exact Function.update_of_ne (fun heq => hother heq.symm) ..
  | @lower t f' _ =>
      show Function.update s.flags f' false f = _
      rcases hlower with hfalse | hother
      · rw [Function.update_apply, hfalse, ite_self]
      · exact Function.update_of_ne (fun heq => hother heq.symm) ..
  | _ => rfl

theorem flag_of_untouched (h : s.step w a = some s') (hraise : ¬ a.raises f)
    (hlower : ¬ a.lowers f) : s'.flags f = s.flags f :=
  flag_of_step h (.inr hraise) (.inr hlower)

end Sources

/-! ## `RunLoop` -/

namespace RunLoopAction

/-- A stop is requested, or `should_stop()` says so. -/
def asksToStop : RunLoopAction ι β κ τ ε → Prop
  | .source a => a.raises ()
  | .shouldStop result => result = true
  | _ => False

/-- `reset_stop()`. -/
def resetsStop : RunLoopAction ι β κ τ ε → Prop
  | .source a => a.lowers ()
  | _ => False

end RunLoopAction

/-- The step by which a round reads its generation. -/
def RunLoop.readsGeneration (loop : RunLoop ι β κ τ ε) :
    RunLoopAction ι β κ τ ε → Bool
  | .advance _ =>
      match loop.pc with
      | .capture => true
      | _ => false
  | _ => false

/-- On the way from the head of the loop to a new round. -/
def LoopPc.beginsRound : LoopPc β κ → Bool
  | .shouldStop none | .capture => true
  | _ => false

namespace RunLoop

variable [DecidableEq ι] [DecidableEq β] [DecidableEq κ] [Fintype ι]
  [RequestTraits ε] {setup : RunLoopSetup ι β κ} {loop loop' : RunLoop ι β κ τ ε}

/-- What the loop itself does about its flag. -/
structure MindsFlag (loop loop' : RunLoop ι β κ τ ε) : Prop where
  flag : loop'.sources.flags () = loop.sources.flags ()
  returned : loop'.pc = .returned → loop.sources.flags () = true
  begins : loop'.pc.beginsRound = true → loop.sources.flags () = false

omit [DecidableEq ι] [DecidableEq β] [DecidableEq κ] [Fintype ι] [RequestTraits ε]
  in
theorem MindsFlag.goto {pc : LoopPc β κ} (hreturned : pc ≠ .returned)
    (hbegins : pc.beginsRound = false) :
    MindsFlag loop { sources := loop.sources, pc := pc } where
  flag := rfl
  returned h := absurd h hreturned
  begins h := by
    change pc.beginsRound = true at h
    rw [hbegins] at h
    cases h

theorem MindsFlag.move {a : SourceAction ι β κ Unit Unit τ ε}
    {sources : Sources ι β κ Unit Unit τ ε} {pc : LoopPc β κ}
    (h : loop.sources.step setup.wiring a = some sources) (hraise : ¬ a.raises ())
    (hlower : ¬ a.lowers ()) (hreturned : pc ≠ .returned)
    (hbegins : pc.beginsRound = false) :
    MindsFlag loop { sources := sources, pc := pc } where
  flag := Sources.flag_of_untouched h hraise hlower
  returned h := absurd h hreturned
  begins h := by
    change pc.beginsRound = true at h
    rw [hbegins] at h
    cases h

theorem advance_mindsFlag {now : Int} (h : loop.advance setup now = some loop') :
    MindsFlag loop loop' := by
  obtain ⟨sources, pc⟩ := loop
  cases pc with
  | head =>
      simp only [advance] at h
      split at h <;> cases h
      · next hraised => exact ⟨rfl, fun _ => hraised, (by rintro ⟨⟩)⟩
      · next hlowered =>
          exact ⟨rfl, (by rintro ⟨⟩), fun _ => Bool.eq_false_of_not_eq_true hlowered⟩
  | recheck g =>
      simp only [advance] at h
      split at h <;> cases h
      · next hraised => exact ⟨rfl, fun _ => hraised, (by rintro ⟨⟩)⟩
      · exact .goto (by rintro ⟨⟩) rfl
  | capture | clock =>
      cases h
      exact .goto (by rintro ⟨⟩) rfl
  | buses g rest workDone =>
      cases rest with
      | nil =>
          cases h
          exact .goto (by rintro ⟨⟩) rfl
      | cons b rest =>
          simp only [advance] at h
          split at h
          · obtain ⟨sources', hsources, rfl⟩ := Option.map_eq_some_iff.mp h
            exact .move hsources id id (by rintro ⟨⟩) rfl
          · cases h
  | managers g rest workDone =>
      cases rest with
      | nil =>
          simp only [advance] at h
          split at h <;> cases h <;> exact .goto (by rintro ⟨⟩) rfl
      | cons k rest =>
          obtain ⟨sources', hsources, rfl⟩ := Option.map_eq_some_iff.mp h
          exact .move hsources id id (by rintro ⟨⟩) rfl
  | pending g rest | ready g rest =>
      cases rest with
      | nil =>
          cases h
          exact .goto (by rintro ⟨⟩) rfl
      | cons =>
          simp only [advance] at h
          split at h <;> cases h <;> exact .goto (by rintro ⟨⟩) rfl
  | nextWait g now' rest best =>
      cases rest with
      | nil | cons =>
          simp only [advance] at h
          split at h <;> cases h <;> exact .goto (by rintro ⟨⟩) rfl
  | deadline g now' k rest best =>
      obtain ⟨sources', hsources, rfl⟩ := Option.map_eq_some_iff.mp h
      exact .move hsources id id (by rintro ⟨⟩) rfl
  | inBus | inManager | shouldStop | waiting | returned | threw => cases h

omit [Fintype ι] [RequestTraits ε] in
/-- A step of a program does not make the loop return, or begin a round. -/
theorem afterSource_ends {old new : Sources ι β κ Unit Unit τ ε}
    {a : SourceAction ι β κ Unit Unit τ ε} {pc : LoopPc β κ} :
    (afterSource setup old new a pc = .returned → pc = .returned) ∧
      ((afterSource setup old new a pc).beginsRound = true → pc.beginsRound = true) := by
  cases pc with
  | inBus | inManager =>
      simp only [afterSource]
      split <;> exact ⟨(by rintro ⟨⟩), (by rintro ⟨⟩)⟩
  | _ => exact ⟨id, id⟩

theorem goesOn_step {a : RunLoopAction ι β κ τ ε} (ha : ¬ a.asksToStop)
    (hloop : loop.sources.flags () = false ∧ loop.pc ≠ .returned)
    (h : loop.step setup a = some loop') :
    loop'.sources.flags () = false ∧ loop'.pc ≠ .returned := by
  cases a with
  | source act =>
      simp only [step] at h
      split at h
      · cases h
      · obtain ⟨sources, hsources, rfl⟩ := Option.map_eq_some_iff.mp h
        refine ⟨?_, fun hpc => hloop.2 (afterSource_ends.1 hpc)⟩
        exact (Sources.flag_of_step hsources (.inr ha) (.inl hloop.1)).trans hloop.1
  | advance now =>
      have hminds := advance_mindsFlag h
      refine ⟨hminds.flag.trans hloop.1, fun hpc => ?_⟩
      have hraised := hminds.returned hpc
      rw [hloop.1] at hraised
      cases hraised
  | shouldStop result =>
      obtain rfl : result = false := Bool.eq_false_of_not_eq_true ha
      simp only [step] at h
      split at h
      · split at h <;> cases h
        next generation _ _ => cases generation <;> exact ⟨hloop.1, (by rintro ⟨⟩)⟩
      · cases h
  | shouldStopThrew =>
      simp only [step] at h
      split at h <;> cases h
      exact ⟨hloop.1, (by rintro ⟨⟩)⟩
  | wake =>
      simp only [step] at h
      split at h
      · split at h <;> cases h
        exact ⟨hloop.1, (by rintro ⟨⟩)⟩
      · cases h

/-- A round that the loop is on the way to is the only one left. -/
theorem lastRound_step {a : RunLoopAction ι β κ τ ε} (ha : ¬ a.resetsStop)
    (hflag : loop.sources.flags () = true) (h : loop.step setup a = some loop') :
    loop'.sources.flags () = true ∧ loop'.pc.beginsRound.toNat +
      (loop.readsGeneration a).toNat ≤ loop.pc.beginsRound.toNat := by
  cases a with
  | source act =>
      simp only [step] at h
      split at h
      · cases h
      · obtain ⟨sources, hsources, rfl⟩ := Option.map_eq_some_iff.mp h
        refine ⟨?_, Bool.toNat_le_toNat (Bool.le_iff_imp.mpr afterSource_ends.2)⟩
        exact (Sources.flag_of_step hsources (.inl hflag) (.inr ha)).trans hflag
  | advance now =>
      have hminds := advance_mindsFlag h
      refine ⟨hminds.flag.trans hflag, ?_⟩
      have hbegins : loop'.pc.beginsRound = false :=
        Bool.eq_false_of_not_eq_true fun hbegins => by
          have hlowered := hminds.begins hbegins
          rw [hflag] at hlowered
          cases hlowered
      rw [hbegins, Bool.toNat_false, Nat.zero_add, readsGeneration]
      split
      · next hcapture => rw [hcapture]; exact Nat.le_refl 1
      · exact Nat.zero_le _
  | shouldStop result =>
      obtain ⟨sources, pc⟩ := loop
      cases pc with
      | shouldStop generation =>
          simp only [step] at h
          split at h <;> cases h
          refine ⟨hflag, ?_⟩
          cases result <;> cases generation <;> exact Nat.le_of_ble_eq_true rfl
      | _ => cases h
  | shouldStopThrew =>
      simp only [step] at h
      split at h <;> cases h
      exact ⟨hflag, Nat.zero_le _⟩
  | wake =>
      simp only [step] at h
      split at h
      · split at h <;> cases h
        exact ⟨hflag, Nat.zero_le _⟩
      · cases h

/-- The loop does not return of its own accord, and after a stop request that is
not reset it reads at most one further generation: none, unless it has passed the
check at the head of a round and not read the generation of that round yet. -/
theorem run_endsWhenAsked {acts : List (RunLoopAction ι β κ τ ε)}
    (hrun : Lts.run (step setup) loop acts = some loop') :
    (loop.sources.flags () = false → loop.pc ≠ .returned →
      (∀ a ∈ acts, ¬ a.asksToStop) → loop'.pc ≠ .returned) ∧
    (loop.sources.flags () = true → (∀ a ∈ acts, ¬ a.resetsStop) →
      Lts.tally (step setup) readsGeneration loop acts ≤
        if loop.pc.beginsRound then 1 else 0) := by
  constructor
  · intro hflag hpc hacts
    exact (Lts.run_invariant_of_meets (fun _ _ _ hs ha => goesOn_step ha hs)
      ⟨hflag, hpc⟩ (.of_mem hacts) hrun).2
  · intro hflag hacts
    have hle : Lts.tally (step setup) readsGeneration loop acts ≤
        loop.pc.beginsRound.toNat :=
      Lts.tally_le_of_meets (P := fun l => l.sources.flags () = true)
      (C := fun _ a => ¬ a.resetsStop) (·.pc.beginsRound.toNat)
      (fun _ _ _ hs ha h => lastRound_step ha hs h) hflag (.of_mem hacts)
    cases hbegins : loop.pc.beginsRound <;> rw [hbegins] at hle <;> exact hle

/-- A stop is requested right after the loop has looked at its flag. -/
def racingLoop : RunLoop Bool Unit Unit Unit Nat where
  sources := { idleLoop.sources with flags := fun _ => true }
  pc := .shouldStop none

/-- One more round, which finds nothing. -/
def lastRound : List (RunLoopAction Bool Unit Unit Unit Nat) :=
  [.shouldStop false, .advance 0, .advance 0] ++
  List.replicate 5 (.source (.bus () (.advance false))) ++
  [.advance 0, .advance 0, .source (.task false () .processEnd), .advance 0,
    .advance 0]

theorem run_endsWhenAsked_returning : ∃ loop,
    Lts.run (step oneOfEach) racingLoop lastRound = some loop ∧
      loop.pc = .returned ∧
      Lts.tally (step oneOfEach) readsGeneration racingLoop lastRound ≤ 1 := by
  obtain ⟨loop, hrun, hpc⟩ : ∃ loop,
      Lts.run (step oneOfEach) racingLoop lastRound = some loop ∧
        loop.pc = .returned :=
    Lts.exists_run_of_decide (by decide +kernel)
  refine ⟨loop, hrun, hpc, (run_endsWhenAsked hrun).2 rfl fun a ha => ?_⟩
  simp only [lastRound, List.mem_append, List.mem_cons, List.mem_replicate,
    List.not_mem_nil, or_false] at ha
  rcases ha with ((rfl | rfl | rfl) | ⟨-, rfl⟩) | rfl | rfl | rfl | rfl | rfl <;>
    exact id

end RunLoop

/-! ## The hub -/

namespace HubLoopAction

/-- `request_stop()` raises the flag of the hub. -/
def asksToStop : HubLoopAction ι κ τ ε → Prop
  | .source a => a.raises .stop
  | _ => False

/-- The flag of the hub is cleared. -/
def resetsStop : HubLoopAction ι κ τ ε → Prop
  | .source a => a.lowers .stop
  | _ => False

end HubLoopAction

/-- About to read the generation. -/
def HubLoopPc.captures : HubLoopPc κ → Bool
  | .capture => true
  | _ => false

theorem HubLoopPc.captures_iff {pc : HubLoopPc κ} :
    pc.captures = true ↔ pc = .capture := by
  cases pc <;> simp [captures]

/-- The step by which a round reads its generation. -/
def HubLoop.readsGeneration (loop : HubLoop ι κ τ ε) : HubLoopAction ι κ τ ε → Bool
  | .advance _ => loop.pc.captures
  | _ => false

theorem HubLoopPc.captures_le {pc pc' : HubLoopPc κ} (h : pc' = .capture → pc = .capture) :
    pc'.captures.toNat ≤ pc.captures.toNat :=
  Bool.toNat_le_toNat (Bool.le_iff_imp.mpr fun hpc =>
    captures_iff.mpr (h (captures_iff.mp hpc)))

namespace HubLoop

variable [DecidableEq ι] [DecidableEq κ] [Fintype ι] [RequestTraits ε]
  {setup : HubSetup ι κ} {loop loop' : HubLoop ι κ τ ε} {k : κ}

structure MindsFlag (loop loop' : HubLoop ι κ τ ε) : Prop where
  flag : loop'.sources.flags .stop = loop.sources.flags .stop
  returned : loop'.pc = .returned → loop.sources.flags .stop = true
  begins : loop'.pc = .capture → loop.sources.flags .stop = false

omit [DecidableEq ι] [DecidableEq κ] [Fintype ι] [RequestTraits ε] in
theorem MindsFlag.goto {pc : HubLoopPc κ} (hreturned : pc ≠ .returned)
    (hbegins : pc ≠ .capture) : MindsFlag loop { loop with pc := pc } where
  flag := rfl
  returned h := absurd h hreturned
  begins h := absurd h hbegins

theorem MindsFlag.move {a : SourceAction ι Unit κ (HubFlag κ) (HubNotifier κ) τ ε}
    {pc : HubLoopPc κ} (h : loop.stepHub setup a pc = some loop')
    (hraise : ¬ a.raises .stop) (hlower : ¬ a.lowers .stop)
    (hreturned : pc ≠ .returned) (hbegins : pc ≠ .capture) : MindsFlag loop loop' := by
  obtain ⟨sources, hsources, rfl⟩ := stepHub_cases h
  exact ⟨Sources.flag_of_untouched hsources hraise hlower,
    fun h => absurd h hreturned, fun h => absurd h hbegins⟩

theorem advance_mindsFlag {now : Int} (h : loop.advance setup now = some loop') :
    MindsFlag loop loop' := by
  unfold advance at h
  dsimp only at h
  split at h
  case h_1 =>
    split at h <;> cases h
    · next hraised => exact ⟨rfl, fun _ => hraised, (by rintro ⟨⟩)⟩
    · next hlowered =>
        exact ⟨rfl, (by rintro ⟨⟩), fun _ => Bool.eq_false_of_not_eq_true hlowered⟩
  case h_10 =>
    split at h <;> cases h
    · next hraised => exact ⟨rfl, fun _ => hraised, (by rintro ⟨⟩)⟩
    · exact .goto (by rintro ⟨⟩) (by rintro ⟨⟩)
  case h_2 | h_4 | h_12 | h_13 | h_18 | h_19 | h_22 =>
    cases h
    exact .goto (by rintro ⟨⟩) (by rintro ⟨⟩)
  case h_3 =>
    split at h
    · exact .move h id id (by rintro ⟨⟩) (by rintro ⟨⟩)
    · cases h
  case h_5 | h_8 =>
    split at h
    · exact .move h id (by rintro ⟨⟩) (by rintro ⟨⟩) (by rintro ⟨⟩)
    · cases h
      exact .goto (by rintro ⟨⟩) (by rintro ⟨⟩)
  case h_6 =>
    split at h
    · exact .move h id id (by rintro ⟨⟩) (by rintro ⟨⟩)
    · cases h
      exact .goto (by rintro ⟨⟩) (by rintro ⟨⟩)
  case h_14 | h_20 =>
    split at h
    · split at h <;> cases h <;> exact .goto (by rintro ⟨⟩) (by rintro ⟨⟩)
    · cases h
      exact .goto (by rintro ⟨⟩) (by rintro ⟨⟩)
  case h_16 => exact .move h id id (by split <;> rintro ⟨⟩) (by split <;> rintro ⟨⟩)
  case h_21 => exact .move h id id (by rintro ⟨⟩) (by rintro ⟨⟩)
  case h_24 => cases h
  all_goals split at h <;> cases h <;> exact .goto (by rintro ⟨⟩) (by rintro ⟨⟩)

/-- The workers leave the hub's flag alone. -/
theorem advanceWorker_flag {now : Int}
    (h : loop.advanceWorker setup k now = some loop') :
    loop'.pc = loop.pc ∧ loop'.sources.flags .stop = loop.sources.flags .stop := by
  have hstep : ∀ {a pc}, ¬ a.raises .stop → ¬ a.lowers .stop →
      loop.stepWorker setup k a pc = some loop' →
      loop'.pc = loop.pc ∧ loop'.sources.flags .stop = loop.sources.flags .stop := by
    intro a pc hraise hlower h
    obtain ⟨sources, hsources, rfl⟩ := Option.map_eq_some_iff.mp h
    exact ⟨rfl, Sources.flag_of_untouched hsources hraise hlower⟩
  unfold advanceWorker at h
  dsimp only at h
  split at h
  case h_1 | h_4 | h_5 | h_7 =>
    split at h <;> cases h <;> exact ⟨rfl, rfl⟩
  case h_2 =>
    cases h
    exact ⟨rfl, rfl⟩
  case h_3 | h_6 | h_10 => exact hstep id id h
  case h_8 | h_9 => exact hstep (fun heq => by cases heq) id h
  case h_11 => cases h

omit [Fintype ι] [RequestTraits ε] in
theorem afterSource_ends
    {old new : Sources ι Unit κ (HubFlag κ) (HubNotifier κ) τ ε}
    {a : SourceAction ι Unit κ (HubFlag κ) (HubNotifier κ) τ ε} {pc : HubLoopPc κ} :
    (afterSource setup old new a pc = .returned → pc = .returned) ∧
      (afterSource setup old new a pc = .capture → pc = .capture) := by
  cases pc with
  | inBus | inTasks =>
      simp only [afterSource]
      split <;> exact ⟨(by rintro ⟨⟩), (by rintro ⟨⟩)⟩
  | _ => exact ⟨id, id⟩

/-- A step other than one of the program and of the loop itself. -/
theorem flag_beside {a : HubLoopAction ι κ τ ε} (hsource : ∀ act, a ≠ .source act)
    (hadvance : ∀ now, a ≠ .advance now) (h : loop.step setup a = some loop') :
    loop'.sources.flags .stop = loop.sources.flags .stop ∧
      (loop'.pc = .returned → loop.pc = .returned) ∧
      (loop'.pc = .capture → loop.pc = .capture) := by
  cases a with
  | source act => exact absurd rfl (hsource act)
  | advance now => exact absurd rfl (hadvance now)
  | worker k now =>
      obtain ⟨hpc, hflag⟩ := advanceWorker_flag h
      rw [hpc]
      exact ⟨hflag, id, id⟩
  | onProcessReturned | wake | wakeWorker =>
      simp only [step] at h
      split at h
      · split at h <;> cases h
        first
        | exact ⟨rfl, id, id⟩
        | exact ⟨rfl, (by rintro ⟨⟩), (by rintro ⟨⟩)⟩
      · cases h
  | onProcessThrew =>
      simp only [step] at h
      split at h <;> cases h
      exact ⟨rfl, (by rintro ⟨⟩), (by rintro ⟨⟩)⟩
  | stopping | initialized | hint =>
      simp only [step] at h
      split at h <;> cases h
      exact ⟨rfl, id, id⟩

theorem goesOn_step {a : HubLoopAction ι κ τ ε} (ha : ¬ a.asksToStop)
    (hloop : loop.sources.flags .stop = false ∧ loop.pc ≠ .returned)
    (h : loop.step setup a = some loop') :
    loop'.sources.flags .stop = false ∧ loop'.pc ≠ .returned := by
  cases a with
  | source act =>
      simp only [step] at h
      split at h
      · obtain ⟨sources, hsources, rfl⟩ := Option.map_eq_some_iff.mp h
        refine ⟨?_, fun hpc => hloop.2 (afterSource_ends.1 hpc)⟩
        exact (Sources.flag_of_step hsources (.inr ha) (.inl hloop.1)).trans hloop.1
      · cases h
  | advance now =>
      have hminds := advance_mindsFlag h
      refine ⟨hminds.flag.trans hloop.1, fun hpc => ?_⟩
      have hraised := hminds.returned hpc
      rw [hloop.1] at hraised
      cases hraised
  | _ =>
      obtain ⟨hflag, hpc, -⟩ := flag_beside (fun _ heq => by cases heq)
        (fun _ heq => by cases heq) h
      exact ⟨hflag.trans hloop.1, fun hreturned => hloop.2 (hpc hreturned)⟩

/-- A round whose generation is about to be read is the only one left. -/
theorem lastRound_step {a : HubLoopAction ι κ τ ε} (ha : ¬ a.resetsStop)
    (hflag : loop.sources.flags .stop = true) (h : loop.step setup a = some loop') :
    loop'.sources.flags .stop = true ∧ loop'.pc.captures.toNat +
      (loop.readsGeneration a).toNat ≤ loop.pc.captures.toNat := by
  cases a with
  | source act =>
      simp only [step] at h
      split at h
      · obtain ⟨sources, hsources, rfl⟩ := Option.map_eq_some_iff.mp h
        refine ⟨?_, HubLoopPc.captures_le afterSource_ends.2⟩
        exact (Sources.flag_of_step hsources (.inl hflag) (.inr ha)).trans hflag
      · cases h
  | advance now =>
      have hminds := advance_mindsFlag h
      refine ⟨hminds.flag.trans hflag, ?_⟩
      have hcaptures : loop'.pc.captures = false :=
        Bool.eq_false_of_not_eq_true fun hcaptures => by
          have hlowered := hminds.begins (HubLoopPc.captures_iff.mp hcaptures)
          rw [hflag] at hlowered
          cases hlowered
      rw [hcaptures, Bool.toNat_false, Nat.zero_add]
      exact Nat.le_refl _
  | _ =>
      obtain ⟨hflag', -, hpc⟩ := flag_beside (fun _ heq => by cases heq)
        (fun _ heq => by cases heq) h
      exact ⟨hflag'.trans hflag, HubLoopPc.captures_le hpc⟩

/-- The hub does not return of its own accord, and after a stop request it reads
at most one further generation: none, unless that is what it is about to do. -/
theorem run_hubEndsWhenAsked {acts : List (HubLoopAction ι κ τ ε)}
    (hrun : Lts.run (step setup) loop acts = some loop') :
    (loop.sources.flags .stop = false → loop.pc ≠ .returned →
      (∀ a ∈ acts, ¬ a.asksToStop) → loop'.pc ≠ .returned) ∧
    (loop.sources.flags .stop = true → (∀ a ∈ acts, ¬ a.resetsStop) →
      Lts.tally (step setup) readsGeneration loop acts ≤
        if loop.pc.captures then 1 else 0) := by
  constructor
  · intro hflag hpc hacts
    exact (Lts.run_invariant_of_meets (fun _ _ _ hs ha => goesOn_step ha hs)
      ⟨hflag, hpc⟩ (.of_mem hacts) hrun).2
  · intro hflag hacts
    have hle : Lts.tally (step setup) readsGeneration loop acts ≤
        loop.pc.captures.toNat :=
      Lts.tally_le_of_meets (P := fun l => l.sources.flags .stop = true)
      (C := fun _ a => ¬ a.resetsStop) (·.pc.captures.toNat)
      (fun _ _ _ hs ha h => lastRound_step ha hs h) hflag (.of_mem hacts)
    cases hcaptures : loop.pc.captures <;> rw [hcaptures] at hle <;> exact hle

/-- A stop is requested right after the hub has looked at its flag, and there is
no module. -/
def racingHub : HubLoop (Fin 5) Bool Unit Nat where
  sources := { idleHub.sources with flags := fun f => f = .stop }
  live _ := true
  pc := .capture
  workers _ := .exited

/-- One more round, which finds nothing. -/
def lastHubRound : List (HubLoopAction (Fin 5) Bool Unit Nat) :=
  [.advance 0, .advance 0] ++
  List.replicate 5 (.source (.bus () (.advance oneOfBoth.thread))) ++
  List.replicate 3 (.advance 0)

theorem run_hubEndsWhenAsked_returning : ∃ loop,
    Lts.run (step { oneOfBoth with modules := [] }) racingHub lastHubRound =
        some loop ∧
      loop.pc = .returned ∧
      Lts.tally (step { oneOfBoth with modules := [] }) readsGeneration racingHub
        lastHubRound ≤ 1 := by
  obtain ⟨loop, hrun, hpc⟩ : ∃ loop,
      Lts.run (step { oneOfBoth with modules := [] }) racingHub lastHubRound =
        some loop ∧ loop.pc = .returned :=
    Lts.exists_run_of_decide (by decide +kernel)
  refine ⟨loop, hrun, hpc, (run_hubEndsWhenAsked hrun).2 rfl fun a ha => ?_⟩
  simp only [lastHubRound, List.mem_append, List.mem_cons, List.mem_replicate,
    List.not_mem_nil, or_false] at ha
  rcases ha with ((rfl | rfl) | ⟨-, rfl⟩) | ⟨-, rfl⟩ <;> exact id

end HubLoop

end EventHub
