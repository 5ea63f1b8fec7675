import EventHub.Proofs.CalendarThreads

/-!
# A calendar cancellation is final

`cancel`, `cancel_all` and the destructor mark the rules they take before they
return, and a mark is never removed. `run_due` looks at the mark once, before
it reads the clock and calls the observer twice. So the callback of a rule
starts only unmarked, unless the rule is taken in between.
-/

namespace EventHub

open CalendarFrame Threads

variable {ι : Type}

/-- The rules that the step of this frame takes from the core. -/
def CalendarWorld.takes (w : CalendarWorld) : CalendarFrame → Finset Nat
  | .cancelRule r _ =>
      if r ∈ w.registered ∧ (w.states r).cancelled = false then {r} else ∅
  | .cancelAll .. => w.registered
  | _ => ∅

/-- `run_due` has found rule `r` alive and has not called its callback. -/
def CalendarFrame.checked (r : Nat) : CalendarFrame → Bool
  | .running run .due | .running run .before | .running run .calling =>
      run.rule = r
  | _ => false

namespace CalendarObs

/-- The rule whose callback starts. -/
def starts : CalendarObs → Option Nat
  | .callbackStarted r => some r
  | _ => none

/-- The rules that are cancelled for good once this call has returned. -/
def finished : CalendarObs → Finset Nat
  | .cancelReturned r true => {r}
  | .cancelAllReturned rules => rules
  | _ => ∅

end CalendarObs

namespace CalendarSystem

/-- No callback of a rule started after the rule was cancelled for good. -/
def CancellationFinal (s : CalendarSystem ι) : Prop :=
  s.world.log.Pairwise fun later earlier =>
    ∀ r ∈ later.starts, r ∉ earlier.finished

instance (s : CalendarSystem ι) : Decidable s.CancellationFinal :=
  inferInstanceAs (Decidable (List.Pairwise _ _))

/-- No rule is taken between the check of its `run_due` and its callback. -/
def TakenUnchecked (s : CalendarSystem ι) (_ : ι) (f : CalendarFrame) : Prop :=
  ∀ r ∈ s.world.takes f, ¬ Threads.Exists (checked r) s.frames

instance [Fintype ι] (s : CalendarSystem ι) (t : ι) (f : CalendarFrame) :
    Decidable (s.TakenUnchecked t f) :=
  inferInstanceAs (Decidable (∀ r ∈ s.world.takes f, _))

end CalendarSystem

/-! ## Marks -/

section Move

variable {a : CalendarAction ι} {mode : CalendarMode} {w w' : CalendarWorld}
  {f : CalendarFrame} {fs : List CalendarFrame} {q : Nat}

/-- A rule is marked when it is taken, or by its own run. -/
theorem CalendarMove.cancelled_of (h : CalendarMove a mode w f w' fs)
    (hq : (w'.states q).cancelled) :
    (w.states q).cancelled ∨ q ∈ w.takes f ∨
      f.runs ∧ ∀ g ∈ fs, g.checked q = false := by
  have hkept (heq : (w'.states q).cancelled = (w.states q).cancelled) :
      (w.states q).cancelled ∨ q ∈ w.takes f ∨
        f.runs ∧ ∀ g ∈ fs, g.checked q = false :=
    .inl (heq ▸ hq)
  cases h
  case registered options hopen =>
    by_cases heq : q = w.nextId
    · rw [heq, CalendarWorld.register_states_self] at hq
      cases hq
    · exact hkept (by rw [CalendarWorld.register_states_of_ne heq])
  case posted =>
    exact hkept (CalendarWorld.occupy_congr (·.cancelled) (fun _ => rfl) q)
  case published =>
    exact hkept (CalendarWorld.publish_congr (·.cancelled) (fun _ => rfl) q)
  case consumed =>
    exact hkept (CalendarWorld.consume_congr (·.cancelled) (fun _ => rfl) q)
  case counted =>
    exact hkept (CalendarWorld.setState_congr (·.cancelled) (by rfl) q)
  case stopped | finished =>
    exact .inr (.inr ⟨rfl, List.forall_mem_singleton.mpr rfl⟩)
  case rethrown | completed => exact .inr (.inr ⟨rfl, List.forall_mem_nil _⟩)
  case cancelTaken r called hr hlive _ | cancelTakenAlone r called hr hlive _ =>
    by_cases heq : q = r
    · refine .inr (.inl ?_)
      rw [CalendarWorld.takes, if_pos ⟨hr, hlive⟩, heq]
      exact Finset.mem_singleton_self r
    · exact hkept (by rw [CalendarWorld.markCompleted_states_of_ne heq])
  case allTaken =>
    by_cases hmem : q ∈ w.registered
    · exact .inr (.inl hmem)
    · exact hkept (by rw [CalendarWorld.takeAll_states_of_not_mem hmem])
  all_goals exact hkept rfl

/-- A rule leaves the core marked. -/
theorem CalendarMove.registered_or (h : CalendarMove a mode w f w' fs)
    (hq : q ∈ w.registered) : q ∈ w'.registered ∨ (w'.states q).cancelled := by
  cases h
  case registered => exact .inl (Finset.mem_insert_of_mem hq)
  case rethrown run | finished run =>
    by_cases heq : q = run.rule
    · exact .inr (by rw [heq, CalendarWorld.markCompleted_states_self])
    · exact .inl (Finset.mem_erase.mpr ⟨heq, hq⟩)
  case completed r | cancelTaken r called hr hlive _ |
      cancelTakenAlone r called hr hlive _ =>
    by_cases heq : q = r
    · exact .inr (by rw [heq, CalendarWorld.markCompleted_states_self])
    · exact .inl (Finset.mem_erase.mpr ⟨heq, hq⟩)
  case allTaken => exact .inr (by rw [CalendarWorld.takeAll_states_of_mem hq])
  all_goals exact .inl hq

end Move

/-! ## What frames answer for -/

namespace CalendarFrame

/-- The call has taken rule `r`, or found it gone. -/
def answersFor (r : Nat) : CalendarFrame → Bool
  | .cancellingRule q .. | .cancelledRule q _ => q = r
  | .cancellingAll _ rules => r ∈ rules
  | _ => false

/-- The call found rule `r` registered. -/
def found (r : Nat) : CalendarFrame → Bool
  | .cancelAll _ found => r ∈ found
  | _ => false

end CalendarFrame

section Move

variable {a : CalendarAction ι} {mode : CalendarMode} {w w' : CalendarWorld}
  {f g : CalendarFrame} {fs : List CalendarFrame} {q : Nat}

/-- No other frame than those of `run_due` is past its check. -/
theorem CalendarMove.checked (h : CalendarMove a mode w f w' fs) (hg : g ∈ fs)
    (hq : g.checked q) :
    (w'.states q).cancelled = (w.states q).cancelled ∧
      (f.checked q ∨ (w.states q).cancelled = false) := by
  have hnone (hfs : fs.countP (CalendarFrame.checked q) = 0) :
      (w'.states q).cancelled = (w.states q).cancelled ∧
        (f.checked q ∨ (w.states q).cancelled = false) :=
    absurd hq (List.countP_eq_zero.mp hfs g hg)
  cases h
  case consumed r i hkept =>
    rw [List.mem_singleton.mp hg] at hq
    have hr : r = q := of_decide_eq_true hq
    subst hr
    refine ⟨CalendarWorld.consume_congr (·.cancelled) (fun _ => rfl) _, .inr ?_⟩
    simp only [CalendarWorld.gone, Bool.or_eq_false_iff] at hkept
    exact hkept.1.2
  case emitted run pc pc' event hpc observed =>
    rw [List.mem_singleton.mp hg] at hq
    cases pc <;> cases hpc
    case due | before => exact ⟨rfl, .inl hq⟩
    case failed | after => cases hq
  case walked hpc => cases hpc <;> exact hnone (by rfl)
  all_goals exact hnone (by rfl)

theorem CalendarMove.answersFor (h : CalendarMove a mode w f w' fs) (hg : g ∈ fs)
    (hq : g.answersFor q) :
    f.answersFor q ∨ (w'.states q).cancelled ∨ f.found q ∧ q ∉ w.registered := by
  have hnone (hfs : fs.countP (CalendarFrame.answersFor q) = 0) :
      f.answersFor q ∨ (w'.states q).cancelled ∨ f.found q ∧ q ∉ w.registered :=
    absurd hq (List.countP_eq_zero.mp hfs g hg)
  cases h
  case cancelTaken r called hr hlive hqueued =>
    rcases List.mem_pair.mp hg with rfl | rfl
    · cases hq
    · have hr : r = q := of_decide_eq_true hq
      rw [← hr, CalendarWorld.markCompleted_states_self]
      exact .inr (.inl rfl)
  case cancelTakenAlone r called hr hlive hqueued =>
    rw [List.mem_singleton.mp hg] at hq
    have hr : r = q := of_decide_eq_true hq
    rw [← hr, CalendarWorld.markCompleted_states_self]
    exact .inr (.inl rfl)
  case cancelEmitted =>
    rw [List.mem_singleton.mp hg] at hq
    exact .inl hq
  case allTaken close found =>
    rw [List.mem_singleton.mp hg] at hq
    by_cases hmem : q ∈ w.registered
    · rw [CalendarWorld.takeAll_states_of_mem hmem]
      exact .inr (.inl rfl)
    · rcases Finset.mem_union.mp (of_decide_eq_true hq) with hfound | hreg
      · exact .inr (.inr ⟨decide_eq_true hfound, hmem⟩)
      · exact absurd hreg hmem
  case onePicked =>
    rcases List.mem_cons.mp hg with rfl | hg
    · cases hq
    · rcases List.mem_pair.mp hg with rfl | rfl
      · cases hq
      · exact .inl hq
  case onePickedAlone =>
    rcases List.mem_pair.mp hg with rfl | rfl
    · cases hq
    · exact .inl hq
  case walked hpc => cases hpc <;> exact hnone (by rfl)
  all_goals exact hnone (by rfl)

theorem CalendarMove.found (h : CalendarMove a mode w f w' fs) (hg : g ∈ fs)
    (hq : g.found q) : q ∈ w'.registered := by
  have hnone (hfs : fs.countP (CalendarFrame.found q) = 0) : q ∈ w'.registered :=
    absurd hq (List.countP_eq_zero.mp hfs g hg)
  cases h
  case cancelAllCalled =>
    rw [List.mem_singleton.mp hg] at hq
    exact of_decide_eq_true hq
  all_goals exact hnone (by rfl)

/-- What the new observation says about callbacks and cancellations. -/
theorem CalendarMove.observed (h : CalendarMove a mode w f w' fs) :
    w'.log = w.log ∨ ∃ o, w'.log = o :: w.log ∧
      (∀ r ∈ o.starts, f.checked r) ∧
      ∀ r ∈ o.finished, f.answersFor r ∨ f.found r ∧ r ∉ w.registered := by
  have hquiet {o : CalendarObs} (hlog : w'.log = o :: w.log)
      (hstarts : o.starts = none) (hfinished : o.finished = ∅) :
      w'.log = w.log ∨ ∃ o, w'.log = o :: w.log ∧
        (∀ r ∈ o.starts, f.checked r) ∧
        ∀ r ∈ o.finished, f.answersFor r ∨ f.found r ∧ r ∉ w.registered :=
    .inr ⟨o, hlog, by rw [hstarts]; nofun, by rw [hfinished]; nofun⟩
  have hemit {x : CalendarWorld} {r : Nat} {run : Option Nat}
      {info : CalendarObserverInfo} (hx : x.log = w.log)
      (hw' : w' = x.emit r run info) :
      w'.log = w.log ∨ ∃ o, w'.log = o :: w.log ∧
        (∀ r ∈ o.starts, f.checked r) ∧
        ∀ r ∈ o.finished, f.answersFor r ∨ f.found r ∧ r ∉ w.registered := by
    by_cases hobserver : (x.states r).options.observer
    · refine hquiet (o := .emitted r run info) ?_ rfl rfl
      rw [hw', CalendarWorld.emit, if_pos hobserver, hx]
    · refine .inl ?_
      rw [hw', CalendarWorld.emit, if_neg hobserver, hx]
  cases h
  case announced | missedFirst | published | emitted | lastEmitted | missedNext |
      cancelEmitted | oneEmitted =>
    exact hemit (by rfl) rfl
  case added | refused | askedFirst | consumed | askedNext | askedAgain |
      cancelRefused =>
    exact hquiet rfl rfl rfl
  case entered run =>
    refine .inr ⟨_, rfl, fun r hr => ?_, by nofun⟩
    cases hr
    exact decide_eq_true rfl
  case cancelReturned r =>
    refine .inr ⟨_, rfl, by nofun, fun q hq => .inl ?_⟩
    exact decide_eq_true (Finset.mem_singleton.mp hq).symm
  case noneFound found hnone =>
    refine .inr ⟨_, rfl, by nofun, fun q hq => .inr ⟨decide_eq_true hq, ?_⟩⟩
    rw [hnone]
    nofun
  case allReturned =>
    exact .inr ⟨_, rfl, by nofun, fun q hq => .inl (decide_eq_true hq)⟩
  all_goals exact .inl rfl

end Move

namespace CalendarSystem

/-- Before its callback a rule is not marked; what was reported cancelled, or is
about to be, is. -/
structure MarkInv (s : CalendarSystem ι) : Prop where
  checked : Forall (fun f => ∀ r, f.checked r → (s.world.states r).cancelled = false)
    s.frames
  answered : Forall (fun f => ∀ r, f.answersFor r → (s.world.states r).cancelled)
    s.frames
  found : Forall (fun f => ∀ r, f.found r →
    r ∈ s.world.registered ∨ (s.world.states r).cancelled) s.frames
  finished : ∀ o ∈ s.world.log, ∀ r ∈ o.finished, (s.world.states r).cancelled
  final : s.CancellationFinal

theorem MarkInv.init : MarkInv ({} : CalendarSystem ι) where
  checked _ _ _ _ _ := rfl
  answered t f hf r hr := by
    rw [List.mem_singleton.mp hf] at hr
    cases hr
  found t f hf r hr := by
    rw [List.mem_singleton.mp hf] at hr
    cases hr
  finished := by nofun
  final := .nil

section

variable [DecidableEq ι] [Fintype ι] {s s' : CalendarSystem ι}
  {a : CalendarAction ι} {t : ι} {f : CalendarFrame} {fs : List CalendarFrame}

theorem runs_of_checked {g : CalendarFrame} {r : Nat} (h : g.checked r) : g.runs := by
  cases g <;> first | rfl | cases h

theorem plain_of_takes {w : CalendarWorld} {r : Nat} (h : r ∈ w.takes f) :
    f.plain = false := by
  cases f <;> first | rfl | cases h

theorem MarkInv.step (h : s.MarkInv) (hs : s.Reachable)
    (hst : Stepped s a t f fs s') (hcond : AtTop TakenUnchecked s a) :
    s'.MarkInv := by
  have hmono (r : Nat) (hr : (s.world.states r).cancelled) :
      (s'.world.states r).cancelled := by
    refine hst.move.cancelled_mono hr ?_
    by_contra hlt
    rw [hs.known.states r (Nat.le_of_not_lt hlt)] at hr
    cases hr
  have hnew (g : CalendarFrame) (hg : g ∈ fs) (r : Nat) (hr : g.checked r) :
      (s'.world.states r).cancelled = false := by
    obtain ⟨heq, hf | hlive⟩ := hst.move.checked hg hr
    · rw [heq]
      exact hst.of_forall h.checked r hf
    · rw [heq]
      exact hlive
  have hfound (r : Nat) (hr : f.found r ∧ r ∉ s.world.registered) :
      (s'.world.states r).cancelled :=
    hmono r ((hst.of_forall h.found r hr.1).resolve_left hr.2)
  have hanswer (r : Nat) (hr : f.answersFor r) : (s'.world.states r).cancelled :=
    hmono r (hst.of_forall h.answered r hr)
  constructor
  · by_cases hf : f.runs
    · refine hst.forall_only hs.oneConsumer.runs_le hf
        (fun g => runs_of_plain (g := g)) (fun g hg r hr => ?_) hnew
      rw [runs_of_checked hr] at hg
      cases hg
    · refine hst.forall (fun u g hg r hr => ?_) ?_ hnew
      · refine Bool.eq_false_iff.mpr fun hcancelled => ?_
        rcases hst.move.cancelled_of hcancelled with hold | htaken | ⟨hruns, -⟩
        · rw [h.checked u g hg r hr] at hold
          cases hold
        · exact hst.meets hcond (plain_of_takes htaken) r htaken
            ⟨u, List.any_eq_true.mpr ⟨g, hg, hr⟩⟩
        · exact hf hruns
      · intro g hg r hr
        cases g <;> first | cases hr | cases hg
  · refine hst.forall (h.answered.imp fun g hg r hr => hmono r (hg r hr)) ?_ ?_
    · intro g hg r hr
      cases g <;> first | cases hr | cases hg
    · intro g hg r hr
      rcases hst.move.answersFor hg hr with hf | hcancelled | hf
      · exact hanswer r hf
      · exact hcancelled
      · exact hfound r hf
  · refine hst.forall (h.found.imp fun g hg r hr => ?_) ?_ ?_
    · rcases hg r hr with hreg | hcancelled
      · exact hst.move.registered_or hreg
      · exact .inr (hmono r hcancelled)
    · intro g hg r hr
      cases g <;> first | cases hr | cases hg
    · exact fun g hg r hr => .inl (hst.move.found hg hr)
  · intro o ho r hr
    rcases hst.move.observed with heq | ⟨o', heq, -, hfinished⟩
    · exact hmono r (h.finished o (heq ▸ ho) r hr)
    · rw [heq] at ho
      rcases List.mem_cons.mp ho with rfl | ho
      · exact (hfinished r hr).elim (hanswer r) (hfound r)
      · exact hmono r (h.finished o ho r hr)
  · unfold CancellationFinal
    rcases hst.move.observed with heq | ⟨o', heq, hstarts, -⟩
    · rw [heq]
      exact h.final
    · rw [heq]
      refine List.pairwise_cons.mpr ⟨fun o ho r hr hfin => ?_, h.final⟩
      have hlive := hst.of_forall h.checked r (hstarts r hr)
      rw [h.finished o ho r hfin] at hlive
      cases hlive

/-- In every run in which no rule is taken between the check of its `run_due`
and its callback, no callback of a rule starts after the rule was cancelled. -/
theorem run_cancellationFinal {as : List (CalendarAction ι)}
    (hrun : Lts.run step {} as = some s)
    (hcond : Lts.RunMeets step (AtTop TakenUnchecked) {} as) :
    s.CancellationFinal := by
  have h := run_induction (P := MarkInv) hrun hcond .init
    fun _ _ _ _ _ _ hs h hC hst => h.step hs hst hC
  exact h.final

end

end CalendarSystem

section Runs

variable (t : ι)

def calendarAdvances (n : Nat) : List (CalendarAction ι) :=
  List.replicate n (.advance t {})

/-- A rule with an observer whose first occurrence is due at once. -/
def calendarAddDue : List (CalendarAction ι) :=
  [.call t (.addRule { observer := true })] ++ calendarAdvances t 3 ++
  [.ret t none] ++ calendarAdvances t 2 ++ [.ret t (some 0)] ++
  calendarAdvances t 3 ++ [.ret t none] ++ calendarAdvances t 2

/-- `run_due` of that occurrence up to the `due` event. -/
def calendarRunDue : List (CalendarAction ι) :=
  [.call t (.process 0 1)] ++ calendarAdvances t 5

/-- The observer returns from this event and the next, and the callback is
called. -/
def calendarCallback : List (CalendarAction ι) :=
  [.ret t none] ++ calendarAdvances t 2 ++ [.ret t none] ++ calendarAdvances t 2

/-- `cancel` of that rule. -/
def calendarCancel : List (CalendarAction ι) :=
  [.call t (.cancel 1)] ++ calendarAdvances t 3 ++ [.ret t none] ++
  calendarAdvances t 2

end Runs

namespace CalendarSystem

/-- The observer cancels the rule at its `due` event. -/
theorem cancellationFinal_fails : ∃ s : CalendarSystem Unit,
    Lts.run step {} (calendarAddDue () ++ calendarRunDue () ++ calendarCancel () ++
      calendarCallback ()) = some s ∧ ¬ s.CancellationFinal :=
  Lts.exists_run_of_decide (by decide)

/-- The callback cancels its own rule. -/
theorem run_cancellationFinal_inCallback : ∃ s : CalendarSystem Unit,
    Lts.run step {} (calendarAddDue () ++ calendarRunDue () ++ calendarCallback () ++
      calendarCancel ()) = some s ∧
      .cancelReturned 1 true ∈ s.world.log ∧ s.CancellationFinal := by
  obtain ⟨s, hs, hmem⟩ : ∃ s : CalendarSystem Unit,
      Lts.run step {} (calendarAddDue () ++ calendarRunDue () ++
        calendarCallback () ++ calendarCancel ()) = some s ∧
        .cancelReturned 1 true ∈ s.world.log :=
    Lts.exists_run_of_decide (by decide)
  exact ⟨s, hs, hmem, run_cancellationFinal hs (.of_checks (by decide))⟩

end CalendarSystem

end EventHub
