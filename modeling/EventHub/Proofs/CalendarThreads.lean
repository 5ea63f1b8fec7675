import EventHub.Proofs.CalendarStep
import EventHub.Proofs.TaskWaiting

/-!
# The threads of a scheduler

What every invariant needs of a step: a property of frames and a count of
frames are checked on the frames that matter. Two facts are settled here for
all of them. Rules are made before anything speaks of them. And one thread is
the consumer of the manager, so that at most one occurrence runs, and none
while `process()` looks for the next one.
-/

namespace EventHub

open CalendarFrame Threads

variable {ι : Type}

namespace CalendarSystem

/-- Thread `t` replaced its top frame `f`. -/
structure Stepped [DecidableEq ι] (s : CalendarSystem ι) (a : CalendarAction ι)
    (t : ι) (f : CalendarFrame) (fs : List CalendarFrame)
    (s' : CalendarSystem ι) : Prop where
  move : CalendarMove a (s.mode t) s.world f s'.world fs
  top : ∃ rest gs, s.frames t = f :: rest ∧ core gs = fs ∧
    s'.frames = replaceTop s.frames t gs
  advanced : f.plain = false → ∃ reading, a = .advance t reading

/-- A condition on the state and on the frame of the library that is about to
move. -/
def AtTop (C : CalendarSystem ι → ι → CalendarFrame → Prop)
    (s : CalendarSystem ι) : CalendarAction ι → Prop
  | .advance t _ => ∀ f ∈ (s.frames t).head?, C s t f
  | _ => True

instance {C : CalendarSystem ι → ι → CalendarFrame → Prop}
    [∀ s t f, Decidable (C s t f)] (s : CalendarSystem ι)
    (a : CalendarAction ι) : Decidable (AtTop C s a) :=
  match a with
  | .advance t _ =>
      inferInstanceAs (Decidable (∀ f ∈ (s.frames t).head?, C s t f))
  | .call .. | .ret .. | .throw _ | .catch _ => isTrue trivial

section Step

variable [DecidableEq ι] {s s' : CalendarSystem ι} {a : CalendarAction ι} {t : ι}
  {f : CalendarFrame} {fs : List CalendarFrame}

theorem stepped_of_moved {rest : List CalendarFrame} {o : CalendarOutcome}
    (hf : s.frames t = f :: rest) (hmoved : CalendarMoved s a t f o) :
    Stepped s a t f (core o.frames) (s.put t o) := by
  refine ⟨hmoved.move, ⟨rest, _, hf, rfl, rfl⟩, ?_⟩
  cases hmoved with
  | advance reading | unwind reading => exact fun _ => ⟨reading, rfl⟩
  | call | ret | throw | «catch» => nofun

theorem step_stepped (h : step s a = some s') : ∃ t f fs, Stepped s a t f fs s' := by
  obtain ⟨t, f, rest, o, hf, hmoved, rfl⟩ := step_cases h
  exact ⟨t, f, core o.frames, stepped_of_moved hf hmoved⟩

theorem Stepped.meets {C : CalendarSystem ι → ι → CalendarFrame → Prop}
    (h : Stepped s a t f fs s') (hC : AtTop C s a) (hf : f.plain = false) :
    C s t f := by
  obtain ⟨reading, rfl⟩ := h.advanced hf
  obtain ⟨rest, gs, ht, -, -⟩ := h.top
  exact hC f (by rw [ht]; rfl)

theorem Stepped.forall {P : CalendarFrame → Prop} (h : Stepped s a t f fs s')
    (hold : Forall P s.frames) (hplain : ∀ g, g.plain → P g)
    (hfs : ∀ g ∈ fs, P g) : Forall P s'.frames := by
  obtain ⟨rest, gs, -, rfl, hs'⟩ := h.top
  rw [hs']
  refine hold.replace fun g hg => ?_
  by_cases hp : g.plain
  · exact hplain g hp
  · exact hfs g (List.mem_filter.mpr ⟨hg, by simpa using hp⟩)

theorem Stepped.of_forall {P : CalendarFrame → Prop} (h : Stepped s a t f fs s')
    (hold : Forall P s.frames) : P f := by
  obtain ⟨rest, gs, ht, -, -⟩ := h.top
  exact hold.top ht

/-- A frame that was there stays, if it is not the one that moves. -/
theorem Stepped.exists_of {p : CalendarFrame → Bool} (h : Stepped s a t f fs s')
    (hex : Threads.Exists p s.frames) (hf : p f = false) :
    Threads.Exists p s'.frames := by
  obtain ⟨rest, gs, ht, rfl, hs'⟩ := h.top
  obtain ⟨u, hu⟩ := hex
  refine ⟨u, ?_⟩
  by_cases hut : u = t
  · subst hut
    rw [ht, List.any_cons, hf, Bool.false_or] at hu
    rw [hs', replaceTop_self, ht, List.any_append, List.tail_cons, hu,
      Bool.or_true]
  · rwa [hs', replaceTop_of_ne hut]

theorem Stepped.exists_new {p : CalendarFrame → Bool} {g : CalendarFrame}
    (h : Stepped s a t f fs s') (hg : g ∈ fs) (hp : p g) :
    Threads.Exists p s'.frames := by
  obtain ⟨rest, gs, -, rfl, hs'⟩ := h.top
  refine ⟨t, ?_⟩
  rw [hs', replaceTop_self, List.any_append, Bool.or_eq_true]
  exact .inl (List.any_eq_true.mpr ⟨g, List.mem_of_mem_filter hg, hp⟩)

/-- The frames that stay, and the new ones. -/
theorem Stepped.forall_put {P : CalendarFrame → Prop} (h : Stepped s a t f fs s')
    (hrest : Forall P (replaceTop s.frames t [])) (hplain : ∀ g, g.plain → P g)
    (hfs : ∀ g ∈ fs, P g) : Forall P s'.frames := by
  obtain ⟨rest, gs, -, rfl, hs'⟩ := h.top
  rw [hs']
  refine hrest.put fun g hg => ?_
  by_cases hp : g.plain
  · exact hplain g hp
  · exact hfs g (List.mem_filter.mpr ⟨hg, by simpa using hp⟩)

theorem Stepped.total_rest [Fintype ι] (p : CalendarFrame → Bool)
    (h : Stepped s a t f fs s') :
    Threads.total p (replaceTop s.frames t []) + [f].countP p =
      Threads.total p s.frames := by
  obtain ⟨rest, gs, ht, -, -⟩ := h.top
  exact total_replaceTop [] ht

theorem Stepped.rest {P : CalendarFrame → Prop} (h : Forall P s.frames) :
    Forall P (replaceTop s.frames t []) :=
  h.replace (List.forall_mem_nil _)

/-- The only frame that satisfies `p` moves. -/
theorem Stepped.alone [Fintype ι] {p : CalendarFrame → Bool}
    (h : Stepped s a t f fs s') (hone : Threads.total p s.frames ≤ 1) (hf : p f) :
    Forall (fun g => p g = false) (replaceTop s.frames t []) := by
  obtain ⟨rest, gs, ht, -, -⟩ := h.top
  exact gone_of_only hone ht hf

/-- When no other frame satisfies `p`, the new frames decide. -/
theorem Stepped.forall_only [Fintype ι] {p : CalendarFrame → Bool}
    {P : CalendarFrame → Prop} (h : Stepped s a t f fs s')
    (hone : Threads.total p s.frames ≤ 1) (hf : p f)
    (hplain : ∀ g, g.plain → p g = false) (hother : ∀ g, p g = false → P g)
    (hfs : ∀ g ∈ fs, P g) : Forall P s'.frames :=
  h.forall_put ((h.alone hone hf).imp hother)
    (fun g hg => hother g (hplain g hg)) hfs

theorem Stepped.total [Fintype ι] {p : CalendarFrame → Bool}
    (h : Stepped s a t f fs s') (hplain : ∀ g, g.plain → p g = false) :
    Threads.total p s'.frames + [f].countP p = Threads.total p s.frames + fs.countP p := by
  obtain ⟨rest, gs, ht, rfl, hs'⟩ := h.top
  rw [hs', countP_core hplain]
  exact total_replaceTop _ ht

end Step

theorem Reachable.induction [DecidableEq ι] {P : CalendarSystem ι → Prop}
    {s : CalendarSystem ι} (h : s.Reachable) (hinit : P {})
    (hstep : ∀ s a t f fs s', s.Reachable → P s → Stepped s a t f fs s' → P s') :
    P s := by
  have hboth : s.Reachable ∧ P s :=
    Lts.Reachable.invariant (P := fun s => s.Reachable ∧ P s) h
      ⟨Lts.Reachable.refl _, hinit⟩ fun s a s' hs hs' => by
        obtain ⟨t, f, fs, hst⟩ := step_stepped hs'
        exact ⟨Lts.Reachable.trans_run hs.1 (Lts.run_one hs'),
          hstep s a t f fs s' hs.1 hs.2 hst⟩
  exact hboth.2

/-- The same for runs whose steps meet a condition. -/
theorem run_induction [DecidableEq ι] {P : CalendarSystem ι → Prop}
    {C : CalendarSystem ι → CalendarAction ι → Prop} {s : CalendarSystem ι}
    {as : List (CalendarAction ι)} (hrun : Lts.run step {} as = some s)
    (hcond : Lts.RunMeets step C {} as) (hinit : P {})
    (hstep : ∀ s a t f fs s', s.Reachable → P s → C s a → Stepped s a t f fs s' →
      P s') : P s := by
  have hboth : s.Reachable ∧ P s :=
    Lts.run_invariant_of_meets (P := fun s => s.Reachable ∧ P s)
      (fun s a s' hs hC hs' => by
        obtain ⟨t, f, fs, hst⟩ := step_stepped hs'
        exact ⟨Lts.Reachable.trans_run hs.1 (Lts.run_one hs'),
          hstep s a t f fs s' hs.1 hs.2 hC hst⟩)
      ⟨Lts.Reachable.refl _, hinit⟩ hcond hrun
  exact hboth.2

end CalendarSystem

/-! ## The manager -/

section Move

variable {a : CalendarAction ι} {mode : CalendarMode} {w w' : CalendarWorld}
  {f : CalendarFrame} {fs : List CalendarFrame}

theorem CalendarMove.tasks (h : CalendarMove a mode w f w' fs) :
    w'.tasks = w.tasks ∨ ∃ act, w.tasks.step act = some w'.tasks := by
  cases h
  case produced | nothingBegan | began | loaded | unloaded | exchanged |
      processed | started | passed | returned | threw | settled | otherSettled |
      unposted | unpostedAfterRun | posted =>
    exact .inr ⟨_, ‹_›⟩
  all_goals exact .inl rfl

end Move

theorem CalendarSystem.Reachable.tasks [DecidableEq ι] {s : CalendarSystem ι}
    (h : s.Reachable) : s.world.tasks.Reachable := by
  refine Reachable.induction (P := fun s => s.world.tasks.Reachable) h
    (Lts.Reachable.refl _) fun s a t f fs s' _ ih hst => ?_
  rcases hst.move.tasks with heq | ⟨act, hact⟩
  · rw [heq]
    exact ih
  · exact Lts.Reachable.trans_run ih (Lts.run_one hact)

/-! ## The rules that frames speak of -/

/-- The rules that the frame has taken up. -/
def CalendarFrame.rules : CalendarFrame → Finset Nat
  | .starting _ rule => rule.toFinset
  | .adding r _ | .scheduleOne r .. | .publish r .. | .runDue r _
  | .markCompleted r | .cancellingRule r .. | .cancelledRule r _
  | .cancellingOne r => {r}
  | .running run _ => {run.rule}
  | .cancellingAll rest rules => rest ∪ rules
  | .cancelAll _ found => found
  | _ => ∅

theorem CalendarFrame.rules_of_plain {f : CalendarFrame} (h : f.plain) :
    f.rules = ∅ := by
  cases f <;> first | rfl | cases h

section Move

variable {a : CalendarAction ι} {mode : CalendarMode} {w w' : CalendarWorld}
  {f : CalendarFrame} {fs : List CalendarFrame}

/-- A step changes the states of the rules its frame has taken up, or of rules
that are registered, or of the rule it makes. -/
theorem CalendarMove.states (h : CalendarMove a mode w f w' fs) {q : Nat}
    (hq : q ∉ f.rules) (hq' : q ∉ w.registered) (hnew : w'.nextId ≤ q) :
    w'.states q = w.states q := by
  cases h
  case registered =>
    exact CalendarWorld.register_states_of_ne (Nat.ne_of_gt hnew)
  case posted =>
    exact CalendarWorld.occupy_states_of_ne (by simpa [rules] using hq)
  case published =>
    exact CalendarWorld.publish_states_of_ne (by simpa [rules] using hq)
  case consumed =>
    exact CalendarWorld.consume_states_of_ne (by simpa [rules] using hq)
  case stopped | counted =>
    exact CalendarWorld.setState_of_ne (by simpa [rules] using hq)
  case rethrown | finished | completed =>
    exact CalendarWorld.markCompleted_states_of_ne (by simpa [rules] using hq)
  case cancelTaken hr _ _ | cancelTakenAlone hr _ _ =>
    exact CalendarWorld.markCompleted_states_of_ne fun heq => hq' (heq ▸ hr)
  case allTaken => exact CalendarWorld.takeAll_states_of_not_mem hq'
  all_goals rfl

theorem CalendarMove.nextId (h : CalendarMove a mode w f w' fs) :
    w'.nextId = w.nextId ∨ w'.nextId = w.nextId + 1 := by
  cases h
  case registered => exact .inr rfl
  all_goals exact .inl rfl

/-- Only a new rule is registered. -/
theorem CalendarMove.registered_subset (h : CalendarMove a mode w f w' fs) :
    ∀ r ∈ w'.registered, r ∈ w.registered ∨
      r = w.nextId ∧ w'.nextId = w.nextId + 1 := by
  intro r hr
  cases h
  case registered =>
    rcases Finset.mem_insert.mp hr with hr | hr
    · exact .inr ⟨hr, rfl⟩
    · exact .inl hr
  case rethrown | finished | completed | cancelTaken | cancelTakenAlone =>
    exact .inl (Finset.mem_of_mem_erase hr)
  case allTaken => cases hr
  all_goals exact .inl hr

/-- A task becomes an occurrence of the rule that its frame works for. -/
theorem CalendarMove.job (h : CalendarMove a mode w f w' fs) (i : Nat) :
    w'.job i = w.job i ∨ ∃ o ∈ w'.job i, o.rule ∈ f.rules := by
  cases h
  case posted r planned observed immediate caller tasks now due options j h hid hj =>
    by_cases hi : i = j
    · subst hi
      exact .inr ⟨_, Function.update_self .., Finset.mem_singleton_self _⟩
    · exact .inl (Function.update_of_ne hi ..)
  all_goals exact .inl rfl

theorem CalendarWorld.markCompleted_cancelled_mono {q r : Nat}
    (hq : (w.states q).cancelled) : ((w.markCompleted r).states q).cancelled := by
  by_cases heq : q = r
  · rw [heq, CalendarWorld.markCompleted_states_self]
  · rwa [CalendarWorld.markCompleted_states_of_ne heq]

/-- A mark stays. -/
theorem CalendarMove.cancelled_mono (h : CalendarMove a mode w f w' fs) {q : Nat}
    (hq : (w.states q).cancelled) (hlt : q < w.nextId) :
    (w'.states q).cancelled := by
  cases h
  case registered options hopen =>
    rwa [CalendarWorld.register_states_of_ne (Nat.ne_of_lt hlt)]
  case posted =>
    exact (CalendarWorld.occupy_congr (·.cancelled) (fun _ => rfl) q).trans hq
  case published =>
    exact (CalendarWorld.publish_congr (·.cancelled) (fun _ => rfl) q).trans hq
  case consumed =>
    exact (CalendarWorld.consume_congr (·.cancelled) (fun _ => rfl) q).trans hq
  case counted =>
    rw [CalendarWorld.setState_congr (·.cancelled) (by rfl) q]
    exact hq
  case stopped run observed =>
    by_cases heq : q = run.rule
    · rw [heq, CalendarWorld.setState_self]
    · rwa [CalendarWorld.setState_of_ne heq]
  case rethrown | finished | cancelTaken | cancelTakenAlone | completed =>
    exact CalendarWorld.markCompleted_cancelled_mono hq
  case allTaken =>
    by_cases hmem : q ∈ w.registered
    · rw [CalendarWorld.takeAll_states_of_mem hmem]
    · rwa [CalendarWorld.takeAll_states_of_not_mem hmem]
  all_goals exact hq

theorem CalendarMove.closed (h : CalendarMove a mode w f w' fs)
    (hclosed : w.closed) : w'.closed := by
  cases h
  case allTaken close found =>
    exact Bool.or_eq_true_iff.mpr (.inl hclosed)
  all_goals exact hclosed

/-- A rule that was taken or completed does not come back. -/
theorem CalendarMove.gone (h : CalendarMove a mode w f w' fs) {q : Nat}
    (hq : q < w.nextId) (hgone : w.gone q) : w'.gone q := by
  simp only [CalendarWorld.gone, Bool.or_eq_true, decide_eq_true_eq] at hgone ⊢
  rcases hgone with (hreg | hmark) | hclosed
  · refine .inl (.inl fun hmem => ?_)
    rcases h.registered_subset q hmem with hold | ⟨rfl, -⟩
    · exact hreg hold
    · exact Nat.lt_irrefl _ hq
  · exact .inl (.inr (h.cancelled_mono hmark hq))
  · exact .inr (h.closed hclosed)

end Move

namespace CalendarSystem

/-- Everything that is said of a rule is said of one that was made. -/
structure Known (s : CalendarSystem ι) : Prop where
  states : ∀ r, s.world.nextId ≤ r → s.world.states r = {}
  registered : ∀ r ∈ s.world.registered, r < s.world.nextId
  jobs : ∀ i, ∀ o ∈ s.world.job i, o.rule < s.world.nextId
  frames : Forall (fun f => ∀ r ∈ f.rules, r < s.world.nextId) s.frames

end CalendarSystem

/-- `cancel_all` goes on with one rule it has taken, and with the others. -/
theorem CalendarFrame.picked {rest rules : Finset Nat} {q r : Nat}
    (hq : q ∈ rest) {g : CalendarFrame}
    (hg : g ∈ [.cancellingOne q, .cancellingAll (rest.erase q) rules])
    (hr : r ∈ g.rules) : r ∈ (cancellingAll rest rules).rules := by
  rcases List.mem_pair.mp hg with rfl | rfl
  · rw [Finset.mem_singleton.mp hr]
    exact Finset.mem_union_left _ hq
  · exact Finset.union_subset_union_left (Finset.erase_subset ..) hr

/-- The rules of the new frames. -/
theorem CalendarMove.rules {a : CalendarAction ι} {mode : CalendarMode}
    {w w' : CalendarWorld} {f : CalendarFrame} {fs : List CalendarFrame}
    (h : CalendarMove a mode w f w' fs) {g : CalendarFrame} (hg : g ∈ fs)
    {r : Nat} (hr : r ∈ g.rules) :
    r ∈ f.rules ∨ r ∈ w.registered ∨ (∃ i, ∃ o ∈ w.job i, o.rule = r) ∨
      r = w.nextId ∧ w'.nextId = w.nextId + 1 := by
  cases h
  case started entry unrun tasks hphase h hwon =>
    rcases List.mem_pair.mp hg with rfl | rfl
    · obtain ⟨o, ho, rfl⟩ := Option.mem_map.mp (Option.mem_toFinset.mp hr)
      exact .inr (.inr (.inl ⟨_, o, ho, rfl⟩))
    · cases hr
  case cancelAllCalled =>
    rw [List.mem_singleton.mp hg] at hr
    exact .inr (.inl hr)
  case registered =>
    rw [List.mem_singleton.mp hg] at hr
    exact .inr (.inr (.inr ⟨Finset.mem_singleton.mp hr, rfl⟩))
  case unpublished =>
    rcases List.mem_pair.mp hg with rfl | rfl <;> cases hr
  case unpublishedAfterRun =>
    rcases List.mem_pair.mp hg with rfl | rfl
    · cases hr
    · exact .inl hr
  case cancelTaken q called hq _ _ =>
    rcases List.mem_pair.mp hg with rfl | rfl
    · cases hr
    · exact .inr (.inl (Finset.mem_singleton.mp hr ▸ hq))
  case cancelTakenAlone q called hq _ _ =>
    rw [List.mem_singleton.mp hg] at hr
    exact .inr (.inl (Finset.mem_singleton.mp hr ▸ hq))
  case allTaken =>
    rw [List.mem_singleton.mp hg] at hr
    rcases Finset.mem_union.mp hr with hr | hr
    · exact .inr (.inl hr)
    · exact (Finset.mem_union.mp hr).imp_right .inl
  case onePicked rest rules q hq _ =>
    rcases List.mem_cons.mp hg with rfl | hg
    · cases hr
    · exact .inl (picked hq hg hr)
  case onePickedAlone rest rules q hq _ => exact .inl (picked hq hg hr)
  case settled | unpostedAfterRun | announced | askedFirst | missedFirst |
      plannedFirst | posted | consumed | emitted | entered | walked | stopped |
      counted | finished | askedNext | askedAgain | missedNext | exhausted |
      plannedNext | cancelEmitted =>
    rw [List.mem_singleton.mp hg] at hr
    exact .inl hr
  case began | addCalled | cancelCalled | cancelTaskCalled | loaded | passed |
      returned | threw | abandoned | unposted =>
    rw [List.mem_singleton.mp hg] at hr
    cases hr
  all_goals cases hg

namespace CalendarSystem

theorem Reachable.known [DecidableEq ι] {s : CalendarSystem ι}
    (h : s.Reachable) : s.Known := by
  refine h.induction ?_ fun s a t f fs s' _ ih hst => ?_
  · exact
      { states := fun _ _ => rfl
        registered := by nofun
        jobs := by nofun
        frames := by
          intro t f hf
          rw [List.mem_singleton.mp hf]
          nofun }
  have hle : s.world.nextId ≤ s'.world.nextId := by
    rcases hst.move.nextId with heq | heq <;> omega
  have hold : ∀ r, r ∈ f.rules → r < s.world.nextId :=
    hst.of_forall ih.frames
  constructor
  · intro r hr
    rw [hst.move.states (fun hmem => ?_) (fun hmem => ?_) hr]
    · exact ih.states r (hle.trans hr)
    · exact absurd (hold r hmem) (by omega)
    · exact absurd (ih.registered r hmem) (by omega)
  · intro r hr
    rcases hst.move.registered_subset r hr with hr | ⟨rfl, heq⟩
    · exact (ih.registered r hr).trans_le hle
    · omega
  · intro i o ho
    rcases hst.move.job i with heq | ⟨o', ho', hmem⟩
    · exact (ih.jobs i o (heq ▸ ho)).trans_le hle
    · cases Option.mem_unique ho ho'
      exact (hold _ hmem).trans_le hle
  · refine hst.forall (ih.frames.imp fun g hg r hr => (hg r hr).trans_le hle)
      (fun g hg => by rw [rules_of_plain hg]; nofun) fun g hg r hr => ?_
    rcases hst.move.rules hg hr with hmem | hmem | ⟨i, o, ho, rfl⟩ | ⟨rfl, heq⟩
    · exact (hold r hmem).trans_le hle
    · exact (ih.registered r hmem).trans_le hle
    · exact (ih.jobs i o ho).trans_le hle
    · omega

end CalendarSystem

/-! ## The consumer -/

namespace CalendarFrame

def processes : CalendarFrame → Bool
  | .process => true
  | _ => false

/-- A frame of the callable of a task, up to the end of `run_due`. -/
def runs : CalendarFrame → Bool
  | .starting .. | .runDue .. | .running .. | .markCompleted _
  | .scheduleOne _ _ _ _ .scheduleAfterRun
  | .publish _ _ _ _ .scheduleAfterRun => true
  | _ => false

end CalendarFrame

/-- The consumer is the thread in `process()`, and there is one while the
manager has one. -/
theorem CalendarMove.consumer {a : CalendarAction ι} {mode : CalendarMode}
    {w w' : CalendarWorld} {f : CalendarFrame} {fs : List CalendarFrame}
    (h : CalendarMove a mode w f w' fs) (hloaded : w.tasks.Loaded)
    (hinv : w.tasks.Inv) :
    (w'.tasks.phase = .idle ↔ w.tasks.phase = .idle) ∧
        fs.countP processes = [f].countP processes ∨
      w.tasks.phase = .idle ∧ w'.tasks.phase ≠ .idle ∧ f.processes = false ∧
        fs.countP processes = 1 ∨
      w.tasks.phase ≠ .idle ∧ w'.tasks.phase = .idle ∧ f.processes ∧ fs = [] := by
  cases h
  case plain hf =>
    refine .inl ⟨.rfl, ?_⟩
    cases f <;> first | rfl | cases hf
  case produced ha hact h =>
    exact .inl ⟨by rw [(TaskSystem.step_of_produces hact h).1], rfl⟩
  case nothingBegan h =>
    obtain ⟨hidle, hphase⟩ := TaskSystem.step_processBegin h
    exact .inl ⟨iff_of_true (hphase.mpr rfl) hidle, rfl⟩
  case began h hmax =>
    obtain ⟨hidle, hphase⟩ := TaskSystem.step_processBegin h
    exact .inr (.inl ⟨hidle, fun hp => hmax (hphase.mp hp), rfl, rfl⟩)
  case loaded h hheld =>
    obtain ⟨-, hphase, -⟩ := TaskSystem.step_cancelLoad hinv h
    exact .inl ⟨by rw [hphase], rfl⟩
  case unloaded h hfree =>
    obtain ⟨-, hphase, -⟩ := TaskSystem.step_cancelLoad hinv h
    exact .inl ⟨by rw [hphase], rfl⟩
  case exchanged h =>
    exact .inl ⟨by rw [(TaskSystem.step_cancelExchange hloaded h).1], rfl⟩
  case processed hact h =>
    obtain ⟨hbusy, hidle⟩ := TaskSystem.step_ends hact h
    exact .inr (.inr ⟨hbusy, hidle, rfl, rfl⟩)
  case started h hwon =>
    obtain ⟨hbusy, hbusy'⟩ := TaskSystem.step_consumes (.inl rfl) h
    exact .inl ⟨iff_of_false hbusy' hbusy, rfl⟩
  case passed h hlost =>
    obtain ⟨hbusy, hbusy'⟩ := TaskSystem.step_consumes (.inl rfl) h
    exact .inl ⟨iff_of_false hbusy' hbusy, rfl⟩
  case returned hmode now now' h =>
    obtain ⟨hbusy, hbusy'⟩ :=
      TaskSystem.step_consumes (.inr (.inr (.inl ⟨_, _, rfl⟩))) h
    exact .inl ⟨iff_of_false hbusy' hbusy, rfl⟩
  case threw hact h =>
    obtain ⟨hbusy, hbusy'⟩ :=
      TaskSystem.step_consumes (.inr (.inr (.inr hact))) h
    exact .inl ⟨iff_of_false hbusy' hbusy, rfl⟩
  case settled h | otherSettled h =>
    obtain ⟨hbusy, hbusy'⟩ := TaskSystem.step_consumes (.inr (.inl rfl)) h
    exact .inl ⟨iff_of_false hbusy' hbusy, rfl⟩
  case unposted h | unpostedAfterRun h _ =>
    exact .inl ⟨by rw [(TaskSystem.step_of_produces rfl h).1], rfl⟩
  case posted h _ _ =>
    exact .inl ⟨by rw [CalendarWorld.occupy_tasks,
      (TaskSystem.step_of_produces rfl h).1], rfl⟩
  all_goals exact .inl ⟨.rfl, by rfl⟩

/-- A frame of a run comes in the place of another, or upon `process()`. -/
theorem CalendarMove.runs {a : CalendarAction ι} {mode : CalendarMode}
    {w w' : CalendarWorld} {f : CalendarFrame} {fs : List CalendarFrame}
    (h : CalendarMove a mode w f w' fs) :
    (∀ g ∈ fs, g.runs = false) ∨
      f.runs ∧ (∃ gs g, fs = gs ++ [g] ∧ ∀ g ∈ gs, g.runs = false) ∨
      f = .process ∧ ∃ g, fs = [g, .process] := by
  cases h
  case started => exact .inr (.inr ⟨rfl, _, rfl⟩)
  case settled | unpostedAfterRun | consumed | emitted | entered | walked |
      stopped | counted | finished | askedNext | askedAgain | missedNext |
      exhausted | plannedNext =>
    exact .inr (.inl ⟨rfl, [], _, rfl, List.forall_mem_nil _⟩)
  case posted caller tasks now due options i h hid hi =>
    cases caller with
    | addRule => exact .inl (List.forall_mem_singleton.mpr rfl)
    | scheduleAfterRun =>
        exact .inr (.inl ⟨rfl, [], _, rfl, List.forall_mem_nil _⟩)
  case unpublishedAfterRun =>
    exact .inr (.inl ⟨rfl, [_], _, rfl, List.forall_mem_singleton.mpr rfl⟩)
  case unpublished | cancelTaken | onePickedAlone =>
    exact .inl (List.forall_mem_cons.mpr ⟨rfl, List.forall_mem_singleton.mpr rfl⟩)
  case onePicked =>
    exact .inl (List.forall_mem_cons.mpr
      ⟨rfl, List.forall_mem_cons.mpr ⟨rfl, List.forall_mem_singleton.mpr rfl⟩⟩)
  case plain | added | produced | nothingBegan | unloaded | exchanged |
      processed | otherSettled | refused | published | dropped | rethrown |
      lastEmitted | escaped | completed | cancelRefused | cancelIgnored |
      cancelReturned | cancelDone | noneFound | allReturned | oneEmitted =>
    exact .inl (List.forall_mem_nil _)
  all_goals exact .inl (List.forall_mem_singleton.mpr rfl)

namespace CalendarSystem

/-- At most one thread is in `process()`, and the frames of a run lie on it. -/
structure OneConsumer [Fintype ι] (s : CalendarSystem ι) : Prop where
  one : total processes s.frames ≤ 1
  idle : s.world.tasks.phase = .idle → total processes s.frames = 0
  rests : ∀ t, Rests runs processes (core (s.frames t))

theorem processes_of_plain {g : CalendarFrame} (h : g.plain) :
    g.processes = false := by
  cases g <;> first | rfl | cases h

theorem runs_of_plain {g : CalendarFrame} (h : g.plain) : g.runs = false := by
  cases g <;> first | rfl | cases h

section

variable [DecidableEq ι] {s s' : CalendarSystem ι} {a : CalendarAction ι} {t : ι}
  {f : CalendarFrame} {fs : List CalendarFrame}

theorem Stepped.rests (h : Stepped s a t f fs s')
    (hold : ∀ t, Rests runs processes (core (s.frames t))) :
    ∀ t, Rests runs processes (core (s'.frames t)) := by
  obtain ⟨rest, gs, ht, rfl, hs'⟩ := h.top
  intro u
  by_cases hu : u = t
  · subst hu
    have htop := hold u
    rw [ht] at htop
    rw [hs', replaceTop_self, core_append, ht, List.tail_cons]
    rcases h.move.runs with hnone | ⟨hf, gs', g, hgs, hnone⟩ | ⟨rfl, g, hgs⟩
    · refine Rests.push ?_ hnone
      by_cases hp : f.plain
      · rwa [core_cons_of_plain hp] at htop
      · rw [core_cons (Bool.eq_false_iff.mpr hp)] at htop
        exact htop.2
    · have hp : f.plain = false := by
        cases hp : f.plain with
        | false => rfl
        | true => rw [runs_of_plain hp] at hf; cases hf
      rw [core_cons hp] at htop
      rw [hgs, List.append_assoc]
      exact Rests.push (htop.swap hf) hnone
    · rw [core_cons rfl] at htop
      rw [hgs]
      exact ⟨fun _ => ⟨_, rfl, rfl⟩, htop⟩
  · rw [hs', replaceTop_of_ne hu]
    exact hold u

theorem Reachable.oneConsumer [Fintype ι] (h : s.Reachable) : s.OneConsumer := by
  refine Reachable.induction h ?_ fun s a t f fs s' hs ih hst => ?_
  · have hnone : total processes (fun _ : ι => [CalendarFrame.user .main]) = 0 :=
      total_eq_zero_iff.mpr fun t f hf => by
        rw [List.mem_singleton.mp hf]
        rfl
    exact
      { one := by rw [hnone]; omega
        idle := fun _ => hnone
        rests := fun _ => trivial }
  · have hcount := hst.total fun g => processes_of_plain (g := g)
    have hone := ih.one
    rcases hst.move.consumer hs.tasks.loaded hs.tasks.inv with
      ⟨hphase, hfs⟩ | ⟨hidle, hbusy, hf, hfs⟩ | ⟨hbusy, hidle, hf, rfl⟩
    · exact
        { one := by omega
          idle := fun hidle => by
            have := ih.idle (hphase.mp hidle)
            omega
          rests := hst.rests ih.rests }
    · have hzero := ih.idle hidle
      rw [List.countP_cons_of_neg (by rw [hf]; nofun)] at hcount
      exact
        { one := by omega
          idle := fun hidle' => absurd hidle' hbusy
          rests := hst.rests ih.rests }
    · rw [List.countP_cons_of_pos hf, List.countP_nil] at hcount
      exact
        { one := by omega
          idle := fun _ => by omega
          rests := hst.rests ih.rests }

omit [DecidableEq ι] in
theorem total_core [Fintype ι] {p : CalendarFrame → Bool}
    {frames : ι → List CalendarFrame} (hp : ∀ g, g.plain → p g = false) :
    total p (fun t => core (frames t)) = total p frames :=
  Finset.sum_congr rfl fun _ _ => countP_core hp

omit [DecidableEq ι] in
/-- At most one occurrence runs. -/
theorem OneConsumer.runs_le [Fintype ι] (h : s.OneConsumer) :
    total runs s.frames ≤ 1 := by
  have hle := total_le_of_rests h.rests
  rw [total_core fun g => runs_of_plain (g := g),
    total_core fun g => processes_of_plain (g := g)] at hle
  exact hle.trans h.one

end

end CalendarSystem

end EventHub
