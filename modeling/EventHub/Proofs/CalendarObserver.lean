import EventHub.Proofs.CalendarCancel
import EventHub.Proofs.CalendarNames

/-!
# What the observer of a rule is told

The events of a rule are a word: `created`, then occurrences that are missed,
scheduled and run, and at the end perhaps `cancelled`. Each frame that has
something to say of a rule waits for one point of that word, and there is never
more than one such frame, if nobody takes a rule of which its `add_rule` or its
`run_due` still has something to say.
-/

namespace EventHub

open CalendarFrame Threads

variable {ι : Type}

/-- How far the word of a rule has come. -/
inductive RuleLife
  | new
  | open
  | due
  | calling
  | cancelled
  deriving DecidableEq, Repr

namespace RuleLife

def next : RuleLife → CalendarObserverEvent → Option RuleLife
  | .new, .created => some .open
  | .open, .missed | .open, .scheduled => some .open
  | .open, .due => some .due
  | .due, .beforeCallback => some .calling
  | .calling, .afterCallback => some .open
  | .open, .cancelled => some .cancelled
  | _, _ => none

end RuleLife

/-- The event, if rule `r` is told of one. -/
def CalendarObs.event (r : Nat) : CalendarObs → Option CalendarObserverEvent
  | .emitted q _ info => if q = r then some info.event else none
  | _ => none

namespace CalendarWorld

/-- Where the word of rule `r` is, if it is one. -/
def life (w : CalendarWorld) (r : Nat) : Option RuleLife :=
  (w.log.filterMap (CalendarObs.event r)).foldr
    (fun event life => life.bind (·.next event)) (some .new)

/-- The word of a rule with an observer is at `x`; without one, it is empty. -/
def AtLife (w : CalendarWorld) (r : Nat) (x : RuleLife) : Prop :=
  w.life r = some (if (w.states r).options.observer then x else .new)

end CalendarWorld

/-- Where the word of the rule is when `add_rule` goes on to say something. -/
def AddPc.life : AddPc → Option RuleLife
  | .created => some .new
  | .firstDue _ | .missing _ => some .open
  | .missed .. | .planning _ => none

theorem AddPc.open_of_life {pc : AddPc} {x : RuleLife} (hpc : pc ≠ .created)
    (hx : pc.life = some x) : x = .open := by
  cases pc with
  | created => exact absurd rfl hpc
  | firstDue | missing => exact (Option.some.inj hx).symm
  | missed | planning => cases hx

theorem AddPc.life_of_mayMiss {pc : AddPc} (hpc : pc.mayMiss) :
    pc.life = some .open := by
  cases pc <;> first | rfl | cases hpc

theorem AddPc.life_eq_none {pc : AddPc} (hpc : pc ≠ .created)
    (hmay : pc.mayMiss = false) : pc.life = none := by
  cases pc <;> first | exact absurd rfl hpc | rfl | cases hmay

/-- The same for `run_due`. -/
def RunPc.life : RunPc → Option RuleLife
  | .due | .checkContext | .checkState | .finishing | .cancelled | .next
  | .asked => some .open
  | .before => some .due
  | .calling | .called | .failed | .settling | .after => some .calling
  | .rethrowing | .missed _ | .skipping => none

namespace CalendarFrame

/-- Where the word of rule `r` is, if the frame may add to it even when the
rule is gone. -/
def life (r : Nat) : CalendarFrame → Option RuleLife
  | .adding q pc => if q = r then pc.life else none
  | .running run pc => if run.rule = r then pc.life else none
  | .cancellingRule q .. | .cancellingOne q => if q = r then some .open else none
  | .cancellingAll rest _ => if r ∈ rest then some .open else none
  | _ => none

def speaks (r : Nat) (g : CalendarFrame) : Bool := (g.life r).isSome

/-- The frame has the last word on rule `r`, which it has taken. -/
def ends (r : Nat) : CalendarFrame → Bool
  | .running run .cancelled => run.rule = r
  | .cancellingRule q .. | .cancellingOne q => q = r
  | .cancellingAll rest _ => r ∈ rest
  | _ => false

variable {r : Nat} {g : CalendarFrame}

theorem life_of_plain (h : g.plain) : g.life r = none := by
  cases g <;> first | rfl | cases h

theorem speaks_of_plain (h : g.plain) : g.speaks r = false := by
  rw [speaks, life_of_plain h, Option.isSome_none]

theorem ends_of_plain (h : g.plain) : g.ends r = false := by
  cases g <;> first | rfl | cases h

theorem speaks_of_life {x : RuleLife} (h : g.life r = some x) : g.speaks r := by
  rw [speaks, h, Option.isSome_some]

/-- Whoever speaks of a rule works for it or has taken it. -/
theorem queues_or_ends_of_speaks (h : g.speaks r) : g.queues r ∨ g.ends r := by
  cases g <;> simp only [speaks, life, Option.isSome_none] at h <;>
    first | cases h | skip
  case adding | running =>
    refine .inl (decide_eq_true ?_)
    by_contra hq
    simp [hq] at h
  case cancellingRule | cancellingOne | cancellingAll =>
    refine .inr (decide_eq_true ?_)
    by_contra hq
    simp [hq] at h

theorem mem_rules_of_speaks (h : g.speaks r) : r ∈ g.rules := by
  cases g <;> simp only [speaks, life, Option.isSome_none] at h <;>
    first | cases h | skip
  case adding | running | cancellingRule | cancellingOne =>
    refine Finset.mem_singleton.mpr ?_
    by_contra hq
    simp [Ne.symm hq] at h
  case cancellingAll rest rules =>
    refine Finset.mem_union_left _ ?_
    by_contra hq
    simp [hq] at h

end CalendarFrame

/-! ## The word grows -/

namespace CalendarWorld

variable {w w' : CalendarWorld} {r q : Nat} {run : Option Nat}
  {info : CalendarObserverInfo} {x y : RuleLife}

theorem life_of_log (h : w'.log = w.log) : w'.life r = w.life r := by
  unfold life
  rw [h]

theorem life_note {o : CalendarObs} (h : o.event r = none) :
    (w.note o).life r = w.life r := by
  unfold life
  rw [note_log, List.filterMap_cons_none h]

theorem life_emit_of_ne (h : q ≠ r) : (w.emit q run info).life r = w.life r := by
  unfold life emit
  dsimp only
  split
  · rw [List.filterMap_cons_none (by simp [CalendarObs.event, h])]
  · rfl

theorem AtLife.emit (h : w.AtLife r x) (hnext : x.next info.event = some y) :
    (w.emit r run info).AtLife r y := by
  unfold AtLife life CalendarWorld.emit at *
  dsimp only
  split
  · next hobs =>
      rw [if_pos hobs] at h
      rw [List.filterMap_cons_some (b := info.event) (by simp [CalendarObs.event]),
        List.foldr_cons, h]
      exact hnext
  · next hobs =>
      rw [if_neg hobs] at h
      exact h

theorem AtLife.isSome (h : w.AtLife r x) : (w.life r).isSome := by
  rw [AtLife] at h
  rw [h, Option.isSome_some]

theorem AtLife.of_life (h : w.AtLife r x) (hlife : w'.life r = w.life r)
    (hobs : (w'.states r).options.observer = (w.states r).options.observer) :
    w'.AtLife r x := by
  unfold AtLife at *
  rw [hlife, hobs]
  exact h

end CalendarWorld

section Move

variable {a : CalendarAction ι} {mode : CalendarMode} {w w' : CalendarWorld}
  {f : CalendarFrame} {fs : List CalendarFrame} {r : Nat}

/-- The options of a rule do not change. -/
theorem CalendarMove.observer (h : CalendarMove a mode w f w' fs)
    (hr : r < w.nextId) :
    (w'.states r).options.observer = (w.states r).options.observer := by
  cases h
  case registered =>
    rw [CalendarWorld.register_states_of_ne (Nat.ne_of_lt hr)]
  case posted =>
    exact CalendarWorld.occupy_congr (·.options.observer) (fun _ => rfl) r
  case published =>
    exact CalendarWorld.publish_congr (·.options.observer) (fun _ => rfl) r
  case consumed =>
    exact CalendarWorld.consume_congr (·.options.observer) (fun _ => rfl) r
  case stopped | counted =>
    exact CalendarWorld.setState_congr (·.options.observer) (by rfl) r
  case rethrown | finished | completed | cancelTaken | cancelTakenAlone =>
    exact CalendarWorld.markCompleted_congr (·.options.observer) (fun _ => rfl) r
  case allTaken =>
    exact CalendarWorld.takeAll_congr (·.options.observer) (fun _ => rfl) r
  all_goals rfl

/-- What is left when the word of rule `r` has come to `x`. -/
def Told (w' : CalendarWorld) (fs : List CalendarFrame) (r : Nat) : Prop :=
  ∃ x, w'.AtLife r x ∧ (∀ g ∈ fs, ∀ y, g.life r = some y → y = x) ∧
    fs.countP (speaks r) ≤ 1 ∧
    ((∀ g ∈ fs, g.speaks r = false) → x = .open ∨ r ∉ w'.registered)

theorem Told.single {g : CalendarFrame} {x : RuleLife} (hat : w'.AtLife r x)
    (hg : g.life r = some x) : Told w' [g] r := by
  refine ⟨x, hat, ?_, List.countP_le_length, fun hnone => ?_⟩
  · rintro g' hg' y hy
    rw [List.mem_singleton.mp hg', hg] at hy
    exact (Option.some.inj hy).symm
  · have hno := hnone g (List.mem_singleton_self g)
    rw [speaks_of_life hg] at hno
    cases hno

/-- The frame stays at `open`, or has nothing more to say. -/
theorem Told.rests {g : CalendarFrame} (hat : w'.AtLife r .open)
    (hg : ∀ y, g.life r = some y → y = .open) : Told w' [g] r := by
  refine ⟨.open, hat, ?_, List.countP_le_length, fun _ => .inl rfl⟩
  rintro g' hg' y hy
  rw [List.mem_singleton.mp hg'] at hy
  exact hg y hy

theorem Told.silent {x : RuleLife} (hat : w'.AtLife r x)
    (hfs : ∀ g ∈ fs, g.life r = none) (hx : x = .open ∨ r ∉ w'.registered) :
    Told w' fs r := by
  refine ⟨x, hat, fun g hg y hy => ?_, ?_, fun _ => hx⟩
  · cases (hfs g hg).symm.trans hy
  · rw [List.countP_eq_zero.mpr fun g hg => ?_]
    · exact Nat.zero_le 1
    · rw [speaks, hfs g hg]
      exact Bool.false_ne_true

/-- A frame that waits for the word of a rule carries it on. -/
theorem CalendarMove.tells (h : CalendarMove a mode w f w' fs) {x : RuleLife}
    (hf : f.life r = some x) (hat : w.AtLife r x) (hlt : r < w.nextId)
    (hend : f.ends r → r ∉ w.registered) : Told w' fs r := by
  have hobs := h.observer hlt
  cases h
  case announced q info hinfo observed =>
    obtain ⟨rfl, hx⟩ := Option.ite_none_right_eq_some.mp hf
    cases hx
    exact .single (hat.emit (by rw [hinfo]; rfl)) (if_pos rfl)
  case askedFirst q pc pc' hpc hpc' hmay after observed =>
    obtain ⟨rfl, hx⟩ := Option.ite_none_right_eq_some.mp hf
    obtain rfl := AddPc.open_of_life hpc hx
    refine .rests (hat.of_life (CalendarWorld.life_note rfl) hobs) fun y hy => ?_
    exact AddPc.open_of_life hpc' (Option.ite_none_right_eq_some.mp hy).2
  case missedFirst q pc pc' hpc hpc' hmay hmissed info hinfo =>
    obtain ⟨rfl, hx⟩ := Option.ite_none_right_eq_some.mp hf
    obtain rfl := AddPc.open_of_life hpc hx
    refine .rests (hat.emit (by rw [hinfo]; rfl)) fun y hy => ?_
    exact AddPc.open_of_life hpc' (Option.ite_none_right_eq_some.mp hy).2
  case abandoned q pc hpc | plannedFirst q pc hpc planned observed immediate =>
    obtain ⟨rfl, hx⟩ := Option.ite_none_right_eq_some.mp hf
    obtain rfl := AddPc.open_of_life hpc hx
    exact .rests hat fun y hy => by cases hy
  case emitted run pc pc' event hpc observed =>
    obtain ⟨rfl, hx⟩ := Option.ite_none_right_eq_some.mp hf
    cases pc <;> cases hpc <;> cases hx
    · exact .single (hat.emit rfl) (if_pos rfl)
    · exact .single (hat.emit rfl) (if_pos rfl)
    · refine .rests (hat.emit rfl) fun y hy => ?_
      simp [CalendarFrame.life, RunPc.life] at hy
    · exact .single (hat.emit rfl) (if_pos rfl)
  case entered run =>
    obtain ⟨rfl, hx⟩ := Option.ite_none_right_eq_some.mp hf
    cases hx
    exact .single (hat.of_life (CalendarWorld.life_note rfl) hobs) (if_pos rfl)
  case walked run pc pc' hkept hpc =>
    obtain ⟨rfl, hx⟩ := Option.ite_none_right_eq_some.mp hf
    cases hpc <;> cases hx <;> exact .single hat (if_pos rfl)
  case stopped run observed | counted run observed hkept =>
    obtain ⟨rfl, hx⟩ := Option.ite_none_right_eq_some.mp hf
    cases hx
    exact .single (hat.of_life (CalendarWorld.life_of_log rfl) hobs) (if_pos rfl)
  case rethrown run =>
    obtain ⟨-, hx⟩ := Option.ite_none_right_eq_some.mp hf
    cases hx
  case finished run =>
    obtain ⟨rfl, hx⟩ := Option.ite_none_right_eq_some.mp hf
    cases hx
    exact .single (hat.of_life (CalendarWorld.life_of_log rfl) hobs) (if_pos rfl)
  case lastEmitted run =>
    obtain ⟨rfl, hx⟩ := Option.ite_none_right_eq_some.mp hf
    cases hx
    exact .silent (hat.emit rfl) (List.forall_mem_nil _)
      (.inr (hend (decide_eq_true rfl)))
  case askedNext run =>
    obtain ⟨rfl, hx⟩ := Option.ite_none_right_eq_some.mp hf
    cases hx
    exact .single (hat.of_life (CalendarWorld.life_note rfl) hobs) (if_pos rfl)
  case askedAgain run next =>
    obtain ⟨-, hx⟩ := Option.ite_none_right_eq_some.mp hf
    cases hx
  case missedNext run next info hinfo =>
    obtain ⟨rfl, hx⟩ := Option.ite_none_right_eq_some.mp hf
    cases hx
    refine .rests (hat.emit (by rw [hinfo]; rfl)) fun y hy => ?_
    simp [CalendarFrame.life, RunPc.life] at hy
  case exhausted run pc hpc | plannedNext run pc hpc planned observed immediate =>
    obtain ⟨rfl, hx⟩ := Option.ite_none_right_eq_some.mp hf
    cases pc <;> cases hpc <;> cases hx
    exact .rests hat fun y hy => by cases hy
  case escaped run pc hmode hpc =>
    obtain ⟨rfl, hx⟩ := Option.ite_none_right_eq_some.mp hf
    cases pc <;> cases hpc <;> cases hx
    exact .silent hat (List.forall_mem_nil _) (.inl rfl)
  case cancelEmitted q planned taskId runCount called info hinfo =>
    obtain ⟨rfl, hx⟩ := Option.ite_none_right_eq_some.mp hf
    cases hx
    exact .silent (hat.emit (by rw [hinfo]; rfl)) (List.forall_mem_singleton.mpr rfl)
      (.inr (hend (decide_eq_true rfl)))
  case oneEmitted q info hinfo =>
    obtain ⟨rfl, hx⟩ := Option.ite_none_right_eq_some.mp hf
    cases hx
    exact .silent (hat.emit (by rw [hinfo]; rfl)) (List.forall_mem_nil _)
      (.inr (hend (decide_eq_true rfl)))
  case allReturned rules =>
    simp [CalendarFrame.life] at hf
  case onePicked rest rules q hq hqueued | onePickedAlone rest rules q hq hqueued =>
    obtain ⟨hr, hx⟩ := Option.ite_none_right_eq_some.mp hf
    cases hx
    refine ⟨.open, hat, fun g hg y hy => ?_, ?_, fun _ => .inl rfl⟩
    · simp only [List.mem_cons, List.not_mem_nil, or_false] at hg
      rcases hg with rfl | rfl | rfl <;>
        simp only [CalendarFrame.life, Option.ite_none_right_eq_some,
          reduceCtorEq] at hy <;> exact (Option.some.inj hy.2).symm
    · by_cases hqr : q = r
      · simp [speaks, CalendarFrame.life, hqr]
      · simp [speaks, CalendarFrame.life, hqr, hr, Ne.symm hqr]
  case plain hf' => cases (life_of_plain hf').symm.trans hf
  all_goals cases hf

/-- What a frame that says nothing of rule `r` does. -/
inductive Mute (w w' : CalendarWorld) (f : CalendarFrame) (fs : List CalendarFrame)
    (r : Nat) : Prop
  | quiet (hfs : ∀ g ∈ fs, g.life r = none) (hlife : w'.life r = w.life r)
  /-- It publishes a task of the rule. -/
  | published (hq : f.queues r) (hr : r ∈ w.registered)
      (hfs : ∀ g ∈ fs, g.life r = none)
      (hat : w.AtLife r .open → w'.AtLife r .open)
  /-- It begins to speak of the rule, whose `run_due` it is. -/
  | found (hlife : w'.life r = w.life r) (hcount : fs.countP (speaks r) ≤ 1)
      (hfs : ∀ g ∈ fs, ∀ y, g.life r = some y → y = .open)
      (hr : r ∈ w.registered) {i : Nat} (hf : f = .runDue r i)
      (hkept : w.gone r = false)
  /-- It does so since it takes the rule. -/
  | taken (hlife : w'.life r = w.life r) (hcount : fs.countP (speaks r) ≤ 1)
      (hfs : ∀ g ∈ fs, ∀ y, g.life r = some y → y = .open)
      (hr : r ∈ w.registered) (htakes : r ∈ w.takes f)

theorem CalendarMove.mute (h : CalendarMove a mode w f w' fs) (hf : f.life r = none)
    (hnew : r = w.nextId → w'.nextId = w.nextId)
    (hobs : f.queues r →
      (w'.states r).options.observer = (w.states r).options.observer) :
    Mute w w' f fs r := by
  have hother {q : Nat} {x : RuleLife} {o : Option RuleLife} (ho : o = some x)
      (h : (if q = r then o else none) = none) : q ≠ r := by
    rintro rfl
    rw [if_pos rfl, ho] at h
    cases h
  cases h
  case registered options hopen =>
    have hr : w.nextId ≠ r := fun heq => Nat.succ_ne_self _ (hnew heq.symm)
    exact .quiet (List.forall_mem_singleton.mpr (if_neg hr))
      (CalendarWorld.life_of_log rfl)
  case announced q info hinfo observed =>
    have hq := hother (x := .new) rfl hf
    exact .quiet (List.forall_mem_singleton.mpr (if_neg hq))
      (CalendarWorld.life_emit_of_ne hq)
  case askedFirst q pc pc' hpc hpc' hmay after observed =>
    refine .quiet (List.forall_mem_singleton.mpr ?_) (CalendarWorld.life_note rfl)
    by_cases hq : q = r
    · refine (if_pos hq).trans (AddPc.life_eq_none hpc' ?_)
      refine Bool.eq_false_iff.mpr fun hmiss => ?_
      exact hother (AddPc.life_of_mayMiss (hmay hmiss)) hf hq
    · exact if_neg hq
  case missedFirst q pc pc' hpc hpc' hmay hmissed info hinfo =>
    have hq := hother (AddPc.life_of_mayMiss hmay) hf
    exact .quiet (List.forall_mem_singleton.mpr (if_neg hq))
      (CalendarWorld.life_emit_of_ne hq)
  case published q planned observed i caller hkept info hinfo =>
    by_cases hq : q = r
    · subst hq
      refine .published (decide_eq_true rfl) ?_ (List.forall_mem_nil _) fun hat => ?_
      · by_contra hr
        simp [CalendarWorld.gone, hr] at hkept
      · have hobs := hobs (decide_eq_true rfl)
        rw [CalendarWorld.emit_states] at hobs
        have hat' : (w.publish q planned i).AtLife q .open :=
          hat.of_life (CalendarWorld.life_of_log rfl) hobs
        exact hat'.emit (by rw [hinfo]; rfl)
    · refine .quiet (List.forall_mem_nil _) ?_
      exact (CalendarWorld.life_emit_of_ne hq).trans (CalendarWorld.life_of_log rfl)
  case consumed q i hkept =>
    by_cases hq : q = r
    · subst hq
      refine .found (CalendarWorld.life_note rfl) List.countP_le_length
        (List.forall_mem_singleton.mpr fun y hy => ?_) ?_ rfl hkept
      · simpa [CalendarFrame.life, RunPc.life] using hy.symm
      · by_contra hr
        simp [CalendarWorld.gone, hr] at hkept
    · exact .quiet (List.forall_mem_singleton.mpr (if_neg hq))
        (CalendarWorld.life_note rfl)
  case emitted run pc pc' event hpc observed =>
    have hq : run.rule ≠ r := by
      cases pc <;> cases hpc <;> exact hother rfl hf
    exact .quiet (List.forall_mem_singleton.mpr (if_neg hq))
      (CalendarWorld.life_emit_of_ne hq)
  case entered run =>
    exact .quiet (List.forall_mem_singleton.mpr (if_neg (hother rfl hf)))
      (CalendarWorld.life_note rfl)
  case walked run pc pc' hkept hpc =>
    have hq : run.rule ≠ r := by cases hpc <;> exact hother rfl hf
    exact .quiet (List.forall_mem_singleton.mpr (if_neg hq)) rfl
  case stopped run observed | counted run observed hkept | finished run =>
    exact .quiet (List.forall_mem_singleton.mpr (if_neg (hother rfl hf)))
      (CalendarWorld.life_of_log rfl)
  case lastEmitted run =>
    exact .quiet (List.forall_mem_nil _)
      (CalendarWorld.life_emit_of_ne (hother rfl hf))
  case askedNext run =>
    exact .quiet (List.forall_mem_singleton.mpr (if_neg (hother rfl hf)))
      (CalendarWorld.life_note rfl)
  case askedAgain run next =>
    refine .quiet (List.forall_mem_singleton.mpr ?_) (CalendarWorld.life_note rfl)
    simp [CalendarFrame.life, RunPc.life]
  case missedNext run next info hinfo =>
    refine .quiet (List.forall_mem_singleton.mpr ?_)
      (CalendarWorld.life_emit_of_ne (hother rfl hf))
    simp [CalendarFrame.life, RunPc.life]
  case rethrown | completed =>
    exact .quiet (List.forall_mem_nil _) (CalendarWorld.life_of_log rfl)
  case cancelTaken q called hq hkept hqueued =>
    by_cases hqr : q = r
    · subst hqr
      refine .taken (CalendarWorld.life_of_log rfl) ?_ ?_ hq ?_
      · simp [speaks, CalendarFrame.life]
      · simp [CalendarFrame.life]
      · simp [CalendarWorld.takes, hq, hkept]
    · refine .quiet (fun g hg => ?_) (CalendarWorld.life_of_log rfl)
      rcases List.mem_pair.mp hg with rfl | rfl
      · rfl
      · exact if_neg hqr
  case cancelTakenAlone q called hq hkept hqueued =>
    by_cases hqr : q = r
    · subst hqr
      refine .taken (CalendarWorld.life_of_log rfl) List.countP_le_length ?_ hq ?_
      · simp [CalendarFrame.life]
      · simp [CalendarWorld.takes, hq, hkept]
    · exact .quiet (List.forall_mem_singleton.mpr (if_neg hqr))
        (CalendarWorld.life_of_log rfl)
  case cancelEmitted q planned taskId runCount called info hinfo =>
    exact .quiet (List.forall_mem_singleton.mpr rfl)
      (CalendarWorld.life_emit_of_ne (hother rfl hf))
  case oneEmitted q info hinfo =>
    exact .quiet (List.forall_mem_nil _)
      (CalendarWorld.life_emit_of_ne (hother rfl hf))
  case allTaken close found =>
    by_cases hr : r ∈ w.registered
    · refine .taken (CalendarWorld.life_of_log rfl) List.countP_le_length ?_ hr hr
      simp [CalendarFrame.life, hr]
    · exact .quiet (List.forall_mem_singleton.mpr (if_neg hr))
        (CalendarWorld.life_of_log rfl)
  case onePicked rest rules q hq hqueued | onePickedAlone rest rules q hq hqueued =>
    have hr : r ∉ rest := by
      intro hr
      simp [CalendarFrame.life, hr] at hf
    refine .quiet (fun g hg => ?_) rfl
    have hqr : q ≠ r := fun heq => hr (heq ▸ hq)
    simp only [List.mem_cons, List.not_mem_nil, or_false] at hg
    rcases hg with rfl | rfl | rfl <;> simp [CalendarFrame.life, hqr, hr]
  case posted => exact .quiet (List.forall_mem_singleton.mpr rfl) rfl
  case added | refused | cancelRefused | cancelReturned | noneFound | allReturned =>
    exact .quiet (List.forall_mem_nil _) (CalendarWorld.life_note rfl)
  all_goals
    refine .quiet (fun g hg => ?_) rfl
    simp only [List.mem_cons, List.not_mem_nil, or_false] at hg <;>
      first | (subst hg; rfl) | (rcases hg with rfl | rfl <;> rfl)

/-- Who comes to have the last word has taken the rule. -/
theorem CalendarMove.ends (h : CalendarMove a mode w f w' fs)
    {g : CalendarFrame} (hg : g ∈ fs) (hr : g.ends r) :
    f.ends r ∨ r ∉ w'.registered := by
  have hnone (hfs : fs.countP (CalendarFrame.ends r) = 0) :
      f.ends r ∨ r ∉ w'.registered :=
    absurd hr (List.countP_eq_zero.mp hfs g hg)
  cases h
  case emitted run pc pc' event hpc observed =>
    cases pc <;> cases hpc <;> exact hnone rfl
  case walked run pc pc' hkept hpc => cases hpc <;> exact hnone rfl
  case finished run =>
    rw [List.mem_singleton.mp hg] at hr
    have hq : run.rule = r := of_decide_eq_true hr
    exact .inr (hq ▸ Finset.notMem_erase _ _)
  case cancelTaken q called hq hkept hqueued =>
    rcases List.mem_pair.mp hg with rfl | rfl
    · cases hr
    · have hqr : q = r := of_decide_eq_true hr
      exact .inr (hqr ▸ Finset.notMem_erase _ _)
  case cancelTakenAlone q called hq hkept hqueued =>
    rw [List.mem_singleton.mp hg] at hr
    have hqr : q = r := of_decide_eq_true hr
    exact .inr (hqr ▸ Finset.notMem_erase _ _)
  case allTaken => exact .inr (Finset.notMem_empty r)
  case onePicked rest rules q hq hqueued | onePickedAlone rest rules q hq hqueued =>
    refine .inl (decide_eq_true ?_)
    simp only [List.mem_cons, List.not_mem_nil, or_false] at hg
    rcases hg with rfl | rfl | rfl
    all_goals first
      | cases hr
      | (have hqr : q = r := of_decide_eq_true hr
         exact hqr ▸ hq)
      | exact Finset.mem_of_mem_erase (of_decide_eq_true hr)
  all_goals exact hnone (by rfl)

/-- A new rule has a frame that adds it, and nothing has been said of it. -/
theorem CalendarMove.made (h : CalendarMove a mode w f w' fs)
    (hnew : w'.nextId ≠ w.nextId) :
    fs = [.adding w.nextId .created] ∧ w'.log = w.log := by
  cases h
  case registered => exact ⟨rfl, rfl⟩
  all_goals exact absurd rfl hnew

end Move

namespace CalendarSystem

/-- No rule is taken of which a frame still has something to say. -/
def TakenAtRest (s : CalendarSystem ι) (_ : ι) (f : CalendarFrame) : Prop :=
  ∀ r ∈ s.world.takes f, ¬ Threads.Exists (speaks r) s.frames

instance [Fintype ι] (s : CalendarSystem ι) (t : ι) (f : CalendarFrame) :
    Decidable (s.TakenAtRest t f) :=
  inferInstanceAs (Decidable (∀ r ∈ s.world.takes f, _))

/-- `run_due` finds no rule that another frame works for. -/
def FoundAtRest (s : CalendarSystem ι) (_ : ι) (f : CalendarFrame) : Prop :=
  ∀ x ∈ f.takes, s.world.gone x.1 = false →
    ¬ Threads.Exists (queues x.1) s.frames

instance [Fintype ι] (s : CalendarSystem ι) (t : ι) (f : CalendarFrame) :
    Decidable (s.FoundAtRest t f) :=
  inferInstanceAs (Decidable (∀ x ∈ f.takes, _))

/-- Every word is as far as the frame that speaks of the rule takes it to be. -/
structure ObserverInv [Fintype ι] (s : CalendarSystem ι) : Prop where
  queues : ∀ r, total (queues r) s.frames ≤ 1
  ends : Forall (fun g => ∀ r, g.ends r → r ∉ s.world.registered) s.frames
  unknown : ∀ r, s.world.nextId ≤ r → s.world.life r = some .new
  speaks : ∀ r, total (speaks r) s.frames ≤ 1
  lives : ∀ r, Forall (fun g => ∀ x, g.life r = some x → s.world.AtLife r x) s.frames
  rests : ∀ r ∈ s.world.registered, ¬ Threads.Exists (CalendarFrame.speaks r) s.frames →
    s.world.AtLife r .open
  words : ∀ r, (s.world.life r).isSome

theorem ObserverInv.init [Fintype ι] : ObserverInv ({} : CalendarSystem ι) where
  queues r := by
    have hnone : total (CalendarFrame.queues r)
        (fun _ : ι => [CalendarFrame.user .main]) = 0 :=
      total_eq_zero_iff.mpr fun t f hf => by
        rw [List.mem_singleton.mp hf]
        rfl
    exact hnone.trans_le (Nat.zero_le 1)
  ends t g hg r hr := by
    rw [List.mem_singleton.mp hg] at hr
    cases hr
  unknown _ _ := rfl
  speaks r := by
    have hnone : total (CalendarFrame.speaks r)
        (fun _ : ι => [CalendarFrame.user .main]) = 0 :=
      total_eq_zero_iff.mpr fun t f hf => by
        rw [List.mem_singleton.mp hf]
        rfl
    exact hnone.trans_le (Nat.zero_le 1)
  lives r t g hg x hx := by
    rw [List.mem_singleton.mp hg] at hx
    cases hx
  rests := by nofun
  words _ := rfl

theorem mem_rules_of_ends {g : CalendarFrame} {r : Nat} (h : g.ends r) : r ∈ g.rules := by
  cases g <;> try cases h
  case running run pc =>
    cases pc <;> first | cases h | skip
    exact Finset.mem_singleton.mpr (of_decide_eq_true h).symm
  case cancellingRule | cancellingOne =>
    exact Finset.mem_singleton.mpr (of_decide_eq_true h).symm
  case cancellingAll => exact Finset.mem_union_left _ (of_decide_eq_true h)

section

variable [DecidableEq ι] {s s' : CalendarSystem ι} {a : CalendarAction ι} {t : ι}
  {f : CalendarFrame} {fs : List CalendarFrame} {r : Nat}

/-- The frames that stay, and the top. -/
theorem Stepped.forall_of_rest {P : CalendarFrame → Prop} (h : Stepped s a t f fs s')
    (hrest : Forall P (replaceTop s.frames t [])) (hf : P f) : Forall P s.frames := by
  obtain ⟨rest, gs, ht, -, -⟩ := h.top
  intro u g hg
  by_cases hut : u = t
  · subst hut
    rw [ht] at hg
    rcases List.mem_cons.mp hg with rfl | hg
    · exact hf
    · refine hrest u g ?_
      rwa [replaceTop_self, List.nil_append, ht]
  · refine hrest u g ?_
    rwa [replaceTop_of_ne hut]

variable [Fintype ι]

theorem ObserverInv.queues_step (h : s.ObserverInv) (hs : s.Reachable)
    (hst : Stepped s a t f fs s') (hfound : AtTop FoundAtRest s a) (r : Nat) :
    total (CalendarFrame.queues r) s'.frames ≤ 1 := by
  have hcount := hst.total fun g => queues_of_plain (r := r) (g := g)
  have hone := h.queues r
  rcases hst.move.queues r with hle | ⟨hnew, hwhy⟩
  · omega
  · have hzero : total (CalendarFrame.queues r) s.frames = 0 := by
      rcases hwhy with ⟨hr, -⟩ | ⟨hkept, i, rfl⟩
      · exact hs.known.total_eq_zero hr.ge fun g hg => mem_rules_of_queues hg
      · exact total_eq_zero_iff.mpr
          (not_exists_iff.mp (hst.meets hfound rfl (r, i) rfl hkept))
    omega

theorem ObserverInv.ends_step (h : s.ObserverInv) (hs : s.Reachable)
    (hst : Stepped s a t f fs s') :
    Forall (fun g => ∀ r, g.ends r → r ∉ s'.world.registered) s'.frames := by
  have hold : Forall (fun g => ∀ r, g.ends r → r ∉ s'.world.registered) s.frames := by
    intro u g hg r hr hmem
    rcases hst.move.registered_subset r hmem with hmem | ⟨rfl, -⟩
    · exact h.ends u g hg r hr hmem
    · exact Nat.lt_irrefl _ (hs.known.frames u g hg _ (mem_rules_of_ends hr))
  refine hst.forall hold (fun g hg r hr => ?_) fun g hg r hr => ?_
  · cases (ends_of_plain hg).symm.trans hr
  · rcases hst.move.ends hg hr with hf | hout
    · exact hst.of_forall hold r hf
    · exact hout

theorem ObserverInv.unknown_step (h : s.ObserverInv) (hs : s.Reachable)
    (hst : Stepped s a t f fs s') (hr : s'.world.nextId ≤ r) :
    s'.world.life r = some .new := by
  have hge : s.world.nextId ≤ r := by
    rcases hst.move.nextId with heq | heq <;> omega
  have hnot (hmem : r ∈ f.rules) : False :=
    Nat.lt_irrefl r ((hst.of_forall hs.known.frames r hmem).trans_le hge)
  have hf : f.life r = none := by
    refine Option.not_isSome_iff_eq_none.mp fun hsome => ?_
    exact hnot (mem_rules_of_speaks hsome)
  have hnew (heq : r = s.world.nextId) : s'.world.nextId = s.world.nextId := by
    rcases hst.move.nextId with heq' | heq' <;> omega
  cases hst.move.mute hf hnew (fun hq => (hnot (mem_rules_of_queues hq)).elim) with
  | quiet _ hlife =>
      rw [hlife]
      exact h.unknown r hge
  | published hq => exact (hnot (mem_rules_of_queues hq)).elim
  | found _ _ _ hr | taken _ _ _ hr =>
      exact absurd (hs.known.registered r hr) (Nat.not_lt.mpr hge)

/-- What is known of one rule. -/
structure Word (s : CalendarSystem ι) (r : Nat) : Prop where
  speaks : total (CalendarFrame.speaks r) s.frames ≤ 1
  lives : Forall (fun g => ∀ x, g.life r = some x → s.world.AtLife r x) s.frames
  rests : r ∈ s.world.registered → ¬ Threads.Exists (CalendarFrame.speaks r) s.frames →
    s.world.AtLife r .open
  words : (s.world.life r).isSome

/-- The frame that speaks of the rule goes on. -/
theorem ObserverInv.word_told (h : s.ObserverInv) (hst : Stepped s a t f fs s')
    {x : RuleLife} (hf : f.life r = some x) (hlt : r < s.world.nextId) :
    s'.Word r := by
  have hspeaks := speaks_of_life hf
  have hcount := hst.total fun g => speaks_of_plain (r := r) (g := g)
  rw [List.countP_cons_of_pos hspeaks, List.countP_nil] at hcount
  have hone := h.speaks r
  have hrest := hst.alone hone hspeaks
  obtain ⟨y, hat, hfs, hnew, hopen⟩ :=
    hst.move.tells hf (hst.of_forall (h.lives r) x hf) hlt (hst.of_forall h.ends r)
  refine ⟨by omega, hst.forall_put (hrest.imp fun g hg z hz => ?_)
    (fun g hg z hz => ?_) fun g hg z hz => ?_, fun hr hnone => ?_, hat.isSome⟩
  · cases hg.symm.trans (speaks_of_life hz)
  · cases (life_of_plain hg).symm.trans hz
  · exact (hfs g hg z hz).symm ▸ hat
  · rcases hopen fun g hg => Bool.eq_false_iff.mpr fun hg' =>
      hnone (hst.exists_new hg hg') with rfl | hout
    · exact hat
    · exact absurd hr hout

/-- Another frame moves. -/
theorem ObserverInv.word_mute (h : s.ObserverInv) (hst : Stepped s a t f fs s')
    (htaken : AtTop TakenAtRest s a) (hfound : AtTop FoundAtRest s a)
    (hf : f.life r = none) (hlt : r < s.world.nextId) : s'.Word r := by
  have hsilent : f.speaks r = false := by
    rw [CalendarFrame.speaks, hf, Option.isSome_none]
  have hcount := hst.total fun g => speaks_of_plain (r := r) (g := g)
  rw [List.countP_cons_of_neg (Bool.eq_false_iff.mp hsilent), List.countP_nil] at hcount
  have hone := h.speaks r
  have hobs := hst.move.observer hlt
  have hquiet (hfs : ∀ g ∈ fs, g.life r = none) : fs.countP (CalendarFrame.speaks r) = 0 :=
    List.countP_eq_zero.mpr fun g hg => by
      rw [CalendarFrame.speaks, hfs g hg]
      exact Bool.false_ne_true
  -- where nobody speaks of a rule, whoever comes to do so finds it open
  have hbegin (hr : r ∈ s.world.registered)
      (hnone : Forall (fun g => g.speaks r = false) s.frames)
      (hat : s.world.AtLife r .open → s'.world.AtLife r .open)
      (hnew : fs.countP (CalendarFrame.speaks r) ≤ 1)
      (hfs : ∀ g ∈ fs, ∀ y, g.life r = some y → y = .open) : s'.Word r := by
    have hopen := hat (h.rests r hr (not_exists_iff.mpr hnone))
    have hzero := total_eq_zero_iff.mpr hnone
    refine ⟨by omega, hst.forall (hnone.imp fun g hg z hz => ?_)
      (fun g hg z hz => ?_) fun g hg z hz => ?_, fun _ _ => hopen, hopen.isSome⟩
    · cases hg.symm.trans (speaks_of_life hz)
    · cases (life_of_plain hg).symm.trans hz
    · exact (hfs g hg z hz).symm ▸ hopen
  have hunqueued (hr : r ∈ s.world.registered) {g : CalendarFrame}
      (hends : ∀ q, g.ends q → q ∉ s.world.registered) (hq : g.queues r = false) :
      g.speaks r = false := by
    refine Bool.eq_false_iff.mpr fun hspeaks => ?_
    rcases queues_or_ends_of_speaks hspeaks with hq' | hends'
    · cases hq.symm.trans hq'
    · exact hends r hends' hr
  cases hst.move.mute hf (fun heq => absurd heq hlt.ne) (fun _ => hobs) with
  | quiet hfs hlife =>
      have hzero := hquiet hfs
      refine ⟨by omega, hst.forall ((h.lives r).imp fun g hg z hz => ?_)
        (fun g hg z hz => ?_) fun g hg z hz => ?_, fun hr' hnone => ?_, ?_⟩
      · exact (hg z hz).of_life hlife hobs
      · cases (life_of_plain hg).symm.trans hz
      · cases (hfs g hg).symm.trans hz
      · have hr : r ∈ s.world.registered :=
          (hst.move.registered_subset r hr').resolve_right fun hnew =>
            absurd hnew.1 hlt.ne
        have hat := h.rests r hr fun hex => hnone (hst.exists_of hex hsilent)
        exact hat.of_life hlife hobs
      · rw [hlife]
        exact h.words r
  | published hq hr hfs hat =>
      refine hbegin hr ?_ hat ((hquiet hfs).trans_le (Nat.zero_le 1)) fun g hg z hz => ?_
      · have hrest := hst.alone (h.queues r) hq
        refine hst.forall_of_rest (fun u g hg => ?_) hsilent
        exact hunqueued hr (Stepped.rest h.ends u g hg) (hrest u g hg)
      · cases (hfs g hg).symm.trans hz
  | found hlife hcount hfs hr hf hkept =>
      subst hf
      have hnone := not_exists_iff.mp (hst.meets hfound rfl _ rfl hkept)
      exact hbegin hr (fun u g hg => hunqueued hr (h.ends u g hg) (hnone u g hg))
        (fun hat => hat.of_life hlife hobs) hcount hfs
  | taken hlife hcount hfs hr htakes =>
      have hnone := hst.meets htaken (plain_of_takes htakes) r htakes
      exact hbegin hr (not_exists_iff.mp hnone) (fun hat => hat.of_life hlife hobs)
        hcount hfs

/-- A rule that has just been made. -/
theorem ObserverInv.word_new (h : s.ObserverInv) (hs : s.Reachable)
    (hst : Stepped s a t f fs s') (hnew : s'.world.nextId ≠ s.world.nextId) :
    s'.Word s.world.nextId := by
  obtain ⟨rfl, hlog⟩ := hst.move.made hnew
  have hcount := hst.total fun g => speaks_of_plain (r := s.world.nextId) (g := g)
  have hzero : total (CalendarFrame.speaks s.world.nextId) s.frames = 0 :=
    hs.known.total_eq_zero le_rfl fun g hg => mem_rules_of_speaks hg
  have hlife : s'.world.life s.world.nextId = some .new :=
    (CalendarWorld.life_of_log hlog).trans (h.unknown _ le_rfl)
  have hat : s'.world.AtLife s.world.nextId .new := by
    unfold CalendarWorld.AtLife
    rw [hlife, ite_self]
  have hadds : (adding s.world.nextId AddPc.created).speaks s.world.nextId := by
    simp [CalendarFrame.speaks, CalendarFrame.life, AddPc.life]
  rw [List.countP_cons_of_pos hadds, List.countP_nil] at hcount
  refine ⟨by omega, hst.forall ((total_eq_zero_iff.mp hzero).imp fun g hg z hz => ?_)
    (fun g hg z hz => ?_) fun g hg z hz => ?_, fun _ hnone => ?_, hat.isSome⟩
  · cases hg.symm.trans (speaks_of_life hz)
  · cases (life_of_plain hg).symm.trans hz
  · rw [List.mem_singleton.mp hg] at hz
    cases (if_pos rfl).symm.trans hz
    exact hat
  · exact absurd (hst.exists_new (List.mem_singleton_self _) hadds) hnone

/-- Nothing is said of a rule that is still to be made. -/
theorem ObserverInv.word_unknown (h : s.ObserverInv) (hs : s.Reachable)
    (hs' : s'.Reachable) (hst : Stepped s a t f fs s') (hr : s'.world.nextId ≤ r) :
    s'.Word r := by
  have hzero : total (CalendarFrame.speaks r) s'.frames = 0 :=
    hs'.known.total_eq_zero hr fun g hg => mem_rules_of_speaks hg
  refine ⟨hzero.trans_le (Nat.zero_le 1),
    (total_eq_zero_iff.mp hzero).imp fun g hg z hz => ?_, fun hmem _ => ?_, ?_⟩
  · cases hg.symm.trans (speaks_of_life hz)
  · exact absurd (hs'.known.registered r hmem) (Nat.not_lt.mpr hr)
  · rw [h.unknown_step hs hst hr, Option.isSome_some]

theorem ObserverInv.step (h : s.ObserverInv) (hs : s.Reachable) (hs' : s'.Reachable)
    (hst : Stepped s a t f fs s') (htaken : AtTop TakenAtRest s a)
    (hfound : AtTop FoundAtRest s a) : s'.ObserverInv := by
  have hword (r : Nat) : s'.Word r := by
    by_cases hlt : r < s.world.nextId
    · cases hf : f.life r with
      | some x => exact h.word_told hst hf hlt
      | none => exact h.word_mute hst htaken hfound hf hlt
    · by_cases hr : s'.world.nextId ≤ r
      · exact h.word_unknown hs hs' hst hr
      · have hnew : s'.world.nextId ≠ s.world.nextId ∧ r = s.world.nextId := by
          rcases hst.move.nextId with heq | heq <;> omega
        exact hnew.2 ▸ h.word_new hs hst hnew.1
  exact
    { queues := h.queues_step hs hst hfound
      ends := h.ends_step hs hst
      unknown := fun r => h.unknown_step hs hst
      speaks := fun r => (hword r).speaks
      lives := fun r => (hword r).lives
      rests := fun r => (hword r).rests
      words := fun r => (hword r).words }

end

/-- On any threads the events of every rule form a word, if besides no `run_due`
finds a rule that `add_rule` on another thread still works for. -/
theorem run_observedThreads [Fintype ι] [DecidableEq ι] {as : List (CalendarAction ι)}
    {s : CalendarSystem ι} (hrun : Lts.run CalendarSystem.step {} as = some s)
    (htaken : Lts.RunMeets CalendarSystem.step (AtTop TakenAtRest) {} as)
    (hfound : Lts.RunMeets CalendarSystem.step (AtTop FoundAtRest) {} as) (r : Nat) :
    (s.world.life r).isSome := by
  have hall : s.Reachable ∧ s.ObserverInv :=
    Lts.run_invariant_of_meets (P := fun s => s.Reachable ∧ s.ObserverInv)
      (fun s a s' hs hcond hs' => by
        obtain ⟨t, f, fs, hst⟩ := step_stepped hs'
        have hreach : s'.Reachable := Lts.Reachable.trans_run hs.1 (Lts.run_one hs')
        exact ⟨hreach, hs.2.step hs.1 hreach hst hcond.1 hcond.2⟩)
      ⟨Lts.Reachable.refl _, .init⟩ (htaken.and hfound) hrun
  exact hall.2.words r

/-- One thread adds the rule, and the other runs it. -/
theorem run_observedThreads_twoThreads : ∃ s : CalendarSystem Bool,
    Lts.run CalendarSystem.step {} (calendarAddDue false ++ calendarRunDue true ++
      calendarCallback true) = some s ∧
      s.world.log.reverse.filterMap (CalendarObs.event 1) =
        [.created, .scheduled, .due, .beforeCallback] ∧
      (s.world.life 1).isSome := by
  obtain ⟨s, hs, hevents⟩ : ∃ s : CalendarSystem Bool,
      Lts.run CalendarSystem.step {} (calendarAddDue false ++ calendarRunDue true ++
        calendarCallback true) = some s ∧
        s.world.log.reverse.filterMap (CalendarObs.event 1) =
          [.created, .scheduled, .due, .beforeCallback] :=
    Lts.exists_run_of_decide (by decide)
  exact ⟨s, hs, hevents, run_observedThreads hs (.of_checks (by decide))
    (.of_checks (by decide)) 1⟩

end CalendarSystem

end EventHub
