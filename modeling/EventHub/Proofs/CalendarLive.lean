import EventHub.Proofs.CalendarThreads

/-!
# Which rules are alive

A rule that is registered is not marked as cancelled, but for the end of the
`run_due` that has marked it and is about to take it out; and a closed
scheduler has no rules.
-/

namespace EventHub

open CalendarFrame Threads

variable {ι : Type}

namespace CalendarFrame

/-- The end of a `run_due` of rule `r`, after its last look at the clock. -/
def closes (r : Nat) : CalendarFrame → Bool
  | .running run .after | .running run .checkContext
  | .running run .checkState | .running run .finishing => run.rule = r
  | _ => false

end CalendarFrame

section Move

variable {a : CalendarAction ι} {mode : CalendarMode} {w w' : CalendarWorld}
  {f : CalendarFrame} {fs : List CalendarFrame}

/-- A rule that stays registered is marked by its own run. -/
theorem CalendarMove.marked (h : CalendarMove a mode w f w' fs)
    {r : Nat} (hr : r ∈ w'.registered) (hmark : (w'.states r).cancelled) :
    r ∈ w.registered ∧ (w.states r).cancelled ∨ ∃ g ∈ fs, g.closes r := by
  cases h
  case registered options hopen =>
    by_cases hq : r = w.nextId
    · rw [hq, CalendarWorld.register_states_self] at hmark
      cases hmark
    · rw [CalendarWorld.register_states_of_ne hq] at hmark
      exact .inl ⟨(Finset.mem_insert.mp hr).resolve_left hq, hmark⟩
  case posted =>
    rw [CalendarWorld.occupy_congr (·.cancelled) (fun _ => rfl) r] at hmark
    exact .inl ⟨hr, hmark⟩
  case published =>
    rw [CalendarWorld.emit_states,
      CalendarWorld.publish_congr (·.cancelled) (fun _ => rfl) r] at hmark
    exact .inl ⟨hr, hmark⟩
  case consumed =>
    rw [CalendarWorld.consume_congr (·.cancelled) (fun _ => rfl) r] at hmark
    exact .inl ⟨hr, hmark⟩
  case counted =>
    rw [CalendarWorld.setState_congr (·.cancelled) (by rfl) r] at hmark
    exact .inl ⟨hr, hmark⟩
  case stopped run observed =>
    by_cases hq : r = run.rule
    · exact .inr ⟨_, List.mem_singleton_self _, decide_eq_true hq.symm⟩
    · rw [CalendarWorld.setState_of_ne hq] at hmark
      exact .inl ⟨hr, hmark⟩
  case rethrown | finished | completed | cancelTaken | cancelTakenAlone =>
    obtain ⟨hq, hr⟩ := Finset.mem_erase.mp hr
    rw [CalendarWorld.markCompleted_states_of_ne hq] at hmark
    exact .inl ⟨hr, hmark⟩
  case allTaken => cases hr
  all_goals exact .inl ⟨hr, hmark⟩

/-- The run goes on to take the rule out, or finds it alive. -/
theorem CalendarMove.closes (h : CalendarMove a mode w f w' fs) {r : Nat}
    (hf : f.closes r) :
    (∃ g ∈ fs, g.closes r) ∨ w.gone r = false ∨ r ∉ w'.registered := by
  cases h
  case plain hf' => cases f <;> first | cases hf | cases hf'
  case emitted run pc pc' event hpc observed =>
    cases pc <;> first | cases hf | cases hpc
    exact .inl ⟨_, List.mem_singleton_self _, hf⟩
  case walked run pc pc' hkept hpc =>
    cases hpc
    case context | contextKept | gone =>
      exact .inl ⟨_, List.mem_singleton_self _, hf⟩
    case kept =>
      have hrule : run.rule = r := of_decide_eq_true hf
      exact .inr (.inl (hrule ▸ hkept rfl))
    all_goals cases hf
  case finished run =>
    have hrule : run.rule = r := of_decide_eq_true hf
    exact .inr (.inr (hrule ▸ Finset.notMem_erase _ _))
  case exhausted hpc | plannedNext hpc _ _ _ | escaped hpc =>
    cases ‹RunPc› <;> first | cases hf | cases hpc
  all_goals cases hf

theorem CalendarMove.empty_of_closed (h : CalendarMove a mode w f w' fs)
    (hnone : w.closed → w.registered = ∅) (hclosed : w'.closed) :
    w'.registered = ∅ := by
  cases h
  case registered options hopen => cases hopen.symm.trans hclosed
  case rethrown | finished | completed | cancelTaken | cancelTakenAlone =>
    change Finset.erase _ _ = ∅
    rw [hnone hclosed, Finset.erase_empty]
  case allTaken => rfl
  all_goals exact hnone hclosed

end Move

namespace CalendarSystem

structure Live (s : CalendarSystem ι) : Prop where
  closed : s.world.closed → s.world.registered = ∅
  marked : ∀ r ∈ s.world.registered, (s.world.states r).cancelled →
    Threads.Exists (closes r) s.frames

theorem Reachable.live [DecidableEq ι] {s : CalendarSystem ι}
    (h : s.Reachable) : s.Live := by
  refine Reachable.induction h ⟨nofun, nofun⟩ ?_
  intro s a t f fs s' hs ih hst
  refine ⟨hst.move.empty_of_closed ih.closed, fun r hr hmark => ?_⟩
  rcases hst.move.marked hr hmark with ⟨hr', hmark'⟩ | ⟨g, hg, hcloses⟩
  · cases hf : f.closes r with
    | false => exact hst.exists_of (ih.marked r hr' hmark') hf
    | true =>
        rcases hst.move.closes hf with ⟨g, hg, hcloses⟩ | hkept | hout
        · exact hst.exists_new hg hcloses
        · simp [CalendarWorld.gone, hmark'] at hkept
        · exact absurd hr hout
  · exact hst.exists_new hg hcloses

/-- A rule that is registered is alive, unless its run is about to take it
out. -/
theorem Live.gone {s : CalendarSystem ι} (h : s.Live) {r : Nat}
    (hr : r ∈ s.world.registered) :
    s.world.gone r = false ∨ Threads.Exists (closes r) s.frames := by
  by_cases hmark : (s.world.states r).cancelled
  · exact .inr (h.marked r hr hmark)
  · refine .inl ?_
    have hopen : s.world.closed = false := by
      refine Bool.eq_false_iff.mpr fun hclosed => ?_
      rw [h.closed hclosed] at hr
      cases hr
    simp [CalendarWorld.gone, hr, hmark, hopen]

end CalendarSystem

end EventHub
