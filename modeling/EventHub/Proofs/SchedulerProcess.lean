import EventHub.Proofs.SchedulerRefine

/-!
# One call of `process()`, as the scheduler sees it

The batch is fixed when the call begins. From then on a task of the batch is
either started in its turn or cancelled before it, and nothing else is started
until the call returns.
-/

namespace EventHub

variable {τ : Type}

/-- The callbacks that were started, in order. -/
def startedIds (replies : List Reply) : List Nat :=
  replies.filterMap fun
    | .started id => some id
    | _ => none

/-- The tasks that were cancelled and had not been started, given those that
were started before. -/
def skippedIds : List Nat → List (Call τ × Reply) → List Nat
  | _, [] => []
  | started, (.cancel id, .flag true) :: trace =>
      if id ∈ started then skippedIds started trace
      else id :: skippedIds started trace
  | started, (_, .started id) :: trace => skippedIds (id :: started) trace
  | started, _ :: trace => skippedIds started trace

def Call.isProcess : Call τ → Bool
  | .process _ _ => true
  | _ => false

/-- A call that leaves the batch alone and starts nothing. -/
def Call.quiet : Call τ → Bool
  | .process _ _ | .callbackReturned _ _ | .cancel _ => false
  | _ => true

theorem not_mem_skippedIds (trace : List (Call τ × Reply)) :
    ∀ {started : List Nat} {id : Nat}, id ∈ started →
      id ∉ skippedIds started trace := by
  induction trace with
  | nil => exact fun _ => List.not_mem_nil
  | cons step trace ih =>
      intro started id hid
      unfold skippedIds
      split
      · contradiction
      · next heq =>
          cases heq
          split
          · exact ih hid
          · next hne =>
              rw [List.mem_cons, not_or]
              exact ⟨fun h => hne (h ▸ hid), ih hid⟩
      · next heq =>
          cases heq
          exact ih (List.mem_cons_of_mem _ hid)
      · next heq =>
          cases heq
          exact ih hid

namespace Scheduler

/-- The id of the running task. -/
def currentId (r : Scheduler τ) : Option Nat :=
  r.current.map fun run => run.entry.id

/-- The call of `process()` in progress is where it was. -/
structure SameBatch (r r' : Scheduler τ) : Prop where
  batch : r'.batch = r.batch
  processed : r'.processed = r.processed
  currentId : r'.currentId = r.currentId

theorem SameBatch.refl (r : Scheduler τ) : SameBatch r r := ⟨rfl, rfl, rfl⟩

theorem SameBatch.trans {r r' r'' : Scheduler τ} (h : SameBatch r r')
    (h' : SameBatch r' r'') : SameBatch r r'' :=
  ⟨h'.batch.trans h.batch, h'.processed.trans h.processed,
    h'.currentId.trans h.currentId⟩

theorem SameBatch.submit (r : Scheduler τ) (entry : Entry τ) (ready : Bool) :
    SameBatch r (r.submit entry ready).1 := by
  cases ready <;> exact ⟨rfl, rfl, rfl⟩

theorem SameBatch.post (r : Scheduler τ) (task : Option τ)
    (options : TaskOptions) : SameBatch r (r.post task options).1 := by
  unfold Scheduler.post
  split
  · exact .refl r
  · split
    · exact .refl r
    · exact .submit r _ _

theorem SameBatch.postAt (r : Scheduler τ) (now due : Int) (task : Option τ)
    (options : TaskOptions) : SameBatch r (r.postAt now due task options).1 := by
  unfold Scheduler.postAt
  split
  · exact .refl r
  · split
    · exact .refl r
    · split
      · exact .submit r _ _
      · exact .submit r _ _

theorem SameBatch.postEveryAfter (r : Scheduler τ)
    (now now' initialDelay interval : Int) (task : Option τ)
    (options : PeriodicTaskOptions) :
    SameBatch r
      (r.postEveryAfter now now' initialDelay interval task options).1 := by
  unfold Scheduler.postEveryAfter
  split
  · exact .refl r
  · split
    · exact .refl r
    · exact .submit r _ _

theorem SameBatch.postBatch (options : TaskOptions) (tasks : List (Option τ)) :
    ∀ r : Scheduler τ, SameBatch r (r.postBatch options tasks).1 := by
  induction tasks with
  | nil => exact .refl
  | cons task tasks ih => exact fun r => (post r task options).trans (ih _)

theorem SameBatch.cancelRunning {r : Scheduler τ} {id : Nat}
    {run : RunningTask τ} (h : r.running id = some run) :
    SameBatch r (r.cancelRunning run) := by
  have hcur := (Option.filter_eq_some_iff.mp h).1
  refine ⟨rfl, rfl, ?_⟩
  unfold Scheduler.currentId
  rw [hcur]
  rfl

theorem SameBatch.contextCancel (r : Scheduler τ) (id : Nat) :
    SameBatch r (r.contextCancel id).1 := by
  unfold Scheduler.contextCancel
  split
  · next run hrun => exact .cancelRunning hrun
  · exact .refl r

theorem SameBatch.contextReschedule (r : Scheduler τ) (id : Nat) (due : Int) :
    SameBatch r (r.contextReschedule id due).1 := by
  unfold Scheduler.contextReschedule
  split
  · exact .refl r
  · split
    · next run hrun =>
        have hcur := (Option.filter_eq_some_iff.mp hrun).1
        refine ⟨rfl, rfl, ?_⟩
        unfold Scheduler.currentId
        rw [hcur]
        rfl
    · exact .refl r

theorem serve_quiet {r r' : Scheduler τ} {c : Call τ} {reply : Reply}
    (hc : c.quiet) (h : r.serve c = some (r', reply)) :
    SameBatch r r' ∧ ∀ id, reply ≠ .started id := by
  cases c <;> simp only [Scheduler.serve] at h <;> try cases hc
  all_goals
    injection h with h
    injection h with hr hreply
    subst hr hreply
    refine ⟨?_, fun _ => by rintro ⟨⟩⟩
  case post task options => exact .post r task options
  case postAt now due task options => exact .postAt r now due task options
  case postEveryAfter now now' delay interval task options =>
    exact .postEveryAfter r now now' delay interval task options
  case postBatch tasks options => exact .postBatch options tasks r
  case close => exact ⟨rfl, rfl, rfl⟩
  case contextCancel id => exact .contextCancel r id
  case contextIsCancelled id => exact .refl r
  case contextReschedule id due => exact .contextReschedule r id due
  case nextDeadline => exact .refl r

/-- `cancel` either takes a waiting task out, or leaves the batch alone and
returns true for the running task only. -/
theorem cancel_cases (r : Scheduler τ) (id : Nat) :
    r.cancel id = (r.remove id, true) ∨
      SameBatch r (r.cancel id).1 ∧
        ((r.cancel id).2 = true → r.currentId = some id) := by
  unfold Scheduler.cancel
  split
  · exact Or.inl rfl
  · right
    split
    · next run hrun =>
        split
        · refine ⟨.cancelRunning hrun, fun _ => ?_⟩
          obtain ⟨hcur, hid⟩ := Option.filter_eq_some_iff.mp hrun
          rw [Bool.and_eq_true] at hid
          unfold currentId
          rw [hcur, Option.map_some, of_decide_eq_true hid.1]
        · exact ⟨.refl r, nofun⟩
    · exact ⟨.refl r, nofun⟩

/-- Outside of `process()` nothing is started. -/
theorem startedIds_of_idle {cs : List (Call τ)} :
    ∀ {r r' : Scheduler τ} {replies : List Reply}, r.currentId = none →
      (∀ c ∈ cs, c.isProcess = false) →
      Mealy.run serve r cs = some (r', replies) → startedIds replies = [] := by
  induction cs with
  | nil =>
      intro r r' replies _ _ hrun
      cases hrun
      rfl
  | cons c cs ih =>
      intro r r' replies hidle hcs hrun
      rw [List.forall_mem_cons] at hcs
      obtain ⟨t, o, os, hserve, hrest, rfl⟩ := Mealy.run_cons_eq_some.mp hrun
      have hstep : t.currentId = none ∧ ∀ id, o ≠ .started id := by
        by_cases hq : c.quiet
        · obtain ⟨hsame, ho⟩ := serve_quiet hq hserve
          exact ⟨hsame.currentId.trans hidle, ho⟩
        · cases c
          case cancel id =>
            simp only [Scheduler.serve, Option.some.injEq, Prod.mk.injEq] at hserve
            obtain ⟨rfl, rfl⟩ := hserve
            refine ⟨?_, fun _ => by rintro ⟨⟩⟩
            rcases cancel_cases r id with heq | ⟨hsame, -⟩
            · rw [heq]
              exact hidle
            · exact hsame.currentId.trans hidle
          case process now maxTasks => cases hcs.1
          case callbackReturned now now' =>
            have hcur : r.current = none := Option.map_eq_none_iff.mp hidle
            simp only [Scheduler.serve, hcur] at hserve
            cases hserve
          all_goals exact absurd rfl hq
      have hnil := ih hstep.1 hcs.2 hrest
      cases o
      case started id => exact absurd rfl (hstep.2 id)
      all_goals exact hnil

theorem finish_same (r : Scheduler τ) (now now' : Int) (run : RunningTask τ) :
    (r.finish now now' run).batch = r.batch := by
  unfold finish enqueue
  dsimp only
  repeat' split
  all_goals rfl

/-- The rest of a call of `process()`: of the batch that is left, everything
that is not cancelled in time is started, in order. -/
theorem rest_of_process {cs : List (Call τ)} :
    ∀ {r r' : Scheduler τ} {replies : List Reply} (started : List Nat),
      (∃ id ∈ started, r.currentId = some id) →
      (r.batch.map Entry.id).Nodup →
      (∀ id ∈ started, id ∉ r.batch.map Entry.id) →
      r.processed + 1 = started.length →
      (∀ c ∈ cs, c.isProcess = false) →
      Mealy.run serve r cs = some (r', replies) → r'.current = none →
      startedIds replies = (r.batch.map Entry.id).filter
          (fun id => id ∉ skippedIds started (cs.zip replies)) ∧
        .returned (started.length + (startedIds replies).length) ∈ replies := by
  induction cs with
  | nil =>
      intro r r' replies started hcur _ _ _ _ hrun hidle
      cases hrun
      obtain ⟨id, -, hid⟩ := hcur
      unfold currentId at hid
      rw [hidle] at hid
      cases hid
  | cons c cs ih =>
      intro r r' replies started hcur hnodup hfresh hcount hcs hrun hidle
      rw [List.forall_mem_cons] at hcs
      obtain ⟨t, o, os, hserve, hrest, rfl⟩ := Mealy.run_cons_eq_some.mp hrun
      by_cases hq : c.quiet
      · obtain ⟨hsame, ho⟩ := serve_quiet hq hserve
        have hskip : skippedIds started ((c :: cs).zip (o :: os)) =
            skippedIds started (cs.zip os) := by
          rw [List.zip_cons_cons]
          cases c <;> cases hq <;> cases o <;> first | rfl | exact absurd rfl (ho _)
        have hstart : startedIds (o :: os) = startedIds os := by
          cases o <;> first | rfl | exact absurd rfl (ho _)
        obtain ⟨hstarted, hreturned⟩ := ih _ (by rw [hsame.currentId]; exact hcur)
          (by rw [hsame.batch]; exact hnodup) (by rw [hsame.batch]; exact hfresh)
          (by rw [hsame.processed]; exact hcount) hcs.2 hrest hidle
        rw [hskip, hstart, ← hsame.batch]
        exact ⟨hstarted, List.mem_cons_of_mem _ hreturned⟩
      · cases c
        case process now maxTasks => cases hcs.1
        case cancel id =>
          simp only [Scheduler.serve, Option.some.injEq, Prod.mk.injEq] at hserve
          obtain ⟨rfl, rfl⟩ := hserve
          have hstart : startedIds (.flag (r.cancel id).2 :: os) =
              startedIds os := rfl
          rw [hstart, List.zip_cons_cons]
          rcases cancel_cases r id with heq | ⟨hsame, hres⟩
          · simp only [heq] at hrest ⊢
            -- the entry goes, unless it was started and is waiting once more
            have hbatch : (r.remove id).batch.map Entry.id =
                (r.batch.map Entry.id).filter fun j => j ≠ id := by
              rw [List.filter_map]
              rfl
            obtain ⟨hstarted, hreturned⟩ := ih (r := r.remove id) _ hcur
              (by rw [hbatch]; exact hnodup.filter _)
              (by
                intro j hj hmem
                rw [hbatch] at hmem
                exact hfresh j hj (List.mem_filter.mp hmem).1)
              hcount hcs.2 hrest hidle
            refine ⟨?_, List.mem_cons_of_mem _ hreturned⟩
            rw [hstarted, hbatch, List.filter_filter]
            refine List.filter_congr fun j hj => ?_
            rw [skippedIds]
            split
            · next hid =>
                have hne : j ≠ id := fun heq => hfresh id hid (heq ▸ hj)
                simp [hne]
            · simp [not_or, Bool.and_comm]
          · obtain ⟨hstarted, hreturned⟩ := ih _
              (by rw [hsame.currentId]; exact hcur)
              (by rw [hsame.batch]; exact hnodup)
              (by rw [hsame.batch]; exact hfresh)
              (by rw [hsame.processed]; exact hcount) hcs.2 hrest hidle
            refine ⟨?_, List.mem_cons_of_mem _ hreturned⟩
            rw [hstarted, hsame.batch]
            cases hflag : (r.cancel id).2
            · rfl
            · have hmem : id ∈ started := by
                obtain ⟨j, hj, hid⟩ := hcur
                rw [hres hflag, Option.some.injEq] at hid
                exact hid ▸ hj
              rw [skippedIds, if_pos hmem]
        case callbackReturned now now' =>
          simp only [Scheduler.serve] at hserve
          split at hserve
          · next run hrun' =>
              rw [Option.some.injEq] at hserve
              unfold next at hserve
              have hbatch := finish_same r now now' run
              dsimp only at hserve
              rw [hbatch] at hserve
              cases hb : r.batch with
              | nil =>
                  rw [hb] at hserve
                  cases hserve
                  have hnil := startedIds_of_idle rfl hcs.2 hrest
                  have hstart : startedIds (.returned (r.processed + 1) :: os) =
                      startedIds os := rfl
                  rw [hstart, hnil, hcount]
                  exact ⟨rfl, List.mem_cons_self⟩
              | cons entry batch =>
                  rw [hb] at hserve hnodup hfresh
                  cases hserve
                  rw [List.map_cons, List.nodup_cons] at hnodup
                  obtain ⟨hstarted, hreturned⟩ := ih
                    (entry.id :: started)
                    ⟨entry.id, List.mem_cons_self, rfl⟩ hnodup.2
                    (by
                      intro j hj
                      rcases List.mem_cons.mp hj with rfl | hj
                      · exact hnodup.1
                      · exact fun hmem => hfresh j hj (List.mem_cons_of_mem _ hmem))
                    (by rw [List.length_cons, ← hcount]) hcs.2 hrest hidle
                  have hstart : startedIds (.started entry.id :: os) =
                      entry.id :: startedIds os := rfl
                  have hskip : skippedIds started
                      (((Call.callbackReturned now now' : Call τ) :: cs).zip
                        (.started entry.id :: os)) =
                      skippedIds (entry.id :: started) (cs.zip os) := rfl
                  have hkeep : entry.id ∉
                      skippedIds (entry.id :: started) (cs.zip os) :=
                    not_mem_skippedIds _ List.mem_cons_self
                  rw [hstart, hskip, List.map_cons, hstarted,
                    List.filter_cons_of_pos (by simpa using hkeep)]
                  refine ⟨rfl, List.mem_cons_of_mem _ ?_⟩
                  have hlen : started.length + (entry.id ::
                      startedIds os).length =
                      (entry.id :: started).length + (startedIds os).length := by
                    rw [List.length_cons, List.length_cons]
                    omega
                  rw [← hstarted, hlen]
                  exact hreturned
          · cases hserve
        all_goals exact absurd rfl hq

end Scheduler

/-! ## The whole call -/

theorem TaskManager.Inv.nodup_unrun {m : TaskManager τ}
    {cur : Option (Entry τ)} {unrun : List (Entry τ)} {owed : Int}
    (h : m.Inv cur unrun owed) : (unrun.map Entry.id).Nodup := by
  rw [List.nodup_iff_count_le_one]
  intro id
  have hcount : (unrun.map Entry.id).count id = copies unrun id := by
    rw [List.count, List.countP_map]
    rfl
  have hacc := h.accounted id
  rw [hcount]
  cases hst : m.stateOf id
  all_goals
    rw [hst] at hacc
    simp only [Accounted] at hacc
    omega

namespace TaskSystem

/-- The batch a scheduler would take holds every task once. -/
theorem Served.nodup_take {s : TaskSystem τ} (h : s.Served)
    (hidle : s.scheduler.current = none) (now : Int) (maxTasks : Nat) :
    s.scheduler.batch = [] ∧
      (((s.scheduler.promote now).ready.take maxTasks).map Entry.id).Nodup := by
  have hinv : s.mgr.Inv s.phase.current s.phase.unrun s.phase.owed :=
    h.reachable.inv
  rcases h.between with hph | ⟨entry, unrun, hph⟩
  · rw [hph] at hinv
    have hbegin := TaskManager.Inv.scheduler_beginProcess
      (n := s.processed) hinv h.reachable.heapOrdered now maxTasks
    have hafter := (TaskManager.Inv.beginProcess hinv now maxTasks).nodup_unrun
    have hbatch := congrArg Scheduler.batch hbegin
    unfold scheduler
    rw [hph]
    refine ⟨rfl, ?_⟩
    change _ = ((s.mgr.scheduler none [] s.processed).promote now).ready.take
      maxTasks at hbatch
    change ((((s.mgr.scheduler none [] s.processed).promote now).ready.take
      maxTasks).map Entry.id).Nodup
    rw [← hbatch]
    exact hafter.sublist (List.filter_sublist.map Entry.id)
  · unfold scheduler at hidle
    rw [hph] at hidle
    cases hidle

/-- The manager answers every list of calls as the eager scheduler does. And
a call of `process(maxTasks)`, followed until it returns, starts the first
`maxTasks` ready tasks in their order after promotion, without those cancelled
before their turn, and returns their number. -/
theorem refines_scheduler :
    (∀ calls : List (Call τ),
      Mealy.outputs TaskSystem.serve {} calls =
        Mealy.outputs Scheduler.serve {} calls) ∧
    ∀ (calls cs : List (Call τ)) (now : Int) (maxTasks : Nat)
      (r r' : Scheduler τ) (before replies : List Reply),
      Mealy.run Scheduler.serve {} calls = some (r, before) →
      Mealy.run Scheduler.serve r (.process now maxTasks :: cs) =
        some (r', replies) →
      (∀ c ∈ cs, c.isProcess = false) → r'.current = none →
      startedIds replies =
          (((r.promote now).ready.take maxTasks).map Entry.id).filter
            (fun id => id ∉
              skippedIds [] ((.process now maxTasks :: cs).zip replies)) ∧
        .returned (startedIds replies).length ∈ replies := by
  refine ⟨fun calls => Mealy.outputs_eq (f := scheduler) Served.step_refines
    (fun _ _ _ _ h hserve => h.serve hserve) calls .initial, ?_⟩
  intro calls cs now maxTasks r r' before replies hbefore hrun hcs hidle
  obtain ⟨s, hs, rfl⟩ := exists_served hbefore
  obtain ⟨t, o, os, hserve, hrest, rfl⟩ := Mealy.run_cons_eq_some.mp hrun
  simp only [Scheduler.serve] at hserve
  split at hserve
  · next hcur =>
      obtain ⟨hbatch, hnodup⟩ := hs.nodup_take hcur now maxTasks
      have hnone : s.scheduler.currentId = none := by
        unfold Scheduler.currentId
        rw [hcur]
        rfl
      split at hserve
      · next hmax =>
          cases hserve
          have hnil := Scheduler.startedIds_of_idle hnone hcs hrest
          have hstart : startedIds (.returned 0 :: os) = startedIds os := rfl
          rw [hstart, hnil, hmax, List.take_zero]
          exact ⟨rfl, List.mem_cons_self⟩
      · rw [Option.some.injEq] at hserve
        unfold Scheduler.next at hserve
        dsimp only [Scheduler.take] at hserve
        generalize hb : (s.scheduler.promote now).ready.take maxTasks = taken at hserve hnodup ⊢
        cases taken with
        | nil =>
            cases hserve
            have hnil := Scheduler.startedIds_of_idle rfl hcs hrest
            have hstart : startedIds (.returned 0 :: os) = startedIds os := rfl
            rw [hstart, hnil]
            exact ⟨rfl, List.mem_cons_self⟩
        | cons entry batch =>
            cases hserve
            rw [List.map_cons, List.nodup_cons] at hnodup
            obtain ⟨hstarted, hreturned⟩ := Scheduler.rest_of_process
              [entry.id]
              ⟨entry.id, List.mem_cons_self, rfl⟩ hnodup.2
              (by simpa using hnodup.1) rfl hcs hrest hidle
            have hstart : startedIds (.started entry.id :: os) =
                entry.id :: startedIds os := rfl
            have hskip : skippedIds []
                (((Call.process now maxTasks : Call τ) :: cs).zip
                  (.started entry.id :: os)) =
                skippedIds [entry.id] (cs.zip os) := rfl
            have hkeep : entry.id ∉ skippedIds [entry.id] (cs.zip os) :=
              not_mem_skippedIds _ List.mem_cons_self
            rw [hstart, hskip, List.map_cons,
              List.filter_cons_of_pos (by simpa using hkeep)]
            refine ⟨congrArg _ hstarted, List.mem_cons_of_mem _ ?_⟩
            rw [List.length_cons, Nat.add_comm]
            exact hreturned
  · cases hserve

/-- Two tasks are ready and the first cancels the second. -/
theorem refines_scheduler_cancelling :
    startedIds [.started 1, .flag true, .returned 1] =
        [1, 2].filter (fun id => id ∉ [2]) ∧
      .returned 1 ∈ [.started 1, .flag true, Reply.returned 1] :=
  refines_scheduler.2
    [.post (some ()) { priority := .low }, .post (some ()) { priority := .low }]
    [.cancel 2, .callbackReturned 0 0] 0 7 _ _ _ _ rfl rfl (by simp [Call.isProcess]) rfl

end TaskSystem

end EventHub
