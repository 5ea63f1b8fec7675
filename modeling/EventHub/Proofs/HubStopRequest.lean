import EventHub.Hub.StopRequest
import EventHub.Lib.Lts

/-!
# Whom a stop request reaches

While stop is requested, a worker has been told, is about to be told by a call
in progress, or has gone; or it has not been started, and then its flag has yet
to be lowered. The one step that may undo this is the lowering itself.
-/

namespace EventHub

namespace StopFlags

variable {ι κ : Type} [DecidableEq ι] [DecidableEq κ] {setup : InitSetup ι κ}
  {s s' : StopFlags ι κ} {k : κ}

inductive Settled (s : StopFlags ι κ) (k : κ) : Prop
  | unstarted (hworker : s.worker k = .absent) (hpc : ∀ rest, s.pc ≠ .lowered k rest)
  | told (hflag : s.workerStop k = true)
  | gone (hworker : s.worker k = .exited)
  | toTell (h : s.ToTell k)

structure Reached (setup : InitSetup ι κ) (s : StopFlags ι κ) : Prop where
  settled : s.stopRequested = true → ∀ k ∈ setup.modules, s.Settled k
  lowered : ∀ k rest, s.pc = .lowered k rest → s.worker k = .absent

omit [DecidableEq ι] [DecidableEq κ] in
/-- Nothing is undone. -/
theorem Settled.mono (h : s.Settled k) (hworker : s'.worker k = s.worker k)
    (hflag : s.workerStop k = true → s'.workerStop k = true)
    (hpc : ∀ rest, s'.pc = .lowered k rest → s.pc = .lowered k rest)
    (htell : s.ToTell k → s'.ToTell k ∨ s'.workerStop k = true) : s'.Settled k := by
  cases h with
  | unstarted habsent hnot =>
      exact .unstarted (hworker.trans habsent) fun rest h => hnot rest (hpc rest h)
  | told htold => exact .told (hflag htold)
  | gone hexited => exact .gone (hworker.trans hexited)
  | toTell h => exact (htell h).elim .toTell .told

omit [DecidableEq ι] in
theorem workerStop_requestWorkerStop (s : StopFlags ι κ) (j k : κ) :
    (s.requestWorkerStop j).workerStop k = if k = j then true else s.workerStop k :=
  Function.update_apply ..

omit [DecidableEq κ] in
theorem requests_setRequest (s : StopFlags ι κ) (t u : ι) (rest : Option (List κ)) :
    (s.setRequest t rest).requests u = if u = t then rest else s.requests u :=
  Function.update_apply ..

omit [DecidableEq ι] in
theorem worker_setWorker (s : StopFlags ι κ) (j k : κ) (worker : WorkerState) :
    (s.setWorker j worker).worker k = if k = j then worker else s.worker k :=
  Function.update_apply ..

/-- A module is told, and the call goes on without it. -/
theorem settled_tell {t : ι} {j : κ} {rest : List κ}
    (ht : s.requests t = some (j :: rest)) (h : s.Settled k) :
    ((s.requestWorkerStop j).setRequest t (some rest)).Settled k := by
  have hflag : ((s.requestWorkerStop j).setRequest t (some rest)).workerStop k =
      if k = j then true else s.workerStop k := s.workerStop_requestWorkerStop j k
  refine h.mono rfl (fun htold => ?_) (fun _ => id) fun ⟨u, ks, hu, hk⟩ => ?_
  · rw [hflag, htold, ite_self]
  · by_cases hkj : k = j
    · exact .inr (by rw [hflag, if_pos hkj])
    · by_cases hut : u = t
      · subst hut
        obtain rfl : j :: rest = ks := Option.some.inj (ht.symm.trans hu)
        refine .inl ⟨u, rest, ?_, (List.mem_cons.mp hk).resolve_left hkj⟩
        rw [requests_setRequest, if_pos rfl]
        rfl
      · refine .inl ⟨u, ks, ?_, hk⟩
        rw [requests_setRequest, if_neg hut]
        exact hu

omit [DecidableEq κ] in
/-- A call that has told all of them returns. -/
theorem settled_return {t : ι} (ht : s.requests t = some []) (h : s.Settled k) :
    (s.setRequest t none).Settled k := by
  refine h.mono rfl id (fun _ => id) fun ⟨u, ks, hu, hk⟩ => .inl ⟨u, ks, ?_, hk⟩
  have hut : u ≠ t := by
    rintro rfl
    obtain rfl : [] = ks := Option.some.inj (ht.symm.trans hu)
    cases hk
  rw [requests_setRequest, if_neg hut]
  exact hu

omit [DecidableEq ι] in
theorem Reached.advance (h : s.Reached setup) (hstep : s.advance setup = some s')
    (htime : s.InTime setup .advance) : s'.Reached setup := by
  unfold StopFlags.advance at hstep
  split at hstep
  case h_1 | h_2 | h_3 =>
    cases hstep
    refine ⟨fun hstop k hk => (h.settled hstop k hk).mono rfl id ?_ .inl, ?_⟩
    · intro rest hpc
      cases hpc
    · intro k rest hpc
      cases hpc
  case h_4 j rest hpc =>
    split at hstep <;> cases hstep
    · next hlowers =>
        refine ⟨fun hstop k hk => ?_, ?_⟩
        · by_cases hkj : k = j
          · subst hkj
            unfold InTime at htime
            rw [hpc] at htime
            exact .toTell (htime hlowers hstop)
          · refine (h.settled hstop k hk).mono rfl (fun htold => ?_) ?_ .inl
            · show Function.update s.workerStop j false k = true
              rwa [Function.update_of_ne hkj]
            · intro rest' hpc'
              cases hpc'
              exact absurd rfl hkj
        · intro k rest' hpc'
          cases hpc'
          exact hlowers.2
    · refine ⟨fun hstop k hk => (h.settled hstop k hk).mono rfl id ?_ .inl, ?_⟩
      · intro rest' hpc'
        cases hpc'
      · intro k rest' hpc'
        cases hpc'
  case h_5 j rest hpc =>
    cases hstep
    refine ⟨fun hstop k hk => ?_, ?_⟩
    · by_cases hkj : k = j
      · subst hkj
        -- it is not by being unstarted that it was settled
        cases h.settled hstop k hk with
        | unstarted _ hnot => exact absurd hpc (hnot rest)
        | told htold => exact .told htold
        | gone hexited =>
            rw [h.lowered k rest hpc] at hexited
            cases hexited
        | toTell htell => exact .toTell htell
      · refine (h.settled hstop k hk).mono ?_ id ?_ .inl
        · show (s.setWorker j .running).worker k = _
          rw [worker_setWorker, if_neg hkj]
        · intro rest' hpc'
          cases hpc'
    · intro k rest' hpc'
      cases hpc'
  case h_6 | h_7 => cases hstep

omit [DecidableEq ι] in
/-- A worker goes, or is joined. -/
theorem Reached.setWorker {worker : WorkerState} (h : s.Reached setup)
    (hfrom : s.worker k ≠ .absent)
    (hto : worker = .exited ∨ s.worker k = .exited ∧ worker = .absent) :
    (s.setWorker k worker).Reached setup := by
  have hnot : ∀ rest, s.pc ≠ .lowered k rest := fun rest hpc =>
    hfrom (h.lowered k rest hpc)
  refine ⟨fun hstop k' hk' => ?_, fun k' rest hpc => ?_⟩
  · by_cases hkk : k' = k
    · subst hkk
      have hworker : (s.setWorker k' worker).worker k' = worker := by
        rw [worker_setWorker, if_pos rfl]
      rcases hto with rfl | ⟨-, rfl⟩
      · exact .gone hworker
      · exact .unstarted hworker hnot
    · refine (h.settled hstop k' hk').mono ?_ id (fun _ => id) .inl
      rw [worker_setWorker, if_neg hkk]
  · rw [worker_setWorker]
    split
    · next hkk => exact absurd hpc (hkk ▸ hnot rest)
    · exact h.lowered k' rest hpc

omit [DecidableEq ι] in
theorem Reached.requestWorkerStop (h : s.Reached setup) (j : κ) :
    (s.requestWorkerStop j).Reached setup := by
  refine ⟨fun hstop k hk => ?_, h.lowered⟩
  refine (h.settled hstop k hk).mono rfl (fun htold => ?_) (fun _ => id) .inl
  rw [workerStop_requestWorkerStop, htold, ite_self]

theorem Reached.step {a : StopAction ι κ} (h : s.Reached setup)
    (htime : s.InTime setup a) (hstep : s.step setup a = some s') :
    s'.Reached setup := by
  cases a with
  | request t =>
      simp only [StopFlags.step] at hstep
      split at hstep <;> cases hstep
      refine ⟨fun _ k hk => .toTell ⟨t, setup.modules, ?_, hk⟩, h.lowered⟩
      rw [requests_setRequest, if_pos rfl]
      rfl
  | tell t =>
      simp only [StopFlags.step] at hstep
      split at hstep
      · next j rest ht =>
          cases hstep
          exact ⟨fun hstop k hk => settled_tell ht (h.settled hstop k hk), h.lowered⟩
      · next ht =>
          cases hstep
          exact ⟨fun hstop k hk => settled_return ht (h.settled hstop k hk), h.lowered⟩
      · cases hstep
  | advance =>
      simp only [StopFlags.step] at hstep
      split at hstep
      · exact h.advance hstep htime
      · cases hstep
  | throw =>
      have hfailed : ({ s with pc := .failed } : StopFlags ι κ).Reached setup := by
        refine ⟨fun hstop k hk => (h.settled hstop k hk).mono rfl id ?_ .inl, ?_⟩
        · intro rest hpc
          cases hpc
        · intro k rest hpc
          cases hpc
      simp only [StopFlags.step] at hstep
      split at hstep
      case h_1 | h_2 =>
        split at hstep <;> cases hstep
        exact hfailed
      case h_3 => cases hstep
  | stopWorker k =>
      cases hstep
      exact h.requestWorkerStop k
  | exit k =>
      simp only [StopFlags.step] at hstep
      split at hstep <;> cases hstep
      next hrunning => exact h.setWorker (by rw [hrunning.1]; nofun) (.inl rfl)
  | fail k =>
      simp only [StopFlags.step] at hstep
      split at hstep <;> cases hstep
      next hrunning =>
        refine (h.requestWorkerStop k).setWorker ?_ (.inl rfl)
        show s.worker k ≠ _
        rw [hrunning]
        nofun
  | join k =>
      simp only [StopFlags.step] at hstep
      split at hstep <;> cases hstep
      next hexited => exact h.setWorker (by rw [hexited]; nofun) (.inr ⟨hexited, rfl⟩)

omit [DecidableEq ι] [DecidableEq κ] in
theorem Reached.heeded (h : s.Reached setup) : s.Heeded setup := by
  intro hstop hquiet k hk _
  cases h.settled hstop k hk with
  | unstarted habsent => exact .inl habsent
  | told htold => exact .inr (.inl htold)
  | gone hexited => exact .inr (.inr hexited)
  | toTell htell =>
      obtain ⟨t, ks, ht, -⟩ := htell
      rw [hquiet t] at ht
      cases ht

/-- `initialize()` is not begun again. -/
theorem over_step {a : StopAction ι κ} (hover : s.pc = .initialized ∨ s.pc = .failed)
    (h : s.step setup a = some s') : s'.pc = .initialized ∨ s'.pc = .failed := by
  cases a with
  | request | exit | fail | join =>
      simp only [StopFlags.step] at h
      split at h <;> cases h
      exact hover
  | tell =>
      simp only [StopFlags.step] at h
      split at h <;> cases h <;> exact hover
  | stopWorker =>
      cases h
      exact hover
  | advance =>
      simp only [StopFlags.step, StopFlags.advance] at h
      rcases hover with hpc | hpc <;> rw [hpc] at h <;> split at h <;> cases h
  | throw =>
      simp only [StopFlags.step] at h
      rcases hover with hpc | hpc <;> rw [hpc] at h <;> cases h

/-- The flag of the hub has just been cleared. Calls of `request_stop` from
before may still be in progress, and workers may run. -/
structure Started (s : StopFlags ι κ) : Prop where
  stopRequested : s.stopRequested = false
  pc : ∀ k rest, s.pc ≠ .lowered k rest

/-- Whoever asks for the stop, and whenever. -/
theorem run_stopHeeded {as : List (StopAction ι κ)} (hstart : s.Started)
    (htime : Lts.RunMeets (step setup) (InTime setup) s as)
    (hrun : Lts.run (step setup) s as = some s') : s'.Heeded setup := by
  have hinit : s.Reached setup := by
    refine ⟨fun hstop => ?_, fun k rest hpc => absurd hpc (hstart.pc k rest)⟩
    rw [hstart.stopRequested] at hstop
    cases hstop
  exact (Lts.run_invariant_of_meets (fun _ _ _ h => h.step) hinit htime hrun).heeded

/-- After `initialize()` no flag is lowered any more. -/
theorem run_stopHeeded_initialized {as : List (StopAction ι κ)} (hstart : s.Started)
    (hpc : s.pc = .initialized ∨ s.pc = .failed)
    (hrun : Lts.run (step setup) s as = some s') : s'.Heeded setup := by
  have hinit : s.Reached setup := by
    refine ⟨fun hstop => ?_, fun k rest hpc => absurd hpc (hstart.pc k rest)⟩
    rw [hstart.stopRequested] at hstop
    cases hstop
  have hstep : ∀ (s : StopFlags ι κ) a s',
      s.Reached setup ∧ (s.pc = .initialized ∨ s.pc = .failed) →
      s.step setup a = some s' →
      s'.Reached setup ∧ (s'.pc = .initialized ∨ s'.pc = .failed) := by
    rintro s a s' ⟨hs, hover⟩ h
    have htime : s.InTime setup a := by
      cases a with
      | advance =>
          unfold InTime
          rcases hover with hpc | hpc <;> rw [hpc] <;> trivial
      | _ => trivial
    exact ⟨hs.step htime h, over_step hover h⟩
  exact (Lts.run_invariant hstep ⟨hinit, hpc⟩ hrun).1.heeded

/-! ## Two runs -/

/-- The hub runs on thread `false`, and its one module has a worker. -/
def oneWorker : InitSetup Bool Unit where
  thread := false
  modules := [()]
  options _ := { defaultOptions with execution := .privateThread }

def beforeHooks : StopFlags Bool Unit where
  pc := .hooks [()]

theorem beforeHooks_started : beforeHooks.Started where
  stopRequested := rfl
  pc _ _ h := by cases h

/-- Thread `true` asks for the stop while the worker's thread is constructed. -/
theorem run_stopHeeded_constructing : ∃ s,
    Lts.run (step oneWorker) beforeHooks
      [.advance, .advance, .advance, .request true, .advance, .tell true, .tell true] =
        some s ∧
      s.stopRequested = true ∧ s.worker () = .running ∧ s.Heeded oneWorker := by
  obtain ⟨s, hrun, hstop, hworker⟩ : ∃ s,
      Lts.run (step oneWorker) beforeHooks
        [.advance, .advance, .advance, .request true, .advance, .tell true,
          .tell true] = some s ∧
        s.stopRequested = true ∧ s.worker () = .running :=
    Lts.exists_run_of_decide (by decide +kernel)
  refine ⟨s, hrun, hstop, hworker, run_stopHeeded beforeHooks_started ?_ hrun⟩
  exact .of_checks (by decide +kernel)

/-- The worker is running when thread `true` asks for the stop. -/
def initializedHub : StopFlags Bool Unit where
  worker _ := .running
  pc := .initialized

theorem run_stopHeeded_initialized_told : ∃ s,
    Lts.run (step oneWorker) initializedHub
      [.request true, .tell true, .tell true] = some s ∧
      s.stopRequested = true ∧ s.worker () = .running ∧ s.Heeded oneWorker := by
  obtain ⟨s, hrun, hstop, hworker⟩ : ∃ s,
      Lts.run (step oneWorker) initializedHub
        [.request true, .tell true, .tell true] = some s ∧
        s.stopRequested = true ∧ s.worker () = .running :=
    Lts.exists_run_of_decide (by decide +kernel)
  exact ⟨s, hrun, hstop, hworker,
    run_stopHeeded_initialized ⟨rfl, fun _ _ h => by cases h⟩ (.inl rfl) hrun⟩

/-- The hook of the module asks for the stop itself. -/
theorem stopHeeded_fails : ∃ s,
    Lts.run (step oneWorker) beforeHooks
      [.request false, .tell false, .tell false, .advance, .advance, .advance,
        .advance] = some s ∧ ¬ s.Heeded oneWorker := by
  obtain ⟨s, hrun, hstop, hrequests, hworker, hflag⟩ : ∃ s,
      Lts.run (step oneWorker) beforeHooks
        [.request false, .tell false, .tell false, .advance, .advance, .advance,
          .advance] = some s ∧
        s.stopRequested = true ∧ (∀ t, s.requests t = none) ∧
        s.worker () = .running ∧ s.workerStop () = false :=
    Lts.exists_run_of_decide (by decide +kernel)
  refine ⟨s, hrun, fun hheeded => ?_⟩
  rcases hheeded hstop hrequests () (List.mem_singleton.mpr rfl) rfl with h | h | h
  · rw [hworker] at h
    cases h
  · rw [hflag] at h
    cases h
  · rw [hworker] at h
    cases h

end StopFlags

end EventHub
