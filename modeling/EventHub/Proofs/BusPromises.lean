import EventHub.Proofs.BusFutures
import EventHub.Proofs.BusHandles

/-!
# What becomes of a promise

An awaiter that was destroyed is one that ended, and nobody is past the check
that it is active; so nothing resolves its promise afterwards. And if neither
lambda resolved the promise before, then no match and no timeout ended the
awaiter: each of them has a lambda on its way, and the way keeps the awaiter.
-/

namespace EventHub

variable {ι ε : Type}

namespace FutureSystem

/-- A lambda of `p` runs and has its exchange before it. -/
def runs (s : FutureSystem ι ε) (t : ι) (p : Nat) : Prop :=
  ((s.code t).bind FutureCode.wins).map FutureCode.promise = some p

/-- Somebody called `cancel()` on the awaiter of the promise and won. -/
def Cancelled (s : FutureSystem ι ε) (p : Nat) : Prop :=
  ∃ a, s.owner a = some p ∧
    ∃ canceller, .deactivated a (.cancel canceller) ∈ s.bus.world.log

/-- A lambda of the awaiter won its exchange, or it is on its way there. -/
def Delivered (s : FutureSystem ι ε) (a p : Nat) : Prop :=
  (s.promises p).completed ∨ Threads.Exists (Frame.delivers a) s.bus.frames ∨
    ∃ t, s.runs t p

end FutureSystem

structure OwnerInv (s : FutureSystem ι ε) : Prop where
  handles : ∀ a, HandleInv a s.bus.world s.bus.frames
  gone : s.Gone
  spent : ∀ p, (s.promises p).destroyed → ∀ a, s.owner a = some p →
    Spent a s.bus.world s.bus.frames
  won : ∀ p, (s.promises p).completed →
    (∃ o ∈ s.log, o.resolved = some p) ∨ ∃ t, s.resolves t p
  delivered : ∀ a p, s.owner a = some p → s.bus.world.decided a → s.Delivered a p
  broken : ∀ p, .exceptionSet p .brokenPromise ∈ s.log → s.Cancelled p

section OwnerInv

variable {s s' : FutureSystem ι ε} {t : ι} {p q a : Nat} {f : Frame ε}

theorem OwnerInv.init : OwnerInv ({} : FutureSystem ι ε) where
  handles _ := .init
  gone _ h := nomatch h
  spent _ h := nomatch h
  won _ h := nomatch h
  delivered _ _ h := nomatch h
  broken _ h := nomatch h

theorem Frame.refers_of_engaged (h : f.engaged a) : f.refers a := by
  fun_cases Frame.engaged a f <;> simp_all [Frame.engaged, Frame.refers]

theorem Frame.refers_of_delivers (h : f.delivers a) : f.refers a := by
  fun_cases Frame.delivers a f <;> simp_all [Frame.delivers, Frame.refers]

variable [DecidableEq ι]

section Requesting

variable {drawn : Option Nat} {made posted : Prop} {rest : List (Frame ε)}
  [RequestTraits ε]

omit [DecidableEq ι] in
/-- No lambda starts inside `request`. -/
theorem Requesting.delivers_eq_false
    (h : Requesting drawn made posted (f :: rest)) : f.delivers a = false := by
  generalize hstack : f :: rest = stack at h
  cases h with
  | preparing fs ev e id rest hdrawn hev hfs hmade =>
      cases fs with
      | nil =>
          cases hstack
          rfl
      | cons g fs =>
          cases hstack
          have hg := hfs f List.mem_cons_self
          cases f <;> first
            | rfl
            | cases hg
  | drawing | notifying | returning =>
      cases hstack
      rfl

theorem Requesting.onTimeout {spec : AwaitSpec} {guard : Option (Option Guard)}
    {via : Option Nat}
    (h : Requesting drawn made posted (.createAwaiter spec guard via :: rest)) :
    spec.onTimeout := by
  generalize hstack : Frame.createAwaiter spec guard via :: rest = stack at h
  cases h with
  | preparing fs ev e id rest hdrawn hev hfs hmade =>
      cases fs with
      | nil => cases hstack
      | cons g fs =>
          cases hstack
          exact (Bool.and_eq_true_iff.mp (hfs _ List.mem_cons_self)).2
  | drawing | notifying | returning => cases hstack

end Requesting

/-! ### What `request_future` takes from a step of the bus -/

theorem FutureSystem.follow_promises :
    ((s.follow t f).promises p).completed = (s.promises p).completed ∧
      ((s.follow t f).promises p).destroyed = (s.promises p).destroyed := by
  unfold follow
  split
  next q retry request hcode =>
    dsimp only
    split
    · exact ⟨rfl, rfl⟩
    · by_cases hpq : p = q
      · subst hpq
        rw [setPromise_self]
        exact ⟨rfl, rfl⟩
      · rw [setPromise_of_ne hpq]
        exact ⟨rfl, rfl⟩
  next => exact ⟨rfl, rfl⟩
  next => exact ⟨rfl, rfl⟩
  next => exact ⟨rfl, rfl⟩
  next => split <;> exact ⟨rfl, rfl⟩
  next => split <;> exact ⟨rfl, rfl⟩
  next => exact ⟨rfl, rfl⟩

theorem FutureSystem.follow_log : (s.follow t f).log = s.log ∨
    ∃ p request, (s.follow t f).log = .posted p request :: s.log := by
  unfold follow
  split
  next => dsimp only; split <;> exact .inl rfl
  next => exact .inl rfl
  next p ev request hcode => exact .inr ⟨p, ev, rfl⟩
  next => exact .inl rfl
  next => split <;> exact .inl rfl
  next => split <;> exact .inl rfl
  next => exact .inl rfl

theorem FutureSystem.follow_owner (h : (s.follow t f).owner a = some p) :
    s.owner a = some p ∨ a = s.bus.world.nextAwaiter ∧
      s.code t = some (.requesting p) ∧
      ∃ spec guard via, f = .createAwaiter spec guard via := by
  unfold follow at h
  split at h
  next => dsimp only at h; split at h <;> exact .inl h
  next q spec guard via hcode =>
    dsimp only at h
    by_cases ha : a = s.bus.world.nextAwaiter
    · subst ha
      rw [Function.update_self] at h
      cases h
      exact .inr ⟨rfl, hcode, spec, guard, via, rfl⟩
    · rw [Function.update_of_ne ha] at h
      exact .inl h
  next => exact .inl h
  next => exact .inl h
  next => split at h <;> exact .inl h
  next => split at h <;> exact .inl h
  next => exact .inl h

/-- Other code comes on top where a call ends or a lambda starts. -/
theorem FutureSystem.follow_code : (s.follow t f).code = s.code ∨
    ∃ c, (s.follow t f).code = (s.setCode t (some c)).code ∧
      (s.code t = some (.requesting c.promise) ∨
        s.code t = none ∧ ∃ a, s.owner a = some c.promise ∧ f.engaged a) := by
  unfold follow
  split
  next => dsimp only; split <;> exact .inl rfl
  next => exact .inl rfl
  next => exact .inl rfl
  next q e id ticket hcode => exact .inr ⟨_, rfl, .inl hcode⟩
  next b ev hcode =>
    split
    next q hq => exact .inr ⟨_, rfl, .inr ⟨hcode, b, hq, decide_eq_true rfl⟩⟩
    next => exact .inl rfl
  next b hcode =>
    split
    next q hq => exact .inr ⟨_, rfl, .inr ⟨hcode, b, hq, decide_eq_true rfl⟩⟩
    next => exact .inl rfl
  next => exact .inl rfl

theorem FutureSystem.followed_cases (act : BusAction ι ε) :
    s.followed act = s ∨ ∃ t f rest, act = .advance t ∧
      s.bus.frames t = f :: rest ∧ s.followed act = s.follow t f := by
  unfold followed
  split
  next t =>
    split
    next f rest hf => exact .inr ⟨t, f, rest, rfl, hf, rfl⟩
    next => exact .inl rfl
  next => exact .inl rfl

variable [Fintype ι] [RequestTraits ε]

/-! ### What a step does to promises and awaiters -/

variable {b : FutureAction ι ε}

/-- The bus below takes one step of its own, or none. -/
theorem FutureStep.bus_step (h : FutureStep s b s') : s'.bus = s.bus ∨
    ∃ act, OwnPredicates act ∧ s.bus.step act = some s'.bus ∧
      ∀ t, act = .advance t → b = .bus (.advance t) := by
  cases h with
  | bus hpermits hbus =>
      exact .inr ⟨_, FutureSystem.ownPredicates_of_permits hpermits, hbus,
        fun _ heq => by rw [heq]⟩
  | began hcode hbus => exact .inr ⟨_, by exact rfl, hbus, nofun⟩
  | stored | won => exact .inl rfl
  | lost _ _ _ hbus | resolved _ _ hbus =>
      rcases hbus with heq | hbus
      · exact .inl heq
      · exact .inr ⟨.ret _ false, trivial, hbus, nofun⟩
  | destroyed => exact .inl FutureSystem.abandon_bus

theorem FutureStep.owner (h : FutureStep s b s') (ho : s'.owner a = some p) :
    s.owner a = some p ∨ a = s.bus.world.nextAwaiter ∧
      ∃ t, s.code t = some (.requesting p) ∧ b = .bus (.advance t) ∧
        ∃ spec guard via rest,
          s.bus.frames t = .createAwaiter spec guard via :: rest := by
  cases h with
  | @bus act bus hpermits hbus =>
      have ho : (s.followed act).owner a = some p := ho
      rcases FutureSystem.followed_cases (s := s) act with
        heq | ⟨t, f, rest, rfl, ht, heq⟩ <;> rw [heq] at ho
      · exact .inl ho
      · rcases FutureSystem.follow_owner ho with ho | ⟨ha, hcode, spec, guard, via, rfl⟩
        · exact .inl ho
        · exact .inr ⟨ha, t, hcode, rfl, spec, guard, via, rest, ht⟩
  | destroyed =>
      rw [FutureSystem.abandon_owner] at ho
      exact .inl ho
  | _ => exact .inl ho

/-- An awaiter keeps its promise. -/
theorem FutureStep.owner_stays (h : FutureStep s b s') {timely : Nat → Prop}
    (hids : FutureInv timely s) (ho : s.owner a = some p) : s'.owner a = some p := by
  have hlt := (hids.awaits a p ho).1
  cases h with
  | @bus act bus hpermits hbus =>
      show (s.followed act).owner a = some p
      rcases FutureSystem.followed_cases (s := s) act with
        heq | ⟨t, f, rest, rfl, ht, heq⟩ <;> rw [heq]
      · exact ho
      unfold FutureSystem.follow
      split
      next => dsimp only; split <;> exact ho
      next => exact (Function.update_of_ne hlt.ne ..).trans ho
      next => exact ho
      next => exact ho
      next => split <;> exact ho
      next => split <;> exact ho
      next => exact ho
  | destroyed => rwa [FutureSystem.abandon_owner]
  | _ => exact ho

theorem FutureStep.destroyed_of (h : FutureStep s b s')
    (hd : (s'.promises p).destroyed) : (s.promises p).destroyed ∨
      b = .destroy p ∧ ¬ s.shares p := by
  cases h with
  | @bus act bus hpermits hbus =>
      have hd : ((s.followed act).promises p).destroyed := hd
      rcases FutureSystem.followed_cases (s := s) act with
        heq | ⟨t, f, rest, rfl, ht, heq⟩ <;> rw [heq] at hd
      · exact .inl hd
      · rw [FutureSystem.follow_promises.2] at hd
        exact .inl hd
  | began =>
      rcases FutureSystem.flag_of_setPromise Promise.destroyed hd with hd | ⟨-, hd⟩
      · exact .inl hd
      · cases hd
  | stored | won =>
      rcases FutureSystem.flag_of_setPromise Promise.destroyed hd with hd | ⟨rfl, hx⟩
      · exact .inl hd
      · exact .inl hx
  | destroyed hq hlives hshares =>
      rw [FutureSystem.abandon_promises] at hd
      rcases FutureSystem.flag_of_setPromise Promise.destroyed hd with hd | ⟨rfl, -⟩
      · exact .inl hd
      · exact .inr ⟨rfl, hshares⟩
  | _ => exact .inl hd

/-- Only the winner of the exchange raises the flag. -/
theorem FutureStep.completed_of (h : FutureStep s b s')
    (hc : (s'.promises p).completed) : (s.promises p).completed ∨
      ∃ t, s'.resolves t p := by
  cases h with
  | @bus act bus hpermits hbus =>
      have hc : ((s.followed act).promises p).completed := hc
      rcases FutureSystem.followed_cases (s := s) act with
        heq | ⟨t, f, rest, rfl, ht, heq⟩ <;> rw [heq] at hc
      · exact .inl hc
      · rw [FutureSystem.follow_promises.1] at hc
        exact .inl hc
  | began =>
      rcases FutureSystem.flag_of_setPromise Promise.completed hc with hc | ⟨-, hc⟩
      · exact .inl hc
      · cases hc
  | stored =>
      rcases FutureSystem.flag_of_setPromise Promise.completed hc with hc | ⟨rfl, hx⟩
      · exact .inl hc
      · exact .inl hx
  | @won t c d hcode hwins hopen =>
      rcases FutureSystem.flag_of_setPromise Promise.completed hc with hc | ⟨rfl, -⟩
      · exact .inl hc
      · refine .inr ⟨t, ?_⟩
        rw [FutureSystem.resolves, FutureSystem.setCode_self]
        exact (FutureCode.of_wins hwins).1
  | destroyed =>
      rw [FutureSystem.abandon_promises] at hc
      rcases FutureSystem.flag_of_setPromise Promise.completed hc with hc | ⟨rfl, hx⟩
      · exact .inl hc
      · exact .inl hx
  | _ => exact .inl hc

theorem FutureStep.completed_stays (h : FutureStep s b s') (hp : PromiseInv s)
    (hc : (s.promises p).completed) : (s'.promises p).completed := by
  have hset {q : Nat} {x : Promise} (hx : p = q → x.completed) :
      ((s.setPromise q x).promises p).completed :=
    FutureSystem.flag_setPromise Promise.completed hc hx
  cases h with
  | @bus act bus hpermits hbus =>
      show ((s.followed act).promises p).completed
      rcases FutureSystem.followed_cases (s := s) act with
        heq | ⟨t, f, rest, rfl, ht, heq⟩ <;> rw [heq]
      · exact hc
      · rwa [FutureSystem.follow_promises.1]
  | began =>
      refine hset fun hpq => ?_
      rw [hp.fresh p hpq.ge] at hc
      cases hc
  | stored => exact hset fun hpq => hpq ▸ hc
  | won => exact hset fun _ => rfl
  | destroyed =>
      rw [FutureSystem.abandon_promises]
      exact hset fun hpq => hpq ▸ hc
  | _ => exact hc

theorem FutureStep.code_of {c : FutureCode ε} (h : FutureStep s b s')
    (hc : s'.code t = some c) :
    (∃ c', s.code t = some c' ∧ c'.promise = c.promise) ∨
      c.promise = s.nextPromise ∨
      ∃ a, s.owner a = some c.promise ∧ ∃ f ∈ s.bus.frames t, f.engaged a := by
  have hset {u : ι} {d : Option (FutureCode ε)}
      (hu : (s.setCode u d).code t = some c) :
      t = u ∧ d = some c ∨ s.code t = some c := by
    by_cases htu : t = u
    · subst htu
      rw [FutureSystem.setCode_self] at hu
      exact .inl ⟨rfl, hu⟩
    · rw [FutureSystem.setCode_of_ne htu] at hu
      exact .inr hu
  cases h with
  | @bus act bus hpermits hbus =>
      have hc : (s.followed act).code t = some c := hc
      rcases FutureSystem.followed_cases (s := s) act with
        heq | ⟨u, f, rest, rfl, hu, heq⟩ <;> rw [heq] at hc
      · exact .inl ⟨c, hc, rfl⟩
      rcases FutureSystem.follow_code (s := s) (t := u) (f := f) with
        hsame | ⟨d, hcode, hd⟩
      · rw [hsame] at hc
        exact .inl ⟨c, hc, rfl⟩
      rw [hcode] at hc
      rcases hset hc with ⟨rfl, hsome⟩ | hc
      · cases hsome
        rcases hd with hd | ⟨-, a, ha, heng⟩
        · exact .inl ⟨_, hd, rfl⟩
        · exact .inr (.inr ⟨a, ha, f, hu ▸ List.mem_cons_self, heng⟩)
      · exact .inl ⟨c, hc, rfl⟩
  | began =>
      rcases hset hc with ⟨-, heq⟩ | hc
      · cases heq
        exact .inr (.inl rfl)
      · exact .inl ⟨c, hc, rfl⟩
  | won hcode hwins hopen =>
      rcases hset hc with ⟨rfl, heq⟩ | hc
      · cases heq
        exact .inl ⟨_, hcode, (FutureCode.of_wins hwins).2.1.symm⟩
      · exact .inl ⟨c, hc, rfl⟩
  | stored | lost | resolved =>
      rcases hset hc with ⟨-, heq⟩ | hc
      · cases heq
      · exact .inl ⟨c, hc, rfl⟩
  | destroyed =>
      rw [FutureSystem.abandon_code] at hc
      exact .inl ⟨c, hc, rfl⟩

/-- A lambda that runs is moved on by its own thread only. -/
theorem FutureStep.code_stays {c : FutureCode ε} (h : FutureStep s b s')
    (hc : s.code t = some c) (hcaller : c.caller = none) (hb : b ≠ .proceed t) :
    s'.code t = some c := by
  have hset {u : ι} {d : Option (FutureCode ε)} (hu : t ≠ u) :
      (s.setCode u d).code t = some c := by
    rwa [FutureSystem.setCode_of_ne hu]
  cases h with
  | @bus act bus hpermits hbus =>
      show (s.followed act).code t = some c
      rcases FutureSystem.followed_cases (s := s) act with
        heq | ⟨u, f, rest, rfl, hu, heq⟩ <;> rw [heq]
      · exact hc
      rcases FutureSystem.follow_code (s := s) (t := u) (f := f) with
        hsame | ⟨d, hcode, hd⟩
      · rwa [hsame]
      rw [hcode]
      refine hset fun htu => ?_
      rw [← htu, hc] at hd
      rcases hd with hd | ⟨hd, -⟩
      · cases hd
        cases hcaller
      · cases hd
  | @began u e ev options bus hcode hbus =>
      refine hset fun htu => ?_
      rw [← htu, hc] at hcode
      cases hcode
  | stored | won | lost | resolved => exact hset fun htu => hb (htu ▸ rfl)
  | destroyed => rwa [FutureSystem.abandon_code]

theorem FutureStep.log (h : FutureStep s b s') : ∀ o ∈ s.log, o ∈ s'.log := by
  intro o ho
  cases h with
  | @bus act bus hpermits hbus =>
      show o ∈ (s.followed act).log
      rcases FutureSystem.followed_cases (s := s) act with
        heq | ⟨u, f, rest, rfl, hu, heq⟩ <;> rw [heq]
      · exact ho
      rcases FutureSystem.follow_log (s := s) (t := u) (f := f) with
        hsame | ⟨q, request, hlog⟩
      · rwa [hsame]
      · rw [hlog]
        exact List.mem_cons_of_mem _ ho
  | resolved => exact List.mem_cons_of_mem _ ho
  | @destroyed q hq hlives hshares =>
      rcases FutureSystem.abandon_log (s := s) (p := q) with ⟨heq, -⟩ | ⟨heq, -⟩ <;>
        rw [heq]
      · exact ho
      · exact List.mem_cons_of_mem _ ho
  | _ => exact ho

theorem FutureStep.broken_of (h : FutureStep s b s')
    (ho : .exceptionSet p .brokenPromise ∈ s'.log) :
    .exceptionSet p .brokenPromise ∈ s.log ∨ b = .destroy p ∧ p < s.nextPromise ∧
      ¬ s.shares p ∧ ∀ o ∈ s.log, o.resolved ≠ some p := by
  cases h with
  | @bus act bus hpermits hbus =>
      have ho : _ ∈ (s.followed act).log := ho
      rcases FutureSystem.followed_cases (s := s) act with
        heq | ⟨u, f, rest, rfl, hu, heq⟩ <;> rw [heq] at ho
      · exact .inl ho
      rcases FutureSystem.follow_log (s := s) (t := u) (f := f) with
        hsame | ⟨q, request, hlog⟩
      · rw [hsame] at ho
        exact .inl ho
      · rw [hlog] at ho
        rcases List.mem_cons.mp ho with heq | ho
        · cases heq
        · exact .inl ho
  | @resolved t c o bus hcode hres hbus =>
      rcases List.mem_cons.mp ho with rfl | ho
      · cases c <;> cases hres
      · exact .inl ho
  | @destroyed q hq hlives hshares =>
      rcases FutureSystem.abandon_log (s := s) (p := q) with
        ⟨heq, -⟩ | ⟨heq, hnone⟩ <;> rw [heq] at ho
      · exact .inl ho
      · rcases List.mem_cons.mp ho with heq | ho
        · cases heq
          exact .inr ⟨rfl, hq, hshares, hnone⟩
        · exact .inl ho
  | _ => exact .inl ho

/-! ### The invariant -/

theorem OwnerInv.gone_step (h : OwnerInv s) (hp : PromiseInv s)
    (hstep : FutureStep s b s') : s'.Gone := by
  intro p hd t c hc heq
  rcases hstep.destroyed_of hd with hd | ⟨rfl, hshares⟩
  · rcases hstep.code_of hc with ⟨c', hc', hsame⟩ | hnew | ⟨a, ha, f, hf, heng⟩
    · exact h.gone p hd t c' hc' (hsame.trans heq)
    · rw [hp.fresh p (hnew.symm.trans heq).le] at hd
      cases hd
    · rw [heq] at ha
      have hun := (h.spent p hd a ha).unengaged t f hf
      exact absurd heng (Bool.eq_false_iff.mp hun)
  · cases hstep with
    | destroyed =>
        rw [FutureSystem.abandon_code] at hc
        exact hshares (.inl ⟨t, by rw [hc, ← heq]; rfl⟩)

omit [DecidableEq ι] in
/-- An awaiter that nobody keeps is spent. -/
theorem OwnerInv.spent_of_free (h : OwnerInv s) {timely : Nat → Prop}
    (hids : FutureInv timely s) (hb : RequestsInv s.bus) (hshares : ¬ s.shares p)
    (ha : s.owner a = some p) : Spent a s.bus.world s.bus.frames ∧
      ¬ Threads.Exists (Frame.refers a) s.bus.frames := by
  obtain ⟨hlt, id, -, hid⟩ := hids.awaits a p ha
  have hkeeps : ¬ s.bus.keeps (s.promises p).endpoint a := fun hkeeps =>
    hshares (.inr ⟨a, hlt, ha, hkeeps⟩)
  have hrefers : ¬ Threads.Exists (Frame.refers a) s.bus.frames := fun hrefers =>
    hkeeps (.inr (.inr hrefers))
  refine ⟨⟨?_, fun t f hf => ?_⟩, hrefers⟩
  · refine Bool.eq_false_of_not_eq_true fun hactive => hkeeps (.inl ?_)
    exact ((h.handles a).retains hactive (hb.requests.single a id hid)).1
  · refine Bool.eq_false_of_not_eq_true fun heng => hrefers ⟨t, ?_⟩
    exact List.any_eq_true.mpr ⟨f, hf, f.refers_of_engaged heng⟩

theorem OwnerInv.spent_step (h : OwnerInv s) {timely : Nat → Prop}
    (hids : FutureInv timely s) (hb : RequestsInv s.bus)
    (hstep : FutureStep s b s') (hd : (s'.promises p).destroyed)
    (ha : s'.owner a = some p) : Spent a s'.bus.world s'.bus.frames := by
  rcases hstep.destroyed_of hd with hd | ⟨rfl, hshares⟩
  · rcases hstep.owner ha with ha | ⟨-, t, hcode, -⟩
    · have hspent := h.spent p hd a ha
      rcases hstep.bus_step with heq | ⟨act, -, hbus, -⟩
      · rwa [heq]
      · exact hspent.step (hids.awaits a p ha).1 hbus
    · exact absurd rfl (h.gone p hd t _ hcode)
  · cases hstep with
    | destroyed =>
        rw [FutureSystem.abandon_owner] at ha
        rw [FutureSystem.abandon_bus]
        exact (h.spent_of_free hids hb hshares ha).1

theorem OwnerInv.won_step (h : OwnerInv s) (hstep : FutureStep s b s')
    (hc : (s'.promises p).completed) :
    (∃ o ∈ s'.log, o.resolved = some p) ∨ ∃ t, s'.resolves t p := by
  rcases hstep.completed_of hc with hc | hwon
  · rcases h.won p hc with ⟨o, ho, hres⟩ | ⟨t, ht⟩
    · exact .inl ⟨o, hstep.log o ho, hres⟩
    obtain ⟨c, hcode, hres⟩ := Option.bind_eq_some_iff.mp ht
    have hcaller : c.caller = none ∧ c.wins = none := by
      cases c <;> first
        | exact ⟨rfl, rfl⟩
        | cases hres
    by_cases hb : b = .proceed t
    · subst hb
      cases hstep with
      | stored hcode' =>
          rw [hcode] at hcode'
          cases hcode'
          cases hres
      | won hcode' hwins | lost hcode' hwins =>
          rw [hcode] at hcode'
          cases hcode'
          rw [hcaller.2] at hwins
          cases hwins
      | @resolved t c' o bus hcode' ho hbus =>
          rw [hcode] at hcode'
          cases hcode'
          obtain ⟨hres', -, hobs⟩ := FutureCode.of_resolves ho
          rw [hres] at hres'
          cases hres'
          exact .inl ⟨o, List.mem_cons_self, hobs⟩
    · refine .inr ⟨t, ?_⟩
      rw [FutureSystem.resolves, hstep.code_stays hcode hcaller.1 hb]
      exact hres
  · exact .inr hwon

omit [DecidableEq ι] in
/-- A promise that is destroyed unresolved was cancelled. -/
theorem OwnerInv.cancelled_of_free (h : OwnerInv s) {timely : Nat → Prop}
    (hids : FutureInv timely s) (hb : RequestsInv s.bus) (hp : p < s.nextPromise)
    (hshares : ¬ s.shares p) (hnone : ∀ o ∈ s.log, o.resolved ≠ some p) :
    s.Cancelled p := by
  have hfree (t : ι) (c : FutureCode ε) (hc : s.code t = some c) : c.promise ≠ p :=
    fun heq => hshares (.inl ⟨t, by rw [hc, ← heq]; rfl⟩)
  obtain ⟨-, ⟨a, ha⟩, -⟩ := hids.done p hp fun t ht => by
    obtain ⟨c, hc, hcaller⟩ := Option.bind_eq_some_iff.mp ht
    refine hfree t c hc ?_
    cases c <;> cases hcaller <;> rfl
  obtain ⟨hspent, hrefers⟩ := h.spent_of_free hids hb hshares ha
  have hopen : ¬ s.Delivered a p := by
    rintro (hclosed | ⟨t, ht⟩ | ⟨t, ht⟩)
    · rcases h.won p hclosed with ⟨o, ho, hres⟩ | ⟨t, ht⟩
      · exact hnone o ho hres
      · obtain ⟨c, hc, hres⟩ := Option.bind_eq_some_iff.mp ht
        refine hfree t c hc ?_
        cases c <;> cases hres <;> rfl
    · obtain ⟨f, hf, hdelivers⟩ := List.any_eq_true.mp ht
      exact hrefers ⟨t, List.any_eq_true.mpr ⟨f, hf, f.refers_of_delivers hdelivers⟩⟩
    · obtain ⟨d, hd, heq⟩ := Option.map_eq_some_iff.mp ht
      obtain ⟨c, hc, hwins⟩ := Option.bind_eq_some_iff.mp hd
      exact hfree t c hc ((FutureCode.of_wins hwins).2.1.symm.trans heq)
  have hundecided : ¬ s.bus.world.decided a := fun hdecided =>
    hopen (h.delivered a p ha hdecided)
  obtain ⟨cause, hmem⟩ :=
    (h.handles a).ended (hids.awaits a p ha).1 hspent.inactive
  cases cause with
  | cancel canceller => exact ⟨a, ha, canceller, hmem⟩
  | matched => exact absurd (.inl hmem) hundecided
  | timeout =>
      have harmed : (s.bus.world.awaiters a).onTimeout :=
        Bool.eq_true_of_not_eq_false fun htaken => hundecided (.inr htaken)
      exact absurd hmem ((h.handles a).armed harmed).1

theorem OwnerInv.broken_step (h : OwnerInv s) {timely : Nat → Prop}
    (hids : FutureInv timely s) (hb : RequestsInv s.bus)
    (hstep : FutureStep s b s') (ho : .exceptionSet p .brokenPromise ∈ s'.log) :
    s'.Cancelled p := by
  have hstays (hcancelled : s.Cancelled p) : s'.Cancelled p := by
    obtain ⟨a, ha, canceller, hmem⟩ := hcancelled
    refine ⟨a, hstep.owner_stays hids ha, canceller, ?_⟩
    rcases hstep.bus_step with heq | ⟨act, hown, hbus, -⟩
    · rwa [heq]
    · exact (BusSystem.step_local hbus hown).1.log _ hmem
  rcases hstep.broken_of ho with ho | ⟨-, hp, hshares, hnone⟩
  · exact hstays (h.broken p ho)
  · exact hstays (h.cancelled_of_free hids hb hp hshares hnone)

/-- The awaiter of a promise comes with its `on_timeout`. -/
theorem OwnerInv.undecided_of_new (h : OwnerInv s) {timely : Nat → Prop}
    (hids : FutureInv timely s) {bus : BusSystem ι ε} {spec : AwaitSpec}
    {guard : Option (Option Guard)} {via : Option Nat} {rest : List (Frame ε)}
    (hcode : s.code t = some (.requesting p))
    (ht : s.bus.frames t = .createAwaiter spec guard via :: rest)
    (hbus : s.bus.step (.advance t) = some bus) :
    ¬ bus.world.decided s.bus.world.nextAwaiter := by
  have hreq : Requesting _ _ _ (s.bus.frames t) := hids.code t _ hcode
  rw [ht] at hreq
  obtain ⟨-, hnever, -⟩ := (h.handles s.bus.world.nextAwaiter).fresh (Nat.le_refl _)
  rcases BusSystem.step_cases hbus with
    ⟨delta, heq, -⟩ | ⟨u, f, rest', o, hu, hmoved, rfl⟩
  · cases heq
  cases hmoved with
  | unwind hmode ho =>
      rw [ht] at hu
      cases hu
      cases ho
  | advance hmode ho =>
      rw [ht] at hu
      cases hu
      cases ho
      rintro (hmem | htaken)
      · rcases List.mem_cons.mp hmem with heq | hmem
        · cases heq
        · exact absurd (decide_eq_true rfl) (Bool.eq_false_iff.mp (hnever _ hmem))
      · have htaken : (if s.bus.world.nextAwaiter = s.bus.world.nextAwaiter then
            s.bus.world.newAwaiter spec _ else _).onTimeout = false := htaken
        rw [if_pos rfl] at htaken
        exact absurd hreq.onTimeout (Bool.eq_false_iff.mp htaken)

/-- A lambda starts. -/
theorem FutureStep.starts {timely : Nat → Prop} (hids : FutureInv timely s)
    {rest : List (Frame ε)} (h : FutureStep s (.bus (.advance t)) s')
    (ha : s.owner a = some p) (ht : s.bus.frames t = f :: rest)
    (hf : (∃ ev, f = .handleEvent a ev .callback) ∨
      f = .pollTimeout a (.timedOut true)) : s'.runs t p := by
  cases h with
  | bus hpermits hbus =>
      have hfollowed : s.followed (.advance t) = s.follow t f := by
        simp only [FutureSystem.followed, ht]
      rw [hfollowed]
      show (((s.follow t f).code t).bind _).map _ = some p
      cases hcode : s.code t with
      | none =>
          rcases hf with ⟨ev, rfl⟩ | rfl <;>
          · simp only [FutureSystem.follow, hcode, ha, FutureSystem.setCode_self]
            rfl
      | some c =>
          simp only [FutureSystem.permits, hcode] at hpermits
          cases c with
          | requesting q =>
              have hreq : Requesting _ _ _ (s.bus.frames t) := hids.code t _ hcode
              rw [ht] at hreq
              have hfalse := hreq.delivers_eq_false (a := a)
              rcases hf with ⟨ev, rfl⟩ | rfl <;>
                exact absurd (decide_eq_true rfl) (Bool.eq_false_iff.mp hfalse)
          | _ => cases hpermits

theorem FutureStep.runs_stays (h : FutureStep s b s') (hruns : s.runs t p) :
    (s'.promises p).completed ∨ s'.runs t p := by
  obtain ⟨d, hd, hpromise⟩ := Option.map_eq_some_iff.mp hruns
  obtain ⟨c, hc, hwins⟩ := Option.bind_eq_some_iff.mp hd
  obtain ⟨-, hsame, hcaller, -⟩ := FutureCode.of_wins hwins
  by_cases hb : b = .proceed t
  · subst hb
    cases h with
    | stored hcode =>
        rw [hc] at hcode
        cases hcode
        cases hwins
    | won hcode =>
        rw [hc] at hcode
        cases hcode
        refine .inl ?_
        show ((s.setPromise c.promise _).promises p).completed
        rw [← hpromise, hsame, FutureSystem.setPromise_self]
    | lost hcode _ hclosed =>
        rw [hc] at hcode
        cases hcode
        rw [← hpromise, hsame]
        exact .inl hclosed
    | resolved hcode ho =>
        rw [hc] at hcode
        cases hcode
        cases c <;> cases ho <;> cases hwins
  · refine .inr ?_
    rw [FutureSystem.runs, h.code_stays hc hcaller hb]
    exact Option.map_eq_some_iff.mpr ⟨d, hwins, hpromise⟩

theorem OwnerInv.delivered_step (h : OwnerInv s) {timely : Nat → Prop}
    (hp : PromiseInv s) (hids : FutureInv timely s) (hstep : FutureStep s b s')
    (ha : s'.owner a = some p) (hdecided : s'.bus.world.decided a) :
    s'.Delivered a p := by
  rcases hstep.owner ha with ha | ⟨rfl, t, hcode, rfl, spec, guard, via, rest, ht⟩
  · have hearlier : s.bus.world.decided a ∨
        Threads.Exists (Frame.delivers a) s'.bus.frames := by
      rcases hstep.bus_step with heq | ⟨act, -, hbus, -⟩
      · exact .inl (heq ▸ hdecided)
      · exact BusSystem.decided_of_step (hids.awaits a p ha).1 hbus hdecided
    rcases hearlier with hearlier | hway
    · rcases h.delivered a p ha hearlier with hclosed | hway | ⟨t, hruns⟩
      · exact .inl (hstep.completed_stays hp hclosed)
      · rcases hstep.bus_step with heq | ⟨act, -, hbus, hadvance⟩
        · exact .inr (.inl (heq ▸ hway))
        rcases BusSystem.delivers_step hway hbus with
          hway | ⟨t, f, rest, hact, ht, hf⟩
        · exact .inr (.inl hway)
        · obtain rfl := hadvance t hact
          exact .inr (.inr ⟨t, hstep.starts hids ha ht hf⟩)
      · rcases hstep.runs_stays hruns with hclosed | hruns
        · exact .inl hclosed
        · exact .inr (.inr ⟨t, hruns⟩)
    · exact .inr (.inl hway)
  · cases hstep with
    | bus hpermits hbus =>
        exact absurd hdecided (h.undecided_of_new hids hcode ht hbus)

theorem OwnerInv.step (h : OwnerInv s) {timely : Nat → Prop} (hp : PromiseInv s)
    (hids : FutureInv timely s) (hb : RequestsInv s.bus) (hstep : FutureStep s b s') :
    OwnerInv s' where
  handles a := by
    rcases hstep.bus_step with heq | ⟨act, -, hbus, -⟩
    · rw [heq]
      exact h.handles a
    · exact (h.handles a).step hbus
  gone := h.gone_step hp hstep
  spent _ hd _ ha := h.spent_step hids hb hstep hd ha
  won _ hc := h.won_step hstep hc
  delivered _ _ ha hdecided := h.delivered_step hp hids hstep ha hdecided
  broken _ ho := h.broken_step hids hb hstep ho

end OwnerInv

/-! ## All of it along a run -/

/-- The invariant of the whole machine. -/
structure FuturesInv [Fintype ι] [RequestTraits ε] (timely : Nat → Prop)
    (s : FutureSystem ι ε) : Prop where
  promises : PromiseInv s
  bus : RequestsInv s.bus
  ids : FutureInv timely s
  owners : OwnerInv s

/-- What a program can rely on that waits for futures. -/
structure FuturesResolved [RequestTraits ε] (s : FutureSystem ι ε) : Prop where
  once : ∀ p, s.log.countP (fun o => o.resolved = some p) ≤ 1
  /-- A call that is over has posted its request. -/
  posted : ∀ p < s.nextPromise, (∀ t, ¬ s.calls t p) → s.Posted p
  value : ∀ p result request, .valueSet p result ∈ s.log →
    .posted p request ∈ s.log → result.getId = request.getId
  exception : ∀ p error, .exceptionSet p error ∈ s.log →
    (∃ id, error = .requestTimeout id) ∨ error = .brokenPromise ∧ s.Cancelled p

/-- Every exception is a `RequestTimeoutError` with the id of the request. -/
def TimeoutErrorsOnly [RequestTraits ε] (s : FutureSystem ι ε) : Prop :=
  ∀ p error, .exceptionSet p error ∈ s.log → ∃ request,
    .posted p request ∈ s.log ∧ error = .requestTimeout request.getId ∧
      request.getId ≠ invalidRequestId

/-- The `RequestTimeoutError` of `p` has the id of the request. -/
def TimeoutCarriesId [RequestTraits ε] (s : FutureSystem ι ε) (p : Nat) : Prop :=
  ∀ id, .exceptionSet p (.requestTimeout id) ∈ s.log → id ≠ invalidRequestId ∧
    s.Posted p ∧ ∀ request, .posted p request ∈ s.log → request.getId = id

section FuturesInv

variable [Fintype ι] [DecidableEq ι] [RequestTraits ε] {timely : Nat → Prop}
  {s s' : FutureSystem ι ε}

omit [DecidableEq ι] in
theorem FuturesInv.init : FuturesInv timely ({} : FutureSystem ι ε) :=
  ⟨.init, .init, .init, .init⟩

theorem FuturesInv.step {a : FutureAction ι ε} (h : FuturesInv timely s)
    (hcond : ∀ p, timely p → StoredInTime p s a)
    (hstep : FutureSystem.step s a = some s') : FuturesInv timely s' := by
  have hcases := FutureSystem.step_cases hstep
  exact
    { promises := h.promises.step h.owners.gone hstep
      bus := by
        rcases hcases.bus_step with heq | ⟨act, hown, hbus, -⟩
        · rw [heq]
          exact h.bus
        · exact h.bus.step hown hbus
      ids := h.ids.step h.promises h.bus hcond hcases
      owners := h.owners.step h.promises h.ids h.bus hcases }

/-- The futures are a client: what holds of the bus under any program holds of
the bus under them. -/
theorem FutureSystem.Reachable.bus (h : s.Reachable) : s.bus.Reachable := by
  refine Lts.Reachable.invariant (P := fun s => s.bus.Reachable) h (.refl _) ?_
  intro s a s' hs hstep
  rcases (FutureSystem.step_cases hstep).bus_step with heq | ⟨act, -, hbus, -⟩
  · rwa [heq]
  · exact Lts.Reachable.trans_run hs (Lts.run_one hbus)

end FuturesInv

namespace FutureSystem

variable [Fintype ι] [DecidableEq ι] [RequestTraits ε] {s : FutureSystem ι ε}

/-- In every run every future is resolved at most once, and a value has the id
of the request. An exception that is not a `RequestTimeoutError` says that the
promise is broken, because somebody cancelled its awaiter; and a
`RequestTimeoutError` has the id of the request if `on_timeout` finds it
stored. -/
theorem run_futuresResolved {as : List (FutureAction ι ε)}
    (hrun : Lts.run step {} as = some s) : FuturesResolved s ∧
      ∀ p, Lts.RunMeets step (StoredInTime p) {} as → TimeoutCarriesId s p := by
  constructor
  · have h : FuturesInv (fun _ => False) s :=
      Lts.run_invariant (fun _ _ _ h hstep => h.step nofun hstep)
        .init hrun
    exact
      { once := h.promises.once
        posted := fun p hlt hover => (h.ids.done p hlt hover).2.2
        value := fun p result request hset hposted =>
          Option.some.inj ((h.ids.told _ hset).symm.trans (h.ids.told _ hposted))
        exception := fun p error hset => by
          cases error with
          | requestTimeout id => exact .inl ⟨id, rfl⟩
          | brokenPromise => exact .inr ⟨rfl, h.owners.broken p hset⟩ }
  · intro p hstored id hset
    have h := Lts.run_invariant_of_meets (P := FuturesInv (· = p))
      (fun _ _ _ h hcond hstep => h.step (fun q hq => hq ▸ hcond) hstep)
      .init hstored hrun
    obtain ⟨hdrawn, hposted⟩ := h.ids.told _ hset rfl
    refine ⟨fun hzero => h.ids.valid p rfl (hzero ▸ hdrawn), hposted,
      fun request hmem => ?_⟩
    exact Option.some.inj ((h.ids.told _ hmem).symm.trans hdrawn)

end FutureSystem

/-- A request up to where its awaiter is registered, and what is left of it. -/
def futureStart {ι : Type} (t : ι) : List (FutureAction ι Nat) :=
  [.requestFuture t 0 { type := 0, payload := 0 } { type := 1, timeout := 1 }] ++
  List.replicate 8 (.bus (.advance t))

def futureRest {ι : Type} (t : ι) : List (FutureAction ι Nat) :=
  List.replicate 3 (.bus (.advance t)) ++ [.proceed t]

/-- The endpoint is closed, and nothing keeps the awaiter any more. -/
def futureClose : List (FutureAction Unit Nat) :=
  [.bus (.call () (.close 0))] ++ List.replicate 7 (.bus (.advance ())) ++
  [.destroy 0]

/-- Another thread finds the awaiter timed out and runs its `on_timeout`. -/
def futurePoll (steps : Nat) : List (FutureAction Bool Nat) :=
  [.bus (.tick 1), .bus (.call false .process)] ++
  List.replicate steps (.bus (.advance false)) ++
  List.replicate 2 (.proceed false)

namespace FutureSystem

/-- A request that is cancelled by `close()` leaves a broken promise. -/
theorem timeoutErrorsOnly_fails : ∃ s : FutureSystem Unit Nat,
    Lts.run step {} (futureStart () ++ futureRest () ++ futureClose) = some s ∧
      ¬ TimeoutErrorsOnly s := by
  obtain ⟨s, hs, hmem⟩ : ∃ s : FutureSystem Unit Nat,
      Lts.run step {} (futureStart () ++ futureRest () ++ futureClose) = some s ∧
        .exceptionSet 0 .brokenPromise ∈ s.log :=
    Lts.exists_run_of_decide (by decide)
  refine ⟨s, hs, fun h => ?_⟩
  obtain ⟨request, -, heq, -⟩ := h 0 .brokenPromise hmem
  cases heq

theorem run_futuresResolved_timedOut : ∃ s : FutureSystem Bool Nat,
    Lts.run step {} (futureStart true ++ futureRest true ++ futurePoll 14) = some s ∧
      .exceptionSet 0 (.requestTimeout 1) ∈ s.log ∧ FuturesResolved s ∧
      TimeoutCarriesId s 0 := by
  obtain ⟨s, hs, hmem⟩ : ∃ s : FutureSystem Bool Nat,
      Lts.run step {} (futureStart true ++ futureRest true ++ futurePoll 14) = some s ∧
        .exceptionSet 0 (.requestTimeout 1) ∈ s.log :=
    Lts.exists_run_of_decide (by decide)
  have h := run_futuresResolved hs
  exact ⟨s, hs, hmem, h.1, h.2 0 (.of_checks (by decide))⟩

/-- Polled before the id is stored, the exception carries the invalid one. -/
example : ∃ s : FutureSystem Bool Nat,
    Lts.run step {} (futureStart true ++ futurePoll 10 ++ futureRest true) = some s ∧
      .exceptionSet 0 (.requestTimeout invalidRequestId) ∈ s.log :=
  Lts.exists_run_of_decide (by decide)

end FutureSystem

end EventHub
