import EventHub.Bus.Futures
import EventHub.Proofs.BusRequests

/-!
# Futures are resolved once, and with the right id

The exchange on the shared flag decides that a promise is resolved at most
once, as long as nothing resolves it after it was destroyed. That a value
carries the id of the request is a fact about requests: the awaiter of a promise
waits for the id that its call drew.

A `RequestTimeoutError` carries the id that the call has stored by then. The
awaiter can be polled as soon as it is registered, and the id is stored only
after the request was posted, so the id is the right one if the call was over.
-/

namespace EventHub

variable {ι ε : Type}

namespace FutureCode

/-- The promise of a call of `request_future` that is not over. -/
def caller : FutureCode ε → Option Nat
  | .requesting p | .storing p _ => some p
  | _ => none

/-- The promise that this code is about to resolve. -/
def resolver : FutureCode ε → Option Nat
  | .settingValue p _ | .settingException p => some p
  | _ => none

/-- Where a lambda goes on that wins its exchange. -/
def wins : FutureCode ε → Option (FutureCode ε)
  | .completing p result => some (.settingValue p result)
  | .expiring p => some (.settingException p)
  | _ => none

/-- What is observed of a promise that this code resolves. -/
def resolves (x : Promise) : FutureCode ε → Option (FutureObs ε)
  | .settingValue p result => some (.valueSet p result)
  | .settingException p => some (.exceptionSet p (.requestTimeout x.requestId))
  | _ => none

end FutureCode

namespace FutureSystem

/-- `t` executes the call of `request_future` that made `p`. -/
def calls (s : FutureSystem ι ε) (t : ι) (p : Nat) : Prop :=
  (s.code t).bind FutureCode.caller = some p

instance (s : FutureSystem ι ε) (t : ι) (p : Nat) : Decidable (s.calls t p) :=
  inferInstanceAs (Decidable (_ = _))

def resolves (s : FutureSystem ι ε) (t : ι) (p : Nat) : Prop :=
  (s.code t).bind FutureCode.resolver = some p

def Posted (s : FutureSystem ι ε) (p : Nat) : Prop :=
  ∃ request, .posted p request ∈ s.log

end FutureSystem

/-- If the `on_timeout` lambda of `p` reads the request id, the call of
`request_future` is over. The second draw of an id is invalid again only when
`2 ^ 64 - 1` other draws came in between. -/
def StoredInTime (p : Nat) (s : FutureSystem ι ε) : FutureAction ι ε → Prop
  | .proceed t =>
      s.code t = some (.settingException p) → ∀ u, ¬ s.calls u p
  | .bus (.advance t) =>
      s.code t = some (.requesting p) →
        match s.bus.frames t with
        | .nextRequestId true _ :: _ =>
            s.bus.world.requestIds.next ≠ invalidRequestId
        | _ => True
  | _ => True

instance [Fintype ι] [DecidableEq ε] (p : Nat) (s : FutureSystem ι ε)
    (act : FutureAction ι ε) : Decidable (StoredInTime p s act) := by
  unfold StoredInTime
  split
  · infer_instance
  · refine @instDecidableForall _ _ _ ?_
    split <;> infer_instance
  · infer_instance

/-! ## At most once -/

section Once

structure PromiseInv (s : FutureSystem ι ε) : Prop where
  bounded : ∀ t c, s.code t = some c → c.promise < s.nextPromise
  owned : ∀ a p, s.owner a = some p → p < s.nextPromise
  fresh : ∀ p, s.nextPromise ≤ p → s.promises p = {}
  claimed : ∀ t p, s.resolves t p → (s.promises p).completed ∧
    ∀ o ∈ s.log, o.resolved ≠ some p
  alone : ∀ t u p, s.resolves t p → s.resolves u p → t = u
  log : ∀ o ∈ s.log, ∀ p, o.resolved = some p →
    (s.promises p).completed ∨ (s.promises p).destroyed
  once : ∀ p, s.log.countP (fun o => o.resolved = some p) ≤ 1

variable {s s' : FutureSystem ι ε} {t : ι} {p : Nat}

theorem PromiseInv.init : PromiseInv ({} : FutureSystem ι ε) where
  bounded _ _ h := nomatch h
  owned _ _ h := nomatch h
  fresh _ _ := rfl
  claimed _ _ h := nomatch h
  alone _ _ _ h := nomatch h
  log _ h := nomatch h
  once _ := Nat.zero_le 1

theorem PromiseInv.withBus (h : PromiseInv s) (bus : BusSystem ι ε) :
    PromiseInv { s with bus := bus } :=
  ⟨h.bounded, h.owned, h.fresh, h.claimed, h.alone, h.log, h.once⟩

theorem PromiseInv.posted (h : PromiseInv s) (request : Event ε) :
    PromiseInv (s.note (.posted p request)) where
  bounded := h.bounded
  owned := h.owned
  fresh := h.fresh
  claimed t q hq := ⟨(h.claimed t q hq).1,
    List.forall_mem_cons.mpr ⟨nofun, (h.claimed t q hq).2⟩⟩
  alone := h.alone
  log := List.forall_mem_cons.mpr ⟨nofun, h.log⟩
  once q := by
    show List.countP _ (.posted p request :: s.log) ≤ 1
    rw [List.countP_cons_of_neg (by simp [FutureObs.resolved])]
    exact h.once q

theorem PromiseInv.own (h : PromiseInv s) (hp : p < s.nextPromise) (a : Nat) :
    PromiseInv { s with owner := Function.update s.owner a (some p) } where
  bounded := h.bounded
  owned b q hq := by
    dsimp only at hq
    by_cases hab : b = a
    · rw [hab, Function.update_self] at hq
      cases hq
      exact hp
    · rw [Function.update_of_ne hab] at hq
      exact h.owned b q hq
  fresh := h.fresh
  claimed := h.claimed
  alone := h.alone
  log := h.log
  once := h.once

/-- A flag is up in the new value of a promise, and so it stays up. -/
theorem FutureSystem.flag_setPromise (g : Promise → Bool) {q : Nat} {x : Promise}
    (h : g (s.promises p)) (hx : p = q → g x) : g ((s.setPromise q x).promises p) := by
  by_cases hpq : p = q
  · subst hpq
    rw [setPromise_self]
    exact hx rfl
  · rwa [setPromise_of_ne hpq]

/-- A flag is up: it was before, or the new value raises it. -/
theorem FutureSystem.flag_of_setPromise (g : Promise → Bool) {q : Nat} {x : Promise}
    (h : g ((s.setPromise q x).promises p)) : g (s.promises p) ∨ p = q ∧ g x := by
  by_cases hpq : p = q
  · subst hpq
    rw [setPromise_self] at h
    exact .inr ⟨rfl, h⟩
  · rw [setPromise_of_ne hpq] at h
    exact .inl h

/-- A promise changes, and no flag is cleared. -/
theorem PromiseInv.setPromise (h : PromiseInv s) {x : Promise}
    (hp : p < s.nextPromise) (hx : ((s.promises p).completed → x.completed) ∧
      ((s.promises p).destroyed → x.destroyed)) :
    PromiseInv (s.setPromise p x) := by
  have hcompleted {q : Nat} (hq : (s.promises q).completed) :
      ((s.setPromise p x).promises q).completed :=
    FutureSystem.flag_setPromise Promise.completed hq fun hqp => hx.1 (hqp ▸ hq)
  have hdestroyed {q : Nat} (hq : (s.promises q).destroyed) :
      ((s.setPromise p x).promises q).destroyed :=
    FutureSystem.flag_setPromise Promise.destroyed hq fun hqp => hx.2 (hqp ▸ hq)
  exact
    { bounded := h.bounded
      owned := h.owned
      fresh := fun q hq => by
        rw [FutureSystem.setPromise_of_ne (Nat.ne_of_gt (hp.trans_le hq))]
        exact h.fresh q hq
      claimed := fun u q hu => ⟨hcompleted (h.claimed u q hu).1, (h.claimed u q hu).2⟩
      alone := h.alone
      log := fun o ho q hq => (h.log o ho q hq).imp hcompleted hdestroyed
      once := h.once }

/-- The call of `request_future` takes the next promise. -/
theorem PromiseInv.extend (h : PromiseInv s) (x : Promise) :
    PromiseInv { s.setPromise s.nextPromise x with
      nextPromise := s.nextPromise + 1 } := by
  have hcompleted {q : Nat} (hq : (s.promises q).completed) :
      ((s.setPromise s.nextPromise x).promises q).completed := by
    refine FutureSystem.flag_setPromise Promise.completed hq fun hqp => ?_
    rw [h.fresh q hqp.ge] at hq
    cases hq
  have hdestroyed {q : Nat} (hq : (s.promises q).destroyed) :
      ((s.setPromise s.nextPromise x).promises q).destroyed := by
    refine FutureSystem.flag_setPromise Promise.destroyed hq fun hqp => ?_
    rw [h.fresh q hqp.ge] at hq
    cases hq
  exact
    { bounded := fun u c hc => Nat.lt_succ_of_lt (h.bounded u c hc)
      owned := fun a q hq => Nat.lt_succ_of_lt (h.owned a q hq)
      fresh := fun q hq => by
        have hlt : s.nextPromise < q := hq
        show (s.setPromise s.nextPromise x).promises q = {}
        rw [FutureSystem.setPromise_of_ne (Nat.ne_of_gt hlt)]
        exact h.fresh q hlt.le
      claimed := fun u q hu => ⟨hcompleted (h.claimed u q hu).1, (h.claimed u q hu).2⟩
      alone := h.alone
      log := fun o ho q hq => (h.log o ho q hq).imp hcompleted hdestroyed
      once := h.once }

variable [DecidableEq ι]

theorem FutureSystem.bind_setCode_eq_some {c : Option (FutureCode ε)} {u : ι}
    {g : FutureCode ε → Option Nat}
    (h : ((s.setCode t c).code u).bind g = some p) :
    u = t ∧ c.bind g = some p ∨ u ≠ t ∧ (s.code u).bind g = some p := by
  by_cases hut : u = t
  · subst hut
    rw [setCode_self] at h
    exact .inl ⟨rfl, h⟩
  · rw [setCode_of_ne hut] at h
    exact .inr ⟨hut, h⟩

/-- Other code comes on top of `t`, or none. -/
theorem PromiseInv.setCode_bounded (h : PromiseInv s)
    {c : Option (FutureCode ε)} (hc : ∀ d ∈ c, d.promise < s.nextPromise) :
    ∀ u d, (s.setCode t c).code u = some d → d.promise < s.nextPromise := by
  intro u d hd
  by_cases hut : u = t
  · subst hut
    rw [FutureSystem.setCode_self] at hd
    exact hc d hd
  · rw [FutureSystem.setCode_of_ne hut] at hd
    exact h.bounded u d hd

/-- Other code comes on top of `t`, and it resolves nothing. -/
theorem PromiseInv.setCode (h : PromiseInv s) {c : Option (FutureCode ε)}
    (hc : ∀ d ∈ c, d.promise < s.nextPromise)
    (hnone : c.bind FutureCode.resolver = none) : PromiseInv (s.setCode t c) := by
  have hresolves {u : ι} {q : Nat} (hu : (s.setCode t c).resolves u q) :
      s.resolves u q := by
    rcases FutureSystem.bind_setCode_eq_some hu with ⟨-, hq⟩ | ⟨-, hq⟩
    · rw [hnone] at hq
      cases hq
    · exact hq
  exact
    { bounded := h.setCode_bounded hc
      owned := h.owned
      fresh := h.fresh
      claimed := fun u q hu => h.claimed u q (hresolves hu)
      alone := fun u v q hu hv => h.alone u v q (hresolves hu) (hresolves hv)
      log := h.log
      once := h.once }

/-- The exchange is won. -/
theorem PromiseInv.claim (h : PromiseInv s) {c : FutureCode ε}
    (hc : c.resolver = some p) (hp : p < s.nextPromise)
    (hopen : (s.promises p).completed = false)
    (hlives : (s.promises p).destroyed = false) (hpc : c.promise = p) :
    PromiseInv ((s.setPromise p { s.promises p with completed := true }).setCode t
      (some c)) := by
  have hset := h.setPromise (x := { s.promises p with completed := true }) hp
    ⟨fun _ => rfl, id⟩
  have hnone {u : ι} (hu : s.resolves u p) : False := by
    have hclosed := (h.claimed u p hu).1
    rw [hopen] at hclosed
    cases hclosed
  have hcases {u : ι} {q : Nat} (hu : ((s.setPromise p
      { s.promises p with completed := true }).setCode t (some c)).resolves u q) :
      u = t ∧ q = p ∨ q ≠ p ∧ s.resolves u q := by
    rcases FutureSystem.bind_setCode_eq_some hu with ⟨hut, hq⟩ | ⟨-, hq⟩
    · rw [Option.bind_some, hc] at hq
      cases hq
      exact .inl ⟨hut, rfl⟩
    · exact .inr ⟨fun hqp => hnone (hqp ▸ hq), hq⟩
  exact
    { bounded := hset.setCode_bounded fun d hd => by
        cases hd
        exact hpc ▸ hp
      owned := h.owned
      fresh := hset.fresh
      claimed := fun u q hu => by
        rcases hcases hu with ⟨-, rfl⟩ | ⟨-, hu⟩
        · refine ⟨?_, fun o ho hq => ?_⟩
          · show ((s.setPromise q _).promises q).completed
            rw [FutureSystem.setPromise_self]
          · have hclosed := h.log o ho q hq
            rw [hopen, hlives] at hclosed
            cases hclosed <;> contradiction
        · exact hset.claimed u q hu
      alone := fun u v q hu hv => by
        rcases hcases hu with ⟨rfl, rfl⟩ | ⟨hne, hu⟩
        · rcases hcases hv with ⟨rfl, -⟩ | ⟨hne, -⟩
          · rfl
          · exact absurd rfl hne
        · rcases hcases hv with ⟨-, rfl⟩ | ⟨-, hv⟩
          · exact absurd rfl hne
          · exact h.alone u v q hu hv
      log := hset.log
      once := h.once }

/-- The winner of the exchange resolves the promise. -/
theorem PromiseInv.resolve (h : PromiseInv s) {o : FutureObs ε}
    (ht : s.resolves t p) (ho : o.resolved = some p) :
    PromiseInv ((s.note o).setCode t none) := by
  obtain ⟨hclosed, hnone⟩ := h.claimed t p ht
  have hcases {u : ι} {q : Nat} (hu : ((s.note o).setCode t none).resolves u q) :
      q ≠ p ∧ s.resolves u q := by
    rcases FutureSystem.bind_setCode_eq_some hu with ⟨-, hq⟩ | ⟨hut, hq⟩
    · cases hq
    · exact ⟨fun hqp => hut (h.alone u t p (hqp ▸ hq) ht), hq⟩
  exact
    { bounded := h.setCode_bounded fun _ hd => nomatch hd
      owned := h.owned
      fresh := h.fresh
      claimed := fun u q hu => by
        obtain ⟨hne, hu⟩ := hcases hu
        refine ⟨(h.claimed u q hu).1, List.forall_mem_cons.mpr
          ⟨fun hq => ?_, (h.claimed u q hu).2⟩⟩
        exact hne (Option.some.inj (hq.symm.trans ho))
      alone := fun u v q hu hv => h.alone u v q (hcases hu).2 (hcases hv).2
      log := List.forall_mem_cons.mpr
        ⟨fun q hq => .inl (Option.some.inj (ho.symm.trans hq) ▸ hclosed), h.log⟩
      once := fun q => by
        show List.countP _ (o :: s.log) ≤ 1
        by_cases hqp : q = p
        · subst hqp
          have hzero : s.log.countP (fun o => o.resolved = some q) = 0 :=
            List.countP_eq_zero.mpr fun o' ho' hq =>
              hnone o' ho' (of_decide_eq_true hq)
          rw [List.countP_cons, hzero, if_pos (decide_eq_true ho)]
        · rw [List.countP_cons_of_neg]
          · exact h.once q
          · intro hq
            exact hqp (Option.some.inj ((of_decide_eq_true hq).symm.trans ho)) }

theorem PromiseInv.follow (h : PromiseInv s) (f : Frame ε) :
    PromiseInv (s.follow t f) := by
  have hlt {p : Nat} (hcode : s.code t = some (.requesting p)) :
      p < s.nextPromise := h.bounded t _ hcode
  unfold FutureSystem.follow
  split
  next p retry request hcode =>
    dsimp only
    split
    · exact h
    · exact h.setPromise (hlt hcode) ⟨id, id⟩
  next p spec guard via hcode => exact h.own (hlt hcode) _
  next p ev request hcode => exact h.posted ev
  next p e id ticket hcode =>
    refine h.setCode (fun d hd => ?_) rfl
    cases hd
    exact hlt hcode
  next a ev hcode =>
    split
    next p hp =>
      refine h.setCode (fun d hd => ?_) rfl
      cases hd
      exact h.owned a p hp
    next => exact h
  next a hcode =>
    split
    next p hp =>
      refine h.setCode (fun d hd => ?_) rfl
      cases hd
      exact h.owned a p hp
    next => exact h
  next => exact h

theorem PromiseInv.followed (h : PromiseInv s) (act : BusAction ι ε) :
    PromiseInv (s.followed act) := by
  unfold FutureSystem.followed
  split
  · split
    · exact h.follow _
    · exact h
  · exact h

theorem PromiseInv.clear (h : PromiseInv s) (t : ι) :
    PromiseInv (s.setCode t none) := h.setCode (fun _ hd => nomatch hd) rfl

variable [Fintype ι] [RequestTraits ε]

/-- A lambda ended; its frame is gone or belongs to the program now. -/
theorem FutureSystem.endTimeout_eq_some (h : s.endTimeout t p = some s') :
    ∃ bus, (bus = s.bus ∨ s.bus.step (.ret t false) = some bus) ∧
      s' = { s.setCode t none with bus := bus } := by
  unfold FutureSystem.endTimeout at h
  split at h
  · cases h
    exact ⟨s.bus, .inl rfl, rfl⟩
  · obtain ⟨bus, hbus, rfl⟩ := Option.map_eq_some_iff.mp h
    exact ⟨bus, .inr hbus, rfl⟩

theorem FutureSystem.leave_eq_some (h : s.leave t = some s') :
    ∃ bus, (bus = s.bus ∨ s.bus.step (.ret t false) = some bus) ∧
      s' = { s.setCode t none with bus := bus } := by
  obtain ⟨bus, hbus, rfl⟩ := Option.map_eq_some_iff.mp h
  exact ⟨bus, .inr hbus, rfl⟩

/-- What a step can do. -/
inductive FutureStep (s : FutureSystem ι ε) :
    FutureAction ι ε → FutureSystem ι ε → Prop
  | bus {act : BusAction ι ε} {bus : BusSystem ι ε} (hpermits : s.permits act)
      (hbus : s.bus.step act = some bus) :
      FutureStep s (.bus act) { s.followed act with bus := bus }
  | began {t : ι} {e : Nat} {ev : Event ε} {options : AwaitSpec}
      {bus : BusSystem ι ε} (hcode : s.code t = none)
      (hbus : s.bus.step (.call t (.request e ev
        { options with callback := true, onTimeout := true })) = some bus) :
      FutureStep s (.requestFuture t e ev options)
        { (s.setPromise s.nextPromise
            { endpoint := e, userOnTimeout := options.onTimeout }).setCode t
            (some (.requesting s.nextPromise)) with
          bus := bus
          nextPromise := s.nextPromise + 1 }
  | stored {t : ι} {p id : Nat} (hcode : s.code t = some (.storing p id)) :
      FutureStep s (.proceed t)
        ((s.setPromise p { s.promises p with requestId := id }).setCode t none)
  /-- A lambda wins its exchange. -/
  | won {t : ι} {c d : FutureCode ε} (hcode : s.code t = some c)
      (hwins : c.wins = some d)
      (hopen : (s.promises c.promise).completed = false) :
      FutureStep s (.proceed t) ((s.setPromise c.promise
        { s.promises c.promise with completed := true }).setCode t (some d))
  | lost {t : ι} {c d : FutureCode ε} {bus : BusSystem ι ε}
      (hcode : s.code t = some c) (hwins : c.wins = some d)
      (hclosed : (s.promises c.promise).completed)
      (hbus : bus = s.bus ∨ s.bus.step (.ret t false) = some bus) :
      FutureStep s (.proceed t) { s.setCode t none with bus := bus }
  | resolved {t : ι} {c : FutureCode ε} {o : FutureObs ε} {bus : BusSystem ι ε}
      (hcode : s.code t = some c)
      (ho : c.resolves (s.promises c.promise) = some o)
      (hbus : bus = s.bus ∨ s.bus.step (.ret t false) = some bus) :
      FutureStep s (.proceed t) { (s.note o).setCode t none with bus := bus }
  | destroyed {p : Nat} (hp : p < s.nextPromise)
      (hlives : (s.promises p).destroyed = false) (hshares : ¬ s.shares p) :
      FutureStep s (.destroy p) (s.abandon p)

theorem FutureSystem.step_cases {a : FutureAction ι ε}
    (h : FutureSystem.step s a = some s') : FutureStep s a s' := by
  cases a with
  | bus act =>
      simp only [FutureSystem.step] at h
      split at h
      next hpermits =>
        obtain ⟨bus, hbus, rfl⟩ := Option.map_eq_some_iff.mp h
        exact .bus hpermits hbus
      next => cases h
  | requestFuture t e ev options =>
      simp only [FutureSystem.step] at h
      split at h
      next hcode =>
        obtain ⟨bus, hbus, rfl⟩ := Option.map_eq_some_iff.mp h
        exact .began (Option.isNone_iff_eq_none.mp hcode) hbus
      next => cases h
  | proceed t =>
      simp only [FutureSystem.step] at h
      split at h
      next p id hcode =>
        cases h
        exact .stored hcode
      next p result hcode =>
        split at h
        next hclosed =>
          obtain ⟨bus, hbus, rfl⟩ := leave_eq_some h
          exact .lost hcode rfl hclosed hbus
        next hopen =>
          cases h
          exact .won hcode rfl (Bool.eq_false_iff.mpr hopen)
      next p result hcode =>
        obtain ⟨bus, hbus, rfl⟩ := leave_eq_some h
        exact .resolved hcode rfl hbus
      next p hcode =>
        split at h
        next hclosed =>
          obtain ⟨bus, hbus, rfl⟩ := endTimeout_eq_some h
          exact .lost hcode rfl hclosed hbus
        next hopen =>
          cases h
          exact .won hcode rfl (Bool.eq_false_iff.mpr hopen)
      next p hcode =>
        obtain ⟨bus, hbus, rfl⟩ := endTimeout_eq_some h
        exact .resolved hcode rfl hbus
      all_goals cases h
  | destroy p =>
      simp only [FutureSystem.step] at h
      split at h
      next hcond =>
        cases h
        exact .destroyed hcond.1 hcond.2.1 hcond.2.2
      next => cases h

omit [DecidableEq ι] [Fintype ι] [RequestTraits ε] in
theorem FutureCode.of_wins {c d : FutureCode ε} (h : c.wins = some d) :
    d.resolver = some c.promise ∧ d.promise = c.promise ∧ c.caller = none ∧
      d.caller = none ∧ c.resolver = none := by
  cases c <;> cases h <;> exact ⟨rfl, rfl, rfl, rfl, rfl⟩

omit [DecidableEq ι] [Fintype ι] [RequestTraits ε] in
theorem FutureCode.of_resolves {c : FutureCode ε} {x : Promise} {o : FutureObs ε}
    (h : c.resolves x = some o) : c.resolver = some c.promise ∧
      c.caller = none ∧ o.resolved = some c.promise := by
  cases c <;> cases h <;> exact ⟨rfl, rfl, rfl⟩

omit [DecidableEq ι] [Fintype ι] [RequestTraits ε] in
/-- Nobody can resolve the promise any more. -/
theorem PromiseInv.abandon (h : PromiseInv s) (hp : p < s.nextPromise)
    (hfree : ∀ t c, s.code t = some c → c.promise ≠ p) :
    PromiseInv (s.abandon p) := by
  have hset := h.setPromise (x := { s.promises p with destroyed := true }) hp
    ⟨id, fun _ => rfl⟩
  have hdestroyed : ((s.abandon p).promises p).destroyed := by
    rw [FutureSystem.abandon_promises, FutureSystem.setPromise_self]
  have hne {t : ι} {q : Nat} (ht : s.resolves t q) : q ≠ p := by
    rintro rfl
    obtain ⟨c, hc, hres⟩ := Option.bind_eq_some_iff.mp ht
    refine hfree t c hc ?_
    cases c <;> cases hres <;> rfl
  have hlog : ∀ o ∈ (s.abandon p).log, o ∈ s.log ∨ o.resolved = some p := by
    rcases FutureSystem.abandon_log (s := s) (p := p) with ⟨heq, -⟩ | ⟨heq, -⟩ <;>
      rw [heq]
    · exact fun o ho => .inl ho
    · exact List.forall_mem_cons.mpr ⟨.inr rfl, fun o ho => .inl ho⟩
  exact
    { bounded := by
        rw [FutureSystem.abandon_code, FutureSystem.abandon_nextPromise]
        exact h.bounded
      owned := by
        rw [FutureSystem.abandon_owner, FutureSystem.abandon_nextPromise]
        exact h.owned
      fresh := by
        rw [FutureSystem.abandon_promises, FutureSystem.abandon_nextPromise]
        exact hset.fresh
      claimed := fun t q ht => by
        rw [FutureSystem.resolves, FutureSystem.abandon_code] at ht
        rw [FutureSystem.abandon_promises]
        refine ⟨(hset.claimed t q ht).1, fun o ho hq => ?_⟩
        rcases hlog o ho with ho | hres
        · exact (h.claimed t q ht).2 o ho hq
        · exact hne ht (Option.some.inj (hq.symm.trans hres))
      alone := fun t u q ht hu => by
        rw [FutureSystem.resolves, FutureSystem.abandon_code] at ht hu
        exact h.alone t u q ht hu
      log := fun o ho q hq => by
        rcases hlog o ho with ho | hres
        · rw [FutureSystem.abandon_promises]
          exact hset.log o ho q hq
        · exact .inr (Option.some.inj (hres.symm.trans hq) ▸ hdestroyed)
      once := fun q => by
        rcases FutureSystem.abandon_log (s := s) (p := p) with
          ⟨heq, -⟩ | ⟨heq, hnone⟩ <;> rw [heq]
        · exact h.once q
        by_cases hqp : q = p
        · subst hqp
          have hzero : s.log.countP (fun o => o.resolved = some q) = 0 :=
            List.countP_eq_zero.mpr fun o ho hq => hnone o ho (of_decide_eq_true hq)
          have hself : (FutureObs.exceptionSet q .brokenPromise :
              FutureObs ε).resolved = some q := rfl
          rw [List.countP_cons, hzero, if_pos (decide_eq_true hself)]
        · rw [List.countP_cons_of_neg]
          · exact h.once q
          · intro hq
            exact hqp (Option.some.inj (of_decide_eq_true hq)).symm }

/-- Nothing runs that could resolve a destroyed promise. -/
def FutureSystem.Gone (s : FutureSystem ι ε) : Prop :=
  ∀ p, (s.promises p).destroyed → ∀ t c, s.code t = some c → c.promise ≠ p

theorem PromiseInv.step {a : FutureAction ι ε} (h : PromiseInv s) (hgone : s.Gone)
    (hstep : FutureSystem.step s a = some s') : PromiseInv s' := by
  cases FutureSystem.step_cases hstep with
  | bus => exact (h.followed _).withBus _
  | began hcode hbus =>
      rename_i t e ev options bus
      have hnew := (h.extend { endpoint := e, userOnTimeout := options.onTimeout }).setCode
        (t := t) (c := some (.requesting s.nextPromise))
        (fun d hd => by cases hd; exact Nat.lt_succ_self _) rfl
      exact hnew.withBus bus
  | stored hcode =>
      rename_i t p id
      have hset := h.setPromise (p := p)
        (x := { s.promises p with requestId := id }) (h.bounded t _ hcode)
        ⟨fun hq => hq, fun hq => hq⟩
      exact hset.clear t
  | won hcode hwins hopen =>
      obtain ⟨hres, hpromise, -⟩ := FutureCode.of_wins hwins
      refine h.claim hres (h.bounded _ _ hcode) hopen ?_ hpromise
      exact Bool.eq_false_of_not_eq_true fun hdead => hgone _ hdead _ _ hcode rfl
  | lost => exact (h.clear _).withBus _
  | resolved hcode ho hbus =>
      obtain ⟨hres, -, hobs⟩ := FutureCode.of_resolves ho
      refine (h.resolve ?_ hobs).withBus _
      rw [FutureSystem.resolves, hcode]
      exact hres
  | destroyed hp hlives hshares =>
      exact h.abandon hp fun t c hc heq =>
        hshares (.inl ⟨t, by rw [hc, ← heq]; rfl⟩)

end Once

/-! ## The right id -/

section Ids

/-- A frame of `request` above its `post`, on the way to the awaiter. -/
def Frame.prepares (id : Nat) : Frame ε → Bool
  | .makeAwaiter _ spec | .createAwaiter spec _ _ =>
      spec.predicate = .requestId id && spec.onTimeout
  | .addCallback .. | .subscribeAwaiter _ | .storeSubscriptionId ..
  | .registerAwaiter _ | .keepHandle .. => true
  | _ => false

/-- The stack of a thread inside a `request` that drew `drawn`; it has made its
awaiter, or a frame will. -/
inductive Requesting [RequestTraits ε] (drawn : Option Nat) (made posted : Prop) :
    List (Frame ε) → Prop
  | drawing (retry : Bool) (request : RequestCall ε) (rest : List (Frame ε))
      (hdrawn : drawn = none) (hspec : request.spec.onTimeout) :
      Requesting drawn made posted (.nextRequestId retry (some request) :: rest)
  | preparing (fs : List (Frame ε)) (ev : Event ε) (e id : Nat)
      (rest : List (Frame ε)) (hdrawn : drawn = some id) (hev : ev.getId = id)
      (hfs : ∀ g ∈ fs, g.prepares id) (hmade : made ∨ ∃ g ∈ fs, g.makes id) :
      Requesting drawn made posted (fs ++ .enqueue ev (some (e, id)) :: rest)
  | notifying (e id ticket : Nat) (rest : List (Frame ε))
      (hdrawn : drawn = some id) (hmade : made) (hposted : posted) :
      Requesting drawn made posted
        (.notifyWorkAvailable :: .requestReturn e id ticket :: rest)
  | returning (e id ticket : Nat) (rest : List (Frame ε))
      (hdrawn : drawn = some id) (hmade : made) (hposted : posted) :
      Requesting drawn made posted (.requestReturn e id ticket :: rest)

variable [RequestTraits ε]

/-- The promise has an awaiter. -/
def FutureSystem.Made (s : FutureSystem ι ε) (p : Nat) : Prop :=
  ∃ a, s.owner a = some p

/-- What the code on top of `t` knows. -/
def FutureSystem.Knows (s : FutureSystem ι ε) (t : ι) : FutureCode ε → Prop
  | .requesting p =>
      Requesting (s.promises p).drawn (s.Made p) (s.Posted p) (s.bus.frames t)
  | .storing p id =>
      (s.promises p).drawn = some id ∧ s.Made p ∧ s.Posted p
  | .completing p result | .settingValue p result =>
      (s.promises p).drawn = some result.getId
  | .expiring _ | .settingException _ => True

/-- What is observed of a promise. A `RequestTimeoutError` tells something where
the id was stored in time; `timely` says of which promises that is known. -/
def FutureObs.Told (timely : Nat → Prop) (s : FutureSystem ι ε) :
    FutureObs ε → Prop
  | .posted p request => (s.promises p).drawn = some request.getId
  | .valueSet p result => (s.promises p).drawn = some result.getId
  | .exceptionSet p (.requestTimeout id) =>
      timely p → (s.promises p).drawn = some id ∧ s.Posted p
  | .exceptionSet _ .brokenPromise => True

/-- The awaiter of a promise waits for the id that was drawn. -/
def FutureSystem.Awaits (s : FutureSystem ι ε) (a p : Nat) : Prop :=
  a < s.bus.world.nextAwaiter ∧ ∃ id, (s.promises p).drawn = some id ∧
    (s.bus.world.terms a).predicate = .requestId id

structure FutureInv (timely : Nat → Prop) (s : FutureSystem ι ε) : Prop where
  code : ∀ t c, s.code t = some c → s.Knows t c
  apart : ∀ t u p, s.calls t p → s.calls u p → t = u
  awaits : ∀ a p, s.owner a = some p → s.Awaits a p
  done : ∀ p < s.nextPromise, (∀ t, ¬ s.calls t p) →
    (s.promises p).drawn = some (s.promises p).requestId ∧ s.Made p ∧ s.Posted p
  valid : ∀ p, timely p → (s.promises p).drawn ≠ some invalidRequestId
  told : ∀ o ∈ s.log, o.Told timely s

/-- What stays. -/
structure FutureGrows (s s' : FutureSystem ι ε) : Prop where
  drawn : ∀ p id, (s.promises p).drawn = some id → (s'.promises p).drawn = some id
  made : ∀ p, s.Made p → s'.Made p
  log : ∀ o ∈ s.log, o ∈ s'.log
  bus : RequestGrows s.bus.world s'.bus.world

variable {s s' : FutureSystem ι ε} {t : ι} {timely : Nat → Prop}

omit [RequestTraits ε] in
theorem FutureSystem.Posted.grow {p : Nat} (h : s.Posted p)
    (hgrows : FutureGrows s s') : s'.Posted p := by
  obtain ⟨request, hmem⟩ := h
  exact ⟨request, hgrows.log _ hmem⟩

theorem FutureObs.Told.grow {o : FutureObs ε} (h : o.Told timely s)
    (hgrows : FutureGrows s s') : o.Told timely s' := by
  cases o with
  | posted | valueSet => exact hgrows.drawn _ _ h
  | exceptionSet p error =>
      cases error with
      | requestTimeout id =>
          exact fun hp => ⟨hgrows.drawn _ _ (h hp).1, (h hp).2.grow hgrows⟩
      | brokenPromise => trivial

omit [RequestTraits ε] in
theorem FutureSystem.Awaits.grow {a p : Nat} (h : s.Awaits a p)
    (hgrows : FutureGrows s s') : s'.Awaits a p := by
  obtain ⟨ha, id, hid, hterms⟩ := h
  refine ⟨ha.trans_le hgrows.bus.nextAwaiter, id, hgrows.drawn p id hid, ?_⟩
  rw [hgrows.bus.terms a ha]
  exact hterms

theorem Requesting.grow {drawn : Option Nat} {made made' posted posted' : Prop}
    {fs : List (Frame ε)} (h : Requesting drawn made posted fs) (hm : made → made')
    (hp : posted → posted') : Requesting drawn made' posted' fs := by
  cases h with
  | drawing retry request rest hdrawn hspec =>
      exact .drawing retry request rest hdrawn hspec
  | preparing fs ev e id rest hdrawn hev hfs hmade =>
      exact .preparing fs ev e id rest hdrawn hev hfs (hmade.imp_left hm)
  | notifying e id ticket rest hdrawn hmade hposted =>
      exact .notifying e id ticket rest hdrawn (hm hmade) (hp hposted)
  | returning e id ticket rest hdrawn hmade hposted =>
      exact .returning e id ticket rest hdrawn (hm hmade) (hp hposted)

/-- The code of another thread knows what it knew: the promise of a call is
changed by nobody else. -/
theorem FutureSystem.Knows.grow {c : FutureCode ε} (h : s.Knows t c)
    (hgrows : FutureGrows s s') (hframes : s'.bus.frames t = s.bus.frames t)
    (hdrawn : ∀ p, c.caller = some p →
      (s'.promises p).drawn = (s.promises p).drawn) : s'.Knows t c := by
  cases c with
  | requesting p =>
      show Requesting _ _ _ (s'.bus.frames t)
      rw [hframes, hdrawn p rfl]
      exact Requesting.grow h (hgrows.made p)
        fun hp => FutureSystem.Posted.grow hp hgrows
  | storing p id =>
      exact ⟨hgrows.drawn _ _ h.1, hgrows.made _ h.2.1, h.2.2.grow hgrows⟩
  | completing | settingValue => exact hgrows.drawn _ _ h
  | expiring | settingException => trivial

/-- A step of one thread `t`. What it does not say is left as it was. -/
structure FutureMove (timely : Nat → Prop) (s s' : FutureSystem ι ε) (t : ι) :
    Prop where
  grows : FutureGrows s s'
  next : s.nextPromise ≤ s'.nextPromise
  frames : ∀ u ≠ t, s'.bus.frames u = s.bus.frames u
  code : ∀ u ≠ t, s'.code u = s.code u
  top : ∀ c, s'.code t = some c → s'.Knows t c
  calls : ∀ p, s'.calls t p → s.calls t p ∨ s.nextPromise ≤ p
  promise : ∀ p < s.nextPromise, ¬ s.calls t p →
    (s'.promises p).drawn = (s.promises p).drawn ∧
      (s'.promises p).requestId = (s.promises p).requestId
  valid : ∀ p, timely p → (s'.promises p).drawn = some invalidRequestId →
    (s.promises p).drawn = some invalidRequestId
  begun : ∀ p, s.nextPromise ≤ p → p < s'.nextPromise → s'.calls t p
  done : ∀ p, s.calls t p → ¬ s'.calls t p →
    (s'.promises p).drawn = some (s'.promises p).requestId ∧ s'.Made p ∧ s'.Posted p
  awaits : ∀ a p, s'.owner a = some p → s.owner a = some p ∨ s'.Awaits a p
  told : ∀ o ∈ s'.log, o ∈ s.log ∨ o.Told timely s'

omit [RequestTraits ε] in
theorem FutureSystem.calls_lt {p : Nat} (h : PromiseInv s) (ht : s.calls t p) :
    p < s.nextPromise := by
  obtain ⟨c, hc, hp⟩ := Option.bind_eq_some_iff.mp ht
  have hlt := h.bounded t c hc
  cases c <;> cases hp <;> exact hlt

omit [RequestTraits ε] in
theorem FutureSystem.calls_congr {u : ι} {p : Nat} (h : s'.code u = s.code u) :
    s'.calls u p ↔ s.calls u p := by
  rw [FutureSystem.calls, FutureSystem.calls, h]

theorem FutureInv.move (h : FutureInv timely s) (hp : PromiseInv s)
    (hmove : FutureMove timely s s' t) : FutureInv timely s' where
  code u c hc := by
    by_cases hu : u = t
    · subst hu
      exact hmove.top c hc
    · rw [hmove.code u hu] at hc
      refine (h.code u c hc).grow hmove.grows (hmove.frames u hu) fun p hcaller => ?_
      have hcalls : s.calls u p := by
        rw [FutureSystem.calls, hc]
        exact hcaller
      exact (hmove.promise p (FutureSystem.calls_lt hp hcalls) fun ht =>
        hu (h.apart u t p hcalls ht)).1
  apart u v p hu hv := by
    have hother {x : ι} (hx : x ≠ t) (hcalls : s'.calls x p) : s.calls x p :=
      (FutureSystem.calls_congr (hmove.code x hx)).mp hcalls
    have hmine {x : ι} (hx : x ≠ t) (hcalls : s'.calls x p) (ht : s'.calls t p) :
        False := by
      rcases hmove.calls p ht with ht | hle
      · exact hx (h.apart x t p (hother hx hcalls) ht)
      · exact Nat.not_lt.mpr hle (FutureSystem.calls_lt hp (hother hx hcalls))
    by_cases hut : u = t
    · by_cases hvt : v = t
      · exact hut.trans hvt.symm
      · exact (hmine hvt hv (hut ▸ hu)).elim
    · by_cases hvt : v = t
      · exact (hmine hut hu (hvt ▸ hv)).elim
      · exact h.apart u v p (hother hut hu) (hother hvt hv)
  awaits a p hown := by
    rcases hmove.awaits a p hown with hown | hawaits
    · exact (h.awaits a p hown).grow hmove.grows
    · exact hawaits
  done p hlt hnone := by
    by_cases ht : s.calls t p
    · exact hmove.done p ht (hnone t)
    by_cases hnew : s.nextPromise ≤ p
    · exact absurd (hmove.begun p hnew hlt) (hnone t)
    have hlt := Nat.lt_of_not_le hnew
    obtain ⟨hdrawn, hid⟩ := hmove.promise p hlt ht
    obtain ⟨hover, hmade, hposted⟩ := h.done p hlt fun u hu => by
      by_cases hut : u = t
      · exact ht (hut ▸ hu)
      · exact hnone u ((FutureSystem.calls_congr (hmove.code u hut)).mpr hu)
    rw [hdrawn, hid]
    exact ⟨hover, hmove.grows.made p hmade, hposted.grow hmove.grows⟩
  valid p hp hzero := h.valid p hp (hmove.valid p hp hzero)
  told o ho := by
    rcases hmove.told o ho with ho | htold
    · exact (h.told o ho).grow hmove.grows
    · exact htold

/-- The step leaves the ids of the promises alone. -/
theorem FutureMove.same
    (hpromises : ∀ p, (s'.promises p).drawn = (s.promises p).drawn ∧
      (s'.promises p).requestId = (s.promises p).requestId)
    (hnext : s'.nextPromise = s.nextPromise)
    (hbus : RequestGrows s.bus.world s'.bus.world)
    (hframes : ∀ u ≠ t, s'.bus.frames u = s.bus.frames u)
    (hcode : ∀ u ≠ t, s'.code u = s.code u)
    (hcalls : ∀ p, s'.calls t p ↔ s.calls t p)
    (htop : ∀ c, s'.code t = some c → s'.Knows t c)
    (hmade : ∀ p, s.Made p → s'.Made p)
    (hawaits : ∀ a p, s'.owner a = some p → s.owner a = some p ∨ s'.Awaits a p)
    (hlog : s'.log = s.log ∨
      ∃ o : FutureObs ε, s'.log = o :: s.log ∧ o.Told timely s') :
    FutureMove timely s s' t where
  grows :=
    { drawn := fun p id hid => (hpromises p).1.trans hid
      made := hmade
      log := fun o ho => by
        rcases hlog with heq | ⟨o', heq, -⟩ <;> rw [heq]
        · exact ho
        · exact List.mem_cons_of_mem _ ho
      bus := hbus }
  next := hnext.ge
  frames := hframes
  code := hcode
  top := htop
  calls p hp := .inl ((hcalls p).mp hp)
  promise p _ _ := hpromises p
  valid p _ hzero := (hpromises p).1.symm.trans hzero
  begun p hle hlt := absurd (hnext ▸ hlt) (Nat.not_lt.mpr hle)
  done p hp hnone := absurd ((hcalls p).mpr hp) hnone
  awaits := hawaits
  told o ho := by
    rcases hlog with heq | ⟨o', heq, htold⟩ <;> rw [heq] at ho
    · exact .inl ho
    · rcases List.mem_cons.mp ho with rfl | ho
      · exact .inr htold
      · exact .inl ho

/-! ### Inside `request` -/

theorem advance_prepares {alive : Guard → Bool} {w : World ε} {result : Bool}
    {f : Frame ε} {o : Outcome ε} {id : Nat} (hf : f.prepares id)
    (h : advance alive w result f = some o) : ∀ g ∈ o.frames, g.prepares id := by
  cases f with
  | makeAwaiter e spec =>
      cases h
      exact List.forall_mem_singleton.mpr hf
  | createAwaiter spec guard via =>
      cases h
      cases via with
      | none =>
          exact List.forall_mem_cons.mpr ⟨rfl, List.forall_mem_singleton.mpr rfl⟩
      | some e =>
          exact List.forall_mem_cons.mpr ⟨rfl, List.forall_mem_cons.mpr
            ⟨rfl, List.forall_mem_singleton.mpr rfl⟩⟩
  | subscribeAwaiter a =>
      cases h
      exact List.forall_mem_cons.mpr ⟨rfl, List.forall_mem_singleton.mpr rfl⟩
  | addCallback | storeSubscriptionId | registerAwaiter | keepHandle =>
      cases h
      exact fun _ hg => nomatch hg
  | _ => cases hf

theorem FutureInv.init : FutureInv timely ({} : FutureSystem ι ε) where
  code _ _ h := nomatch h
  apart _ _ _ h := nomatch h
  awaits _ _ h := nomatch h
  done _ h := absurd h (Nat.not_lt_zero _)
  valid _ _ h := nomatch h
  told _ h := nomatch h

/-- The clock is no concern of a promise. -/
theorem FutureInv.tick (h : FutureInv timely s) (delta : Nat) :
    FutureInv timely { s with bus := { s.bus with
      world := { s.bus.world with now := s.bus.world.now + delta } } } := by
  have hgrows : FutureGrows s { s with bus := { s.bus with
      world := { s.bus.world with now := s.bus.world.now + delta } } } :=
    ⟨fun _ _ hid => hid, fun _ hp => hp, fun _ ho => ho,
      ⟨Nat.le_refl _, fun _ _ => rfl, fun _ ho => ho⟩⟩
  exact
    { code := fun u c hc => (h.code u c hc).grow hgrows rfl fun _ _ => rfl
      apart := h.apart
      awaits := fun a p hp => (h.awaits a p hp).grow hgrows
      done := h.done
      valid := h.valid
      told := fun o ho => (h.told o ho).grow hgrows }

/-- Nothing in `request` throws. -/
theorem Requesting.unwind_eq_none {drawn : Option Nat} {made posted : Prop}
    {f : Frame ε} {rest : List (Frame ε)}
    (h : Requesting drawn made posted (f :: rest))
    (w : World ε) : unwind w f = none := by
  generalize hstack : f :: rest = stack at h
  cases h with
  | preparing fs ev e id rest hdrawn hev hfs hmade =>
      cases fs with
      | nil =>
          cases hstack
          rfl
      | cons g fs =>
          cases hstack
          have hg := hfs f List.mem_cons_self
          cases f <;> first
            | rfl
            | cases hg
  | drawing | notifying | returning =>
      cases hstack
      rfl

variable [DecidableEq ι] {f : Frame ε} {rest : List (Frame ε)}
  {o : Outcome ε} {p : Nat}

omit [RequestTraits ε] in
theorem FutureSystem.put_frames (hframes : s.bus.frames t = f :: rest) :
    (s.bus.put t o).frames t = o.frames ++ rest := by
  show Threads.replaceTop s.bus.frames t o.frames t = o.frames ++ rest
  rw [Threads.replaceTop_self, hframes, List.tail_cons]

omit [RequestTraits ε] in
theorem FutureSystem.put_frames_of_ne {u : ι} (hu : u ≠ t) :
    (s.bus.put t o).frames u = s.bus.frames u := Threads.replaceTop_of_ne hu

/-- Other code comes on top of `t`; its call, if it is in one, is the same. -/
theorem FutureMove.recode {s₁ : FutureSystem ι ε} {bus : BusSystem ι ε}
    {c : Option (FutureCode ε)}
    (hpromises : ∀ p, (s₁.promises p).drawn = (s.promises p).drawn ∧
      (s₁.promises p).requestId = (s.promises p).requestId)
    (hnext : s₁.nextPromise = s.nextPromise) (howner : s₁.owner = s.owner)
    (hcode : s₁.code = s.code)
    (hlog : s₁.log = s.log ∨
      ∃ o : FutureObs ε, s₁.log = o :: s.log ∧ o.Told timely s₁)
    (hgrows : RequestGrows s.bus.world bus.world)
    (hframes : ∀ u ≠ t, bus.frames u = s.bus.frames u)
    (hc : c.bind FutureCode.caller = (s.code t).bind FutureCode.caller)
    (hknows : ∀ d ∈ c, FutureSystem.Knows { s₁.setCode t c with bus := bus } t d) :
    FutureMove timely s { s₁.setCode t c with bus := bus } t := by
  refine .same hpromises hnext hgrows hframes
    (fun u hu => (FutureSystem.setCode_of_ne hu).trans (congrFun hcode u))
    (fun q => ?_) (fun d hd => ?_)
    (fun q ⟨a, ha⟩ => ⟨a, (congrFun howner a).trans ha⟩) (fun a q hq => .inl ?_) ?_
  · show ((s₁.setCode t c).code t).bind _ = some q ↔ _
    rw [FutureSystem.setCode_self, hc]
    rfl
  · exact hknows d (FutureSystem.setCode_self.symm.trans hd)
  · exact (congrFun howner a).symm.trans hq
  · rcases hlog with heq | ⟨o, heq, htold⟩
    · exact .inl heq
    · refine .inr ⟨o, heq, ?_⟩
      cases o with
      | posted | valueSet => exact htold
      | exceptionSet p error => cases error <;> exact htold

/-- The call goes on in `request`, and `request_future` takes no notice. -/
theorem FutureMove.going (hcode : s.code t = some (.requesting p))
    (hgrows : RequestGrows s.bus.world o.world)
    (hframes : s.bus.frames t = f :: rest)
    (hreq : Requesting (s.promises p).drawn (s.Made p) (s.Posted p)
      (o.frames ++ rest)) :
    FutureMove timely s { s with bus := s.bus.put t o } t :=
  .same (fun _ => ⟨rfl, rfl⟩) rfl hgrows
    (fun _ hu => FutureSystem.put_frames_of_ne hu) (fun _ _ => rfl)
    (fun _ => Iff.rfl)
    (fun c hc => by
      obtain rfl : .requesting p = c := Option.some.inj (hcode.symm.trans hc)
      show Requesting _ (s.Made p) (s.Posted p) ((s.bus.put t o).frames t)
      rwa [FutureSystem.put_frames hframes])
    (fun _ => id) (fun _ _ => .inl) (.inl rfl)

theorem FutureMove.drew {retry : Bool} {request : RequestCall ε}
    (hcode : s.code t = some (.requesting p))
    (hgrows : RequestGrows s.bus.world o.world)
    (hframes : s.bus.frames t = .nextRequestId retry (some request) :: rest)
    (hdrawn : (s.promises p).drawn = none) (hspec : request.spec.onTimeout)
    (hid : timely p → s.bus.world.requestIds.next ≠ invalidRequestId)
    (ho : o.frames = requestFrames (some request) s.bus.world.requestIds.next) :
    FutureMove timely s { s.setPromise p { s.promises p with
      drawn := some s.bus.world.requestIds.next } with bus := s.bus.put t o } t where
  grows :=
    { drawn := fun q id hq => by
        have hqp : q ≠ p := fun hqp => by
          rw [hqp, hdrawn] at hq
          cases hq
        show ((s.setPromise p _).promises q).drawn = some id
        rwa [FutureSystem.setPromise_of_ne hqp]
      made := fun _ hq => hq
      log := fun _ ho => ho
      bus := hgrows }
  next := Nat.le_refl _
  frames _ hu := FutureSystem.put_frames_of_ne hu
  code _ _ := rfl
  top c hc := by
    obtain rfl : .requesting p = c := Option.some.inj (hcode.symm.trans hc)
    show Requesting ((s.setPromise p _).promises p).drawn _ _ ((s.bus.put t o).frames t)
    rw [FutureSystem.setPromise_self, FutureSystem.put_frames hframes, ho]
    refine .preparing [.makeAwaiter request.endpoint _] _ _ _ _ rfl
      (Event.getId_setId ..) (List.forall_mem_singleton.mpr ?_)
      (.inr ⟨_, List.mem_cons_self, decide_eq_true rfl⟩)
    exact Bool.and_eq_true_iff.mpr ⟨decide_eq_true rfl, hspec⟩
  calls q hq := .inl hq
  promise q _ hq := by
    have hqp : q ≠ p := fun hqp => hq (by
      rw [FutureSystem.calls, hcode, hqp]
      rfl)
    show ((s.setPromise p _).promises q).drawn = _ ∧
      ((s.setPromise p _).promises q).requestId = _
    rw [FutureSystem.setPromise_of_ne hqp]
    exact ⟨rfl, rfl⟩
  valid q hq hzero := by
    by_cases hqp : q = p
    · have hzero : ((s.setPromise p _).promises q).drawn = some invalidRequestId := hzero
      rw [hqp, FutureSystem.setPromise_self] at hzero
      exact absurd (Option.some.inj hzero) (hid (hqp ▸ hq))
    · have hzero : ((s.setPromise p _).promises q).drawn = some invalidRequestId := hzero
      rwa [FutureSystem.setPromise_of_ne hqp] at hzero
  begun q hle hlt := absurd hlt (Nat.not_lt.mpr hle)
  done q hq hnone := absurd hq hnone
  awaits _ _ := .inl
  told _ := .inl

/-- The awaiter is created. -/
theorem FutureMove.created {spec : AwaitSpec} {guard guard' : Option (Option Guard)}
    {via via' : Option Nat} {id : Nat} (hcode : s.code t = some (.requesting p))
    (hgrows : RequestGrows s.bus.world o.world)
    (hframes : s.bus.frames t = .createAwaiter spec guard via :: rest)
    (hdrawn : (s.promises p).drawn = some id) (hspec : spec.predicate = .requestId id)
    (ho : o.world = s.bus.world.createAwaiter spec guard' via')
    (hfresh : s.owner s.bus.world.nextAwaiter = none)
    (hreq : Requesting (s.promises p).drawn True (s.Posted p) (o.frames ++ rest)) :
    FutureMove timely s { s with
      owner := Function.update s.owner s.bus.world.nextAwaiter (some p)
      bus := s.bus.put t o } t := by
  refine .same (fun _ => ⟨rfl, rfl⟩) rfl hgrows
    (fun _ hu => FutureSystem.put_frames_of_ne hu) (fun _ _ => rfl)
    (fun _ => Iff.rfl) (fun c hc => ?_) (fun q ⟨a, ha⟩ => ?_) (fun a q hq => ?_)
    (.inl rfl)
  · obtain rfl : .requesting p = c := Option.some.inj (hcode.symm.trans hc)
    show Requesting _ _ (s.Posted p) ((s.bus.put t o).frames t)
    rw [FutureSystem.put_frames hframes]
    exact hreq.grow (fun _ => ⟨_, Function.update_self ..⟩) fun hp => hp
  · refine ⟨a, (Function.update_of_ne (fun hnew => ?_) ..).trans ha⟩
    rw [hnew, hfresh] at ha
    cases ha
  · dsimp only at hq
    by_cases ha : a = s.bus.world.nextAwaiter
    · subst ha
      rw [Function.update_self] at hq
      cases hq
      refine .inr ⟨?_, id, hdrawn, ?_⟩
      · show s.bus.world.nextAwaiter < o.world.nextAwaiter
        rw [ho]
        exact Nat.lt_succ_self _
      · show (o.world.terms s.bus.world.nextAwaiter).predicate = _
        rw [ho, createAwaiter_terms_self]
        exact hspec
    · rw [Function.update_of_ne ha] at hq
      exact .inl hq

/-- `request_future` stores the id. -/
theorem FutureMove.stored {id : Nat} (hcode : s.code t = some (.storing p id))
    (hdrawn : (s.promises p).drawn = some id) (hmade : s.Made p)
    (hposted : s.Posted p) :
    FutureMove timely s
      ((s.setPromise p { s.promises p with requestId := id }).setCode t none) t := by
  have hsame {q : Nat} : ((s.setPromise p
      { s.promises p with requestId := id }).promises q).drawn =
        (s.promises q).drawn := by
    by_cases hqp : q = p
    · subst hqp
      rw [FutureSystem.setPromise_self]
    · rw [FutureSystem.setPromise_of_ne hqp]
  have hcalls {q : Nat} : s.calls t q ↔ p = q := by
    rw [FutureSystem.calls, hcode]
    exact Option.some_inj
  exact
    { grows :=
        { drawn := fun q _ hq => hsame.trans hq
          made := fun _ hq => hq
          log := fun _ ho => ho
          bus := .of_still .refl }
      next := Nat.le_refl _
      frames := fun _ _ => rfl
      code := fun _ hu => FutureSystem.setCode_of_ne hu
      top := fun c hc => nomatch FutureSystem.setCode_self.symm.trans hc
      calls := fun q hq => by
        rw [FutureSystem.calls, FutureSystem.setCode_self] at hq
        cases hq
      promise := fun q _ hq => ⟨hsame, congrArg Promise.requestId
        (FutureSystem.setPromise_of_ne fun hqp => hq (hcalls.mpr hqp.symm))⟩
      valid := fun q _ hzero => hsame.symm.trans hzero
      begun := fun q hle hlt => absurd hlt (Nat.not_lt.mpr hle)
      done := fun q hq _ => by
        obtain rfl := hcalls.mp hq
        refine ⟨hsame.trans ?_, hmade, hposted⟩
        show _ = some ((s.setPromise p _).promises p).requestId
        rw [FutureSystem.setPromise_self]
        exact hdrawn
      awaits := fun _ _ => .inl
      told := fun _ => .inl }

/-- The exchange is won; the ids stay. -/
theorem FutureMove.claimed {c : FutureCode ε} (hc : c.caller = none)
    (hcode : (s.code t).bind FutureCode.caller = none)
    (hknows : (s.setPromise p { s.promises p with completed := true }).Knows t c) :
    FutureMove timely s
      ((s.setPromise p { s.promises p with completed := true }).setCode t (some c))
      t := by
  have hpromises (q : Nat) : ((s.setPromise p
      { s.promises p with completed := true }).promises q).drawn =
        (s.promises q).drawn ∧
      ((s.setPromise p { s.promises p with completed := true }).promises q).requestId =
        (s.promises q).requestId := by
    by_cases hqp : q = p
    · subst hqp
      rw [FutureSystem.setPromise_self]
      exact ⟨rfl, rfl⟩
    · rw [FutureSystem.setPromise_of_ne hqp]
      exact ⟨rfl, rfl⟩
  have hframes : ∀ u ≠ t, s.bus.frames u = s.bus.frames u := fun _ _ => rfl
  refine .recode hpromises rfl rfl rfl (.inl rfl) (.of_still .refl) hframes
    (hc.trans hcode.symm) fun d hd => ?_
  cases hd
  cases c with
  | requesting | storing => cases hc
  | completing | settingValue => exact hknows
  | expiring | settingException => trivial

variable [Fintype ι]

/-- A step of a thread inside `request`. -/
theorem FutureInv.asked {result : Bool} (h : FutureInv timely s)
    (hcode : s.code t = some (.requesting p))
    (hcond : ∀ q, timely q → StoredInTime q s (.bus (.advance t)))
    (hgrows : RequestGrows s.bus.world o.world)
    (hframes : s.bus.frames t = f :: rest)
    (ho : advance s.bus.alive s.bus.world result f = some o) :
    FutureMove timely s { s.follow t f with bus := s.bus.put t o } t := by
  have hreq : Requesting (s.promises p).drawn (s.Made p) (s.Posted p)
      (s.bus.frames t) := h.code t _ hcode
  rw [hframes] at hreq
  generalize hstack : f :: rest = stack at hreq
  cases hreq with
  | drawing retry request rest' hdrawn hspec =>
      cases hstack
      simp only [advance] at ho
      split at ho <;> cases ho
      · next hzero =>
          have hfollow : s.follow t (.nextRequestId retry (some request)) = s := by
            simp only [FutureSystem.follow, hcode]
            exact if_pos hzero
          rw [hfollow]
          exact .going hcode hgrows hframes (.drawing true request rest hdrawn hspec)
      · next hzero =>
          have hfollow : s.follow t (.nextRequestId retry (some request)) =
              s.setPromise p { s.promises p with
                drawn := some s.bus.world.requestIds.next } := by
            simp only [FutureSystem.follow, hcode]
            exact if_neg hzero
          rw [hfollow]
          refine .drew hcode hgrows hframes hdrawn hspec (fun hp hinvalid => ?_) rfl
          cases retry with
          | false => exact hzero ⟨hinvalid, rfl⟩
          | true =>
              have hstored := hcond p hp hcode
              rw [hframes] at hstored
              exact hstored hinvalid
  | preparing fs ev e id rest' hdrawn hev hfs hmade =>
      cases fs with
      | nil =>
          cases hstack
          cases ho
          have hfollow : s.follow t (.enqueue ev (some (e, id))) =
              s.note (.posted p ev) := by
            simp only [FutureSystem.follow, hcode]
          rw [hfollow]
          refine .same (fun _ => ⟨rfl, rfl⟩) rfl hgrows
            (fun _ hu => FutureSystem.put_frames_of_ne hu) (fun _ _ => rfl)
            (fun _ => Iff.rfl) (fun c hc => ?_) (fun _ hq => hq) (fun _ _ => .inl)
            (.inr ⟨_, rfl, hdrawn.trans (congrArg some hev.symm)⟩)
          obtain rfl : .requesting p = c := Option.some.inj (hcode.symm.trans hc)
          show Requesting _ (s.Made p)
            (FutureSystem.Posted (s.note (.posted p ev)) p) ((s.bus.put t _).frames t)
          rw [FutureSystem.put_frames hframes]
          have hmade : s.Made p := hmade.resolve_right (by simp)
          exact .notifying e id _ rest hdrawn hmade ⟨ev, List.mem_cons_self⟩
      | cons g fs =>
          cases hstack
          obtain ⟨hg, hfs⟩ := List.forall_mem_cons.mp hfs
          have hreq {made : Prop} (hmade : made ∨ ∃ g ∈ o.frames ++ fs, g.makes id) :
              Requesting (s.promises p).drawn made (s.Posted p)
                (o.frames ++ (fs ++ .enqueue ev (some (e, id)) :: rest')) := by
            rw [← List.append_assoc]
            exact .preparing _ ev e id rest' hdrawn hev
              (List.forall_mem_append.mpr ⟨advance_prepares hg ho, hfs⟩) hmade
          have hmakes (hf : f.makes id → ∃ g ∈ o.frames, g.makes id) :
              s.Made p ∨ ∃ g ∈ o.frames ++ fs, g.makes id := by
            refine hmade.imp_right ?_
            rintro ⟨g, hg, hmakes⟩
            rcases List.mem_cons.mp hg with rfl | hg
            · obtain ⟨g', hg', hmakes⟩ := hf hmakes
              exact ⟨g', List.mem_append_left _ hg', hmakes⟩
            · exact ⟨g, List.mem_append_right _ hg, hmakes⟩
          cases f with
          | createAwaiter spec guard via =>
              have hfollow : s.follow t (.createAwaiter spec guard via) =
                  { s with owner :=
                      Function.update s.owner s.bus.world.nextAwaiter (some p) } := by
                simp only [FutureSystem.follow, hcode]
              rw [hfollow]
              refine .created hcode hgrows hframes hdrawn
                (of_decide_eq_true (Bool.and_eq_true_iff.mp hg).1) (by cases ho; rfl)
                ?_ (hreq (.inl trivial))
              refine Option.eq_none_iff_forall_ne_some.mpr fun q hq => ?_
              exact Nat.lt_irrefl _ (h.awaits _ q hq).1
          | makeAwaiter e spec =>
              simp only [FutureSystem.follow, hcode]
              refine .going hcode hgrows hframes (hreq (hmakes fun hspec => ?_))
              cases ho
              exact ⟨_, List.mem_cons_self, hspec⟩
          | addCallback | subscribeAwaiter | storeSubscriptionId
          | registerAwaiter | keepHandle =>
              simp only [FutureSystem.follow, hcode]
              exact .going hcode hgrows hframes (hreq (hmakes fun hf => by cases hf))
          | _ => cases hg
  | notifying e id ticket rest' hdrawn hmade hposted =>
      cases hstack
      have hfollow : s.follow t .notifyWorkAvailable = s := by
        simp only [FutureSystem.follow, hcode]
      rw [hfollow]
      have hnil : o.frames = [] := by
        simp only [advance] at ho
        split at ho <;> cases ho <;> rfl
      refine .going hcode hgrows hframes ?_
      rw [hnil]
      exact .returning e id ticket rest' hdrawn hmade hposted
  | returning e id ticket rest' hdrawn hmade hposted =>
      cases hstack
      cases ho
      have hfollow : s.follow t (.requestReturn e id ticket) =
          s.setCode t (some (.storing p id)) := by
        simp only [FutureSystem.follow, hcode]
      rw [hfollow]
      refine .recode (fun _ => ⟨rfl, rfl⟩) rfl rfl rfl (.inl rfl) hgrows
        (fun _ hu => FutureSystem.put_frames_of_ne hu) (by rw [hcode]; rfl)
        fun c hc => ?_
      cases hc
      exact ⟨hdrawn, hmade, hposted⟩

/-! ### The other steps -/

/-- The thread that moves. -/
def BusAction.thread : BusAction ι ε → Option ι
  | .advance t | .call t _ | .ret t _ | .throw t | .catch t => some t
  | .tick _ => none

theorem BusSystem.step_local {b b' : BusSystem ι ε} {act : BusAction ι ε}
    (hstep : b.step act = some b') (hown : OwnPredicates act) :
    RequestGrows b.world b'.world ∧
      ∀ u, act.thread ≠ some u → b'.frames u = b.frames u := by
  rcases BusSystem.step_cases hstep with
    ⟨delta, rfl, rfl⟩ | ⟨v, g, below, o, hg, hmoved, rfl⟩
  · exact ⟨⟨Nat.le_refl _, fun _ _ => rfl, fun _ ho => ho⟩, fun _ _ => rfl⟩
  · refine ⟨(hmoved.requestMove hown).awaits.grows, fun u hu => ?_⟩
    refine Threads.replaceTop_of_ne fun huv => hu ?_
    rw [huv]
    cases hmoved <;> rfl

omit [RequestTraits ε] [Fintype ι] in
/-- Outside `request`, a lambda of a promise may start. -/
theorem FutureSystem.follow_of_none (hcode : s.code t = none) (f : Frame ε) :
    s.follow t f = s ∨
    (∃ a ev p, f = .handleEvent a ev .callback ∧ s.owner a = some p ∧
      s.follow t f = s.setCode t (some (.completing p ev))) ∨
    ∃ a p, f = .pollTimeout a (.timedOut true) ∧ s.owner a = some p ∧
      s.follow t f = s.setCode t (some (.expiring p)) := by
  by_cases hhandle : ∃ a ev, f = .handleEvent a ev .callback
  · obtain ⟨a, ev, rfl⟩ := hhandle
    cases hp : s.owner a with
    | none => exact .inl (by simp only [follow, hcode, hp])
    | some p => exact .inr (.inl ⟨a, ev, p, rfl, hp, by simp only [follow, hcode, hp]⟩)
  by_cases hpoll : ∃ a, f = .pollTimeout a (.timedOut true)
  · obtain ⟨a, rfl⟩ := hpoll
    cases hp : s.owner a with
    | none => exact .inl (by simp only [follow, hcode, hp])
    | some p => exact .inr (.inr ⟨a, p, rfl, hp, by simp only [follow, hcode, hp]⟩)
  refine .inl ?_
  unfold follow
  rw [hcode]
  split <;> first
    | contradiction
    | exact absurd ⟨_, _, rfl⟩ hhandle
    | exact absurd ⟨_, rfl⟩ hpoll
    | rfl

/-- A step of the bus on a thread that is not in the code of `request_future`. -/
theorem FutureInv.around {bus : BusSystem ι ε} {act : BusAction ι ε}
    (h : FutureInv timely s) (hb : RequestsInv s.bus) (hcode : s.code t = none)
    (hact : act.thread = some t) (hown : OwnPredicates act)
    (hstep : s.bus.step act = some bus) :
    FutureMove timely s { s.followed act with bus := bus } t := by
  obtain ⟨hgrows, hothers⟩ := BusSystem.step_local hstep hown
  have hframes (u : ι) (hu : u ≠ t) : bus.frames u = s.bus.frames u :=
    hothers u fun h => hu (Option.some.inj (h.symm.trans hact))
  have hplain : FutureMove timely s { s with bus := bus } t :=
    .same (fun _ => ⟨rfl, rfl⟩) rfl hgrows hframes (fun _ _ => rfl)
      (fun _ => Iff.rfl) (fun c hc => nomatch hcode.symm.trans hc)
      (fun _ => id) (fun _ _ => .inl) (.inl rfl)
  cases act with
  | advance v =>
      cases hact
      cases ht : s.bus.frames t with
      | nil =>
          simp only [FutureSystem.followed, ht]
          exact hplain
      | cons f rest =>
          simp only [FutureSystem.followed, ht]
          rcases FutureSystem.follow_of_none hcode f with
            heq | ⟨a, ev, p, rfl, hp, heq⟩ | ⟨a, p, rfl, hp, heq⟩ <;> rw [heq]
          · exact hplain
          · refine .recode (fun _ => ⟨rfl, rfl⟩) rfl rfl rfl (.inl rfl) hgrows hframes
              (by rw [hcode]; rfl) fun d hd => ?_
            cases hd
            obtain ⟨-, id, hdrawn, hterms⟩ := h.awaits a p hp
            have hmatched := ((hb.requests.knows.top ht).2.2 id hterms).2 (.inr rfl)
            exact hdrawn.trans (congrArg some hmatched.symm)
          · refine .recode (fun _ => ⟨rfl, rfl⟩) rfl rfl rfl (.inl rfl) hgrows hframes
              (by rw [hcode]; rfl) fun d hd => ?_
            cases hd
            trivial
  | _ => exact hplain

/-- The call of `request_future` begins. -/
theorem FutureMove.began {bus : BusSystem ι ε} {e : Nat} {ev : Event ε}
    {spec : AwaitSpec} (x : Promise) (hp : PromiseInv s) (hx : x.drawn = none)
    (hcode : s.code t = none) (hspec : spec.onTimeout)
    (hstep : s.bus.step (.call t (.request e ev spec)) = some bus) :
    FutureMove timely s { (s.setPromise s.nextPromise x).setCode t
      (some (.requesting s.nextPromise)) with
        bus := bus, nextPromise := s.nextPromise + 1 } t := by
  obtain ⟨hgrows, hothers⟩ := BusSystem.step_local hstep (rfl : _ = true)
  have hne {q : Nat} (hq : q < s.nextPromise) :
      (s.setPromise s.nextPromise x).promises q = s.promises q :=
    FutureSystem.setPromise_of_ne hq.ne
  have hlt {q id : Nat} (hq : (s.promises q).drawn = some id) : q < s.nextPromise := by
    refine Nat.lt_of_not_le fun hle => ?_
    rw [hp.fresh q hle] at hq
    cases hq
  have hcalls {q : Nat} : ((s.setPromise s.nextPromise x).setCode t
      (some (.requesting s.nextPromise))).calls t q ↔ s.nextPromise = q := by
    rw [FutureSystem.calls, FutureSystem.setCode_self]
    exact Option.some_inj
  exact
    { grows :=
        { drawn := fun q id hq => (congrArg Promise.drawn (hne (hlt hq))).trans hq
          made := fun _ hq => hq
          log := fun _ ho => ho
          bus := hgrows }
      next := Nat.le_succ _
      frames := fun u hu => hothers u fun h => hu (Option.some.inj h).symm
      code := fun _ hu => FutureSystem.setCode_of_ne hu
      top := fun c hc => by
        obtain rfl : .requesting s.nextPromise = c :=
          Option.some.inj (FutureSystem.setCode_self.symm.trans hc)
        rcases BusSystem.step_cases hstep with
          ⟨delta, hact, -⟩ | ⟨v, g, below, o, hg, hmoved, rfl⟩
        · cases hact
        cases hmoved
        show Requesting ((s.setPromise s.nextPromise x).promises s.nextPromise).drawn _
          _ ((s.bus.put t _).frames t)
        rw [FutureSystem.setPromise_self, FutureSystem.put_frames hg]
        exact .drawing false _ _ hx hspec
      calls := fun q hq => .inr (hcalls.mp hq).le
      promise := fun q hq _ => ⟨congrArg Promise.drawn (hne hq),
        congrArg Promise.requestId (hne hq)⟩
      valid := fun q _ hzero => by
        by_cases hq : q = s.nextPromise
        · have hzero : ((s.setPromise s.nextPromise x).promises q).drawn = _ := hzero
          rw [hq, FutureSystem.setPromise_self, hx] at hzero
          cases hzero
        · exact (congrArg Promise.drawn (FutureSystem.setPromise_of_ne hq)).symm.trans hzero
      begun := fun q hle hlt => hcalls.mpr (Nat.le_antisymm hle (Nat.le_of_lt_succ hlt))
      done := fun q hq _ => by
        rw [FutureSystem.calls, hcode] at hq
        cases hq
      awaits := fun _ _ => .inl
      told := fun _ => .inl }

/-- A lambda ended, and it may have resolved its promise. -/
theorem FutureMove.ended {s₁ : FutureSystem ι ε} {bus : BusSystem ι ε}
    (hs₁ : s₁ = s ∨ ∃ o : FutureObs ε, s₁ = s.note o ∧ o.Told timely s₁)
    (hbus : bus = s₁.bus ∨ s₁.bus.step (.ret t false) = some bus)
    (hcode : (s.code t).bind FutureCode.caller = none) :
    FutureMove timely s { s₁.setCode t none with bus := bus } t := by
  have hlog : s₁.log = s.log ∨
      ∃ o : FutureObs ε, s₁.log = o :: s.log ∧ o.Told timely s₁ := by
    rcases hs₁ with rfl | ⟨o, rfl, htold⟩
    · exact .inl rfl
    · exact .inr ⟨o, rfl, htold⟩
  have hsame : s₁ = { s with log := s₁.log } := by
    rcases hs₁ with rfl | ⟨o, rfl, -⟩ <;> rfl
  have hlocal : RequestGrows s.bus.world bus.world ∧
      ∀ u ≠ t, bus.frames u = s.bus.frames u := by
    rw [hsame] at hbus
    rcases hbus with rfl | hstep
    · exact ⟨.of_still .refl, fun _ _ => rfl⟩
    · obtain ⟨hgrows, hothers⟩ := BusSystem.step_local hstep trivial
      exact ⟨hgrows, fun u hu => hothers u fun h => hu (Option.some.inj h).symm⟩
  refine .recode (fun q => ?_) ?_ ?_ ?_ hlog hlocal.1 hlocal.2 hcode.symm
    fun d hd => nomatch hd
  all_goals rw [hsame]
  exact ⟨rfl, rfl⟩

omit [Fintype ι] [RequestTraits ε] [DecidableEq ι] in
theorem FutureSystem.ownPredicates_of_permits {act : BusAction ι ε}
    (h : s.permits act) : OwnPredicates act := by
  cases act with
  | call t c => exact (Bool.and_eq_true_iff.mp h).2
  | _ => trivial

/-- A step of the bus. -/
theorem FutureInv.step_bus {act : BusAction ι ε} {bus : BusSystem ι ε}
    (h : FutureInv timely s) (hp : PromiseInv s) (hb : RequestsInv s.bus)
    (hcond : ∀ q, timely q → StoredInTime q s (.bus act)) (hpermits : s.permits act)
    (hstep : s.bus.step act = some bus) :
    FutureInv timely { s.followed act with bus := bus } := by
  have hown := FutureSystem.ownPredicates_of_permits hpermits
  cases hact : act.thread with
  | none =>
      cases act with
      | tick delta =>
          cases hstep
          exact h.tick delta
      | _ => cases hact
  | some t =>
      cases hcode : s.code t with
      | none => exact h.move hp (h.around hb hcode hact hown hstep)
      | some c =>
          -- Only inside `request` does the bus move a thread that has code.
          cases act with
          | advance v =>
              cases hact
              simp only [FutureSystem.permits, hcode] at hpermits
              cases c with
              | requesting p =>
                  obtain ⟨hgrows, -⟩ := BusSystem.step_local hstep hown
                  rcases BusSystem.step_cases hstep with
                    ⟨delta, heq, -⟩ | ⟨u, f, rest, o, ht, hmoved, rfl⟩
                  · cases heq
                  cases hmoved with
                  | advance hmode ho =>
                      have hmove := h.asked hcode hcond hgrows ht ho
                      simp only [FutureSystem.followed, ht]
                      exact h.move hp hmove
                  | unwind hmode ho =>
                      have hreq : Requesting _ _ _ (s.bus.frames t) := h.code t _ hcode
                      rw [ht] at hreq
                      rw [hreq.unwind_eq_none] at ho
                      cases ho
              | _ => cases hpermits
          | tick => cases hact
          | call | ret | throw | «catch» =>
              cases hact
              simp only [FutureSystem.permits, hcode] at hpermits
              cases hpermits

omit [DecidableEq ι] [Fintype ι] in
/-- The promise is destroyed; the ids stay. -/
theorem FutureInv.abandon (h : FutureInv timely s) : FutureInv timely (s.abandon p) := by
  have hsame (q : Nat) : ((s.abandon p).promises q).drawn = (s.promises q).drawn ∧
      ((s.abandon p).promises q).requestId = (s.promises q).requestId := by
    rw [FutureSystem.abandon_promises]
    by_cases hqp : q = p
    · subst hqp
      rw [FutureSystem.setPromise_self]
      exact ⟨rfl, rfl⟩
    · rw [FutureSystem.setPromise_of_ne hqp]
      exact ⟨rfl, rfl⟩
  have hlog : (∀ o ∈ s.log, o ∈ (s.abandon p).log) ∧
      ∀ o ∈ (s.abandon p).log, o ∈ s.log ∨ o = .exceptionSet p .brokenPromise := by
    rcases FutureSystem.abandon_log (s := s) (p := p) with ⟨heq, -⟩ | ⟨heq, -⟩ <;>
      rw [heq]
    · exact ⟨fun o ho => ho, fun o ho => .inl ho⟩
    · exact ⟨fun o ho => List.mem_cons_of_mem _ ho, fun o ho =>
        (List.mem_cons.mp ho).symm⟩
  have hgrows : FutureGrows s (s.abandon p) :=
    { drawn := fun q id hq => (hsame q).1.trans hq
      made := fun q ⟨a, ha⟩ => ⟨a, by rwa [FutureSystem.abandon_owner]⟩
      log := hlog.1
      bus := FutureSystem.abandon_bus ▸ .of_still .refl }
  have hcalls {u : ι} {q : Nat} : (s.abandon p).calls u q ↔ s.calls u q := by
    rw [FutureSystem.calls, FutureSystem.abandon_code]
    rfl
  exact
    { code := fun u c hc => by
        rw [FutureSystem.abandon_code] at hc
        exact (h.code u c hc).grow hgrows (by rw [FutureSystem.abandon_bus])
          fun q _ => (hsame q).1
      apart := fun t u q ht hu => h.apart t u q (hcalls.mp ht) (hcalls.mp hu)
      awaits := fun a q hq => by
        rw [FutureSystem.abandon_owner] at hq
        exact (h.awaits a q hq).grow hgrows
      done := fun q hq hnone => by
        rw [FutureSystem.abandon_nextPromise] at hq
        obtain ⟨hdrawn, hmade, hposted⟩ := h.done q hq fun t ht => hnone t (hcalls.mpr ht)
        rw [(hsame q).1, (hsame q).2]
        exact ⟨hdrawn, hgrows.made q hmade, hposted.grow hgrows⟩
      valid := fun q hq hzero => h.valid q hq ((hsame q).1.symm.trans hzero)
      told := fun o ho => by
        rcases hlog.2 o ho with ho | rfl
        · exact (h.told o ho).grow hgrows
        · trivial }

theorem FutureInv.step {a : FutureAction ι ε} (h : FutureInv timely s)
    (hp : PromiseInv s) (hb : RequestsInv s.bus)
    (hcond : ∀ q, timely q → StoredInTime q s a) (hstep : FutureStep s a s') :
    FutureInv timely s' := by
  have hcaller {t : ι} {c : FutureCode ε} (hcode : s.code t = some c)
      (hc : c.caller = none) : (s.code t).bind FutureCode.caller = none := by
    rw [hcode]
    exact hc
  cases hstep with
  | bus hpermits hbus => exact h.step_bus hp hb hcond hpermits hbus
  | began hcode hbus => exact h.move hp (.began _ hp rfl hcode rfl hbus)
  | stored hcode =>
      obtain ⟨hdrawn, hmade, hposted⟩ := h.code _ _ hcode
      exact h.move hp (.stored hcode hdrawn hmade hposted)
  | @won t c d hcode hwins hopen =>
      obtain ⟨-, -, hc, hd, -⟩ := FutureCode.of_wins hwins
      refine h.move hp (.claimed hd (hcaller hcode hc) ?_)
      have hknows := h.code t c hcode
      cases c <;> cases hwins
      · show ((s.setPromise _ _).promises _).drawn = _
        rw [FutureCode.promise, FutureSystem.setPromise_self]
        exact hknows
      · trivial
  | lost hcode hwins hclosed hbus =>
      obtain ⟨-, -, hc, -⟩ := FutureCode.of_wins hwins
      exact h.move hp (.ended (.inl rfl) hbus (hcaller hcode hc))
  | @resolved t c o bus hcode ho hbus =>
      obtain ⟨-, hc, -⟩ := FutureCode.of_resolves ho
      refine h.move hp (.ended (.inr ⟨o, rfl, ?_⟩) hbus (hcaller hcode hc))
      have hknows := h.code t c hcode
      cases c <;> cases ho
      · exact hknows
      · intro htimely
        obtain ⟨hdrawn, -, request, hmem⟩ :=
          h.done _ (hp.bounded t _ hcode) (hcond _ htimely hcode)
        exact ⟨hdrawn, request, List.mem_cons_of_mem _ hmem⟩
  | destroyed => exact h.abandon

end Ids

end EventHub
