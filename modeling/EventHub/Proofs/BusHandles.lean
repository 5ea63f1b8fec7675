import EventHub.Bus.History
import EventHub.Proofs.BusRecords

/-!
# How long an awaiter lives, and how it ends

A single-shot awaiter has a reference to itself until a `cancel()` that won has
let go of it, so nothing destroys it while it is active. How it ended is in the
log: a match has its callback still to run, a deadline has taken `on_timeout`
out of the awaiter first, and otherwise somebody called `cancel()`.
-/

namespace EventHub

variable {ι ε : Type}

namespace Frame

/-- At the `cancel()` of a timeout. -/
def expires (a : Nat) : Frame ε → Bool
  | .pollTimeout b (.expired _) => b = a
  | _ => false

/-- On the way to the callback or to `on_timeout`. -/
def delivers (a : Nat) : Frame ε → Bool
  | .handleEvent b _ .callback | .pollTimeout b (.expired true)
  | .pollTimeout b (.timedOut true) => b = a
  | _ => false

end Frame

/-! ## What a step does to the awaiter -/

structure SameHandle (x y : Awaiter) : Prop where
  singleShot : x.singleShot = y.singleShot
  cancelled : x.cancelled = y.cancelled
  retainSelf : x.retainSelf = y.retainSelf
  onTimeout : x.onTimeout = y.onTimeout

/-- No `cancel()` of the awaiter won. -/
def Unended (a : Nat) (w w' : World ε) : Prop :=
  w'.log = w.log ∨ ∃ o : BusObs ε, w'.log = o :: w.log ∧ o.deactivates a = false

def QuietFor (a : Nat) (fs : List (Frame ε)) : Prop :=
  ∀ g ∈ fs, g.releases a = false ∧ g.expires a = false

inductive HandleMove (a : Nat) (w : World ε) (f : Frame ε) (w' : World ε)
    (fs : List (Frame ε)) : Prop
  | same (hx : SameHandle (w'.awaiters a) (w.awaiters a))
      (hnext : a < w'.nextAwaiter ↔ a < w.nextAwaiter) (hlog : Unended a w w')
      (hfs : QuietFor a fs)
  | created (spec : AwaitSpec) (guard : Option (Option Guard))
      (via : Option Nat) (ha : a = w.nextAwaiter)
      (hw : w' = w.createAwaiter spec guard via) (hfs : QuietFor a fs)
  | expiring (hf : f = .pollTimeout a .deadline)
      (hw : w' = w.setAwaiter a { w.awaiters a with onTimeout := false })
      (hfs : fs = [.pollTimeout a (.expired (w.awaiters a).onTimeout)])
  | ended (cause : Cause) (hactive : w.isActive a)
      (hw : w' = w.deactivate a cause)
      (hmatched : cause = .matched → ∃ g ∈ fs, g.delivers a)
      (htimeout : cause = .timeout → f.expires a)
      (hfs : ∀ g ∈ fs, g.expires a = false)
  | released (hf : f = .release a) (hw : w' = w.release a) (hfs : fs = [])

section HandleMove

variable {a : Nat} {w w' : World ε} {f : Frame ε} {fs : List (Frame ε)}
  {o : Outcome ε}

theorem SameHandle.refl {x : Awaiter} : SameHandle x x := ⟨rfl, rfl, rfl, rfl⟩

theorem QuietFor.nil : QuietFor a ([] : List (Frame ε)) := fun _ h => nomatch h

theorem HandleMove.outside (hawaiters : w'.awaiters = w.awaiters)
    (hnext : w'.nextAwaiter = w.nextAwaiter) (hlog : Unended a w w')
    (hfs : QuietFor a fs) : HandleMove a w f w' fs :=
  .same (hawaiters ▸ .refl) (by rw [hnext]) hlog hfs

/-- Another awaiter changes, or what does not matter here. -/
theorem HandleMove.setAwaiter {b : Nat} {x : Awaiter}
    (hx : b = a → SameHandle x (w.awaiters a)) (hfs : QuietFor a fs) :
    HandleMove a w f (w.setAwaiter b x) fs := by
  refine .same ?_ Iff.rfl (.inl rfl) hfs
  by_cases hab : a = b
  · rw [show (w.setAwaiter b x).awaiters a = x from if_pos hab]
    exact hx hab.symm
  · rw [show (w.setAwaiter b x).awaiters a = w.awaiters a from if_neg hab]
    exact .refl

theorem cancelThen_handleMove {b : Nat} {cause : Cause} {rest : List (Frame ε)}
    (hmatched : b = a → cause = .matched → ∃ g ∈ rest, g.delivers a)
    (htimeout : b = a → cause = .timeout → f.expires a) (hrest : QuietFor a rest) :
    HandleMove a w f (cancelThen w b cause rest).world
      (cancelThen w b cause rest).frames := by
  unfold cancelThen
  split
  · next hactive =>
      by_cases hb : b = a
      · subst hb
        refine .ended cause hactive rfl (fun hc => ?_) (htimeout rfl)
          (List.forall_mem_cons.mpr ⟨rfl, fun g hg => (hrest g hg).2⟩)
        obtain ⟨g, hg, hdelivers⟩ := hmatched rfl hc
        exact ⟨g, List.mem_cons_of_mem _ hg, hdelivers⟩
      · refine .same ?_ Iff.rfl (.inr ⟨_, rfl, decide_eq_false hb⟩)
          (List.forall_mem_cons.mpr ⟨⟨decide_eq_false hb, rfl⟩, hrest⟩)
        rw [show (w.deactivate b cause).awaiters a = w.awaiters a from
          if_neg (Ne.symm hb)]
        exact .refl
  · exact .outside rfl rfl (.inl rfl) hrest

theorem advanceHandle_handleMove [RequestTraits ε] (result : Bool) (b : Nat)
    (ev : Event ε) (pc : HandlePc) :
    HandleMove a w (.handleEvent b ev pc) (advanceHandle w result b ev pc).world
      (advanceHandle w result b ev pc).frames := by
  fun_cases advanceHandle <;> first
    | exact .outside rfl rfl (.inl rfl)
        (by simp [QuietFor, Frame.releases, Frame.expires])
    | exact .outside rfl rfl (.inr ⟨_, rfl, rfl⟩)
        (by simp [QuietFor, Frame.releases, Frame.expires])
    | exact cancelThen_handleMove
        (fun hb _ => ⟨_, List.mem_cons_self, decide_eq_true hb⟩)
        (fun _ h => by cases h)
        (by simp [QuietFor, Frame.releases, Frame.expires])

theorem advancePoll_handleMove (b : Nat) (pc : PollPc) :
    HandleMove a w (.pollTimeout b pc) (advancePoll w b pc).world
      (advancePoll w b pc).frames := by
  cases pc with
  | deadline =>
      simp only [advancePoll]
      split
      · by_cases hb : b = a
        · subst hb
          exact .expiring rfl rfl rfl
        · exact .setAwaiter (fun h => absurd h hb)
            (by simp [QuietFor, Frame.releases, Frame.expires, hb])
      · exact .outside rfl rfl (.inl rfl) .nil
  | expired onTimeout =>
      exact cancelThen_handleMove (fun _ h => by cases h)
        (fun hb _ => decide_eq_true hb)
        (by simp [QuietFor, Frame.releases, Frame.expires])
  | _ =>
      simp only [advancePoll]
      first
        | exact .outside rfl rfl (.inl rfl) .nil
        | split <;> first
            | exact .outside rfl rfl (.inl rfl)
                (by simp [QuietFor, Frame.releases, Frame.expires])
            | exact .outside rfl rfl (.inr ⟨_, rfl, rfl⟩)
                (by simp [QuietFor, Frame.releases, Frame.expires])

theorem advanceDispatch_handleMove (alive : Guard → Bool) (d : Nat)
    (ev : Event ε) (rest : List CallbackRecord) (pc : DispatchPc) :
    HandleMove a w (.records d ev rest pc)
      (advanceDispatch alive w d ev rest pc).world
      (advanceDispatch alive w d ev rest pc).frames := by
  fun_cases advanceDispatch <;> first
    | exact .outside rfl rfl (.inl rfl)
        (by simp [QuietFor, Frame.releases, Frame.expires])
    | exact .outside rfl rfl (.inr ⟨_, rfl, rfl⟩)
        (by simp [QuietFor, Frame.releases, Frame.expires])

theorem createAwaiter_handleMove (spec : AwaitSpec)
    (guard : Option (Option Guard)) (via : Option Nat) (hfs : QuietFor a fs) :
    HandleMove a w f (w.createAwaiter spec guard via) fs := by
  by_cases ha : a = w.nextAwaiter
  · exact .created spec guard via ha rfl hfs
  · have hx : (w.createAwaiter spec guard via).awaiters a = w.awaiters a :=
      if_neg ha
    refine .same (hx ▸ .refl) ?_ (.inr ⟨_, rfl, rfl⟩) hfs
    show a < w.nextAwaiter + 1 ↔ a < w.nextAwaiter
    omega

theorem release_log (b : Nat) : (w.release b).log = w.log := by
  unfold World.release
  dsimp only
  split <;> rfl

theorem release_nextAwaiter (b : Nat) :
    (w.release b).nextAwaiter = w.nextAwaiter := by
  unfold World.release
  dsimp only
  split <;> rfl

theorem release_handleMove (b : Nat) :
    HandleMove a w (.release b) (w.release b) [] := by
  by_cases hb : b = a
  · subst hb
    exact .released rfl rfl rfl
  · have hx : (w.release b).awaiters a = w.awaiters a := by
      unfold World.release
      dsimp only
      split <;> exact if_neg (Ne.symm hb)
    exact .same (hx ▸ .refl) (by rw [release_nextAwaiter]) (.inl (release_log b)) .nil

theorem advance_handleMove [RequestTraits ε] {alive : Guard → Bool}
    {result : Bool} (h : advance alive w result f = some o) :
    HandleMove a w f o.world o.frames := by
  cases f with
  | user code => cases h
  | records d ev rest pc =>
      cases h
      exact advanceDispatch_handleMove ..
  | handleEvent b ev pc =>
      cases h
      exact advanceHandle_handleMove ..
  | pollTimeout b pc =>
      cases h
      exact advancePoll_handleMove ..
  | cancel b canceller =>
      cases h
      exact cancelThen_handleMove (fun _ => nofun) (fun _ => nofun) .nil
  | release b =>
      cases h
      exact release_handleMove b
  | storeSubscriptionId b id =>
      cases h
      exact .setAwaiter (fun hb => hb ▸ ⟨rfl, rfl, rfl, rfl⟩) .nil
  | createAwaiter spec guard via =>
      cases h
      refine createAwaiter_handleMove _ _ _ ?_
      cases via <;> simp [QuietFor, Frame.releases, Frame.expires]
  | enqueue ev request =>
      cases h
      refine .outside rfl rfl (.inr ⟨_, rfl, rfl⟩) ?_
      cases request <;> simp [QuietFor, Frame.releases, Frame.expires]
  | nextRequestId retry request =>
      simp only [advance] at h
      split at h <;> cases h
      · exact .outside rfl rfl (.inl rfl)
          (by simp [QuietFor, Frame.releases, Frame.expires])
      · refine .outside rfl rfl (.inr ⟨_, rfl, rfl⟩) ?_
        cases request <;>
          simp [QuietFor, requestFrames, Frame.releases, Frame.expires]
  | dispatch ev | pollAwaiters | process | processed n
  | requestReturn e id ticket | closeUnsubscribe e =>
      cases h
      exact .outside rfl rfl (.inr ⟨_, rfl, rfl⟩)
        (by simp [QuietFor, Frame.releases, Frame.expires])
  | addCallback type record | dispatching q rest n | cancelAwaiters e canceller
  | close e | makeAwaiter e spec | subscribeAwaiter b | registerAwaiter b
  | keepHandle e b =>
      cases h
      exact .outside rfl rfl (.inl rfl)
        (by simp [QuietFor, Frame.releases, Frame.expires])
  | polling awaiters | draining awaiters n | cancelling awaiters canceller =>
      cases awaiters <;> cases h <;> first
        | exact .outside rfl rfl (.inl rfl)
            (by simp [QuietFor, Frame.releases, Frame.expires])
        | exact .outside rfl rfl (.inr ⟨_, rfl, rfl⟩)
            (by simp [QuietFor, Frame.releases, Frame.expires])
  | notifyWorkAvailable =>
      simp only [advance] at h
      split at h <;> cases h
      · exact .outside rfl rfl (.inr ⟨_, rfl, rfl⟩) .nil
      · exact .outside rfl rfl (.inl rfl) .nil

theorem unwind_handleMove (h : unwind w f = some o) :
    HandleMove a w f o.world o.frames := by
  fun_cases unwind w f <;> simp only [unwind] at h <;>
    (try split at h) <;> cases h <;> first
    | exact .outside rfl rfl (.inl rfl)
        (by simp [QuietFor, Frame.releases, Frame.expires])
    | exact .outside rfl rfl (.inr ⟨_, rfl, rfl⟩) .nil

theorem call_handleMove (code : UserCode) (c : BusCall ε) :
    HandleMove a w f (call w c).1 ((call w c).2 ++ [.user code]) := by
  cases c with
  | clearPending =>
      exact .outside rfl rfl (.inr ⟨_, rfl, rfl⟩)
        (by simp [QuietFor, call, Frame.releases, Frame.expires])
  | _ =>
      exact .outside rfl rfl (.inl rfl)
        (by simp [QuietFor, call, Frame.releases, Frame.expires])

theorem Moved.handleMove [Fintype ι] [DecidableEq ι] [RequestTraits ε]
    {s : BusSystem ι ε} {act : BusAction ι ε} {t : ι} (h : Moved s act t f o)
    (a : Nat) : HandleMove a s.world f o.world o.frames := by
  cases h with
  | advance hmode h => exact advance_handleMove h
  | unwind hmode h => exact unwind_handleMove h
  | call c hmode => exact call_handleMove _ c
  | ret | throw => exact .outside rfl rfl (.inl rfl) .nil
  | «catch» =>
      exact .outside rfl rfl (.inl rfl)
        (by simp [QuietFor, Frame.releases, Frame.expires])

end HandleMove

/-! ## From the decision to the lambda -/

/-- A match ended the awaiter, or a timeout has taken its `on_timeout`. -/
def World.decided (w : World ε) (a : Nat) : Prop :=
  .deactivated a .matched ∈ w.log ∨ (w.awaiters a).onTimeout = false

section Delivers

variable {a : Nat} {w w' : World ε} {f : Frame ε} {fs : List (Frame ε)}
  {o : Outcome ε}

theorem Unended.mem (h : Unended a w w') {cause : Cause}
    (hmem : .deactivated a cause ∈ w'.log) : .deactivated a cause ∈ w.log := by
  rcases h with heq | ⟨o, heq, ho⟩ <;> rw [heq] at hmem
  · exact hmem
  · rcases List.mem_cons.mp hmem with rfl | hmem
    · exact absurd (decide_eq_true rfl) (Bool.eq_false_iff.mp ho)
    · exact hmem

theorem release_awaiters_self (b : Nat) : (w.release b).awaiters b =
    { w.awaiters b with subscriptionId := 0, retainSelf := false } := by
  unfold World.release
  dsimp only
  split <;> exact if_pos rfl

/-- Where the decision falls, the lambda is on its way. -/
theorem HandleMove.decided (h : HandleMove a w f w' fs) (ha : a ≠ w.nextAwaiter)
    (hw' : w'.decided a) : w.decided a ∨ ∃ g ∈ fs, g.delivers a := by
  cases h with
  | same hx hnext hlog hfs =>
      exact .inl (hw'.imp hlog.mem fun htaken => hx.onTimeout ▸ htaken)
  | created spec guard via hnew => exact absurd hnew ha
  | expiring hf hw hfs =>
      cases htaken : (w.awaiters a).onTimeout with
      | false => exact .inl (.inr htaken)
      | true =>
          refine .inr ⟨_, hfs ▸ List.mem_cons_self, ?_⟩
          rw [htaken]
          exact decide_eq_true rfl
  | ended cause hactive hw hmatched htimeout hfs =>
      rw [hw] at hw'
      rcases hw' with hmem | htaken
      · rcases List.mem_cons.mp hmem with heq | hmem
        · cases heq
          exact .inr (hmatched rfl)
        · exact .inl (.inl hmem)
      · rw [show (w.deactivate a cause).awaiters a =
          { w.awaiters a with cancelled := true } from if_pos rfl] at htaken
        exact .inl (.inr htaken)
  | released hf hw hfs =>
      rw [hw, World.decided, release_log, release_awaiters_self] at hw'
      exact .inl hw'

/-- A frame on the way to a lambda starts it, or leaves another on the way. -/
theorem Moved.delivers [Fintype ι] [DecidableEq ι] [RequestTraits ε]
    {s : BusSystem ι ε} {act : BusAction ι ε} {t : ι} (h : Moved s act t f o)
    (hf : f.delivers a) : act = .advance t ∧
      ((∃ ev, f = .handleEvent a ev .callback) ∨ f = .pollTimeout a (.timedOut true) ∨
        ∃ g ∈ o.frames, g.delivers a) := by
  have hact : act = .advance t := h.eq_advance fun _ heq => by
    rw [heq] at hf
    cases hf
  refine ⟨hact, ?_⟩
  fun_cases Frame.delivers a f
  next b ev =>
    obtain rfl : b = a := of_decide_eq_true hf
    exact .inl ⟨ev, rfl⟩
  next b =>
    obtain rfl : b = a := of_decide_eq_true hf
    refine .inr (.inr ⟨.pollTimeout b (.timedOut true), ?_, decide_eq_true rfl⟩)
    cases h with
    | advance hmode h =>
        cases h
        show _ ∈ (cancelThen ..).frames
        unfold cancelThen
        split
        · exact List.mem_cons_of_mem _ List.mem_cons_self
        · exact List.mem_cons_self
    | unwind hmode h => cases h
  next b =>
    obtain rfl : b = a := of_decide_eq_true hf
    exact .inr (.inl rfl)
  next h₁ h₂ h₃ =>
    unfold Frame.delivers at hf
    split at hf
    next => exact absurd rfl (h₁ _ _)
    next => exact absurd rfl (h₂ _)
    next => exact absurd rfl (h₃ _)
    next => cases hf

end Delivers

/-! ## An awaiter that ended -/

/-- The awaiter is not active, and nobody is past the check that it is. -/
structure Spent (a : Nat) (w : World ε) (frames : ι → List (Frame ε)) : Prop where
  inactive : w.isActive a = false
  unengaged : Threads.Forall (fun f => f.engaged a = false) frames

section Spent

variable [DecidableEq ι] {a : Nat} {w w' : World ε} {frames : ι → List (Frame ε)}
  {t : ι} {f : Frame ε} {rest fs : List (Frame ε)}

/-- It stays so, unless its number is only now given out. -/
theorem Spent.move (h : Spent a w frames) (ht : frames t = f :: rest)
    (hmove : AwaiterMove a w f w' fs)
    (hused : a = w.nextAwaiter → w'.nextAwaiter ≠ a + 1) :
    Spent a w' (Threads.replaceTop frames t fs) := by
  have hf := h.unengaged.top ht
  have hactive {P : Prop} (hactive : w.isActive a) : P := by
    rw [h.inactive] at hactive
    cases hactive
  have hengaged {P : Prop} {g : Frame ε} (hg : f = g) (heng : g.engaged a) : P := by
    rw [hg, heng] at hf
    cases hf
  cases hmove with
  | quiet hstill harmed hexpiring hfs =>
      refine ⟨(congrArg (!·) hstill.cancelled).trans h.inactive,
        h.unengaged.replace fun g hg => ?_⟩
      refine Bool.eq_false_of_not_eq_true fun heng => ?_
      rcases (hfs g hg).2.2 heng with heng | hact
      · exact hengaged rfl heng
      · exact hactive hact
  | created ha hnext => exact absurd hnext (hused ha)
  | ended _ _ hact | claimed _ _ _ hact | expired _ hact => exact hactive hact
  | lost _ hg | repeated _ hg | called _ hg | mute _ hg | overtaken hg
  | timedOut hg => exact hengaged hg (decide_eq_true rfl)

end Spent

structure HandleInv (a : Nat) (w : World ε) (frames : ι → List (Frame ε)) :
    Prop where
  fresh : w.nextAwaiter ≤ a → Spent a w frames ∧
    (∀ o ∈ w.log, o.deactivates a = false) ∧
    Threads.Forall (fun f => f.releases a = false) frames
  retains : w.isActive a → (w.awaiters a).singleShot →
    (w.awaiters a).retainSelf ∧ Threads.Forall (fun f => f.releases a = false) frames
  ended : a < w.nextAwaiter → w.isActive a = false →
    ∃ cause, .deactivated a cause ∈ w.log
  /-- A timeout takes `on_timeout` out of the awaiter. -/
  armed : (w.awaiters a).onTimeout →
    .deactivated a .timeout ∉ w.log ∧ Threads.Forall (fun f => f.expires a = false) frames

section HandleInv

variable {a : Nat} {w w' : World ε} {frames : ι → List (Frame ε)}
  {t : ι} {f : Frame ε} {rest fs : List (Frame ε)}

theorem HandleInv.init : HandleInv a ({} : World ε) fun _ : ι => [.user .main] where
  fresh _ := by
    refine ⟨⟨rfl, fun _ f hf => ?_⟩, fun _ ho => (nomatch ho), fun _ f hf => ?_⟩ <;>
    · rw [List.mem_singleton.mp hf]
      rfl
  retains h := nomatch h
  ended h := absurd h (Nat.not_lt_zero _)
  armed h := nomatch h

theorem Frame.engaged_of_expires (h : f.expires a) : f.engaged a := by
  fun_cases Frame.expires a f <;> simp_all [Frame.engaged, Frame.expires]

theorem Unended.log (h : Unended a w w') : ∀ o ∈ w.log, o ∈ w'.log := by
  intro o ho
  rcases h with heq | ⟨o', heq, -⟩ <;> rw [heq]
  · exact ho
  · exact List.mem_cons_of_mem _ ho

variable [DecidableEq ι]

theorem HandleInv.move (h : HandleInv a w frames) (ht : frames t = f :: rest)
    (hawaiter : AwaiterMove a w f w' fs) (hmove : HandleMove a w f w' fs) :
    HandleInv a w' (Threads.replaceTop frames t fs) := by
  cases hmove with
  | same hx hnext hlog hfs =>
      have hactive : w'.isActive a = w.isActive a := congrArg (!·) hx.cancelled
      have hreleases (hframes : Threads.Forall (fun f => f.releases a = false) frames) :
          Threads.Forall (fun f => f.releases a = false)
            (Threads.replaceTop frames t fs) :=
        hframes.replace fun g hg => (hfs g hg).1
      exact
        { fresh := fun hle => by
            have hle' : w.nextAwaiter ≤ a := by omega
            obtain ⟨hspent, hnever, hframes⟩ := h.fresh hle'
            refine ⟨hspent.move ht hawaiter fun _ => by omega, fun o ho => ?_,
              hreleases hframes⟩
            rcases hlog with heq | ⟨o', heq, ho'⟩ <;> rw [heq] at ho
            · exact hnever o ho
            · rcases List.mem_cons.mp ho with rfl | ho
              · exact ho'
              · exact hnever o ho
          retains := fun hact hsingle => by
            obtain ⟨hretain, hframes⟩ :=
              h.retains (hactive ▸ hact) (hx.singleShot ▸ hsingle)
            exact ⟨hx.retainSelf.trans hretain, hreleases hframes⟩
          ended := fun hlt hact => by
            obtain ⟨cause, hmem⟩ := h.ended (hnext.mp hlt) (hactive ▸ hact)
            exact ⟨cause, hlog.log _ hmem⟩
          armed := fun harmed => by
            obtain ⟨hmem, hframes⟩ := h.armed (hx.onTimeout ▸ harmed)
            exact ⟨fun hmem' => hmem (hlog.mem hmem'),
              hframes.replace fun g hg => (hfs g hg).2⟩ }
  | created spec guard via ha hw hfs =>
      obtain ⟨hspent, hnever, hframes⟩ := h.fresh ha.ge
      have hx : w'.awaiters a = w.newAwaiter spec guard := by
        rw [hw, ha]
        exact if_pos rfl
      have hnext : w'.nextAwaiter = a + 1 := by
        rw [hw, ha]
        rfl
      exact
        { fresh := fun hle => by omega
          retains := fun _ hsingle => by
            rw [hx] at hsingle ⊢
            exact ⟨hsingle, hframes.replace fun g hg => (hfs g hg).1⟩
          ended := fun _ hact => by
            rw [World.isActive, hx] at hact
            cases hact
          armed := fun _ => by
            refine ⟨fun hmem => ?_, Threads.Forall.replace (fun u g hg => ?_)
              fun g hg => (hfs g hg).2⟩
            · rw [hw] at hmem
              rcases List.mem_cons.mp hmem with heq | hmem
              · cases heq
              · exact absurd (decide_eq_true rfl) (Bool.eq_false_iff.mp (hnever _ hmem))
            · refine Bool.eq_false_of_not_eq_true fun hexp => ?_
              have hun : g.engaged a = false := hspent.unengaged u g hg
              rw [Frame.engaged_of_expires hexp] at hun
              cases hun }
  | expiring hf hw hfs =>
      have hactive : w'.isActive a = w.isActive a := by
        rw [hw, World.isActive, World.isActive,
          show (w.setAwaiter a _).awaiters a = _ from if_pos rfl]
      have hx : w'.awaiters a = { w.awaiters a with onTimeout := false } := by
        rw [hw]
        exact if_pos rfl
      have hnot : ¬ w.nextAwaiter ≤ a := fun hle => by
        have hun := (h.fresh hle).1.unengaged.top ht
        rw [hf] at hun
        exact absurd (decide_eq_true rfl) (Bool.eq_false_iff.mp hun)
      have hnext : w'.nextAwaiter = w.nextAwaiter := by rw [hw]; rfl
      exact
        { fresh := fun hle => absurd (hnext ▸ hle) hnot
          retains := fun hact hsingle => by
            rw [hactive] at hact
            rw [hx] at hsingle ⊢
            obtain ⟨hretain, hframes⟩ := h.retains hact hsingle
            refine ⟨hretain, hframes.replace fun g hg => ?_⟩
            rw [hfs] at hg
            exact List.mem_singleton.mp hg ▸ rfl
          ended := fun hlt hact => by
            rw [hw]
            exact h.ended (hnext ▸ hlt) (hactive ▸ hact)
          armed := fun harmed => by
            rw [hx] at harmed
            cases harmed }
  | ended cause hact hw hmatched htimeout hfs =>
      have hinactive : w'.isActive a = false := hw ▸ deactivate_isActive w a cause
      have hx : (w'.awaiters a).onTimeout = (w.awaiters a).onTimeout := by
        rw [hw, show (w.deactivate a cause).awaiters a =
          { w.awaiters a with cancelled := true } from if_pos rfl]
      have hnext : w'.nextAwaiter = w.nextAwaiter := by rw [hw]; rfl
      exact
        { fresh := fun hle => by
            rw [(h.fresh (hnext ▸ hle)).1.inactive] at hact
            cases hact
          retains := fun hact' => by
            rw [hinactive] at hact'
            cases hact'
          ended := fun _ _ => ⟨cause, hw ▸ List.mem_cons_self⟩
          armed := fun harmed => by
            obtain ⟨hmem, hframes⟩ := h.armed (hx ▸ harmed)
            refine ⟨fun hmem' => ?_, hframes.replace hfs⟩
            rw [hw] at hmem'
            rcases List.mem_cons.mp hmem' with heq | hmem'
            · cases heq
              have hf := hframes.top ht
              rw [htimeout rfl] at hf
              cases hf
            · exact hmem hmem' }
  | released hf hw hfs =>
      have hlog : w'.log = w.log := hw ▸ release_log a
      have hnext : w'.nextAwaiter = w.nextAwaiter := hw ▸ release_nextAwaiter a
      have hx : w'.awaiters a =
          { w.awaiters a with subscriptionId := 0, retainSelf := false } :=
        hw ▸ release_awaiters_self a
      have hreleases : f.releases a := by
        rw [hf]
        exact decide_eq_true rfl
      have hactive : w'.isActive a = w.isActive a := by
        rw [World.isActive, hx]
        rfl
      exact
        { fresh := fun hle => by
            have hun := (h.fresh (hnext ▸ hle)).2.2.top ht
            rw [hreleases] at hun
            cases hun
          retains := fun hact hsingle => by
            rw [hactive] at hact
            rw [hx] at hsingle
            have hun := (h.retains hact hsingle).2.top ht
            rw [hreleases] at hun
            cases hun
          ended := fun hlt hact => by
            rw [hlog]
            exact h.ended (hnext ▸ hlt) (hactive ▸ hact)
          armed := fun harmed => by
            rw [hx] at harmed
            rw [hlog, hfs]
            obtain ⟨hmem, hframes⟩ := h.armed harmed
            exact ⟨hmem, hframes.replace (List.forall_mem_nil _)⟩ }

variable [Fintype ι] [RequestTraits ε] {s s' : BusSystem ι ε}

theorem HandleInv.step {act : BusAction ι ε} (h : HandleInv a s.world s.frames)
    (hstep : BusSystem.step s act = some s') : HandleInv a s'.world s'.frames := by
  rcases BusSystem.step_cases hstep with
    ⟨delta, rfl, rfl⟩ | ⟨t, f, rest, o, ht, hmoved, rfl⟩
  · exact ⟨fun hle => ⟨⟨(h.fresh hle).1.1, (h.fresh hle).1.2⟩, (h.fresh hle).2⟩,
      h.retains, h.ended, h.armed⟩
  · exact h.move ht (hmoved.awaiterMove a) (hmoved.handleMove a)

theorem Spent.step {act : BusAction ι ε} (h : Spent a s.world s.frames)
    (ha : a < s.world.nextAwaiter) (hstep : BusSystem.step s act = some s') :
    Spent a s'.world s'.frames := by
  rcases BusSystem.step_cases hstep with
    ⟨delta, rfl, rfl⟩ | ⟨t, f, rest, o, ht, hmoved, rfl⟩
  · exact ⟨h.inactive, h.unengaged⟩
  · exact h.move ht (hmoved.awaiterMove a) fun hnew => absurd hnew ha.ne

theorem BusSystem.decided_of_step {act : BusAction ι ε}
    (ha : a < s.world.nextAwaiter) (hstep : BusSystem.step s act = some s')
    (hdecided : s'.world.decided a) :
    s.world.decided a ∨ Threads.Exists (Frame.delivers a) s'.frames := by
  rcases BusSystem.step_cases hstep with
    ⟨delta, rfl, rfl⟩ | ⟨t, f, rest, o, ht, hmoved, rfl⟩
  · exact .inl hdecided
  · refine ((hmoved.handleMove a).decided ha.ne hdecided).imp_right ?_
    exact fun ⟨g, hg, hdelivers⟩ => .of_new hg hdelivers

/-- What is on the way stays on the way until the lambda starts. -/
theorem BusSystem.delivers_step {act : BusAction ι ε}
    (h : Threads.Exists (Frame.delivers a) s.frames)
    (hstep : BusSystem.step s act = some s') :
    Threads.Exists (Frame.delivers a) s'.frames ∨
      ∃ t f rest, act = .advance t ∧ s.frames t = f :: rest ∧
        ((∃ ev, f = .handleEvent a ev .callback) ∨
          f = .pollTimeout a (.timedOut true)) := by
  rcases BusSystem.step_cases hstep with
    ⟨delta, rfl, rfl⟩ | ⟨t, f, rest, o, ht, hmoved, rfl⟩
  · exact .inl h
  have hmoves : Frame.delivers a f ∨
      Threads.Exists (Frame.delivers a) (s.put t o).frames := h.replace ht
  rcases hmoves with hf | h
  · obtain ⟨hact, hev | htimedOut | ⟨g, hg, hdelivers⟩⟩ := hmoved.delivers hf
    · exact .inr ⟨t, f, rest, hact, ht, .inl hev⟩
    · exact .inr ⟨t, f, rest, hact, ht, .inr htimedOut⟩
    · exact .inl (.of_new hg hdelivers)
  · exact .inl h

end HandleInv

end EventHub
