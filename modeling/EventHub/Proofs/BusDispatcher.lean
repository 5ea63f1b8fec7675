import EventHub.Proofs.BusRecords
import EventHub.Proofs.BusRequests

/-!
# Requests on one dispatching thread

When one thread does all that can run handlers or end awaiters, and the others
only post, nothing comes between the checks of a request's awaiter and what
relies on them: the predicate of a request runs no code of the program. So a
request is answered at most once, by its own result, and not after it has timed
out, was cancelled, or its endpoint was closed.
-/

namespace EventHub

variable {ι ε : Type}

def BusCall.isPost : BusCall ε → Bool
  | .post _ => true
  | _ => false

/-- Other threads than `t₀` only post. -/
def OneDispatcher [DecidableEq ι] (t₀ : ι) : BusAction ι ε → Prop
  | .call t c => (t = t₀ ∨ c.isPost) ∧ c.ownPredicate
  | _ => True

instance [DecidableEq ι] (t₀ : ι) (act : BusAction ι ε) :
    Decidable (OneDispatcher t₀ act) :=
  match act with
  | .call t c =>
      inferInstanceAs (Decidable ((t = t₀ ∨ c.isPost) ∧ c.ownPredicate))
  | .advance _ | .ret .. | .throw _ | .catch _ | .tick _ =>
      inferInstanceAs (Decidable True)

theorem OneDispatcher.ownPredicates [DecidableEq ι] {t₀ : ι}
    {act : BusAction ι ε} (h : OneDispatcher t₀ act) : OwnPredicates act := by
  cases act with
  | call t c => exact h.2
  | _ => trivial

namespace Frame

/-- The frames of a thread that posts. -/
def posting : Frame ε → Bool
  | .user .main | .enqueue _ none | .notifyWorkAvailable => true
  | _ => false

/-- Past the check that this awaiter is active, and not past what relies on it. -/
def checks (a : Nat) : Frame ε → Bool
  | .handleEvent b _ .token | .handleEvent b _ .predicate
  | .handleEvent b _ .matched | .pollTimeout b .token | .pollTimeout b .deadline
  | .pollTimeout b (.expired _) => b = a
  | _ => false

/-- Past the check of the token. -/
def tokenChecked (a : Nat) : Frame ε → Bool
  | .handleEvent b _ .predicate | .handleEvent b _ .matched
  | .handleEvent b _ .callback => b = a
  | _ => false

/-- The decision of a predicate of the program. -/
def decides (a : Nat) : Frame ε → Bool
  | .handleEvent b _ .deciding => b = a
  | _ => false

/-- Will cancel the awaiter, or give it to the endpoint. -/
def keeps (e a : Nat) : Frame ε → Bool
  | .keepHandle b c => b = e && c = a
  | .cancelling rest _ => decide (a ∈ rest)
  | .cancel b _ => b = a
  | _ => false

/-- `cancel_awaiters` of the endpoint, before it has taken the list. -/
def detaches (e : Nat) : Frame ε → Bool
  | .cancelAwaiters b _ => b = e
  | _ => false

/-- `close` of the endpoint, before its last step. -/
def closes (e : Nat) : Frame ε → Bool
  | .closeUnsubscribe b => b = e
  | _ => false

end Frame

section

variable {w : World ε} {f : Frame ε} {o : Outcome ε}

/-! ## Checks -/

/-- What a new frame that is past a check comes from. -/
def CheckedFrom (w : World ε) (f : Frame ε) (w' : World ε) (g : Frame ε) : Prop :=
  ∀ a, (g.checks a → w'.isActive a = w.isActive a ∧
      (w.isActive a ∨ f.checks a ∨ f.decides a)) ∧
    (g.tokenChecked a → w'.tokenCancelled a = w.tokenCancelled a ∧
      (w.tokenCancelled a = false ∨ f.tokenChecked a ∨ f.decides a))

def Unchecked (fs : List (Frame ε)) : Prop :=
  ∀ g ∈ fs, ∀ a, g.checks a = false ∧ g.tokenChecked a = false

theorem Unchecked.from {fs : List (Frame ε)} {w' : World ε} (h : Unchecked fs) :
    ∀ g ∈ fs, CheckedFrom w f w' g := fun g hg a =>
  ⟨fun hc => absurd hc (Bool.eq_false_iff.mp (h g hg a).1),
    fun hc => absurd hc (Bool.eq_false_iff.mp (h g hg a).2)⟩

theorem Unchecked.nil : Unchecked ([] : List (Frame ε)) := fun _ h => nomatch h

theorem Unchecked.cons {fs : List (Frame ε)}
    (hf : ∀ a, f.checks a = false ∧ f.tokenChecked a = false)
    (hfs : Unchecked fs) : Unchecked (f :: fs) :=
  List.forall_mem_cons.mpr ⟨hf, hfs⟩

theorem Unchecked.one (hf : ∀ a, f.checks a = false ∧ f.tokenChecked a = false) :
    Unchecked [f] := .cons hf .nil

theorem Unchecked.two {g : Frame ε}
    (hf : ∀ a, f.checks a = false ∧ f.tokenChecked a = false)
    (hg : ∀ a, g.checks a = false ∧ g.tokenChecked a = false) :
    Unchecked [f, g] := .cons hf (.one hg)

theorem deactivate_tokenCancelled (w : World ε) (b a : Nat) (cause : Cause) :
    (w.deactivate b cause).tokenCancelled a = w.tokenCancelled a := by
  have htoken : ((w.deactivate b cause).awaiters a).token = (w.awaiters a).token := by
    by_cases hab : a = b <;>
      simp [World.deactivate, World.setAwaiter, World.note, hab]
  rw [World.tokenCancelled, World.tokenCancelled, htoken]
  rfl

theorem dropTimeout_isActive (w : World ε) (b a : Nat) :
    (w.setAwaiter b { w.awaiters b with onTimeout := false }).isActive a =
      w.isActive a :=
  congrArg (!·) (AwaiterStill.setAwaiter (a := a) (w := w) (b := b)
    (x := { w.awaiters b with onTimeout := false }) rfl rfl rfl).cancelled

theorem dropTimeout_terms (w : World ε) (b a : Nat) :
    (w.setAwaiter b { w.awaiters b with onTimeout := false }).terms a = w.terms a :=
  (RequestStill.setAwaiter (x := { w.awaiters b with onTimeout := false }) rfl).terms a

theorem cancelThen_unchecked {b : Nat} {cause : Cause} {rest : List (Frame ε)}
    (hrest : Unchecked rest) : Unchecked (cancelThen w b cause rest).frames := by
  unfold cancelThen
  split
  · exact .cons (fun _ => ⟨rfl, rfl⟩) hrest
  · exact hrest

theorem advanceHandle_checkedFrom [RequestTraits ε] (result : Bool) (b : Nat)
    (ev : Event ε) (pc : HandlePc) :
    ∀ g ∈ (advanceHandle w result b ev pc).frames,
      CheckedFrom w (.handleEvent b ev pc)
        (advanceHandle w result b ev pc).world g := by
  have hgo (pc' : HandlePc) (hchecks : ∀ a, (Frame.handleEvent b ev pc').checks a →
        w.isActive a ∨ (Frame.handleEvent b ev pc).checks a ∨
          (Frame.handleEvent b ev pc).decides a)
      (htoken : ∀ a, (Frame.handleEvent b ev pc').tokenChecked a →
        w.tokenCancelled a = false ∨ (Frame.handleEvent b ev pc).tokenChecked a ∨
          (Frame.handleEvent b ev pc).decides a) :
      ∀ g ∈ [Frame.handleEvent b ev pc'],
        CheckedFrom w (.handleEvent b ev pc) w g :=
    List.forall_mem_singleton.mpr fun a =>
      ⟨fun h => ⟨rfl, hchecks a h⟩, fun h => ⟨rfl, htoken a h⟩⟩
  cases pc with
  | entry =>
      simp only [advanceHandle]
      split
      · next hactive =>
          refine hgo .token (fun a h => .inl ?_) (by rintro _ ⟨⟩)
          rwa [← show b = a from of_decide_eq_true h]
      · exact Unchecked.nil.from
  | token =>
      simp only [advanceHandle]
      split
      · exact (Unchecked.one fun _ => ⟨rfl, rfl⟩).from
      · next htoken =>
          refine hgo .predicate (fun a h => .inr (.inl h)) fun a h => .inl ?_
          rw [← show b = a from of_decide_eq_true h]
          exact Bool.eq_false_iff.mpr htoken
  | predicate =>
      simp only [advanceHandle]
      split
      · exact hgo .matched (fun a h => .inr (.inl h)) fun a h => .inr (.inl h)
      · exact (Unchecked.two (fun _ => ⟨rfl, rfl⟩) fun _ => ⟨rfl, rfl⟩).from
      · split
        · exact hgo .matched (fun a h => .inr (.inl h)) fun a h => .inr (.inl h)
        · exact Unchecked.nil.from
  | deciding =>
      simp only [advanceHandle]
      split
      · exact hgo .matched (fun a h => .inr (.inr h)) fun a h => .inr (.inr h)
      · exact Unchecked.nil.from
  | matched =>
      have hstay := hgo .callback ((by rintro _ ⟨⟩)) fun a h => .inr (.inl h)
      simp only [advanceHandle, cancelThen]
      split
      · split
        · refine List.forall_mem_cons.mpr
            ⟨fun a => ⟨fun h => (by cases h), fun h => (by cases h)⟩,
              List.forall_mem_singleton.mpr fun a => ⟨fun h => (by cases h), fun h => ?_⟩⟩
          exact ⟨deactivate_tokenCancelled w b a .matched, .inr (.inl h)⟩
        · exact hstay
      · exact hstay
  | callback =>
      simp only [advanceHandle]
      split
      · exact (Unchecked.two (fun _ => ⟨rfl, rfl⟩) fun _ => ⟨rfl, rfl⟩).from
      · exact Unchecked.nil.from
  | calling => exact Unchecked.nil.from

theorem advancePoll_checkedFrom (b : Nat) (pc : PollPc) :
    ∀ g ∈ (advancePoll w b pc).frames,
      CheckedFrom w (.pollTimeout b pc) (advancePoll w b pc).world g := by
  cases pc with
  | entry =>
      simp only [advancePoll]
      split
      · next hactive =>
          refine List.forall_mem_singleton.mpr fun a =>
            ⟨fun h => ⟨rfl, .inl ?_⟩, fun h => (by cases h)⟩
          rwa [← show b = a from of_decide_eq_true h]
      · exact Unchecked.nil.from
  | token =>
      simp only [advancePoll]
      split
      · exact (Unchecked.one fun _ => ⟨rfl, rfl⟩).from
      · exact List.forall_mem_singleton.mpr fun a =>
          ⟨fun h => ⟨rfl, .inr (.inl h)⟩, fun h => (by cases h)⟩
  | deadline =>
      simp only [advancePoll]
      split
      · refine List.forall_mem_singleton.mpr fun a =>
          ⟨fun h => ⟨?_, .inr (.inl h)⟩, fun h => (by cases h)⟩
        exact dropTimeout_isActive w b a
      · exact Unchecked.nil.from
  | expired onTimeout => exact (cancelThen_unchecked (.one fun _ => ⟨rfl, rfl⟩)).from
  | timedOut onTimeout =>
      cases onTimeout with
      | false => exact Unchecked.nil.from
      | true => exact (Unchecked.two (fun _ => ⟨rfl, rfl⟩) fun _ => ⟨rfl, rfl⟩).from
  | calling | reporting => exact Unchecked.nil.from

theorem advance_checkedFrom [RequestTraits ε] {alive : Guard → Bool}
    {result : Bool} (h : advance alive w result f = some o) :
    ∀ g ∈ o.frames, CheckedFrom w f o.world g := by
  cases f with
  | user code => cases h
  | handleEvent b ev pc =>
      cases h
      exact advanceHandle_checkedFrom result b ev pc
  | pollTimeout b pc =>
      cases h
      exact advancePoll_checkedFrom b pc
  | records d ev rest pc =>
      cases h
      fun_cases advanceDispatch <;> first
        | exact Unchecked.nil.from
        | exact (Unchecked.one fun _ => ⟨rfl, rfl⟩).from
        | exact (Unchecked.two (fun _ => ⟨rfl, rfl⟩) fun _ => ⟨rfl, rfl⟩).from
  | cancel b canceller =>
      cases h
      exact (cancelThen_unchecked .nil).from
  | createAwaiter spec guard via =>
      cases h
      cases via with
      | none => exact (Unchecked.two (fun _ => ⟨rfl, rfl⟩) fun _ => ⟨rfl, rfl⟩).from
      | some e =>
          exact (Unchecked.cons (fun _ => ⟨rfl, rfl⟩)
            (.two (fun _ => ⟨rfl, rfl⟩) fun _ => ⟨rfl, rfl⟩)).from
  | enqueue ev request =>
      cases h
      cases request with
      | none => exact (Unchecked.one fun _ => ⟨rfl, rfl⟩).from
      | some r => exact (Unchecked.two (fun _ => ⟨rfl, rfl⟩) fun _ => ⟨rfl, rfl⟩).from
  | nextRequestId retry request =>
      simp only [advance] at h
      split at h <;> cases h
      · exact (Unchecked.one fun _ => ⟨rfl, rfl⟩).from
      · cases request with
        | none => exact Unchecked.nil.from
        | some r =>
            exact (Unchecked.two (fun _ => ⟨rfl, rfl⟩) fun _ => ⟨rfl, rfl⟩).from
  | notifyWorkAvailable =>
      simp only [advance] at h
      split at h <;> cases h <;> exact Unchecked.nil.from
  | polling live | draining live n | cancelling live canceller =>
      cases live <;> cases h <;> first
        | exact Unchecked.nil.from
        | exact (Unchecked.two (fun _ => ⟨rfl, rfl⟩) fun _ => ⟨rfl, rfl⟩).from
  | _ =>
      cases h
      first
      | exact Unchecked.nil.from
      | exact (Unchecked.one fun _ => ⟨rfl, rfl⟩).from
      | exact (Unchecked.two (fun _ => ⟨rfl, rfl⟩) fun _ => ⟨rfl, rfl⟩).from

theorem unwind_checkedFrom (h : unwind w f = some o) :
    ∀ g ∈ o.frames, CheckedFrom w f o.world g := by
  unfold unwind at h
  split at h
  case h_2 | h_7 =>
    split at h <;> cases h
    · exact (Unchecked.two (fun _ => ⟨rfl, rfl⟩) fun _ => ⟨rfl, rfl⟩).from
    · exact Unchecked.nil.from
  all_goals cases h
  all_goals exact Unchecked.nil.from

theorem call_checkedFrom (code : UserCode) (c : BusCall ε) :
    ∀ g ∈ (call w c).2 ++ [.user code],
      CheckedFrom w (.user code) (call w c).1 g := by
  cases c <;> first
    | exact (Unchecked.one fun _ => ⟨rfl, rfl⟩).from
    | exact (Unchecked.two (fun _ => ⟨rfl, rfl⟩) fun _ => ⟨rfl, rfl⟩).from
    | exact (Unchecked.cons (fun _ => ⟨rfl, rfl⟩)
        (.two (fun _ => ⟨rfl, rfl⟩) fun _ => ⟨rfl, rfl⟩)).from

theorem Moved.checkedFrom [Fintype ι] [RequestTraits ε] {s : BusSystem ι ε}
    {act : BusAction ι ε} {t : ι} (h : Moved s act t f o) :
    ∀ g ∈ o.frames, CheckedFrom s.world f o.world g := by
  cases h with
  | advance hmode h => exact advance_checkedFrom h
  | unwind hmode h => exact unwind_checkedFrom h
  | call c hmode => exact call_checkedFrom _ c
  | ret | throw => exact Unchecked.nil.from
  | «catch» => exact (Unchecked.one fun _ => ⟨rfl, rfl⟩).from

end

/-! ## Closing an endpoint -/

/-- Frames that neither close nor are about to call back. -/
def Closeless (e : Nat) (fs : List (Frame ε)) : Prop :=
  ∀ g ∈ fs, g.closes e = false ∧ ∀ a, g.armed a = false

/-- The step leaves the endpoint open or closed as it is, and the awaiters that
it keeps stay where `close()` finds them. -/
structure CloseStay (e : Nat) (w : World ε) (f : Frame ε) (w' : World ε)
    (fs : List (Frame ε)) : Prop where
  active : ∀ a, w'.isActive a → w.isActive a
  terms : ∀ a, w'.terms a = w.terms a
  closed : (w.endpoints e).closed → (w'.endpoints e).closed
  empty : f.depth ≠ .creating → (w.endpoints e).awaiters = [] →
    (w'.endpoints e).awaiters = []
  handed : f.detaches e → (w'.endpoints e).awaiters = []
  kept : ∀ a, f.keeps e a ∨ a ∈ (w.endpoints e).awaiters →
    (∃ g ∈ fs, g.keeps e a) ∨ w'.isActive a = false ∨
      a ∈ (w'.endpoints e).awaiters
  log : .closeReturned e ∈ w'.log → .closeReturned e ∈ w.log
  frames : Closeless e fs

inductive CloseMove (e : Nat) (w : World ε) (f : Frame ε) (w' : World ε)
    (fs : List (Frame ε)) : Prop
  | stay (h : CloseStay e w f w' fs)
  | arms (a : Nat) (ev : Event ε) (hf : f = .handleEvent a ev .matched)
      (hactive : ∀ b, w'.isActive b → w.isActive b)
      (hterms : ∀ b, w'.terms b = w.terms b)
      (hendpoints : w'.endpoints = w.endpoints)
      (hlog : .closeReturned e ∈ w'.log → .closeReturned e ∈ w.log)
      (hfs : ∀ g ∈ fs, g.closes e = false ∧ ∀ b, g.armed b → b = a)
  | creates (spec : AwaitSpec) (guard guard' : Option (Option Guard))
      (via : Option Nat) (hf : f = .createAwaiter spec guard via)
      (hw : w' = w.createAwaiter spec guard' via)
      (hguard : (∀ e, guard ≠ some (some (.endpoint e))) →
        guard' = some (some (.endpoint e)) →
          (w.endpoints e).closed = false ∧ .keepHandle e w.nextAwaiter ∈ fs)
      (hfs : Closeless e fs)
  | begins (hf : f = .close e)
      (hw : w' = w.setEndpoint e { w.endpoints e with closed := true })
      (hfs : fs = [.cancelAwaiters e .close, .closeUnsubscribe e])
  | returns (hf : f = .closeUnsubscribe e)
      (hw : w' = (w.unsubscribeAll (.endpoint e)).note (.closeReturned e))
      (hfs : fs = [])

section CloseMove

variable {e : Nat} {w w' : World ε} {f : Frame ε} {fs : List (Frame ε)}
  {o : Outcome ε}

theorem Closeless.nil : Closeless e ([] : List (Frame ε)) := fun _ h => nomatch h

theorem Closeless.cons (hf : f.closes e = false ∧ ∀ a, f.armed a = false)
    (hfs : Closeless e fs) : Closeless e (f :: fs) :=
  List.forall_mem_cons.mpr ⟨hf, hfs⟩

theorem Closeless.one (hf : f.closes e = false ∧ ∀ a, f.armed a = false) :
    Closeless e [f] := .cons hf .nil

theorem Closeless.two {g : Frame ε}
    (hf : f.closes e = false ∧ ∀ a, f.armed a = false)
    (hg : g.closes e = false ∧ ∀ a, g.armed a = false) : Closeless e [f, g] :=
  .cons hf (.one hg)

/-- No endpoint changes, no awaiter wakes up, and `f` keeps nothing. -/
theorem CloseMove.still (hactive : ∀ a, w'.isActive a → w.isActive a)
    (hterms : ∀ a, w'.terms a = w.terms a) (hendpoints : w'.endpoints = w.endpoints)
    (hlog : .closeReturned e ∈ w'.log → .closeReturned e ∈ w.log)
    (hkeeps : ∀ a, f.keeps e a = false) (hdetaches : f.detaches e = false)
    (hfs : Closeless e fs) : CloseMove e w f w' fs :=
  .stay
    { active := hactive
      terms := hterms
      closed := fun h => hendpoints ▸ h
      empty := fun _ h => hendpoints ▸ h
      handed := fun h => absurd h (Bool.eq_false_iff.mp hdetaches)
      kept := fun a h => by
        rcases h with h | h
        · exact absurd h (Bool.eq_false_iff.mp (hkeeps a))
        · exact .inr (.inr (hendpoints ▸ h))
      log := hlog
      frames := hfs }

theorem CloseMove.quiet (hawaiters : w'.awaiters = w.awaiters)
    (hendpoints : w'.endpoints = w.endpoints)
    (hlog : w'.log = w.log ∨ ∃ o : BusObs ε, w'.log = o :: w.log ∧
      o ≠ .closeReturned e)
    (hkeeps : ∀ a, f.keeps e a = false) (hdetaches : f.detaches e = false)
    (hfs : Closeless e fs) : CloseMove e w f w' fs := by
  refine .still (fun a h => ?_) (fun a => ?_) hendpoints (fun h => ?_) hkeeps
    hdetaches hfs
  · rw [World.isActive, hawaiters] at h
    exact h
  · rw [World.terms, hawaiters]
    rfl
  · rcases hlog with hlog | ⟨obs, hlog, hne⟩ <;> rw [hlog] at h
    · exact h
    · exact (List.mem_cons.mp h).resolve_left hne.symm

theorem deactivate_active {b : Nat} {cause : Cause} (a : Nat)
    (h : (w.deactivate b cause).isActive a) : w.isActive a := by
  by_cases hab : a = b
  · rw [hab, deactivate_isActive] at h
    exact absurd h Bool.false_ne_true
  · have ha : (w.deactivate b cause).awaiters a = w.awaiters a := if_neg hab
    rwa [World.isActive, ha] at h

theorem deactivate_log {b : Nat} {cause : Cause}
    (h : .closeReturned e ∈ (w.deactivate b cause).log) :
    .closeReturned e ∈ w.log :=
  (List.mem_cons.mp h).resolve_left nofun

theorem cancelThen_closeMove {b : Nat} {cause : Cause} {rest : List (Frame ε)}
    (hkeeps : ∀ a, f.keeps e a = false) (hdetaches : f.detaches e = false)
    (hrest : Closeless e rest) :
    CloseMove e w f (cancelThen w b cause rest).world
      (cancelThen w b cause rest).frames := by
  unfold cancelThen
  split
  · exact .still deactivate_active (RequestStill.deactivate b cause).terms rfl
      deactivate_log hkeeps hdetaches (.cons ⟨rfl, fun _ => rfl⟩ hrest)
  · exact .quiet rfl rfl (.inl rfl) hkeeps hdetaches hrest

theorem advanceHandle_closeMove [RequestTraits ε] (result : Bool) (b : Nat)
    (ev : Event ε) (pc : HandlePc) :
    CloseMove e w (.handleEvent b ev pc) (advanceHandle w result b ev pc).world
      (advanceHandle w result b ev pc).frames := by
  have hgo (fs : List (Frame ε)) (hfs : Closeless e fs) :
      CloseMove e w (.handleEvent b ev pc) w fs :=
    .quiet rfl rfl (.inl rfl) (fun _ => rfl) rfl hfs
  cases pc with
  | matched =>
      have harmed (g : Frame ε) (hg : g = .handleEvent b ev .callback) :
          g.closes e = false ∧ ∀ c, g.armed c → c = b := by
        subst hg
        exact ⟨rfl, fun c hc => (of_decide_eq_true hc).symm⟩
      have hone : ∀ g ∈ [Frame.handleEvent b ev .callback],
          g.closes e = false ∧ ∀ c, g.armed c → c = b :=
        fun g hg => harmed g (List.mem_singleton.mp hg)
      simp only [advanceHandle, cancelThen]
      split
      · split
        · exact .arms b ev rfl deactivate_active (RequestStill.deactivate b _).terms
            rfl deactivate_log (List.forall_mem_cons.mpr
              ⟨⟨rfl, (by rintro _ ⟨⟩)⟩, hone⟩)
        · exact .arms b ev rfl (fun _ h => h) (fun _ => rfl) rfl (fun h => h) hone
      · exact .arms b ev rfl (fun _ h => h) (fun _ => rfl) rfl (fun h => h) hone
  | callback =>
      simp only [advanceHandle]
      split
      · exact .quiet rfl rfl (.inr ⟨_, rfl, by rintro ⟨⟩⟩) (fun _ => rfl) rfl
          (.two ⟨rfl, fun _ => rfl⟩ ⟨rfl, fun _ => rfl⟩)
      · exact hgo [] .nil
  | predicate =>
      simp only [advanceHandle]
      split
      · exact hgo _ (.one ⟨rfl, fun _ => rfl⟩)
      · exact hgo _ (.two ⟨rfl, fun _ => rfl⟩ ⟨rfl, fun _ => rfl⟩)
      · split
        · exact hgo _ (.one ⟨rfl, fun _ => rfl⟩)
        · exact hgo [] .nil
  | entry | token | deciding =>
      simp only [advanceHandle]
      split <;> first
        | exact hgo _ (.one ⟨rfl, fun _ => rfl⟩)
        | exact hgo [] .nil
  | calling => exact hgo [] .nil

theorem advancePoll_closeMove (b : Nat) (pc : PollPc) :
    CloseMove e w (.pollTimeout b pc) (advancePoll w b pc).world
      (advancePoll w b pc).frames := by
  have hgo (fs : List (Frame ε)) (hfs : Closeless e fs) :
      CloseMove e w (.pollTimeout b pc) w fs :=
    .quiet rfl rfl (.inl rfl) (fun _ => rfl) rfl hfs
  cases pc with
  | expired onTimeout =>
      exact cancelThen_closeMove (fun _ => rfl) rfl (.one ⟨rfl, fun _ => rfl⟩)
  | deadline =>
      simp only [advancePoll]
      split
      · exact .still (fun a h => (dropTimeout_isActive w b a).symm.trans h)
          (dropTimeout_terms w b) rfl (fun h => h) (fun _ => rfl) rfl
          (.one ⟨rfl, fun _ => rfl⟩)
      · exact hgo [] .nil
  | timedOut onTimeout =>
      cases onTimeout with
      | false => exact hgo [] .nil
      | true =>
          exact .quiet rfl rfl (.inr ⟨_, rfl, by rintro ⟨⟩⟩) (fun _ => rfl) rfl
            (.two ⟨rfl, fun _ => rfl⟩ ⟨rfl, fun _ => rfl⟩)
  | entry | token =>
      simp only [advancePoll]
      split <;> first
        | exact hgo _ (.one ⟨rfl, fun _ => rfl⟩)
        | exact hgo [] .nil
  | calling | reporting => exact hgo [] .nil

theorem setEndpoint_self (w : World ε) (b : Nat) (x : Endpoint) :
    (w.setEndpoint b x).endpoints b = x := if_pos rfl

theorem setEndpoint_of_ne (w : World ε) {b c : Nat} (x : Endpoint) (h : c ≠ b) :
    (w.setEndpoint b x).endpoints c = w.endpoints c := if_neg h

/-- Another endpoint changes. -/
theorem CloseMove.elsewhere {b : Nat} {x : Endpoint} (hb : e ≠ b)
    (hkeeps : ∀ a, f.keeps e a = false) (hdetaches : f.detaches e = false)
    (hfs : Closeless e fs) : CloseMove e w f (w.setEndpoint b x) fs := by
  have hsame := setEndpoint_of_ne w x hb
  exact .stay
    { active := fun _ h => h
      terms := fun _ => rfl
      closed := fun h => hsame ▸ h
      empty := fun _ h => hsame ▸ h
      handed := fun h => absurd h (Bool.eq_false_iff.mp hdetaches)
      kept := fun a h => by
        rcases h with h | h
        · exact absurd h (Bool.eq_false_iff.mp (hkeeps a))
        · exact .inr (.inr (hsame ▸ h))
      log := fun h => h
      frames := hfs }

theorem pruneAwaiters_closeMove (b : Nat) (spec : AwaitSpec) :
    CloseMove e w (.makeAwaiter b spec) (w.pruneAwaiters b)
      [.createAwaiter spec none (some b)] := by
  by_cases hb : e = b
  · subst hb
    have hself : ((w.pruneAwaiters e).endpoints e) = { w.endpoints e with
        awaiters := (w.endpoints e).awaiters.filter w.isActive } :=
      setEndpoint_self ..
    exact .stay
      { active := fun _ h => h
        terms := fun _ => rfl
        closed := fun h => by rw [hself]; exact h
        empty := fun h => absurd rfl h
        handed := fun h => nomatch h
        kept := fun a h => by
          rcases h with h | h
          · cases h
          · cases hact : w.isActive a with
            | true => exact .inr (.inr (by
                rw [hself]
                exact List.mem_filter.mpr ⟨h, hact⟩))
            | false => exact .inr (.inl hact)
        log := fun h => h
        frames := .one ⟨rfl, fun _ => rfl⟩ }
  · exact .elsewhere hb (fun _ => rfl) rfl (.one ⟨rfl, fun _ => rfl⟩)

theorem keepHandle_closeMove (b c : Nat) :
    CloseMove e w (.keepHandle b c) (w.setEndpoint b
      { w.endpoints b with awaiters := (w.endpoints b).awaiters ++ [c] }) [] := by
  by_cases hb : e = b
  · subst hb
    have hself := setEndpoint_self w e
      { w.endpoints e with awaiters := (w.endpoints e).awaiters ++ [c] }
    exact .stay
      { active := fun _ h => h
        terms := fun _ => rfl
        closed := fun h => by rw [hself]; exact h
        empty := fun h => absurd rfl h
        handed := fun h => nomatch h
        kept := fun a h => by
          refine .inr (.inr ?_)
          rw [hself]
          refine List.mem_append.mpr (h.symm.imp_right fun h => ?_)
          rw [Frame.keeps, Bool.and_eq_true] at h
          exact List.mem_singleton.mpr (of_decide_eq_true h.2).symm
        log := fun h => h
        frames := .nil }
  · refine .elsewhere hb (fun a => ?_) rfl .nil
    rw [Frame.keeps, decide_eq_false (Ne.symm hb), Bool.false_and]

theorem cancelAwaiters_closeMove (b : Nat) (canceller : Canceller) :
    CloseMove e w (.cancelAwaiters b canceller)
      (w.setEndpoint b { w.endpoints b with awaiters := [] })
      [.cancelling (w.endpoints b).awaiters canceller] := by
  by_cases hb : e = b
  · subst hb
    have hself := setEndpoint_self w e { w.endpoints e with awaiters := [] }
    exact .stay
      { active := fun _ h => h
        terms := fun _ => rfl
        closed := fun h => by rw [hself]; exact h
        empty := fun _ _ => by rw [hself]
        handed := fun _ => by rw [hself]
        kept := fun a h => by
          rcases h with h | h
          · cases h
          · exact .inl ⟨_, List.mem_singleton.mpr rfl, decide_eq_true h⟩
        log := fun h => h
        frames := .one ⟨rfl, fun _ => rfl⟩ }
  · exact .elsewhere hb (fun _ => rfl) (decide_eq_false (Ne.symm hb))
      (.one ⟨rfl, fun _ => rfl⟩)

theorem cancel_closeMove (b : Nat) (canceller : Canceller) :
    CloseMove e w (.cancel b canceller)
      (cancelThen w b (.cancel canceller) []).world
      (cancelThen w b (.cancel canceller) []).frames := by
  have hstay (w' : World ε) (fs : List (Frame ε)) (hw : w'.endpoints = w.endpoints)
      (hactive : ∀ a, w'.isActive a → w.isActive a)
      (hterms : ∀ a, w'.terms a = w.terms a) (hb : w'.isActive b = false)
      (hlog : .closeReturned e ∈ w'.log → .closeReturned e ∈ w.log)
      (hfs : Closeless e fs) : CloseMove e w (.cancel b canceller) w' fs :=
    .stay
      { active := hactive
        terms := hterms
        closed := fun h => hw ▸ h
        empty := fun _ h => hw ▸ h
        handed := fun h => nomatch h
        kept := fun a h => by
          rcases h with h | h
          · exact .inr (.inl ((of_decide_eq_true h : b = a) ▸ hb))
          · exact .inr (.inr (hw ▸ h))
        log := hlog
        frames := hfs }
  unfold cancelThen
  split
  · exact hstay _ _ rfl deactivate_active (RequestStill.deactivate b _).terms
      (deactivate_isActive ..) deactivate_log (.one ⟨rfl, fun _ => rfl⟩)
  · next hactive =>
      exact hstay _ _ rfl (fun _ h => h) (fun _ => rfl)
        (Bool.eq_false_iff.mpr hactive) (fun h => h) .nil

theorem cancelling_closeMove (b : Nat) (live : List Nat) (canceller : Canceller) :
    CloseMove e w (.cancelling (b :: live) canceller) w
      [.cancel b canceller, .cancelling live canceller] :=
  .stay
    { active := fun _ h => h
      terms := fun _ => rfl
      closed := fun h => h
      empty := fun _ h => h
      handed := fun h => nomatch h
      kept := fun a h => by
        rcases h with h | h
        · rcases List.mem_cons.mp (of_decide_eq_true h : a ∈ b :: live) with rfl | h
          · exact .inl ⟨_, List.mem_cons_self, decide_eq_true rfl⟩
          · exact .inl ⟨_, List.mem_cons_of_mem _ List.mem_cons_self,
              decide_eq_true h⟩
        · exact .inr (.inr h)
      log := fun h => h
      frames := .two ⟨rfl, fun _ => rfl⟩ ⟨rfl, fun _ => rfl⟩ }

theorem release_closeMove (b : Nat) :
    CloseMove e w (.release b) (w.release b) [] := by
  refine .still (fun a h => ?_) (RequestStill.release b).terms ?_ (fun h => ?_)
    (fun _ => rfl) rfl .nil
  · rwa [World.isActive, (release_awaiterStill (a := a) b).cancelled] at h
  · unfold World.release
    dsimp only
    split <;> rfl
  · rcases (release_awaiterStill (w := w) (a := 0) b).silent with hlog | ⟨o, hlog, -⟩
    · exact hlog ▸ h
    · have hsame : (w.release b).log = w.log := by
        unfold World.release
        dsimp only
        split <;> rfl
      exact hsame ▸ h

theorem createAwaiter_closeMove [RequestTraits ε] {alive : Guard → Bool}
    {result : Bool} {spec : AwaitSpec} {guard : Option (Option Guard)}
    {via : Option Nat}
    (h : advance alive w result (.createAwaiter spec guard via) = some o) :
    CloseMove e w (.createAwaiter spec guard via) o.world o.frames := by
  cases h
  cases via with
  | none =>
      exact .creates spec guard guard none rfl rfl
        (fun hforeign h => absurd h (hforeign e))
        (.two ⟨rfl, fun _ => rfl⟩ ⟨rfl, fun _ => rfl⟩)
  | some b =>
      refine .creates spec guard (some (w.guard b)) (some b) rfl rfl
        (fun _ h => ?_) (.cons ⟨rfl, fun _ => rfl⟩
          (.two ⟨rfl, fun _ => rfl⟩ ⟨rfl, fun _ => rfl⟩))
      rw [Option.some.injEq, World.guard] at h
      split at h
      · cases h
      · next hopen =>
          cases h
          exact ⟨Bool.eq_false_iff.mpr hopen, List.mem_cons_of_mem _
            (List.mem_cons_of_mem _ List.mem_cons_self)⟩

theorem advance_closeMove [RequestTraits ε] {alive : Guard → Bool}
    {result : Bool} (h : advance alive w result f = some o) :
    CloseMove e w f o.world o.frames := by
  cases f with
  | user code => cases h
  | handleEvent b ev pc =>
      cases h
      exact advanceHandle_closeMove ..
  | pollTimeout b pc =>
      cases h
      exact advancePoll_closeMove ..
  | records d ev rest pc =>
      cases h
      fun_cases advanceDispatch <;> first
        | exact .quiet rfl rfl (.inl rfl) (fun _ => rfl) rfl
            (.one ⟨rfl, fun _ => rfl⟩)
        | exact .quiet rfl rfl (.inr ⟨_, rfl, by rintro ⟨⟩⟩) (fun _ => rfl) rfl .nil
        | exact .quiet rfl rfl (.inr ⟨_, rfl, by rintro ⟨⟩⟩) (fun _ => rfl) rfl
            (.one ⟨rfl, fun _ => rfl⟩)
        | exact .quiet rfl rfl (.inr ⟨_, rfl, by rintro ⟨⟩⟩) (fun _ => rfl) rfl
            (.two ⟨rfl, fun _ => rfl⟩ ⟨rfl, fun _ => rfl⟩)
  | cancel b canceller =>
      cases h
      exact cancel_closeMove ..
  | release b =>
      cases h
      exact release_closeMove b
  | cancelAwaiters b canceller =>
      cases h
      exact cancelAwaiters_closeMove ..
  | cancelling live canceller =>
      cases live <;> cases h
      · exact .quiet rfl rfl (.inl rfl) (fun _ => rfl) rfl .nil
      · exact cancelling_closeMove ..
  | close b =>
      cases h
      by_cases hb : e = b
      · subst hb
        exact .begins rfl rfl rfl
      · exact .elsewhere hb (fun _ => rfl) rfl (.two ⟨rfl, fun _ => rfl⟩
          ⟨decide_eq_false (Ne.symm hb), fun _ => rfl⟩)
  | closeUnsubscribe b =>
      cases h
      by_cases hb : e = b
      · subst hb
        exact .returns rfl rfl rfl
      · exact .quiet rfl rfl (.inr ⟨_, rfl, fun heq => hb (by cases heq; rfl)⟩)
          (fun _ => rfl) rfl .nil
  | makeAwaiter b spec =>
      cases h
      exact pruneAwaiters_closeMove b spec
  | keepHandle b c =>
      cases h
      exact keepHandle_closeMove b c
  | createAwaiter spec guard via => exact createAwaiter_closeMove h
  | storeSubscriptionId b id =>
      cases h
      have hstill (a : Nat) := AwaiterStill.setAwaiter (a := a) (w := w) (b := b)
        (x := { w.awaiters b with subscriptionId := id }) rfl rfl rfl
      refine .still (fun a h => ?_) (RequestStill.setAwaiter
        (x := { w.awaiters b with subscriptionId := id }) rfl).terms rfl
        (fun h => h) (fun _ => rfl) rfl .nil
      exact (congrArg (!·) (hstill a).cancelled).symm.trans h
  | enqueue ev request =>
      cases h
      cases request with
      | none =>
          exact .quiet rfl rfl (.inr ⟨_, rfl, by rintro ⟨⟩⟩) (fun _ => rfl) rfl
            (.one ⟨rfl, fun _ => rfl⟩)
      | some r =>
          exact .quiet rfl rfl (.inr ⟨_, rfl, by rintro ⟨⟩⟩) (fun _ => rfl) rfl
            (.two ⟨rfl, fun _ => rfl⟩ ⟨rfl, fun _ => rfl⟩)
  | nextRequestId retry request =>
      simp only [advance] at h
      split at h <;> cases h
      · exact .quiet rfl rfl (.inl rfl) (fun _ => rfl) rfl (.one ⟨rfl, fun _ => rfl⟩)
      · cases request with
        | none =>
            exact .quiet rfl rfl (.inr ⟨_, rfl, by rintro ⟨⟩⟩) (fun _ => rfl) rfl .nil
        | some r =>
            exact .quiet rfl rfl (.inr ⟨_, rfl, by rintro ⟨⟩⟩) (fun _ => rfl) rfl
              (.two ⟨rfl, fun _ => rfl⟩ ⟨rfl, fun _ => rfl⟩)
  | notifyWorkAvailable =>
      simp only [advance] at h
      split at h <;> cases h
      · exact .quiet rfl rfl (.inr ⟨_, rfl, by rintro ⟨⟩⟩) (fun _ => rfl) rfl .nil
      · exact .quiet rfl rfl (.inl rfl) (fun _ => rfl) rfl .nil
  | polling live | draining live n =>
      cases live <;> cases h <;> first
        | exact .quiet rfl rfl (.inr ⟨_, rfl, by rintro ⟨⟩⟩) (fun _ => rfl) rfl .nil
        | exact .quiet rfl rfl (.inl rfl) (fun _ => rfl) rfl
            (.two ⟨rfl, fun _ => rfl⟩ ⟨rfl, fun _ => rfl⟩)
        | exact .quiet rfl rfl (.inr ⟨_, rfl, by rintro ⟨⟩⟩) (fun _ => rfl) rfl
            (.two ⟨rfl, fun _ => rfl⟩ ⟨rfl, fun _ => rfl⟩)
  | addCallback | registerAwaiter =>
      cases h
      exact .quiet rfl rfl (.inl rfl) (fun _ => rfl) rfl .nil
  | dispatching =>
      cases h
      exact .quiet rfl rfl (.inl rfl) (fun _ => rfl) rfl (.one ⟨rfl, fun _ => rfl⟩)
  | subscribeAwaiter =>
      cases h
      exact .quiet rfl rfl (.inl rfl) (fun _ => rfl) rfl
        (.two ⟨rfl, fun _ => rfl⟩ ⟨rfl, fun _ => rfl⟩)
  | processed | requestReturn =>
      cases h
      exact .quiet rfl rfl (.inr ⟨_, rfl, by rintro ⟨⟩⟩) (fun _ => rfl) rfl .nil
  | dispatch | pollAwaiters | process =>
      cases h
      exact .quiet rfl rfl (.inr ⟨_, rfl, by rintro ⟨⟩⟩) (fun _ => rfl) rfl
        (.one ⟨rfl, fun _ => rfl⟩)

theorem unwind_closeMove (h : unwind w f = some o) :
    CloseMove e w f o.world o.frames := by
  unfold unwind at h
  split at h
  case h_2 | h_7 =>
    split at h <;> cases h
    · exact .quiet rfl rfl (.inl rfl) (fun _ => rfl) rfl
        (.two ⟨rfl, fun _ => rfl⟩ ⟨rfl, fun _ => rfl⟩)
    · exact .quiet rfl rfl (.inl rfl) (fun _ => rfl) rfl .nil
  all_goals cases h
  all_goals
    first
    | exact .quiet rfl rfl (.inl rfl) (fun _ => rfl) rfl .nil
    | exact .quiet rfl rfl (.inr ⟨_, rfl, nofun⟩) (fun _ => rfl) rfl .nil

theorem call_closeMove (code : UserCode) (c : BusCall ε) :
    CloseMove e w (.user code) (call w c).1 ((call w c).2 ++ [.user code]) := by
  cases c with
  | clearPending =>
      exact .quiet rfl rfl (.inr ⟨_, rfl, nofun⟩) (fun _ => rfl) rfl
        (.one ⟨rfl, fun _ => rfl⟩)
  | emit ev =>
      exact .quiet rfl rfl (.inl rfl) (fun _ => rfl) rfl (.cons ⟨rfl, fun _ => rfl⟩
        (.two ⟨rfl, fun _ => rfl⟩ ⟨rfl, fun _ => rfl⟩))
  | _ =>
      first
      | exact .quiet rfl rfl (.inl rfl) (fun _ => rfl) rfl (.one ⟨rfl, fun _ => rfl⟩)
      | exact .quiet rfl rfl (.inl rfl) (fun _ => rfl) rfl
          (.two ⟨rfl, fun _ => rfl⟩ ⟨rfl, fun _ => rfl⟩)

/-- Every step does one of these things to the endpoint. -/
theorem Moved.closeMove [Fintype ι] [RequestTraits ε] {s : BusSystem ι ε}
    {act : BusAction ι ε} {t : ι} (h : Moved s act t f o) :
    CloseMove e s.world f o.world o.frames := by
  cases h with
  | advance hmode h => exact advance_closeMove h
  | unwind hmode h => exact unwind_closeMove h
  | call c hmode => exact call_closeMove ..
  | ret | throw => exact .quiet rfl rfl (.inl rfl) (fun _ => rfl) rfl .nil
  | «catch» =>
      exact .quiet rfl rfl (.inl rfl) (fun _ => rfl) rfl (.one ⟨rfl, fun _ => rfl⟩)

end CloseMove

/-- What `close()` of the endpoint can rely on, on the thread that runs it. -/
structure CloseInv (e : Nat) (w : World ε) (stack : List (Frame ε)) : Prop where
  kept : ∀ a, w.isActive a → (w.terms a).subscriptionGuard = some (.endpoint e) →
    a ∈ (w.endpoints e).awaiters ∨ ∃ f ∈ stack, f.keeps e a
  closing : (∃ f ∈ stack, f.closes e) → (w.endpoints e).closed ∧
    ((w.endpoints e).awaiters = [] ∨ ∃ f ∈ stack, f.detaches e)
  shut : .closeReturned e ∈ w.log → (w.endpoints e).closed ∧
    ∀ a, (w.terms a).subscriptionGuard = some (.endpoint e) → w.isActive a = false
  armed : ∀ a, (∃ f ∈ stack, f.armed a) → (w.terms a).predicate.isRequest →
    (w.terms a).subscriptionGuard = some (.endpoint e) → .closeReturned e ∉ w.log

section CloseInv

variable {e : Nat} {w w' : World ε} {f g : Frame ε} {fs rest : List (Frame ε)}

theorem Frame.depth_of_closes (h : f.closes e) : f.depth = .finishing := by
  cases f <;> first
    | rfl
    | cases h

theorem Frame.depth_of_armed {a : Nat} (h : f.armed a) : f.depth = .finishing := by
  cases f with
  | handleEvent b ev pc =>
      cases pc <;> first
        | rfl
        | cases h
  | _ => cases h

theorem Frame.depth_of_detaches (h : f.detaches e) : f.depth = .cancelling := by
  cases f <;> first
    | rfl
    | cases h

theorem Frame.depth_of_keeps {a : Nat} (h : f.keeps e a) : f.depth ≠ .waiting := by
  intro hdepth
  cases f <;> first
    | cases h
    | cases hdepth

/-- With something on top that is neither a cancellation nor a creation, the
frames below neither close nor keep anything, nor are about to call back. -/
structure OnlyWaiting (e : Nat) (stack : List (Frame ε)) : Prop where
  closes : ¬ ∃ f ∈ stack, f.closes e
  detaches : ¬ ∃ f ∈ stack, f.detaches e
  keeps : ∀ a, ¬ ∃ f ∈ stack, f.keeps e a
  armed : ∀ a, ¬ ∃ f ∈ stack, f.armed a

theorem OnlyWaiting.of_depth (h : ∀ g ∈ rest, g.depth = .waiting) :
    OnlyWaiting e rest where
  closes := fun ⟨g, hg, hc⟩ => by
    have hdepth := h g hg
    rw [Frame.depth_of_closes hc] at hdepth
    cases hdepth
  detaches := fun ⟨g, hg, hc⟩ => by
    have hdepth := h g hg
    rw [Frame.depth_of_detaches hc] at hdepth
    cases hdepth
  keeps := fun _ ⟨g, hg, hk⟩ => Frame.depth_of_keeps hk (h g hg)
  armed := fun _ ⟨g, hg, hc⟩ => by
    have hdepth := h g hg
    rw [Frame.depth_of_armed hc] at hdepth
    cases hdepth

/-- Only a cancellation stands above the end of a `close()`. -/
theorem WellNested.over_closes (h : WellNested (f :: rest))
    (hg : g ∈ rest) (hdepth : g.depth = .finishing) : f.depth = .cancelling := by
  have hover := (List.pairwise_cons.mp h).1 g hg
  rw [hdepth] at hover
  revert hover
  cases f.depth <;> decide

theorem exists_mem_append {p : Frame ε → Bool} (h : ∃ g ∈ fs ++ rest, p g) :
    (∃ g ∈ fs, p g) ∨ ∃ g ∈ rest, p g := by
  obtain ⟨g, hg, hp⟩ := h
  exact (List.mem_append.mp hg).imp (fun hg => ⟨g, hg, hp⟩) fun hg => ⟨g, hg, hp⟩

theorem exists_mem_of_tail {p : Frame ε → Bool} (h : ∃ g ∈ rest, p g) :
    ∃ g ∈ fs ++ rest, p g := by
  obtain ⟨g, hg, hp⟩ := h
  exact ⟨g, List.mem_append_right fs hg, hp⟩

theorem CloseInv.stay (h : CloseInv e w (f :: rest))
    (hnested : WellNested (f :: rest)) (hstay : CloseStay e w f w' fs) :
    CloseInv e w' (fs ++ rest) where
  kept a hactive hguard := by
    rw [hstay.terms a] at hguard
    have hstep (hf : f.keeps e a ∨ a ∈ (w.endpoints e).awaiters) :
        a ∈ (w'.endpoints e).awaiters ∨ ∃ g ∈ fs ++ rest, g.keeps e a := by
      rcases hstay.kept a hf with ⟨g, hg, hk⟩ | hnot | hmem
      · exact .inr ⟨g, List.mem_append_left rest hg, hk⟩
      · exact absurd hactive (Bool.eq_false_iff.mp hnot)
      · exact .inl hmem
    rcases h.kept a (hstay.active a hactive) hguard with hmem | ⟨g, hg, hk⟩
    · exact hstep (.inr hmem)
    · rcases List.mem_cons.mp hg with rfl | hg
      · exact hstep (.inl hk)
      · exact .inr (exists_mem_of_tail ⟨g, hg, hk⟩)
  closing hcloses := by
    rcases exists_mem_append hcloses with ⟨g, hg, hc⟩ | ⟨g, hg, hc⟩
    · exact absurd hc (Bool.eq_false_iff.mp (hstay.frames g hg).1)
    · have hdepth := hnested.over_closes hg (Frame.depth_of_closes hc)
      obtain ⟨hclosed, hlist⟩ := h.closing ⟨g, List.mem_cons_of_mem f hg, hc⟩
      refine ⟨hstay.closed hclosed, ?_⟩
      rcases hlist with hempty | ⟨g', hg', hd⟩
      · exact .inl (hstay.empty (by rw [hdepth]; nofun) hempty)
      · rcases List.mem_cons.mp hg' with rfl | hg'
        · exact .inl (hstay.handed hd)
        · exact .inr (exists_mem_of_tail ⟨g', hg', hd⟩)
  shut hlog := by
    obtain ⟨hclosed, hnone⟩ := h.shut (hstay.log hlog)
    refine ⟨hstay.closed hclosed, fun a hguard => Bool.eq_false_iff.mpr fun hact => ?_⟩
    rw [hstay.terms a] at hguard
    exact Bool.eq_false_iff.mp (hnone a hguard) (hstay.active a hact)
  armed a harmed hrequest hguard hlog := by
    rw [hstay.terms a] at hrequest hguard
    rcases exists_mem_append harmed with ⟨g, hg, hc⟩ | ⟨g, hg, hc⟩
    · exact Bool.eq_false_iff.mp ((hstay.frames g hg).2 a) hc
    · exact h.armed a ⟨g, List.mem_cons_of_mem f hg, hc⟩ hrequest hguard
        (hstay.log hlog)

theorem CloseInv.move [RequestTraits ε] (h : CloseInv e w (f :: rest))
    (hnested : WellNested (f :: rest)) (hknows : f.Knows w)
    (hchecks : ∀ a, f.checks a → (w.terms a).predicate.isRequest → w.isActive a)
    (hmove : CloseMove e w f w' fs) : CloseInv e w' (fs ++ rest) := by
  cases hmove with
  | stay hstay => exact h.stay hnested hstay
  | arms a ev hf hactive hterms hendpoints hlog hfs =>
      subst hf
      have hwait := OnlyWaiting.of_depth (e := e) (hnested.below (by rintro ⟨⟩) (by rintro ⟨⟩))
      exact
        { kept := fun b hb hguard => by
            rw [hterms b] at hguard
            rw [hendpoints]
            rcases h.kept b (hactive b hb) hguard with hmem | ⟨g, hg, hk⟩
            · exact .inl hmem
            · rcases List.mem_cons.mp hg with rfl | hg
              · cases hk
              · exact absurd ⟨g, hg, hk⟩ (hwait.keeps b)
          closing := fun hcloses => by
            rcases exists_mem_append hcloses with ⟨g, hg, hc⟩ | hrest
            · exact absurd hc (Bool.eq_false_iff.mp (hfs g hg).1)
            · exact absurd hrest hwait.closes
          shut := fun hmem => by
            obtain ⟨hclosed, hnone⟩ := h.shut (hlog hmem)
            rw [hendpoints]
            refine ⟨hclosed, fun b hguard => Bool.eq_false_iff.mpr fun hb => ?_⟩
            rw [hterms b] at hguard
            exact Bool.eq_false_iff.mp (hnone b hguard) (hactive b hb)
          armed := fun b harmed hrequest hguard hmem => by
            rw [hterms b] at hrequest hguard
            rcases exists_mem_append harmed with ⟨g, hg, hc⟩ | hrest
            · -- The check has found the awaiter active, so nobody closed.
              obtain rfl := (hfs g hg).2 b hc
              have hact := hchecks b (decide_eq_true rfl) hrequest
              exact Bool.eq_false_iff.mp ((h.shut (hlog hmem)).2 b hguard) hact
            · exact hwait.armed b hrest }
  | creates spec guard guard' via hf hw hguard hfs =>
      subst hf hw
      have hforeign := hguard hknows.2
      have hold {a : Nat} (ha : a ≠ w.nextAwaiter) :
          (w.createAwaiter spec guard' via).awaiters a = w.awaiters a := if_neg ha
      have hnew : (w.createAwaiter spec guard' via).terms w.nextAwaiter =
          (w.newAwaiter spec guard').terms := createAwaiter_terms_self ..
      have hjoin (hself : ((w.createAwaiter spec guard' via).terms
          w.nextAwaiter).subscriptionGuard = some (.endpoint e)) :
          guard' = some (some (.endpoint e)) := by
        rw [hnew] at hself
        exact Option.join_eq_some_iff.mp hself
      have hcreating {g : Frame ε} (hg : g ∈ rest) : g.depth ≠ .finishing :=
        fun hd => by cases hnested.over_closes hg hd
      exact
        { kept := fun a hactive hself => by
            by_cases ha : a = w.nextAwaiter
            · subst ha
              exact .inr ⟨_, List.mem_append_left rest (hforeign (hjoin hself)).2,
                by simp [Frame.keeps]⟩
            · rw [World.isActive, hold ha] at hactive
              rw [World.terms, hold ha] at hself
              rcases h.kept a hactive hself with hmem | ⟨g, hg, hk⟩
              · exact .inl hmem
              · rcases List.mem_cons.mp hg with rfl | hg
                · cases hk
                · exact .inr (exists_mem_of_tail ⟨g, hg, hk⟩)
          closing := fun hcloses => by
            rcases exists_mem_append hcloses with ⟨g, hg, hc⟩ | ⟨g, hg, hc⟩
            · exact absurd hc (Bool.eq_false_iff.mp (hfs g hg).1)
            · exact absurd (Frame.depth_of_closes hc) (hcreating hg)
          shut := fun hmem => by
            have hmem : .closeReturned e ∈ w.log :=
              (List.mem_cons.mp hmem).resolve_left (by rintro ⟨⟩)
            obtain ⟨hclosed, hnone⟩ := h.shut hmem
            refine ⟨hclosed, fun a hself => ?_⟩
            by_cases ha : a = w.nextAwaiter
            · subst ha
              rw [(hforeign (hjoin hself)).1] at hclosed
              cases hclosed
            · rw [World.isActive, hold ha]
              rw [World.terms, hold ha] at hself
              exact hnone a hself
          armed := fun a harmed => by
            rcases exists_mem_append harmed with ⟨g, hg, hc⟩ | ⟨g, hg, hc⟩
            · exact absurd hc (Bool.eq_false_iff.mp ((hfs g hg).2 a))
            · exact absurd (Frame.depth_of_armed hc) (hcreating hg) }
  | begins hf hw hfs =>
      subst hf hw hfs
      have hwait := OnlyWaiting.of_depth (e := e) (hnested.below (by rintro ⟨⟩) (by rintro ⟨⟩))
      have hself := setEndpoint_self w e { w.endpoints e with closed := true }
      exact
        { kept := fun a hactive hguard => by
            rw [hself]
            rcases h.kept a hactive hguard with hmem | ⟨g, hg, hk⟩
            · exact .inl hmem
            · rcases List.mem_cons.mp hg with rfl | hg
              · cases hk
              · exact absurd ⟨g, hg, hk⟩ (hwait.keeps a)
          closing := fun _ => by
            rw [hself]
            exact ⟨rfl, .inr ⟨_, List.mem_cons_self, decide_eq_true rfl⟩⟩
          shut := fun hmem => by
            rw [hself]
            exact ⟨rfl, (h.shut hmem).2⟩
          armed := fun a harmed => by
            obtain ⟨g, hg, hc⟩ := harmed
            rcases List.mem_cons.mp hg with rfl | hg
            · cases hc
            · rcases List.mem_cons.mp hg with rfl | hg
              · cases hc
              · exact absurd ⟨g, hg, hc⟩ (hwait.armed a) }
  | returns hf hw hfs =>
      subst hf hw hfs
      have hwait := OnlyWaiting.of_depth (e := e) (hnested.below (by rintro ⟨⟩) (by rintro ⟨⟩))
      obtain ⟨hclosed, hlist⟩ :=
        h.closing ⟨_, List.mem_cons_self, decide_eq_true rfl⟩
      have hempty : (w.endpoints e).awaiters = [] := by
        rcases hlist with hempty | ⟨g, hg, hd⟩
        · exact hempty
        · rcases List.mem_cons.mp hg with rfl | hg
          · cases hd
          · exact absurd ⟨g, hg, hd⟩ hwait.detaches
      have hnone (a : Nat) (hguard : (w.terms a).subscriptionGuard =
          some (.endpoint e)) : w.isActive a = false := by
        refine Bool.eq_false_iff.mpr fun hactive => ?_
        rcases h.kept a hactive hguard with hmem | ⟨g, hg, hk⟩
        · rw [hempty] at hmem
          cases hmem
        · rcases List.mem_cons.mp hg with rfl | hg
          · cases hk
          · exact hwait.keeps a ⟨g, hg, hk⟩
      exact
        { kept := fun a hactive hguard =>
            absurd hactive (Bool.eq_false_iff.mp (hnone a hguard))
          closing := fun hcloses => absurd hcloses hwait.closes
          shut := fun _ => ⟨hclosed, hnone⟩
          armed := fun a harmed => absurd harmed (hwait.armed a) }

end CloseInv

/-! ## The other threads -/

/-- What a post changes does not matter to awaiters. -/
structure PostStill (w w' : World ε) : Prop where
  awaiters : w'.awaiters = w.awaiters
  endpoints : w'.endpoints = w.endpoints
  tokens : w'.tokens = w.tokens
  log : ∀ e, .closeReturned e ∈ w'.log → .closeReturned e ∈ w.log

theorem Moved.posting [Fintype ι] [DecidableEq ι] [RequestTraits ε]
    {s : BusSystem ι ε} {act : BusAction ι ε} {t t₀ : ι} {f : Frame ε}
    {o : Outcome ε} (h : Moved s act t f o) (hf : f.posting)
    (hone : OneDispatcher t₀ act) (ht : t ≠ t₀) :
    PostStill s.world o.world ∧ ∀ g ∈ o.frames, g.posting := by
  have hlog {obs : BusObs ε} (hne : ∀ e, obs ≠ .closeReturned e) (e : Nat)
      (h : .closeReturned e ∈ obs :: s.world.log) : .closeReturned e ∈ s.world.log :=
    (List.mem_cons.mp h).resolve_left (hne e).symm
  cases h with
  | advance hmode h =>
      cases f with
      | user code => cases h
      | enqueue ev request =>
          cases request with
          | none =>
              cases h
              exact ⟨⟨rfl, rfl, rfl, hlog fun _ => by rintro ⟨⟩⟩,
                List.forall_mem_singleton.mpr rfl⟩
          | some r => cases hf
      | notifyWorkAvailable =>
          simp only [EventHub.advance] at h
          split at h <;> cases h
          · exact ⟨⟨rfl, rfl, rfl, hlog fun _ => by rintro ⟨⟩⟩, (by rintro _ ⟨⟩)⟩
          · exact ⟨⟨rfl, rfl, rfl, fun _ h => h⟩, (by rintro _ ⟨⟩)⟩
      | _ => cases hf
  | unwind hmode h =>
      cases f with
      | user code | notifyWorkAvailable | enqueue => cases h
      | _ => cases hf
  | call c hmode =>
      rename_i code
      have hcall := hone.1.resolve_left ht
      cases c with
      | post ev =>
          exact ⟨⟨rfl, rfl, rfl, fun _ h => h⟩, List.forall_mem_cons.mpr
            ⟨rfl, List.forall_mem_singleton.mpr hf⟩⟩
      | _ => cases hcall
  | ret result hmode hcode =>
      exact ⟨⟨rfl, rfl, rfl, fun _ h => h⟩, (by rintro _ ⟨⟩)⟩
  | throw hcode => exact ⟨⟨rfl, rfl, rfl, fun _ h => h⟩, (by rintro _ ⟨⟩)⟩
  | «catch» hmode =>
      exact ⟨⟨rfl, rfl, rfl, fun _ h => h⟩, List.forall_mem_singleton.mpr hf⟩

section

variable {w w' : World ε} {f : Frame ε} {o : Outcome ε}

/-- Only code of the program cancels tokens. -/
theorem advance_tokens [RequestTraits ε] {alive : Guard → Bool} {result : Bool}
    (h : advance alive w result f = some o) : o.world.tokens = w.tokens := by
  cases f with
  | user code => cases h
  | records d ev rest pc =>
      cases h
      fun_cases advanceDispatch <;> rfl
  | handleEvent b ev pc =>
      cases h
      fun_cases advanceHandle <;> first
        | rfl
        | (unfold cancelThen; split <;> rfl)
  | pollTimeout b pc =>
      cases h
      fun_cases advancePoll <;> first
        | rfl
        | (unfold cancelThen; split <;> rfl)
  | cancel b canceller =>
      cases h
      unfold cancelThen
      split <;> rfl
  | release b =>
      cases h
      show (w.release b).tokens = w.tokens
      unfold World.release
      dsimp only
      split <;> rfl
  | nextRequestId retry request =>
      simp only [advance] at h
      split at h <;> cases h <;> rfl
  | polling live | draining live n | cancelling live canceller =>
      cases live <;> cases h <;> rfl
  | notifyWorkAvailable =>
      simp only [advance] at h
      split at h <;> cases h <;> rfl
  | _ =>
      cases h
      rfl

theorem unwind_tokens (h : unwind w f = some o) : o.world.tokens = w.tokens := by
  unfold unwind at h
  split at h
  case h_2 | h_7 => split at h <;> cases h <;> rfl
  all_goals cases h
  all_goals rfl

theorem Moved.tokens [Fintype ι] [RequestTraits ε] {s : BusSystem ι ε}
    {act : BusAction ι ε} {t : ι} (h : Moved s act t f o) :
    o.world.tokens = s.world.tokens ∨ ∃ code, f = .user code := by
  cases h with
  | advance hmode h => exact .inl (advance_tokens h)
  | unwind hmode h => exact .inl (unwind_tokens h)
  | call | ret | throw | «catch» => exact .inr ⟨_, rfl⟩

/-- A callback starts only from its frame. -/
theorem RequestMove.started [RequestTraits ε] {fs : List (Frame ε)}
    (h : RequestMove w f w' fs) : w'.log = w.log ∨
      ∃ o : BusObs ε, w'.log = o :: w.log ∧
        ∀ a, o.startsCallback a → f.armed a := by
  have hnot {o : BusObs ε} (ho : o.concernsRequests = false) (a : Nat)
      (hs : o.startsCallback a) : f.armed a := by
    cases o <;> first
      | cases hs
      | cases ho
  cases h with
  | still hstill | dispatched _ _ _ hstill | walked _ _ _ _ _ _ _ _ hstill
  | handled _ _ _ _ _ _ hstill | subscribed _ _ _ hstill | made _ _ _ hstill =>
      exact hstill.log.imp_right fun ⟨o, hlog, ho⟩ => ⟨o, hlog, hnot ho⟩
  | called a ev hf hw =>
      subst hf hw
      exact .inr ⟨_, rfl, fun b hb => hb⟩
  | created spec guard guard' via hf hguard hw =>
      subst hw
      exact .inr ⟨_, rfl, fun _ h => nomatch h⟩
  | added type r hf hw =>
      subst hw
      exact .inl rfl
  | posted ev e id hf hw =>
      subst hw
      exact .inr ⟨_, rfl, fun _ h => nomatch h⟩
  | returned e id ticket hf hw =>
      subst hw
      exact .inr ⟨_, rfl, fun _ h => nomatch h⟩
  | redrawn request hf hzero hw =>
      subst hw
      exact .inl rfl
  | drew retry request hf hw =>
      subst hw
      exact .inr ⟨_, rfl, fun _ h => nomatch h⟩

end

/-! ## The dispatching thread -/

structure DispatcherInv [Fintype ι] [RequestTraits ε] (t₀ : ι)
    (s : BusSystem ι ε) : Prop where
  requests : RequestsInv s
  others : ∀ t ≠ t₀, ∀ f ∈ s.frames t, f.posting
  checks : ∀ f ∈ (s.frames t₀).head?, ∀ a, f.checks a →
    (s.world.terms a).predicate.isRequest → s.world.isActive a
  tokens : ∀ f ∈ s.frames t₀, ∀ a, f.tokenChecked a →
    (s.world.terms a).predicate.isRequest → s.world.tokenCancelled a = false
  closing : ∀ e, CloseInv e s.world (s.frames t₀)
  quiet : ∀ a e, (s.world.terms a).predicate.isRequest →
    (s.world.terms a).subscriptionGuard = some (.endpoint e) →
    s.world.log.Pairwise fun later earlier =>
      earlier = .closeReturned e → later.startsCallback a = false
  safe : ∀ a, s.world.nextAwaiter ≤ a ∨ (s.world.terms a).predicate.isRequest →
    AwaiterInv a s.world s.frames

section DispatcherInv

variable {f : Frame ε}

theorem Frame.depth_of_checks {a : Nat} (h : f.checks a) : f.depth = .fleeting := by
  cases f with
  | handleEvent b ev pc =>
      cases pc <;> first
        | rfl
        | cases h
  | pollTimeout b pc =>
      cases pc <;> first
        | rfl
        | cases h
  | _ => cases h

theorem Frame.depth_of_tokenChecked {a : Nat} (h : f.tokenChecked a) :
    f.depth ≠ .waiting := by
  intro hdepth
  cases f with
  | handleEvent b ev pc =>
      cases pc <;> first
        | cases h
        | cases hdepth
  | _ => cases h

variable [RequestTraits ε]

/-- The predicate of a request decides nothing later. -/
theorem Frame.Knows.not_decides {w : World ε} {a : Nat} (h : f.Knows w)
    (hf : f.decides a) (hrequest : (w.terms a).predicate.isRequest) : False := by
  cases f with
  | handleEvent b ev pc =>
      cases pc with
      | deciding =>
          obtain rfl : b = a := of_decide_eq_true hf
          cases hp : (w.terms b).predicate with
          | requestId id => exact (h.2.2 id hp).1 rfl
          | _ =>
              rw [hp] at hrequest
              cases hrequest
      | _ => cases hf
  | _ => cases hf

variable [Fintype ι] {t₀ t : ι} {s s' : BusSystem ι ε} {act : BusAction ι ε}
  {o : Outcome ε} {rest : List (Frame ε)}

/-- A step finds the awaiter of a request as it was checked. -/
theorem DispatcherInv.findsLive (h : DispatcherInv t₀ s)
    (ht : s.frames t = f :: rest) {a : Nat}
    (ha : s.world.nextAwaiter ≤ a ∨ (s.world.terms a).predicate.isRequest) :
    StillLive a s.world f := by
  have hinv := h.safe a ha
  have hrequest (hengaged : f.engaged a) : (s.world.terms a).predicate.isRequest := by
    refine ha.resolve_left fun hfresh => ?_
    exact Bool.eq_false_iff.mp ((hinv.fresh hfresh).2.1.top ht) hengaged
  have hactive (hengaged : f.engaged a) (hchecks : f.checks a) :
      s.world.isActive a := by
    have htop : t = t₀ := by
      refine by_contra fun hne => ?_
      have hposting := h.others t hne f (ht ▸ List.mem_cons_self)
      have hdepth := Frame.depth_of_checks hchecks
      cases f with
      | user | enqueue | notifyWorkAvailable => cases hdepth
      | _ => cases hposting
    subst htop
    exact h.checks f (by rw [ht]; rfl) a hchecks (hrequest hengaged)
  cases f with
  | handleEvent b ev pc =>
      cases pc with
      | matched =>
          rintro rfl - -
          exact hactive (decide_eq_true rfl) (decide_eq_true rfl)
      | callback =>
          rintro rfl hsingle -
          have hreq := hrequest (decide_eq_true rfl)
          cases hp : (s.world.terms b).predicate with
          | requestId id =>
              have hs := h.requests.requests.single b id hp
              rw [show (s.world.terms b).singleShot = false from hsingle] at hs
              cases hs
          | _ =>
              rw [hp] at hreq
              cases hreq
      | _ => trivial
  | pollTimeout b pc =>
      cases pc with
      | expired onTimeout =>
          cases onTimeout with
          | true =>
              rintro rfl - -
              have hact := hactive (decide_eq_true rfl) (decide_eq_true rfl)
              have hzero := hinv.active hact
              have hclaims := countP_claims b s.world.log
              refine Bool.eq_false_iff.mpr fun hany => ?_
              have hpos := List.countP_pos_iff.mpr (List.any_eq_true.mp hany)
              omega
          | false => trivial
      | _ => trivial
  | _ => trivial

theorem DispatcherInv.meets (h : DispatcherInv t₀ s) {a : Nat}
    (ha : s.world.nextAwaiter ≤ a ∨ (s.world.terms a).predicate.isRequest) :
    FindsLive a s act := by
  cases act with
  | advance t =>
      intro f hf
      cases hframes : s.frames t with
      | nil =>
          rw [hframes] at hf
          cases hf
      | cons g rest =>
          rw [hframes, List.head?_cons] at hf
          cases hf
          exact h.findsLive hframes ha
  | _ => trivial

omit [RequestTraits ε] [Fintype ι] in
theorem tokenCancelled_congr {w w' : World ε} {a : Nat}
    (htokens : w'.tokens = w.tokens) (hterms : w'.terms a = w.terms a) :
    w'.tokenCancelled a = w.tokenCancelled a := by
  have htoken : (w'.awaiters a).token = (w.awaiters a).token :=
    congrArg AwaiterTerms.token hterms
  rw [World.tokenCancelled, World.tokenCancelled, htoken, htokens]

omit [RequestTraits ε] [Fintype ι] in
theorem Frame.not_posting_of_armed {a : Nat} (h : f.armed a) : f.posting = false := by
  cases f <;> first
    | rfl
    | cases h

omit [RequestTraits ε] [Fintype ι] in
/-- A step of another thread leaves what the dispatching thread relies on. -/
theorem CloseInv.post {e : Nat} {w w' : World ε} {stack : List (Frame ε)}
    (h : CloseInv e w stack) (hstill : PostStill w w') : CloseInv e w' stack := by
  have hterms (a : Nat) : w'.terms a = w.terms a := by
    rw [World.terms, hstill.awaiters]
    rfl
  have hactive (a : Nat) : w'.isActive a = w.isActive a := by
    rw [World.isActive, hstill.awaiters]
    rfl
  exact
    { kept := fun a => by
        rw [hterms a, hactive a, hstill.endpoints]
        exact h.kept a
      closing := by
        rw [hstill.endpoints]
        exact h.closing
      shut := fun hlog => by
        rw [hstill.endpoints]
        refine ⟨(h.shut (hstill.log e hlog)).1, fun a => ?_⟩
        rw [hterms a, hactive a]
        exact (h.shut (hstill.log e hlog)).2 a
      armed := fun a => by
        rw [hterms a]
        exact fun harmed hrequest hguard hlog =>
          h.armed a harmed hrequest hguard (hstill.log e hlog) }

variable [DecidableEq ι]

/-- What the checks on top of the dispatching thread say after a step. -/
theorem DispatcherInv.checks_move (h : DispatcherInv t₀ s)
    (hone : OneDispatcher t₀ act) (ht : s.frames t = f :: rest)
    (hmoved : Moved s act t f o) :
    ∀ g ∈ (Threads.replaceTop s.frames t o.frames t₀).head?, ∀ a, g.checks a →
      (o.world.terms a).predicate.isRequest → o.world.isActive a := by
  have hgrows := (hmoved.requestMove hone.ownPredicates).awaits.grows
  intro g hg a hchecks hrequest
  by_cases htt : t = t₀
  · subst htt
    rw [Threads.replaceTop_self, ht, List.tail_cons, List.head?_append] at hg
    cases hfs : o.frames.head? with
    | none =>
        rw [hfs, Option.none_or] at hg
        have hnested := h.requests.nested t
        rw [ht] at hnested
        exact absurd (Frame.depth_of_checks hchecks)
          (hnested.tail g (List.mem_of_mem_head? hg))
    | some g' =>
        rw [hfs, Option.some_or] at hg
        cases hg
        have hmem := List.mem_of_mem_head? hfs
        obtain ⟨hactive, hfrom⟩ := (hmoved.checkedFrom g hmem a).1 hchecks
        have hlt : a < s.world.nextAwaiter := by
          refine Nat.lt_of_not_le fun hfresh => ?_
          obtain ⟨hnot, hengaged, -⟩ := (h.safe a (.inl hfresh)).fresh hfresh
          rcases hfrom with hact | hc | hd
          · exact Bool.eq_false_iff.mp hnot hact
          · refine Bool.eq_false_iff.mp (hengaged.top ht) ?_
            revert hc
            fun_cases Frame.checks a f <;> simp [Frame.engaged]
          · refine Bool.eq_false_iff.mp (hengaged.top ht) ?_
            revert hd
            fun_cases Frame.decides a f <;> simp [Frame.engaged]
        rw [hgrows.terms a hlt] at hrequest
        rw [hactive]
        rcases hfrom with hact | hc | hd
        · exact hact
        · exact h.checks f (by rw [ht]; rfl) a hc hrequest
        · exact absurd hrequest
            ((h.requests.requests.knows.top ht).not_decides hd)
  · rw [Threads.replaceTop_of_ne (Ne.symm htt)] at hg
    have hf := h.others t htt f (ht ▸ List.mem_cons_self)
    have hstill := (hmoved.posting hf hone htt).1
    rw [World.terms, hstill.awaiters] at hrequest
    rw [World.isActive, hstill.awaiters]
    exact h.checks g hg a hchecks hrequest

/-- What the checks of tokens say after a step. -/
theorem DispatcherInv.tokens_move (h : DispatcherInv t₀ s)
    (hone : OneDispatcher t₀ act) (ht : s.frames t = f :: rest)
    (hmoved : Moved s act t f o) :
    ∀ g ∈ Threads.replaceTop s.frames t o.frames t₀, ∀ a, g.tokenChecked a →
      (o.world.terms a).predicate.isRequest → o.world.tokenCancelled a = false := by
  have hgrows := (hmoved.requestMove hone.ownPredicates).awaits.grows
  intro g hg a hchecked hrequest
  by_cases htt : t = t₀
  · subst htt
    rw [Threads.replaceTop_self, ht, List.tail_cons] at hg
    rcases List.mem_append.mp hg with hg | hg
    · obtain ⟨htoken, hfrom⟩ := (hmoved.checkedFrom g hg a).2 hchecked
      rw [htoken]
      have hlt (hc : f.tokenChecked a ∨ f.decides a) : a < s.world.nextAwaiter := by
        have hknows := h.requests.requests.knows.top ht
        cases f with
        | handleEvent b ev pc =>
            have hb : b = a := by
              cases pc <;> rcases hc with hc | hc <;> first
                | exact of_decide_eq_true hc
                | cases hc
            exact hb ▸ hknows.1
        | _ => rcases hc with hc | hc <;> cases hc
      rcases hfrom with hnot | hc | hd
      · exact hnot
      · rw [hgrows.terms a (hlt (.inl hc))] at hrequest
        exact h.tokens f (ht ▸ List.mem_cons_self) a hc hrequest
      · rw [hgrows.terms a (hlt (.inr hd))] at hrequest
        exact absurd hrequest ((h.requests.requests.knows.top ht).not_decides hd)
    · have hmem : g ∈ s.frames t := ht ▸ List.mem_cons_of_mem f hg
      have hlt : a < s.world.nextAwaiter := by
        have hknows := h.requests.requests.knows t g hmem
        cases g with
        | handleEvent b ev pc =>
            have hb : b = a := by
              cases pc <;> first
                | exact of_decide_eq_true hchecked
                | cases hchecked
            exact hb ▸ hknows.1
        | _ => cases hchecked
      have hnested := h.requests.nested t
      rw [ht] at hnested
      have htokens : o.world.tokens = s.world.tokens := by
        refine hmoved.tokens.resolve_right fun ⟨code, hcode⟩ => ?_
        subst hcode
        exact Frame.depth_of_tokenChecked hchecked
          (hnested.below nofun nofun g hg)
      rw [hgrows.terms a hlt] at hrequest
      rw [tokenCancelled_congr htokens (hgrows.terms a hlt)]
      exact h.tokens g hmem a hchecked hrequest
  · rw [Threads.replaceTop_of_ne (Ne.symm htt)] at hg
    have hf := h.others t htt f (ht ▸ List.mem_cons_self)
    have hstill := (hmoved.posting hf hone htt).1
    have hterms : o.world.terms a = s.world.terms a := by
      rw [World.terms, hstill.awaiters]
      rfl
    rw [hterms] at hrequest
    rw [tokenCancelled_congr hstill.tokens hterms]
    exact h.tokens g hg a hchecked hrequest

theorem DispatcherInv.quiet_move (h : DispatcherInv t₀ s)
    (hone : OneDispatcher t₀ act) (ht : s.frames t = f :: rest)
    (hmoved : Moved s act t f o) {a e : Nat}
    (hrequest : (o.world.terms a).predicate.isRequest)
    (hguard : (o.world.terms a).subscriptionGuard = some (.endpoint e)) :
    o.world.log.Pairwise fun later earlier =>
      earlier = .closeReturned e → later.startsCallback a = false := by
  have hmove := hmoved.requestMove hone.ownPredicates
  have hgrows := hmove.awaits.grows
  by_cases hlt : a < s.world.nextAwaiter
  · rw [hgrows.terms a hlt] at hrequest hguard
    have hquiet := h.quiet a e hrequest hguard
    rcases hmove.started with hlog | ⟨obs, hlog, hobs⟩ <;> rw [hlog]
    · exact hquiet
    · refine List.pairwise_cons.mpr ⟨fun earlier hearlier heq => ?_, hquiet⟩
      refine Bool.eq_false_iff.mpr fun hstarts => ?_
      have harmed := hobs a hstarts
      have htt : t = t₀ := by
        refine by_contra fun htt => ?_
        have hf := h.others t htt f (ht ▸ List.mem_cons_self)
        rw [Frame.not_posting_of_armed harmed] at hf
        cases hf
      subst htt
      exact (h.closing e).armed a ⟨f, ht ▸ List.mem_cons_self, harmed⟩ hrequest
        hguard (heq ▸ hearlier)
  · -- The awaiter is new, and no callback of it has started.
    have hfresh := Nat.le_of_not_lt hlt
    obtain ⟨-, hengaged, hnone⟩ := (h.safe a (.inl hfresh)).fresh hfresh
    have hsilent : ∀ obs ∈ o.world.log, obs.startsCallback a = false := by
      intro obs hobs
      have hold : ∀ obs ∈ s.world.log, obs.startsCallback a = false := fun obs hobs => by
        have hconcerns := hnone obs hobs
        rw [BusObs.concerns, Bool.or_eq_false_iff, Bool.or_eq_false_iff] at hconcerns
        exact hconcerns.1.2
      rcases hmove.started with hlog | ⟨obs', hlog, hobs'⟩ <;> rw [hlog] at hobs
      · exact hold obs hobs
      · rcases List.mem_cons.mp hobs with rfl | hobs
        · refine Bool.eq_false_iff.mpr fun hstarts => ?_
          refine Bool.eq_false_iff.mp
            (Frame.armed_of_engaged (hengaged.top ht)) (hobs' a hstarts)
        · exact hold obs hobs
    exact (List.pairwise_of_forall_mem_list fun later hlater _ _ _ =>
      hsilent later hlater)

theorem DispatcherInv.step (h : DispatcherInv t₀ s) (hone : OneDispatcher t₀ act)
    (hstep : BusSystem.step s act = some s') : DispatcherInv t₀ s' := by
  have hrequests := h.requests.step hone.ownPredicates hstep
  have hsafe {a : Nat} (ha : s.world.nextAwaiter ≤ a ∨
      (s.world.terms a).predicate.isRequest) : AwaiterInv a s'.world s'.frames :=
    (h.safe a ha).step (h.meets ha) hstep
  rcases BusSystem.step_cases hstep with
    ⟨delta, rfl, rfl⟩ | ⟨t, f, rest, o, ht, hmoved, rfl⟩
  · exact
      { requests := hrequests
        others := h.others
        checks := h.checks
        tokens := h.tokens
        closing := fun e => ⟨(h.closing e).kept, (h.closing e).closing,
          (h.closing e).shut, (h.closing e).armed⟩
        quiet := h.quiet
        safe := fun a ha => hsafe ha }
  have hgrows := (hmoved.requestMove hone.ownPredicates).awaits.grows
  exact
    { requests := hrequests
      others := fun u hu g hg => by
        show g.posting
        change g ∈ Threads.replaceTop s.frames t o.frames u at hg
        by_cases hut : u = t
        · subst hut
          rw [Threads.replaceTop_self, ht, List.tail_cons] at hg
          have hf := h.others u hu f (ht ▸ List.mem_cons_self)
          rcases List.mem_append.mp hg with hg | hg
          · exact (hmoved.posting hf hone hu).2 g hg
          · exact h.others u hu g (ht ▸ List.mem_cons_of_mem f hg)
        · rw [Threads.replaceTop_of_ne hut] at hg
          exact h.others u hu g hg
      checks := h.checks_move hone ht hmoved
      tokens := h.tokens_move hone ht hmoved
      closing := fun e => by
        show CloseInv e o.world (Threads.replaceTop s.frames t o.frames t₀)
        by_cases htt : t = t₀
        · subst htt
          rw [Threads.replaceTop_self, ht, List.tail_cons]
          refine CloseInv.move (ht ▸ h.closing e) (ht ▸ h.requests.nested t)
            (h.requests.requests.knows.top ht) (fun a => ?_) hmoved.closeMove
          exact h.checks f (by rw [ht]; rfl) a
        · rw [Threads.replaceTop_of_ne (Ne.symm htt)]
          have hf := h.others t htt f (ht ▸ List.mem_cons_self)
          exact (h.closing e).post (hmoved.posting hf hone htt).1
      quiet := fun a e => h.quiet_move hone ht hmoved
      safe := fun a ha => by
        refine hsafe ?_
        by_cases hlt : a < s.world.nextAwaiter
        · refine .inr ?_
          rcases ha with ha | ha
          · exact absurd (hlt.trans_le hgrows.nextAwaiter) (Nat.not_lt.mpr ha)
          · rwa [show (s.put t o).world = o.world from rfl, hgrows.terms a hlt] at ha
        · exact .inl (Nat.le_of_not_lt hlt) }

omit [DecidableEq ι] in
theorem DispatcherInv.init : DispatcherInv t₀ ({} : BusSystem ι ε) where
  requests := .init
  others _ _ f hf := by
    rw [List.mem_singleton.mp hf]
    rfl
  checks f hf := by
    cases hf
    exact fun _ h => nomatch h
  tokens f hf := by
    rw [List.mem_singleton.mp hf]
    exact fun _ h => nomatch h
  closing e :=
    { kept := fun _ h => nomatch h
      closing := fun ⟨f, hf, hc⟩ => by
        rw [List.mem_singleton.mp hf] at hc
        cases hc
      shut := fun h => absurd h List.not_mem_nil
      armed := fun _ _ _ _ h => absurd h List.not_mem_nil }
  quiet _ _ _ _ := .nil
  safe _ _ := .init

end DispatcherInv

/-- What a program can rely on that makes requests. -/
structure RequestsCorrelated [RequestTraits ε] (s : BusSystem ι ε) : Prop where
  ids : (drawnIds s.world.log).length < 2 ^ 64 →
    (drawnIds s.world.log).Nodup ∧ invalidRequestId ∉ drawnIds s.world.log
  /-- The returned id was drawn, the posted event carries it, and an awaiter of
  the endpoint waits for it. -/
  returned : ∀ e id ticket, .requestReturned e id ticket ∈ s.world.log →
    id ∈ drawnIds s.world.log ∧ s.world.Posted id ticket ∧
      ∃ a, s.world.Awaited e id a
  apart : (drawnIds s.world.log).length < 2 ^ 64 → ∀ a b id,
    (s.world.terms a).predicate = .requestId id →
      (s.world.terms b).predicate = .requestId id → a = b
  own : ∀ a id ev, (s.world.terms a).predicate = .requestId id →
    .callbackStarted a ev ∈ s.world.log → ev.getId = id
  /-- At most once, and not after a timeout or a cancellation. -/
  safe : ∀ a id, (s.world.terms a).predicate = .requestId id →
    AwaiterSafe a true s.world.log
  /-- Not after `close()` of the endpoint. -/
  closed : ∀ a id e, (s.world.terms a).predicate = .requestId id →
    .created a (some e) ∈ s.world.log →
    s.world.log.Pairwise fun later earlier =>
      earlier = .closeReturned e → later.startsCallback a = false
  /-- Not after its token was cancelled. -/
  token : ∀ t a id ev rest, (s.world.terms a).predicate = .requestId id →
    s.frames t = .handleEvent a ev .callback :: rest →
    s.world.tokenCancelled a = false

namespace BusSystem

variable [Fintype ι] [DecidableEq ι] [RequestTraits ε] {t₀ : ι}
  {s : BusSystem ι ε}

/-- In every run on one dispatching thread the results find their requests. -/
theorem run_requestsCorrelated {as : List (BusAction ι ε)}
    (hrun : Lts.run step {} as = some s)
    (hone : Lts.RunMeets step (fun _ act => OneDispatcher t₀ act) {} as) :
    RequestsCorrelated s := by
  have h := Lts.run_invariant_of_meets (P := DispatcherInv t₀)
    (fun _ _ _ h hone hstep => h.step hone hstep) .init hone hrun
  have hrequest {a id : Nat} (hid : (s.world.terms a).predicate = .requestId id) :
      (s.world.terms a).predicate.isRequest := by
    rw [hid]
    rfl
  exact
    { ids := fun hfew => by
        rw [h.requests.ids.drawn hfew]
        refine ⟨List.nodup_range' .., fun hzero => ?_⟩
        exact absurd (List.mem_range'_1.mp hzero).1 (Nat.not_succ_le_zero 0)
      returned := fun e id ticket hmem => by
        obtain ⟨hid, hposted⟩ := h.requests.requests.log _ hmem
        exact ⟨hid, hposted, h.requests.awaited.log e id ticket hmem⟩
      apart := fun hfew a b id ha hb => h.requests.apart hfew ha hb
      own := fun a id ev hid hmem => (h.requests.requests.log _ hmem).2.2 id hid
      safe := fun a id hid => by
        have hsafe := (h.safe a (.inr (hrequest hid))).awaiterSafe
        rwa [show (s.world.awaiters a).singleShot = true from
          h.requests.requests.single a id hid] at hsafe
      closed := fun a id e hid hmem => by
        obtain ⟨-, hhas, hnone | hguard⟩ := h.requests.requests.log _ hmem
        · -- Made when the endpoint was closed: its record is never called.
          refine List.pairwise_of_forall_mem_list fun later hlater _ _ _ => ?_
          refine Bool.eq_false_iff.mpr fun hstarts => ?_
          cases later with
          | callbackStarted b ev =>
              obtain rfl : b = a := of_decide_eq_true hstarts
              exact (h.requests.requests.log _ hlater).2.1 ⟨hhas, hnone⟩
          | _ => cases hstarts
        · exact h.quiet a e (hrequest hid) hguard
      token := fun t a id ev rest hid hframes => by
        have htt : t = t₀ := by
          refine by_contra fun htt => ?_
          cases h.others t htt _ (hframes ▸ List.mem_cons_self)
        subst htt
        have hchecked : (Frame.handleEvent a ev .callback).tokenChecked a :=
          decide_eq_true rfl
        exact h.tokens _ (hframes ▸ List.mem_cons_self) a hchecked (hrequest hid) }

end BusSystem

/-- A request, its result posted by another thread, and `process()` up to the
callback of the request. -/
def requestRun : List (BusAction Bool Nat) :=
  [.call true (.request 0 { type := 0, payload := 0 } { type := 1 })] ++
  List.replicate 11 (.advance true) ++
  [.call false (.post { type := 1, payload := 1 })] ++
  List.replicate 2 (.advance false) ++ [.call true .process] ++
  List.replicate 15 (.advance true)

theorem BusSystem.run_requestsCorrelated_posted :
    ∃ s, Lts.run step ({} : BusSystem Bool Nat) requestRun = some s ∧
      s.world.log.any (·.startsCallback 0) ∧ RequestsCorrelated s := by
  obtain ⟨s, hs, hstarted⟩ : ∃ s : BusSystem Bool Nat,
      Lts.run step {} requestRun = some s ∧
        s.world.log.any (·.startsCallback 0) :=
    Lts.exists_run_of_decide (by decide)
  have hone : Lts.RunMeets BusSystem.step (fun _ act => OneDispatcher true act)
      {} requestRun := .of_checks (by decide)
  exact ⟨s, hs, hstarted, run_requestsCorrelated hs hone⟩

end EventHub
