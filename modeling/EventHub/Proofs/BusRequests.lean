import EventHub.Proofs.BusAwaiters
import EventHub.Proofs.BusStacks

/-!
# Requests

`request` draws an id, has an awaiter made that waits for a result with this
id, posts the request with the id in it, and returns the id. All of it happens
under one call, so the facts that tie the three together are facts about the
frames in between.

The predicate `requestId` is the lambda of `request`. A program's own awaiters
have predicates of their own, which may of course compare ids as well.
-/

namespace EventHub

variable {ι ε : Type}

def OwnPredicates : BusAction ι ε → Prop
  | .call _ c => c.ownPredicate
  | _ => True

instance (act : BusAction ι ε) : Decidable (OwnPredicates act) :=
  match act with
  | .call _ c => inferInstanceAs (Decidable (c.ownPredicate = true))
  | .advance _ | .ret .. | .throw _ | .catch _ | .tick _ =>
      inferInstanceAs (Decidable True)

/-- What an awaiter keeps all its life. -/
structure AwaiterTerms where
  predicate : Predicate
  singleShot : Bool
  hasSubscriptionGuard : Bool
  subscriptionGuard : Option Guard
  token : Option Nat

def Awaiter.terms (x : Awaiter) : AwaiterTerms where
  predicate := x.predicate
  singleShot := x.singleShot
  hasSubscriptionGuard := x.hasSubscriptionGuard
  subscriptionGuard := x.subscriptionGuard
  token := x.token

namespace World

def terms (w : World ε) (a : Nat) : AwaiterTerms := (w.awaiters a).terms

/-- The guard of the awaiter is the empty one: its endpoint was closed. -/
def shut (w : World ε) (a : Nat) : Prop :=
  (w.terms a).hasSubscriptionGuard ∧ (w.terms a).subscriptionGuard = none

/-- The request `id` entered the queue as `ticket`. -/
def Posted [RequestTraits ε] (w : World ε) (id ticket : Nat) : Prop :=
  ∃ q ∈ entered w.log, q.ticket = ticket ∧ q.event.getId = id

/-- Awaiter `a` was made through `e` and waits for the result `id`. -/
def Awaited (w : World ε) (e id a : Nat) : Prop :=
  .created a (some e) ∈ w.log ∧ (w.terms a).predicate = .requestId id

end World

/-- If the record is an awaiter's, it has the guard of the awaiter. -/
def CallbackRecord.Fits (r : CallbackRecord) (w : World ε) : Prop :=
  ∀ a, r.callback = .awaiter a → a < w.nextAwaiter ∧
    r.hasGuard = (w.terms a).hasSubscriptionGuard ∧
    r.guard = (w.terms a).subscriptionGuard

/-- If the record is an awaiter's, the awaiter is not shut. -/
def CallbackRecord.Open (r : CallbackRecord) (w : World ε) : Prop :=
  ∀ a, r.callback = .awaiter a → ¬ w.shut a

namespace DispatchPc

/-- The record in the loop body fits and passed its guard. -/
def Fits (w : World ε) : DispatchPc → Prop
  | .next => True
  | .passed r | .calling r | .reporting r => r.Fits w ∧ r.Open w

end DispatchPc

namespace Frame

variable [RequestTraits ε]

/-- What a frame knows about requests and awaiters. -/
def Knows (w : World ε) : Frame ε → Prop
  | .enqueue ev (some (_, id)) => ev.getId = id ∧ id ∈ drawnIds w.log
  | .requestReturn _ id ticket => id ∈ drawnIds w.log ∧ w.Posted id ticket
  | .makeAwaiter _ spec => ∀ id, spec.predicate = .requestId id → spec.singleShot
  | .createAwaiter spec guard _ =>
      (∀ id, spec.predicate = .requestId id → spec.singleShot) ∧
        ∀ e, guard ≠ some (some (.endpoint e))
  | .subscribeAwaiter a => a < w.nextAwaiter
  | .addCallback _ r => r.Fits w
  | .records _ _ rest pc => (∀ r ∈ rest, r.Fits w) ∧ pc.Fits w
  | .handleEvent a ev pc => a < w.nextAwaiter ∧ ¬ w.shut a ∧
      ∀ id, (w.terms a).predicate = .requestId id → pc ≠ .deciding ∧
        (pc = .matched ∨ pc = .callback → ev.getId = id)
  | _ => True

/-- Knows nothing. -/
def ignorant : Frame ε → Bool
  | .enqueue _ request => request.isNone
  | .makeAwaiter _ spec => !spec.predicate.isRequest
  | .createAwaiter spec guard _ => !spec.predicate.isRequest &&
      match guard with
      | some (some (.endpoint _)) => false
      | _ => true
  | .addCallback _ r =>
      match r.callback with
      | .awaiter _ => false
      | _ => true
  | .nextRequestId retry _ => !retry
  | .requestReturn .. | .subscribeAwaiter _ | .records .. | .handleEvent .. =>
      false
  | _ => true

/-- About to make the awaiter that waits for `id`. -/
def makes (id : Nat) : Frame ε → Bool
  | .makeAwaiter _ spec | .createAwaiter spec _ _ =>
      spec.predicate = .requestId id
  | _ => false

/-- The second draw of an id. -/
def redraws : Frame ε → Bool
  | .nextRequestId retry _ => retry
  | _ => false

/-- When the frame is on top, this request has its awaiter. -/
def relies : Frame ε → Option (Nat × Nat)
  | .enqueue _ request => request
  | .requestReturn e id _ => some (e, id)
  | _ => none

end Frame

/-! ## What a step does to requests -/

namespace BusObs

/-- Says something about requests. -/
def concernsRequests : BusObs ε → Bool
  | .idDrawn _ | .created .. | .callbackStarted .. | .requestReturned .. => true
  | _ => false

end BusObs

/-- The world before and after a step that makes no awaiter and draws no id;
the log grows by nothing about requests. -/
structure RequestStill (w w' : World ε) : Prop where
  callbacks : ∀ type, ∀ r ∈ w'.callbacks type, r ∈ w.callbacks type
  nextAwaiter : w'.nextAwaiter = w.nextAwaiter
  terms : ∀ a, w'.terms a = w.terms a
  requestIds : w'.requestIds = w.requestIds
  log : w'.log = w.log ∨
    ∃ o : BusObs ε, w'.log = o :: w.log ∧ o.concernsRequests = false

def Ignorant (fs : List (Frame ε)) : Prop := ∀ f ∈ fs, f.ignorant

inductive RequestMove [RequestTraits ε] (w : World ε) (f : Frame ε)
    (w' : World ε) (fs : List (Frame ε)) : Prop
  | still (hstill : RequestStill w w') (hf : ∀ id, f.makes id = false)
      (hf' : f.redraws = false) (hfs : Ignorant fs)
  | dispatched (ev : Event ε) (d : Nat) (hf : f = .dispatch ev)
      (hstill : RequestStill w w')
      (hfs : fs = [.records d ev (w.callbacks ev.type) .next])
  | walked (d : Nat) (ev : Event ε) (rest rest' : List CallbackRecord)
      (pc pc' : DispatchPc) (above : List (Frame ε))
      (hf : f = .records d ev rest pc) (hstill : RequestStill w w')
      (hrest : ∀ r ∈ rest', r ∈ rest)
      (hpc : (∀ r ∈ rest, r.Fits w) → pc.Fits w → pc'.Fits w ∧
        ∀ g ∈ above, g.Knows w)
      (habove : ∀ g ∈ above, (∀ id, g.makes id = false) ∧ g.redraws = false ∧
        g.relies = none)
      (hfs : fs = above ++ [.records d ev rest' pc'])
  | handled (a : Nat) (ev : Event ε) (pc pc' : HandlePc)
      (above : List (Frame ε)) (hf : f = .handleEvent a ev pc)
      (hstill : RequestStill w w')
      (hpc : ∀ id, (w.terms a).predicate = .requestId id → pc ≠ .deciding →
        pc' ≠ .deciding ∧ (pc' = .matched → ev.getId = id) ∧
        (pc' = .callback → pc = .matched))
      (habove : Ignorant above) (hfs : fs = above ++ [.handleEvent a ev pc'])
  | called (a : Nat) (ev : Event ε) (hf : f = .handleEvent a ev .callback)
      (hw : w' = w.note (.callbackStarted a ev))
      (hfs : fs = [.user (.callback a), .handleEvent a ev .calling])
  | created (spec : AwaitSpec) (guard guard' : Option (Option Guard))
      (via : Option Nat) (hf : f = .createAwaiter spec guard via)
      (hguard : ∀ e, via = some e → guard' = some (w.guard e))
      (hw : w' = w.createAwaiter spec guard' via)
      (keep : List (Frame ε)) (hkeep : Ignorant keep)
      (hfs : fs = .subscribeAwaiter w.nextAwaiter :: keep)
  | subscribed (a id : Nat) (hf : f = .subscribeAwaiter a)
      (hstill : RequestStill w w')
      (hfs : fs = [.addCallback (w.awaiters a).type (w.awaiterRecord a id),
        .storeSubscriptionId a id])
  | added (type : Nat) (r : CallbackRecord) (hf : f = .addCallback type r)
      (hw : w' = w.addCallback type r) (hfs : fs = [])
  | made (e : Nat) (spec : AwaitSpec) (hf : f = .makeAwaiter e spec)
      (hstill : RequestStill w w')
      (hfs : fs = [.createAwaiter spec none (some e)])
  | posted (ev : Event ε) (e id : Nat) (hf : f = .enqueue ev (some (e, id)))
      (hw : w' = w.enqueue ev)
      (hfs : fs = [.notifyWorkAvailable, .requestReturn e id w.nextTicket])
  | returned (e id ticket : Nat) (hf : f = .requestReturn e id ticket)
      (hw : w' = w.note (.requestReturned e id ticket)) (hfs : fs = [])
  | redrawn (request : Option (RequestCall ε))
      (hf : f = .nextRequestId false request)
      (hzero : w.requestIds.next = invalidRequestId)
      (hw : w' = { w with requestIds := w.requestIds.fetchAdd.2 })
      (hfs : fs = [.nextRequestId true request])
  | drew (retry : Bool) (request : Option (RequestCall ε))
      (hf : f = .nextRequestId retry request)
      (hw : w' = ({ w with requestIds := w.requestIds.fetchAdd.2 } : World ε).note
        (.idDrawn w.requestIds.next))
      (hfs : fs = requestFrames request w.requestIds.next)

section RequestMove

variable {w w' : World ε} {f : Frame ε} {fs : List (Frame ε)} {o : Outcome ε}

theorem RequestStill.of_eq (hcallbacks : w'.callbacks = w.callbacks)
    (hawaiters : w'.awaiters = w.awaiters)
    (hnext : w'.nextAwaiter = w.nextAwaiter) (hids : w'.requestIds = w.requestIds)
    (hlog : w'.log = w.log ∨
      ∃ o : BusObs ε, w'.log = o :: w.log ∧ o.concernsRequests = false) :
    RequestStill w w' where
  callbacks type r hr := hcallbacks ▸ hr
  nextAwaiter := hnext
  terms a := by rw [World.terms, hawaiters]; rfl
  requestIds := hids
  log := hlog

theorem RequestStill.refl : RequestStill w w := .of_eq rfl rfl rfl rfl (.inl rfl)

theorem RequestStill.noted {obs : BusObs ε} (h : obs.concernsRequests = false) :
    RequestStill w (w.note obs) := .of_eq rfl rfl rfl rfl (.inr ⟨obs, rfl, h⟩)

theorem RequestStill.setAwaiter {b : Nat} {x : Awaiter}
    (hx : x.terms = (w.awaiters b).terms) : RequestStill w (w.setAwaiter b x) where
  callbacks _ _ hr := hr
  nextAwaiter := rfl
  terms a := by
    by_cases hab : a = b
    · rw [World.terms, show (w.setAwaiter b x).awaiters a = x from if_pos hab, hx, hab]
      rfl
    · rw [World.terms, show (w.setAwaiter b x).awaiters a = w.awaiters a from
        if_neg hab]
      rfl
  requestIds := rfl
  log := .inl rfl

theorem RequestStill.deactivate (b : Nat) (cause : Cause) :
    RequestStill w (w.deactivate b cause) := by
  have h := RequestStill.setAwaiter (w := w) (b := b)
    (x := { w.awaiters b with cancelled := true }) rfl
  exact ⟨h.callbacks, rfl, h.terms, rfl, .inr ⟨_, rfl, rfl⟩⟩

theorem RequestStill.release (b : Nat) : RequestStill w (w.release b) := by
  unfold World.release
  dsimp only
  split
  · have h := RequestStill.setAwaiter
      (w := w.unsubscribe (w.awaiters b).subscriptionId) (b := b)
      (x := { w.awaiters b with subscriptionId := 0, retainSelf := false }) rfl
    exact ⟨fun type r hr => List.mem_of_mem_filter hr, rfl, h.terms, rfl, .inl rfl⟩
  · exact .setAwaiter rfl

theorem Ignorant.nil : Ignorant ([] : List (Frame ε)) := fun _ h => nomatch h

theorem Ignorant.cons (hf : f.ignorant) (hfs : Ignorant fs) :
    Ignorant (f :: fs) := List.forall_mem_cons.mpr ⟨hf, hfs⟩

theorem Ignorant.one (hf : f.ignorant) : Ignorant [f] := .cons hf .nil

theorem Frame.makes_of_ignorant (h : f.ignorant) (id : Nat) :
    f.makes id = false := by
  cases f with
  | makeAwaiter e spec =>
      refine decide_eq_false fun hp => ?_
      simp [Frame.ignorant, hp, Predicate.isRequest] at h
  | createAwaiter spec guard via =>
      refine decide_eq_false fun hp => ?_
      simp [Frame.ignorant, hp, Predicate.isRequest] at h
  | _ => rfl

theorem Frame.redraws_of_ignorant (h : f.ignorant) : f.redraws = false := by
  cases f with
  | nextRequestId retry request =>
      simpa [Frame.ignorant, Frame.redraws] using h
  | _ => rfl

variable [RequestTraits ε]

theorem Frame.knows_of_ignorant (h : f.ignorant) (w : World ε) : f.Knows w := by
  cases f with
  | enqueue ev request =>
      cases request with
      | none => trivial
      | some => cases h
  | makeAwaiter e spec =>
      intro id hp
      simp [Frame.ignorant, hp, Predicate.isRequest] at h
  | createAwaiter spec guard via =>
      refine ⟨fun id hp => ?_, fun e hguard => ?_⟩
      · simp [Frame.ignorant, hp, Predicate.isRequest] at h
      · simp [Frame.ignorant, hguard] at h
  | addCallback type r =>
      intro a hr
      simp [Frame.ignorant, hr] at h
  | requestReturn | subscribeAwaiter | records | handleEvent => cases h
  | _ => trivial

/-- A step of frames that know nothing, on a world in which nothing about
requests changed. -/
theorem RequestMove.quiet (hstill : RequestStill w w') (hf : f.ignorant)
    (hfs : Ignorant fs) : RequestMove w f w' fs :=
  .still hstill (Frame.makes_of_ignorant hf) (Frame.redraws_of_ignorant hf) hfs

theorem advanceDispatch_requestMove (alive : Guard → Bool) (d : Nat)
    (ev : Event ε) (rest : List CallbackRecord) (pc : DispatchPc) :
    RequestMove w (.records d ev rest pc)
      (advanceDispatch alive w d ev rest pc).world
      (advanceDispatch alive w d ev rest pc).frames := by
  have hsilent (g : Frame ε) (hg : g ∈ ([] : List (Frame ε))) : (∀ id,
      g.makes id = false) ∧ g.redraws = false ∧ g.relies = none := nomatch hg
  have huser (code : UserCode) : ∀ g ∈ [(.user code : Frame ε)], (∀ id,
      g.makes id = false) ∧ g.redraws = false ∧ g.relies = none :=
    List.forall_mem_singleton.mpr ⟨fun _ => rfl, rfl, rfl⟩
  cases pc with
  | next =>
      cases rest with
      | nil => exact .still (.noted rfl) (fun _ => rfl) rfl .nil
      | cons r rest =>
          simp only [advanceDispatch]
          split
          · exact .walked d ev _ rest .next .next [] rfl (.noted rfl)
              (fun _ => List.mem_cons_of_mem r)
              (fun _ _ => ⟨trivial, fun _ hg => nomatch hg⟩) hsilent rfl
          · next hguard =>
              refine .walked d ev _ rest .next (.passed r) [] rfl (.noted rfl)
                (fun _ => List.mem_cons_of_mem r)
                (fun hfits _ => ⟨⟨hfits r List.mem_cons_self, fun a ha hshut => ?_⟩,
                  fun _ hg => nomatch hg⟩) hsilent rfl
              obtain ⟨-, hhas, hg⟩ := hfits r List.mem_cons_self a ha
              rw [hhas, hshut.1, hg, hshut.2] at hguard
              exact hguard rfl
  | passed r =>
      have hwalk (obs : BusObs ε) (hobs : obs.concernsRequests = false) :
          RequestMove w (.records d ev rest (.passed r)) (w.note obs)
            [.user (.handler r), .records d ev rest (.calling r)] :=
        .walked d ev rest rest (.passed r) (.calling r) [.user (.handler r)] rfl
          (.noted hobs) (fun _ hr => hr)
          (fun _ hpc => ⟨hpc, List.forall_mem_singleton.mpr trivial⟩) (huser _) rfl
      cases hcallback : r.callback with
      | plain =>
          simp only [advanceDispatch, hcallback]
          exact hwalk _ rfl
      | endpoint e userGuard =>
          cases userGuard with
          | none =>
              simp only [advanceDispatch, hcallback]
              exact hwalk _ rfl
          | some g =>
              simp only [advanceDispatch, hcallback]
              split
              · exact hwalk _ rfl
              · exact .walked d ev rest rest (.passed r) .next [] rfl (.noted rfl)
                  (fun _ hr => hr) (fun _ _ => ⟨trivial, fun _ hg => nomatch hg⟩)
                  hsilent rfl
      | awaiter a =>
          simp only [advanceDispatch, hcallback]
          refine .walked d ev rest rest (.passed r) (.calling r)
            [.handleEvent a ev .entry] rfl (.noted rfl) (fun _ hr => hr)
            (fun _ hpc => ⟨hpc, List.forall_mem_singleton.mpr ?_⟩)
            (List.forall_mem_singleton.mpr ⟨fun _ => rfl, rfl, rfl⟩) rfl
          exact ⟨(hpc.1 a hcallback).1, hpc.2 a hcallback,
            fun _ _ => ⟨nofun, fun h => (by rcases h with h | h <;> cases h)⟩⟩
  | calling r | reporting r =>
      exact .walked d ev rest rest _ .next [] rfl .refl (fun _ hr => hr)
        (fun _ _ => ⟨trivial, fun _ hg => nomatch hg⟩) hsilent rfl

theorem advanceHandle_requestMove (result : Bool) (a : Nat) (ev : Event ε)
    (pc : HandlePc) :
    RequestMove w (.handleEvent a ev pc) (advanceHandle w result a ev pc).world
      (advanceHandle w result a ev pc).frames := by
  have hend : RequestMove w (.handleEvent a ev pc) w [] :=
    .still .refl (fun _ => rfl) rfl .nil
  have hgo (pc' : HandlePc) (h : pc' ≠ .deciding) (h' : pc' ≠ .matched)
      (h'' : pc' = .callback → pc = .matched) :
      RequestMove w (.handleEvent a ev pc) w [.handleEvent a ev pc'] :=
    .handled a ev pc pc' [] rfl .refl
      (fun _ _ _ => ⟨h, fun heq => absurd heq h', h''⟩) .nil rfl
  cases pc with
  | entry =>
      simp only [advanceHandle]
      split
      · exact hgo .token (by rintro ⟨⟩) (by rintro ⟨⟩) (by rintro ⟨⟩)
      · exact hend
  | token =>
      simp only [advanceHandle]
      split
      · exact .still .refl (fun _ => rfl) rfl (.one rfl)
      · exact hgo .predicate (by rintro ⟨⟩) (by rintro ⟨⟩) (by rintro ⟨⟩)
  | predicate =>
      simp only [advanceHandle]
      split
      · next hp =>
          refine .handled a ev _ .matched [] rfl .refl (fun id hid => ?_) .nil rfl
          cases hp.symm.trans hid
      · next hp =>
          refine .handled a ev _ .deciding [.user (.predicate a)] rfl .refl
            (fun id hid => ?_) (.one rfl) rfl
          cases hp.symm.trans hid
      · next id' hp =>
          split
          · next heq =>
              refine .handled a ev _ .matched [] rfl .refl (fun id hid _ => ?_) .nil rfl
              cases hp.symm.trans hid
              exact ⟨by rintro ⟨⟩, fun _ => heq, by rintro ⟨⟩⟩
          · exact hend
  | deciding =>
      simp only [advanceHandle]
      split
      · exact .handled a ev _ .matched [] rfl .refl
          (fun _ _ h => absurd rfl h) .nil rfl
      · exact hend
  | matched =>
      simp only [advanceHandle, cancelThen]
      split
      · split
        · exact .handled a ev _ .callback [.release a] rfl (.deactivate a .matched)
            (fun _ _ _ => ⟨by rintro ⟨⟩, by rintro ⟨⟩, fun _ => rfl⟩) (.one rfl) rfl
        · exact hgo .callback (by rintro ⟨⟩) (by rintro ⟨⟩) fun _ => rfl
      · exact hgo .callback (by rintro ⟨⟩) (by rintro ⟨⟩) fun _ => rfl
  | callback =>
      simp only [advanceHandle]
      split
      · exact .called a ev rfl rfl rfl
      · exact hend
  | calling => exact hend

theorem cancelThen_requestMove {b : Nat} {cause : Cause} {rest : List (Frame ε)}
    (hf : f.ignorant) (hrest : Ignorant rest) :
    RequestMove w f (cancelThen w b cause rest).world
      (cancelThen w b cause rest).frames := by
  unfold cancelThen
  split
  · exact .quiet (.deactivate b cause) hf (.cons rfl hrest)
  · exact .quiet .refl hf hrest

theorem advancePoll_requestMove (b : Nat) (pc : PollPc) :
    RequestMove w (.pollTimeout b pc) (advancePoll w b pc).world
      (advancePoll w b pc).frames := by
  fun_cases advancePoll <;> first
    | exact cancelThen_requestMove rfl (.one rfl)
    | exact .quiet .refl rfl .nil
    | exact .quiet .refl rfl (.one rfl)
    | exact .quiet (.setAwaiter rfl) rfl (.one rfl)
    | exact .quiet (.noted rfl) rfl (.cons rfl (.one rfl))

theorem advance_requestMove {alive : Guard → Bool} {result : Bool}
    (h : advance alive w result f = some o) :
    RequestMove w f o.world o.frames := by
  cases f with
  | user code => cases h
  | records d ev rest pc =>
      cases h
      exact advanceDispatch_requestMove ..
  | handleEvent b ev pc =>
      cases h
      exact advanceHandle_requestMove ..
  | pollTimeout b pc =>
      cases h
      exact advancePoll_requestMove ..
  | cancel b canceller =>
      cases h
      exact cancelThen_requestMove rfl .nil
  | release b =>
      cases h
      exact .quiet (.release b) rfl .nil
  | storeSubscriptionId b id =>
      cases h
      exact .quiet (.setAwaiter rfl) rfl .nil
  | closeUnsubscribe e =>
      cases h
      exact .quiet ⟨fun type r hr => List.mem_of_mem_filter hr, rfl, fun _ => rfl, rfl,
        .inr ⟨_, rfl, rfl⟩⟩ rfl .nil
  | dispatch ev =>
      cases h
      exact .dispatched ev _ rfl (.of_eq rfl rfl rfl rfl (.inr ⟨_, rfl, rfl⟩)) rfl
  | createAwaiter spec guard via =>
      cases h
      cases via with
      | none => exact .created spec guard guard none rfl nofun rfl _ (.one rfl) rfl
      | some e =>
          exact .created spec guard (some (w.guard e)) (some e) rfl
            (fun _ heq => by cases heq; rfl) rfl _ (.cons rfl (.one rfl)) rfl
  | subscribeAwaiter a =>
      cases h
      exact .subscribed a _ rfl (.of_eq rfl rfl rfl rfl (.inl rfl)) rfl
  | addCallback type r =>
      cases h
      exact .added type r rfl rfl rfl
  | makeAwaiter e spec =>
      cases h
      exact .made e spec rfl (.of_eq rfl rfl rfl rfl (.inl rfl)) rfl
  | enqueue ev request =>
      cases h
      cases request with
      | none =>
          exact .quiet (.of_eq rfl rfl rfl rfl (.inr ⟨_, rfl, rfl⟩)) rfl (.one rfl)
      | some request => exact .posted ev request.1 request.2 rfl rfl rfl
  | requestReturn e id ticket =>
      cases h
      exact .returned e id ticket rfl rfl rfl
  | nextRequestId retry request =>
      simp only [advance] at h
      split at h <;> cases h
      · next hzero =>
          obtain ⟨hzero, rfl⟩ := hzero
          exact .redrawn request rfl hzero rfl rfl
      · exact .drew retry request rfl rfl rfl
  | pollAwaiters =>
      cases h
      exact .quiet (.of_eq rfl rfl rfl rfl (.inr ⟨_, rfl, rfl⟩)) rfl (.one rfl)
  | polling live =>
      cases live <;> cases h
      · exact .quiet (.noted rfl) rfl .nil
      · exact .quiet .refl rfl (.cons rfl (.one rfl))
  | process =>
      cases h
      exact .quiet (.of_eq rfl rfl rfl rfl (.inr ⟨_, rfl, rfl⟩)) rfl (.one rfl)
  | draining live n =>
      cases live <;> cases h
      · exact .quiet .refl rfl (.cons rfl (.one rfl))
      · exact .quiet (.noted rfl) rfl (.cons rfl (.one rfl))
  | dispatching q rest n =>
      cases h
      exact .quiet .refl rfl (.one rfl)
  | processed n =>
      cases h
      exact .quiet (.noted rfl) rfl .nil
  | notifyWorkAvailable =>
      simp only [advance] at h
      split at h <;> cases h
      · exact .quiet (.noted rfl) rfl .nil
      · exact .quiet .refl rfl .nil
  | cancelAwaiters e canceller =>
      cases h
      exact .quiet (.of_eq rfl rfl rfl rfl (.inl rfl)) rfl (.one rfl)
  | cancelling live canceller =>
      cases live <;> cases h
      · exact .quiet .refl rfl .nil
      · exact .quiet .refl rfl (.cons rfl (.one rfl))
  | close e =>
      cases h
      exact .quiet (.of_eq rfl rfl rfl rfl (.inl rfl)) rfl (.cons rfl (.one rfl))
  | registerAwaiter b | keepHandle e b =>
      cases h
      exact .quiet (.of_eq rfl rfl rfl rfl (.inl rfl)) rfl .nil

theorem unwind_requestMove (h : unwind w f = some o) :
    RequestMove w f o.world o.frames := by
  unfold unwind at h
  split at h
  case h_2 d ev rest r =>
    split at h <;> cases h
    · exact .walked d ev rest rest (.calling r) (.reporting r)
        [.user .exceptionHandler] rfl .refl (fun _ hr => hr)
        (fun _ hpc => ⟨hpc, List.forall_mem_singleton.mpr trivial⟩)
        (List.forall_mem_singleton.mpr ⟨fun _ => rfl, rfl, rfl⟩) rfl
    · exact .still .refl (fun _ => rfl) rfl .nil
  case h_7 =>
    split at h <;> cases h
    · exact .quiet .refl rfl (.cons rfl (.one rfl))
    · exact .quiet .refl rfl .nil
  all_goals cases h
  all_goals
    first
    | exact .still .refl (fun _ => rfl) rfl .nil
    | exact .quiet (.of_eq rfl rfl rfl rfl (.inr ⟨_, rfl, rfl⟩)) rfl .nil

theorem call_requestMove (code : UserCode) (c : BusCall ε)
    (hc : c.ownPredicate) :
    RequestMove w (.user code) (call w c).1 ((call w c).2 ++ [.user code]) := by
  have huser : Ignorant [(.user code : Frame ε)] := .one rfl
  have hstill : RequestStill w w := .refl
  cases c with
  | unsubscribe id =>
      exact .quiet ⟨fun type r hr => List.mem_of_mem_filter hr, rfl, fun _ => rfl, rfl,
        .inl rfl⟩ rfl huser
  | unsubscribeAllOf type owner =>
      refine .quiet ⟨fun type' r hr => ?_, rfl, fun _ => rfl, rfl, .inl rfl⟩ rfl huser
      dsimp only [call, World.unsubscribeAllOf] at hr
      split at hr
      · exact List.mem_of_mem_filter hr
      · exact hr
  | unsubscribeAll owner =>
      exact .quiet ⟨fun type r hr => List.mem_of_mem_filter hr, rfl, fun _ => rfl, rfl,
        .inl rfl⟩ rfl huser
  | subscribe | endpointSubscribe =>
      exact .quiet (.of_eq rfl rfl rfl rfl (.inl rfl)) rfl (.cons rfl huser)
  | emit ev => exact .quiet hstill rfl (.cons rfl (.cons rfl huser))
  | clearPending =>
      exact .quiet (.of_eq rfl rfl rfl rfl (.inr ⟨_, rfl, rfl⟩)) rfl huser
  | cancelToken | setExceptionHandler | setNotifier | releaseGuard =>
      exact .quiet (.of_eq rfl rfl rfl rfl (.inl rfl)) rfl huser
  | createAwaiter spec guard =>
      refine .quiet hstill rfl (.cons ((Bool.and_eq_true _ _).mpr ⟨hc, ?_⟩) huser)
      rcases guard with _ | _ | g <;> rfl
  | await e spec => exact .quiet hstill rfl (.cons hc huser)
  | _ => exact .quiet hstill rfl (.cons rfl huser)

/-- Every step does one of these things to requests. -/
theorem Moved.requestMove [Fintype ι] {s : BusSystem ι ε} {act : BusAction ι ε}
    {t : ι} (h : Moved s act t f o) (hown : OwnPredicates act) :
    RequestMove s.world f o.world o.frames := by
  cases h with
  | advance hmode h => exact advance_requestMove h
  | unwind hmode h => exact unwind_requestMove h
  | call c hmode => exact call_requestMove _ c hown
  | ret | throw => exact .quiet .refl rfl .nil
  | «catch» => exact .quiet .refl rfl (.one rfl)

end RequestMove

/-! ## What holds of requests on any threads -/

/-- Awaiters keep their terms, and the log keeps what it has. -/
structure RequestGrows (w w' : World ε) : Prop where
  nextAwaiter : w.nextAwaiter ≤ w'.nextAwaiter
  terms : ∀ a < w.nextAwaiter, w'.terms a = w.terms a
  log : ∀ o ∈ w.log, o ∈ w'.log

/-- What an observation about requests says. -/
def BusObs.Told [RequestTraits ε] (w : World ε) : BusObs ε → Prop
  | .created a (some e) => a < w.nextAwaiter ∧
      (w.terms a).hasSubscriptionGuard ∧ ((w.terms a).subscriptionGuard = none ∨
        (w.terms a).subscriptionGuard = some (.endpoint e))
  | .callbackStarted a ev => a < w.nextAwaiter ∧ ¬ w.shut a ∧
      ∀ id, (w.terms a).predicate = .requestId id → ev.getId = id
  | .requestReturned _ id ticket => id ∈ drawnIds w.log ∧ w.Posted id ticket
  | _ => True

structure RequestInv [RequestTraits ε] (w : World ε)
    (frames : ι → List (Frame ε)) : Prop where
  knows : Threads.Forall (fun f => f.Knows w) frames
  table : ∀ type, ∀ r ∈ w.callbacks type, r.Fits w
  single : ∀ a id, (w.terms a).predicate = .requestId id → (w.terms a).singleShot
  fresh : ∀ a, w.nextAwaiter ≤ a → (w.terms a).predicate.isRequest = false
  log : ∀ o ∈ w.log, o.Told w

section RequestInv

variable {w w' : World ε} {f : Frame ε} {fs rest : List (Frame ε)}

theorem mem_drawnIds {log log' : List (BusObs ε)} (h : ∀ o ∈ log, o ∈ log')
    {id : Nat} (hid : id ∈ drawnIds log) : id ∈ drawnIds log' := by
  obtain ⟨o, ho, hmem⟩ := History.mem_observed.mp hid
  exact History.mem_observed.mpr ⟨o, h o ho, hmem⟩

theorem RequestGrows.of_still (h : RequestStill w w') : RequestGrows w w' where
  nextAwaiter := h.nextAwaiter.ge
  terms a _ := h.terms a
  log o ho := by
    rcases h.log with hlog | ⟨obs, hlog, -⟩ <;> rw [hlog]
    · exact ho
    · exact List.mem_cons_of_mem obs ho

theorem RequestGrows.noted (o : BusObs ε) : RequestGrows w (w.note o) where
  nextAwaiter := Nat.le_refl _
  terms _ _ := rfl
  log _ := List.mem_cons_of_mem o

theorem CallbackRecord.Fits.grow {r : CallbackRecord} (h : r.Fits w)
    (hgrow : RequestGrows w w') : r.Fits w' := by
  intro a ha
  obtain ⟨hlt, hhas, hguard⟩ := h a ha
  rw [hgrow.terms a hlt]
  exact ⟨hlt.trans_le hgrow.nextAwaiter, hhas, hguard⟩

theorem CallbackRecord.Open.grow {r : CallbackRecord} (h : r.Open w)
    (hfits : r.Fits w) (hgrow : RequestGrows w w') : r.Open w' := by
  intro a ha
  rw [World.shut, hgrow.terms a (hfits a ha).1]
  exact h a ha

theorem DispatchPc.Fits.grow {pc : DispatchPc} (h : pc.Fits w)
    (hgrow : RequestGrows w w') : pc.Fits w' := by
  cases pc with
  | next => trivial
  | passed r | calling r | reporting r =>
      exact ⟨h.1.grow hgrow, h.2.grow h.1 hgrow⟩

variable [RequestTraits ε]

theorem World.Posted.grow {id ticket : Nat} (h : w.Posted id ticket)
    (hgrow : RequestGrows w w') : w'.Posted id ticket := by
  obtain ⟨q, hq, hqt⟩ := h
  obtain ⟨o, ho, hmem⟩ := History.mem_observed.mp hq
  exact ⟨q, History.mem_observed.mpr ⟨o, hgrow.log o ho, hmem⟩, hqt⟩

theorem Frame.Knows.grow (h : f.Knows w) (hgrow : RequestGrows w w') :
    f.Knows w' := by
  cases f with
  | enqueue ev request =>
      cases request with
      | none => trivial
      | some request => exact ⟨h.1, mem_drawnIds hgrow.log h.2⟩
  | requestReturn e id ticket =>
      exact ⟨mem_drawnIds hgrow.log h.1, h.2.grow hgrow⟩
  | makeAwaiter e spec => exact h
  | createAwaiter spec guard via => exact h
  | subscribeAwaiter a => exact Nat.lt_of_lt_of_le h hgrow.nextAwaiter
  | addCallback type r => exact CallbackRecord.Fits.grow h hgrow
  | records d ev rest pc =>
      exact ⟨fun r hr => (h.1 r hr).grow hgrow, h.2.grow hgrow⟩
  | handleEvent a ev pc =>
      obtain ⟨hlt, hopen, hpc⟩ := h
      refine ⟨hlt.trans_le hgrow.nextAwaiter, ?_, ?_⟩
      · rwa [World.shut, hgrow.terms a hlt]
      · rwa [hgrow.terms a hlt]
  | _ => trivial

theorem BusObs.Told.grow {o : BusObs ε} (h : o.Told w)
    (hgrow : RequestGrows w w') : o.Told w' := by
  cases o with
  | created a via =>
      cases via with
      | none => trivial
      | some e =>
          obtain ⟨hlt, hguard⟩ := h
          refine ⟨hlt.trans_le hgrow.nextAwaiter, ?_⟩
          rwa [hgrow.terms a hlt]
  | callbackStarted a ev =>
      obtain ⟨hlt, hopen, hid⟩ := h
      rw [World.shut, ← hgrow.terms a hlt] at hopen
      rw [← hgrow.terms a hlt] at hid
      exact ⟨hlt.trans_le hgrow.nextAwaiter, hopen, hid⟩
  | requestReturned e id ticket =>
      exact ⟨mem_drawnIds hgrow.log h.1, h.2.grow hgrow⟩
  | _ => trivial

theorem BusObs.told_of_unconcerned {o : BusObs ε}
    (h : o.concernsRequests = false) : o.Told w := by
  cases o <;> trivial

variable [DecidableEq ι] {frames : ι → List (Frame ε)} {t : ι}

/-- What a step has to show that leaves the terms of the awaiters alone. -/
theorem RequestInv.next (h : RequestInv w frames) (hgrow : RequestGrows w w')
    (hlog : ∀ o ∈ w'.log, o ∈ w.log ∨ o.Told w')
    (hterms : ∀ a, w'.terms a = w.terms a) (hfs : ∀ g ∈ fs, g.Knows w')
    (htable : ∀ type, ∀ r ∈ w'.callbacks type, r.Fits w) :
    RequestInv w' (Threads.replaceTop frames t fs) where
  knows := (h.knows.imp fun _ hg => hg.grow hgrow).replace hfs
  table type r hr := (htable type r hr).grow hgrow
  single a id hid := by
    rw [hterms a] at hid ⊢
    exact h.single a id hid
  fresh a ha := by
    rw [hterms a]
    exact h.fresh a (hgrow.nextAwaiter.trans ha)
  log o ho := (hlog o ho).elim (fun ho => (h.log o ho).grow hgrow) id

theorem RequestInv.still (h : RequestInv w frames) (hstill : RequestStill w w')
    (hfs : ∀ g ∈ fs, g.Knows w) :
    RequestInv w' (Threads.replaceTop frames t fs) := by
  refine h.next (.of_still hstill) (fun o ho => ?_) hstill.terms
    (fun g hg => (hfs g hg).grow (.of_still hstill))
    fun type r hr => h.table type r (hstill.callbacks type r hr)
  rcases hstill.log with hlog | ⟨obs, hlog, hobs⟩ <;> rw [hlog] at ho
  · exact .inl ho
  · rcases List.mem_cons.mp ho with rfl | ho
    · exact .inr (BusObs.told_of_unconcerned hobs)
    · exact .inl ho

/-- The log grew by one observation. -/
theorem RequestInv.noted (h : RequestInv w frames) (hgrow : RequestGrows w w')
    {o : BusObs ε} (hlog : w'.log = o :: w.log) (ho : o.Told w')
    (hterms : ∀ a, w'.terms a = w.terms a)
    (hcallbacks : w'.callbacks = w.callbacks) (hfs : ∀ g ∈ fs, g.Knows w') :
    RequestInv w' (Threads.replaceTop frames t fs) := by
  refine h.next hgrow (fun o' ho' => ?_) hterms hfs
    fun type r hr => h.table type r (hcallbacks ▸ hr)
  rw [hlog] at ho'
  rcases List.mem_cons.mp ho' with rfl | ho'
  · exact .inr ho
  · exact .inl ho'

omit [RequestTraits ε] [DecidableEq ι] in
theorem createAwaiter_terms_self (spec : AwaitSpec)
    (guard : Option (Option Guard)) (via : Option Nat) :
    (w.createAwaiter spec guard via).terms w.nextAwaiter =
      (w.newAwaiter spec guard).terms :=
  congrArg Awaiter.terms (if_pos rfl)

omit [RequestTraits ε] [DecidableEq ι] in
theorem createAwaiter_terms_of_ne (spec : AwaitSpec)
    (guard : Option (Option Guard)) (via : Option Nat) {a : Nat}
    (ha : a ≠ w.nextAwaiter) :
    (w.createAwaiter spec guard via).terms a = w.terms a :=
  congrArg Awaiter.terms (if_neg ha)

theorem RequestInv.create (h : RequestInv w frames) (spec : AwaitSpec)
    (guard : Option (Option Guard)) (via : Option Nat)
    (hguard : ∀ e, via = some e → guard = some (w.guard e))
    (hspec : ∀ id, spec.predicate = .requestId id → spec.singleShot)
    {keep : List (Frame ε)} (hkeep : Ignorant keep) :
    RequestInv (w.createAwaiter spec guard via)
      (Threads.replaceTop frames t (.subscribeAwaiter w.nextAwaiter :: keep)) := by
  have hself := createAwaiter_terms_self (w := w) spec guard via
  have hold {a : Nat} (ha : a < w.nextAwaiter) :
      (w.createAwaiter spec guard via).terms a = w.terms a :=
    createAwaiter_terms_of_ne spec guard via ha.ne
  have hgrow : RequestGrows w (w.createAwaiter spec guard via) :=
    ⟨Nat.le_succ _, fun a ha => hold ha, fun _ => List.mem_cons_of_mem _⟩
  have hcases {P : Nat → AwaiterTerms → Prop}
      (hnew : P w.nextAwaiter (w.newAwaiter spec guard).terms)
      (hrest : ∀ a, P a (w.terms a)) (a : Nat) :
      P a ((w.createAwaiter spec guard via).terms a) := by
    by_cases ha : a = w.nextAwaiter
    · rw [ha, hself]
      exact hnew
    · rw [createAwaiter_terms_of_ne spec guard via ha]
      exact hrest a
  exact
    { knows := (h.knows.imp fun _ hg => hg.grow hgrow).replace
        (List.forall_mem_cons.mpr ⟨Nat.lt_succ_self _,
          fun g hg => Frame.knows_of_ignorant (hkeep g hg) _⟩)
      table := fun type r hr => (h.table type r hr).grow hgrow
      single := fun a id => hcases
        (P := fun _ x => x.predicate = .requestId id → x.singleShot)
        (hspec id) (fun a => h.single a id) a
      fresh := fun a ha => by
        rw [createAwaiter_terms_of_ne spec guard via (Nat.ne_of_gt ha)]
        exact h.fresh a ((Nat.le_succ _).trans ha)
      log := by
        refine List.forall_mem_cons.mpr ⟨?_, fun o ho => (h.log o ho).grow hgrow⟩
        cases via with
        | none => trivial
        | some e =>
            show _ ∧ _
            rw [hself, hguard e rfl]
            refine ⟨Nat.lt_succ_self _, ?_⟩
            show true ∧ (w.guard e = none ∨ w.guard e = some (.endpoint e))
            unfold World.guard
            split
            · exact ⟨rfl, .inl rfl⟩
            · exact ⟨rfl, .inr rfl⟩ }

theorem RequestInv.draw (h : RequestInv w frames)
    {request : Option (RequestCall ε)} :
    RequestInv (({ w with requestIds := w.requestIds.fetchAdd.2 } : World ε).note
        (.idDrawn w.requestIds.next))
      (Threads.replaceTop frames t (requestFrames request w.requestIds.next)) := by
  refine h.noted ⟨Nat.le_refl _, fun _ _ => rfl, fun _ => List.mem_cons_of_mem _⟩ rfl
    trivial (fun _ => rfl) rfl ?_
  cases request with
  | none => exact fun _ hg => nomatch hg
  | some r =>
      refine List.forall_mem_cons.mpr ⟨fun _ _ => rfl,
        List.forall_mem_singleton.mpr ⟨Event.getId_setId .., ?_⟩⟩
      exact History.mem_observed.mpr
        ⟨_, List.mem_cons_self, List.mem_singleton.mpr rfl⟩

theorem RequestInv.move (h : RequestInv w frames) (ht : frames t = f :: rest)
    (hmove : RequestMove w f w' fs) :
    RequestInv w' (Threads.replaceTop frames t fs) := by
  have hf := h.knows.top ht
  cases hmove with
  | still hstill hmakes hredraws hfs =>
      exact h.still hstill fun g hg => Frame.knows_of_ignorant (hfs g hg) w
  | dispatched ev d hf' hstill hfs =>
      subst hfs
      exact h.still hstill
        (List.forall_mem_singleton.mpr ⟨h.table ev.type, trivial⟩)
  | walked d ev rest' rest'' pc pc' above hf' hstill hrest hpc habove hfs =>
      subst hf' hfs
      obtain ⟨hpc', hknows⟩ := hpc hf.1 hf.2
      exact h.still hstill (List.forall_mem_append.mpr ⟨hknows,
        List.forall_mem_singleton.mpr ⟨fun r hr => hf.1 r (hrest r hr), hpc'⟩⟩)
  | handled a ev pc pc' above hf' hstill hpc habove hfs =>
      subst hf' hfs
      obtain ⟨hlt, hopen, hids⟩ := hf
      refine h.still hstill (List.forall_mem_append.mpr
        ⟨fun g hg => Frame.knows_of_ignorant (habove g hg) w,
          List.forall_mem_singleton.mpr ⟨hlt, hopen, fun id hid => ?_⟩⟩)
      obtain ⟨hne, hmatched⟩ := hids id hid
      obtain ⟨hne', hmatch, hcallback⟩ := hpc id hid hne
      refine ⟨hne', fun h' => ?_⟩
      rcases h' with h' | h'
      · exact hmatch h'
      · exact hmatched (.inl (hcallback h'))
  | called a ev hf' hw hfs =>
      subst hf' hw hfs
      obtain ⟨hlt, hopen, hids⟩ := hf
      exact h.noted (.noted _) rfl
        ⟨hlt, hopen, fun id hid => (hids id hid).2 (.inr rfl)⟩
        (fun _ => rfl) rfl (List.forall_mem_cons.mpr ⟨trivial,
          List.forall_mem_singleton.mpr ⟨hlt, hopen, fun id hid =>
            ⟨nofun, fun h' => by rcases h' with h' | h' <;> cases h'⟩⟩⟩)
  | created spec guard guard' via hf' hguard hw keep hkeep hfs =>
      subst hf' hw hfs
      exact h.create spec guard' via hguard hf.1 hkeep
  | subscribed a id hf' hstill hfs =>
      subst hf' hfs
      refine h.still hstill (List.forall_mem_cons.mpr ⟨fun b hb => ?_,
        List.forall_mem_singleton.mpr trivial⟩)
      cases hb
      exact ⟨hf, rfl, rfl⟩
  | added type r hf' hw hfs =>
      subst hf' hw hfs
      refine h.next ⟨Nat.le_refl _, fun _ _ => rfl, fun _ ho => ho⟩ (fun _ => .inl)
        (fun _ => rfl) (fun _ hg => nomatch hg) fun type' r' hr => ?_
      dsimp only [World.addCallback] at hr
      split at hr
      · rcases List.mem_append.mp hr with hr | hr
        · exact h.table type' r' hr
        · rw [List.mem_singleton.mp hr]
          exact hf
      · exact h.table type' r' hr
  | made e spec hf' hstill hfs =>
      subst hf' hfs
      exact h.still hstill (List.forall_mem_singleton.mpr ⟨hf, fun _ => nofun⟩)
  | posted ev e id hf' hw hfs =>
      subst hf' hw hfs
      have hgrow : RequestGrows w (w.enqueue ev) :=
        ⟨Nat.le_refl _, fun _ _ => rfl, fun _ => List.mem_cons_of_mem _⟩
      refine h.noted hgrow rfl trivial (fun _ => rfl) rfl
        (List.forall_mem_cons.mpr ⟨trivial, List.forall_mem_singleton.mpr
          ⟨mem_drawnIds hgrow.log hf.2, ?_⟩⟩)
      exact ⟨{ event := ev, ticket := w.nextTicket }, History.mem_observed.mpr
        ⟨_, List.mem_cons_self, List.mem_singleton.mpr rfl⟩, rfl, hf.1⟩
  | returned e id ticket hf' hw hfs =>
      subst hf' hw hfs
      have hgrow : RequestGrows w (w.note (.requestReturned e id ticket)) := .noted _
      exact h.noted hgrow rfl ⟨mem_drawnIds hgrow.log hf.1, hf.2.grow hgrow⟩
        (fun _ => rfl) rfl fun _ hg => nomatch hg
  | redrawn request hf' hzero hw hfs =>
      subst hf' hw hfs
      exact h.next ⟨Nat.le_refl _, fun _ _ => rfl, fun _ ho => ho⟩ (fun _ => .inl)
        (fun _ => rfl) (List.forall_mem_singleton.mpr trivial) h.table
  | drew retry request hf' hw hfs =>
      subst hf' hw hfs
      exact h.draw

end RequestInv

/-! ## The ids are distinct -/

structure IdInv (w : World ε) (frames : ι → List (Frame ε)) : Prop where
  next : (drawnIds w.log).length + 1 < 2 ^ 64 →
    w.requestIds.next = (drawnIds w.log).length + 1 ∧
      Threads.Forall (fun f => f.redraws = false) frames
  drawn : (drawnIds w.log).length < 2 ^ 64 →
    drawnIds w.log = List.range' 1 (drawnIds w.log).length

/-- The awaiters, and the frames about to make one, that wait for `id`. -/
def waitingFor [Fintype ι] (w : World ε) (frames : ι → List (Frame ε))
    (id : Nat) : Nat :=
  Threads.total (Frame.makes id) frames +
    (List.range w.nextAwaiter).countP
      fun a => (w.terms a).predicate = .requestId id

section IdInv

variable {w w' : World ε} {f : Frame ε} {fs rest : List (Frame ε)}

theorem BusObs.drawnId_of_unconcerned {o : BusObs ε}
    (h : o.concernsRequests = false) : o.drawnId = [] := by
  cases o <;> first
    | rfl
    | cases h

theorem drawnIds_cons_of_none {o : BusObs ε} {log : List (BusObs ε)}
    (h : o.drawnId = []) : drawnIds (o :: log) = drawnIds log := by
  rw [drawnIds_cons, h, List.append_nil]

theorem RequestStill.drawnIds (h : RequestStill w w') :
    drawnIds w'.log = EventHub.drawnIds w.log := by
  rcases h.log with hlog | ⟨o, hlog, ho⟩ <;> rw [hlog]
  exact drawnIds_cons_of_none (BusObs.drawnId_of_unconcerned ho)

variable [RequestTraits ε]

/-- Either the step leaves the ids alone or it draws one. -/
theorem RequestMove.ids (h : RequestMove w f w' fs) :
    (drawnIds w'.log = drawnIds w.log ∧ w'.requestIds = w.requestIds ∧
      ∀ g ∈ fs, g.redraws = false) ∨
    (∃ request, f = .nextRequestId false request ∧
      w.requestIds.next = invalidRequestId ∧ drawnIds w'.log = drawnIds w.log) ∨
    ∃ retry request, f = .nextRequestId retry request ∧
      drawnIds w'.log = drawnIds w.log ++ [w.requestIds.next] ∧
      w'.requestIds = w.requestIds.fetchAdd.2 ∧
      fs = requestFrames request w.requestIds.next := by
  have hkeep {above : List (Frame ε)} {last : Frame ε}
      (habove : ∀ g ∈ above, g.redraws = false) (hlast : last.redraws = false) :
      ∀ g ∈ above ++ [last], g.redraws = false :=
    List.forall_mem_append.mpr ⟨habove, List.forall_mem_singleton.mpr hlast⟩
  cases h with
  | still hstill hmakes hredraws hfs =>
      exact .inl ⟨hstill.drawnIds, hstill.requestIds,
        fun g hg => Frame.redraws_of_ignorant (hfs g hg)⟩
  | dispatched ev d hf hstill hfs =>
      exact .inl ⟨hstill.drawnIds, hstill.requestIds,
        hfs ▸ List.forall_mem_singleton.mpr rfl⟩
  | walked d ev rest rest' pc pc' above hf hstill hrest hpc habove hfs =>
      exact .inl ⟨hstill.drawnIds, hstill.requestIds,
        hfs ▸ hkeep (fun g hg => (habove g hg).2.1) rfl⟩
  | handled a ev pc pc' above hf hstill hpc habove hfs =>
      exact .inl ⟨hstill.drawnIds, hstill.requestIds,
        hfs ▸ hkeep (fun g hg => Frame.redraws_of_ignorant (habove g hg)) rfl⟩
  | called a ev hf hw hfs =>
      subst hw hfs
      exact .inl ⟨drawnIds_cons_of_none rfl, rfl,
        List.forall_mem_cons.mpr ⟨rfl, List.forall_mem_singleton.mpr rfl⟩⟩
  | created spec guard guard' via hf hguard hw keep hkeep' hfs =>
      subst hw hfs
      exact .inl ⟨drawnIds_cons_of_none rfl, rfl, List.forall_mem_cons.mpr
        ⟨rfl, fun g hg => Frame.redraws_of_ignorant (hkeep' g hg)⟩⟩
  | subscribed a id hf hstill hfs =>
      exact .inl ⟨hstill.drawnIds, hstill.requestIds, hfs ▸
        List.forall_mem_cons.mpr ⟨rfl, List.forall_mem_singleton.mpr rfl⟩⟩
  | added type r hf hw hfs =>
      subst hw hfs
      exact .inl ⟨rfl, rfl, fun _ hg => nomatch hg⟩
  | made e spec hf hstill hfs =>
      exact .inl ⟨hstill.drawnIds, hstill.requestIds,
        hfs ▸ List.forall_mem_singleton.mpr rfl⟩
  | posted ev e id hf hw hfs =>
      subst hw hfs
      exact .inl ⟨drawnIds_cons_of_none rfl, rfl,
        List.forall_mem_cons.mpr ⟨rfl, List.forall_mem_singleton.mpr rfl⟩⟩
  | returned e id ticket hf hw hfs =>
      subst hw hfs
      exact .inl ⟨drawnIds_cons_of_none rfl, rfl, fun _ hg => nomatch hg⟩
  | redrawn request hf hzero hw hfs => exact .inr (.inl ⟨request, hf, hzero, hw ▸ rfl⟩)
  | drew retry request hf hw hfs =>
      subst hw
      exact .inr (.inr ⟨retry, request, hf, drawnIds_cons, rfl, hfs⟩)

variable [DecidableEq ι] {frames : ι → List (Frame ε)} {t : ι}

theorem IdInv.move (h : IdInv w frames) (hmove : RequestMove w f w' fs) :
    IdInv w' (Threads.replaceTop frames t fs) := by
  rcases hmove.ids with ⟨hdrawn, hids, hfs⟩ | ⟨request, hf, hzero, hdrawn⟩ |
      ⟨retry, request, hf, hdrawn, hids, hfs⟩
  · refine ⟨fun hlt => ?_, fun hlt => ?_⟩ <;> rw [hdrawn] at hlt ⊢
    · exact ⟨hids ▸ (h.next hlt).1, (h.next hlt).2.replace hfs⟩
    · exact h.drawn hlt
  · refine ⟨fun hlt => ?_, fun hlt => ?_⟩ <;> rw [hdrawn] at hlt ⊢
    · have hnext := (h.next hlt).1
      rw [hzero] at hnext
      exact absurd hnext.symm (Nat.succ_ne_zero _)
    · exact h.drawn hlt
  · have hlen : (drawnIds w'.log).length = (drawnIds w.log).length + 1 := by
      rw [hdrawn, List.length_append]
      rfl
    refine ⟨fun hlt => ?_, fun hlt => ?_⟩ <;> rw [hlen] at hlt ⊢
    · obtain ⟨hnext, hredraws⟩ := h.next (by omega)
      refine ⟨?_, hredraws.replace ?_⟩
      · rw [hids]
        show (w.requestIds.next + 1) % 2 ^ 64 = _
        rw [hnext]
        exact Nat.mod_eq_of_lt hlt
      · rw [hfs]
        cases request with
        | none => exact fun _ hg => nomatch hg
        | some r =>
            show ∀ g ∈ [_, _], _
            exact List.forall_mem_cons.mpr ⟨rfl, List.forall_mem_singleton.mpr rfl⟩
    · rw [hdrawn, (h.next hlt).1, List.range'_1_concat, ← h.drawn (by omega),
        Nat.add_comm 1]

variable [Fintype ι]

theorem waitingFor_move (ht : frames t = f :: rest) (hmove : RequestMove w f w' fs) (id : Nat)
    (h : waitingFor w frames id ≤ (drawnIds w.log).count id) :
    waitingFor w' (Threads.replaceTop frames t fs) id ≤
      (drawnIds w'.log).count id := by
  have htotal := Threads.total_replaceTop (p := Frame.makes id) fs ht
  have hsame (hlog : drawnIds w'.log = drawnIds w.log)
      (hnext : w'.nextAwaiter = w.nextAwaiter) (hterms : ∀ a, w'.terms a = w.terms a)
      (hmakes : fs.countP (Frame.makes id) ≤ [f].countP (Frame.makes id)) :
      waitingFor w' (Threads.replaceTop frames t fs) id ≤
        (drawnIds w'.log).count id := by
    rw [hlog]
    refine le_trans ?_ h
    unfold waitingFor
    rw [hnext]
    simp only [hterms]
    omega
  have hnone {gs : List (Frame ε)} (hgs : ∀ g ∈ gs, g.makes id = false) :
      gs.countP (Frame.makes id) = 0 :=
    List.countP_eq_zero.mpr fun g hg => Bool.eq_false_iff.mp (hgs g hg)
  have hkeep {above : List (Frame ε)} {g : Frame ε}
      (habove : ∀ g ∈ above, g.makes id = false) (hg : g.makes id = false) :
      (above ++ [g]).countP (Frame.makes id) ≤ [f].countP (Frame.makes id) := by
    rw [hnone (List.forall_mem_append.mpr
      ⟨habove, List.forall_mem_singleton.mpr hg⟩)]
    exact Nat.zero_le _
  cases hmove with
  | still hstill hmakes hredraws hfs =>
      refine hsame hstill.drawnIds hstill.nextAwaiter hstill.terms ?_
      rw [hnone fun g hg => Frame.makes_of_ignorant (hfs g hg) id]
      exact Nat.zero_le _
  | dispatched ev d hf hstill hfs =>
      subst hfs
      exact hsame hstill.drawnIds hstill.nextAwaiter hstill.terms (Nat.zero_le _)
  | walked d ev rest rest' pc pc' above hf hstill hrest hpc habove hfs =>
      subst hfs
      exact hsame hstill.drawnIds hstill.nextAwaiter hstill.terms
        (hkeep (fun g hg => (habove g hg).1 id) rfl)
  | handled a ev pc pc' above hf hstill hpc habove hfs =>
      subst hfs
      exact hsame hstill.drawnIds hstill.nextAwaiter hstill.terms
        (hkeep (fun g hg => Frame.makes_of_ignorant (habove g hg) id) rfl)
  | called a ev hf hw hfs =>
      subst hw hfs
      exact hsame (drawnIds_cons_of_none rfl) rfl (fun _ => rfl) (Nat.zero_le _)
  | created spec guard guard' via hf hguard hw keep hkeep' hfs =>
      subst hf hw hfs
      have hgone : (Frame.subscribeAwaiter w.nextAwaiter :: keep).countP
          (Frame.makes id) = 0 :=
        hnone (List.forall_mem_cons.mpr
          ⟨rfl, fun g hg => Frame.makes_of_ignorant (hkeep' g hg) id⟩)
      have hlog : drawnIds (w.createAwaiter spec guard' via).log = drawnIds w.log :=
        drawnIds_cons_of_none rfl
      have hold : (List.range w.nextAwaiter).countP (fun a =>
          ((w.createAwaiter spec guard' via).terms a).predicate = .requestId id) =
          (List.range w.nextAwaiter).countP
            fun a => (w.terms a).predicate = .requestId id := by
        refine List.countP_congr fun a ha => ?_
        rw [createAwaiter_terms_of_ne spec guard' via (List.mem_range.mp ha).ne]
      have hcount : (List.range (w.nextAwaiter + 1)).countP (fun a =>
          ((w.createAwaiter spec guard' via).terms a).predicate = .requestId id) =
          (List.range w.nextAwaiter).countP
              (fun a => (w.terms a).predicate = .requestId id) +
            [(Frame.createAwaiter spec guard via : Frame ε)].countP
              (Frame.makes id) := by
        rw [List.range_succ, List.countP_append, hold, List.countP_singleton,
          List.countP_singleton, createAwaiter_terms_self]
        rfl
      rw [hlog]
      refine le_trans ?_ h
      unfold waitingFor
      rw [show (w.createAwaiter spec guard' via).nextAwaiter = w.nextAwaiter + 1
        from rfl, hcount]
      omega
  | subscribed a id' hf hstill hfs =>
      subst hfs
      exact hsame hstill.drawnIds hstill.nextAwaiter hstill.terms (Nat.zero_le _)
  | added type r hf hw hfs =>
      subst hw hfs
      exact hsame rfl rfl (fun _ => rfl) (Nat.zero_le _)
  | made e spec hf hstill hfs =>
      subst hf hfs
      exact hsame hstill.drawnIds hstill.nextAwaiter hstill.terms (Nat.le_refl _)
  | posted ev e id' hf hw hfs =>
      subst hw hfs
      exact hsame (drawnIds_cons_of_none rfl) rfl (fun _ => rfl) (Nat.zero_le _)
  | returned e id' ticket hf hw hfs =>
      subst hw hfs
      exact hsame (drawnIds_cons_of_none rfl) rfl (fun _ => rfl) (Nat.zero_le _)
  | redrawn request hf hzero hw hfs =>
      subst hw hfs
      exact hsame rfl rfl (fun _ => rfl) (Nat.zero_le _)
  | drew retry request hf hw hfs =>
      subst hf hw hfs
      have hlog : drawnIds (({ w with requestIds := w.requestIds.fetchAdd.2 } :
          World ε).note (.idDrawn w.requestIds.next)).log =
            drawnIds w.log ++ [w.requestIds.next] := drawnIds_cons
      have hmakes : (requestFrames (ε := ε) request w.requestIds.next).countP
          (Frame.makes id) ≤ [w.requestIds.next].count id := by
        cases request with
        | none => exact Nat.zero_le _
        | some r =>
            simp only [requestFrames, List.countP_cons, List.countP_nil, Frame.makes,
              Predicate.requestId.injEq, decide_eq_true_eq, Bool.false_eq_true,
              if_false, List.count_singleton, beq_iff_eq, Nat.zero_add,
              Nat.le_refl]
      rw [hlog, List.count_append]
      have hw : waitingFor (({ w with requestIds := w.requestIds.fetchAdd.2 } :
          World ε).note (.idDrawn w.requestIds.next))
          (Threads.replaceTop frames t (requestFrames request w.requestIds.next)) id =
          Threads.total (Frame.makes id) (Threads.replaceTop frames t
            (requestFrames request w.requestIds.next)) +
          (List.range w.nextAwaiter).countP
            fun a => (w.terms a).predicate = .requestId id := rfl
      unfold waitingFor at h
      rw [List.countP_cons_of_neg Bool.false_ne_true, List.countP_nil] at htotal
      omega

end IdInv

/-! ## The awaiter is there before the request is posted -/

namespace Frame

def makesThrough (e id : Nat) : Frame ε → Bool
  | .makeAwaiter b spec => b = e && spec.predicate = .requestId id
  | .createAwaiter spec _ (some b) => b = e && spec.predicate = .requestId id
  | _ => false

end Frame

/-- Every request that a frame relies on satisfies `P`, or a frame above makes
its awaiter. -/
def StackAwaits (P : Nat → Nat → Prop) : List (Frame ε) → Prop
  | [] => True
  | f :: fs => (∀ e id, f.relies = some (e, id) → P e id) ∧
      StackAwaits (fun e id => P e id ∨ f.makesThrough e id) fs

def HasAwaiter (w : World ε) (e id : Nat) : Prop := ∃ a, w.Awaited e id a

structure AwaitedInv (w : World ε) (frames : ι → List (Frame ε)) : Prop where
  frames : ∀ t, StackAwaits (HasAwaiter w) (frames t)
  log : ∀ e id ticket, .requestReturned e id ticket ∈ w.log → HasAwaiter w e id

section AwaitedInv

variable {w w' : World ε} {f : Frame ε} {fs rest : List (Frame ε)}
  {P Q : Nat → Nat → Prop}

theorem StackAwaits.imp (h : StackAwaits P fs) (hPQ : ∀ e id, P e id → Q e id) :
    StackAwaits Q fs := by
  induction fs generalizing P Q with
  | nil => trivial
  | cons g fs ih =>
      exact ⟨fun e id hr => hPQ e id (h.1 e id hr),
        ih h.2 fun e id => Or.imp_left (hPQ e id)⟩

theorem StackAwaits.append (h : StackAwaits P fs)
    (hrest : StackAwaits
      (fun e id => P e id ∨ ∃ g ∈ fs, g.makesThrough e id) rest) :
    StackAwaits P (fs ++ rest) := by
  induction fs generalizing P with
  | nil =>
      exact hrest.imp fun e id => Or.rec (fun h => h) fun ⟨_, hg, _⟩ => nomatch hg
  | cons g fs ih =>
      refine ⟨h.1, ih h.2 (hrest.imp fun e id hor => ?_)⟩
      rcases hor with hP | ⟨g', hg', hmakes⟩
      · exact .inl (.inl hP)
      · rcases List.mem_cons.mp hg' with rfl | hg'
        · exact .inl (.inr hmakes)
        · exact .inr ⟨g', hg', hmakes⟩

theorem StackAwaits.of_none (h : ∀ g ∈ fs, g.relies = none) :
    StackAwaits P fs := by
  induction fs generalizing P with
  | nil => trivial
  | cons g fs ih =>
      refine ⟨fun e id hr => ?_, ih fun g' hg' => h g' (List.mem_cons_of_mem g hg')⟩
      rw [h g List.mem_cons_self] at hr
      cases hr

theorem Frame.relies_of_ignorant (h : f.ignorant) : f.relies = none := by
  cases f with
  | enqueue ev request => exact Option.isNone_iff_eq_none.mp h
  | requestReturn => cases h
  | _ => rfl

theorem Frame.makes_of_makesThrough {e id : Nat} (h : f.makesThrough e id) :
    f.makes id := by
  cases f with
  | makeAwaiter b spec =>
      rw [Frame.makesThrough, Bool.and_eq_true] at h
      exact h.2
  | createAwaiter spec guard via =>
      cases via with
      | none => cases h
      | some b =>
          rw [Frame.makesThrough, Bool.and_eq_true] at h
          exact h.2
  | _ => cases h

/-- What a step does to the requests that have their awaiter or will. -/
structure AwaitMove (w : World ε) (f : Frame ε) (w' : World ε)
    (fs : List (Frame ε)) : Prop where
  grows : RequestGrows w w'
  makes : ∀ e id, f.makesThrough e id →
    (∃ g ∈ fs, g.makesThrough e id) ∨ HasAwaiter w' e id
  stack : (∀ e id, f.relies = some (e, id) → HasAwaiter w' e id) →
    StackAwaits (HasAwaiter w') fs
  log : ∀ e id ticket, .requestReturned e id ticket ∈ w'.log →
    .requestReturned e id ticket ∈ w.log ∨ f.relies = some (e, id)

theorem RequestStill.returned {e id ticket : Nat} (h : RequestStill w w')
    (hmem : .requestReturned e id ticket ∈ w'.log) :
    .requestReturned e id ticket ∈ w.log := by
  rcases h.log with hlog | ⟨o, hlog, ho⟩ <;> rw [hlog] at hmem
  · exact hmem
  · rcases List.mem_cons.mp hmem with rfl | hmem
    · cases ho
    · exact hmem

theorem AwaitMove.still (hstill : RequestStill w w')
    (hf : ∀ id, f.makes id = false) (hfs : ∀ g ∈ fs, g.relies = none) :
    AwaitMove w f w' fs where
  grows := .of_still hstill
  makes _ id h := absurd (Frame.makes_of_makesThrough h)
    (Bool.eq_false_iff.mp (hf id))
  stack _ := .of_none hfs
  log _ _ _ hmem := .inl (hstill.returned hmem)

/-- The log grew by something else. -/
theorem AwaitMove.noted {o : BusObs ε} (hgrows : RequestGrows w w')
    (hlog : w'.log = o :: w.log) (ho : ∀ e id ticket, o ≠ .requestReturned e id ticket)
    (hf : ∀ id, f.makes id = false) (hfs : ∀ g ∈ fs, g.relies = none) :
    AwaitMove w f w' fs where
  grows := hgrows
  makes _ id h := absurd (Frame.makes_of_makesThrough h)
    (Bool.eq_false_iff.mp (hf id))
  stack _ := .of_none hfs
  log e id ticket hmem := by
    rw [hlog] at hmem
    rcases List.mem_cons.mp hmem with heq | hmem
    · exact absurd heq.symm (ho e id ticket)
    · exact .inl hmem

variable [RequestTraits ε]

theorem RequestMove.awaits (h : RequestMove w f w' fs) : AwaitMove w f w' fs := by
  cases h with
  | still hstill hmakes hredraws hfs =>
      exact .still hstill hmakes fun g hg => Frame.relies_of_ignorant (hfs g hg)
  | dispatched ev d hf hstill hfs =>
      subst hf hfs
      exact .still hstill (fun _ => rfl) (List.forall_mem_singleton.mpr rfl)
  | walked d ev rest rest' pc pc' above hf hstill hrest hpc habove hfs =>
      subst hf hfs
      exact .still hstill (fun _ => rfl) (List.forall_mem_append.mpr
        ⟨fun g hg => (habove g hg).2.2, List.forall_mem_singleton.mpr rfl⟩)
  | handled a ev pc pc' above hf hstill hpc habove hfs =>
      subst hf hfs
      exact .still hstill (fun _ => rfl) (List.forall_mem_append.mpr
        ⟨fun g hg => Frame.relies_of_ignorant (habove g hg),
          List.forall_mem_singleton.mpr rfl⟩)
  | called a ev hf hw hfs =>
      subst hf hw hfs
      exact .noted (.noted _) rfl (fun _ _ _ => nofun) (fun _ => rfl)
        (List.forall_mem_cons.mpr ⟨rfl, List.forall_mem_singleton.mpr rfl⟩)
  | created spec guard guard' via hf hguard hw keep hkeep hfs =>
      subst hf hw hfs
      refine ⟨⟨Nat.le_succ _, fun a ha => createAwaiter_terms_of_ne spec guard' via
          ha.ne, fun _ => List.mem_cons_of_mem _⟩, fun e id hmakes => .inr ?_,
        fun _ => .of_none (List.forall_mem_cons.mpr
          ⟨rfl, fun g hg => Frame.relies_of_ignorant (hkeep g hg)⟩),
        fun e id ticket hmem => ?_⟩
      · cases via with
        | none => cases hmakes
        | some b =>
            simp only [Frame.makesThrough, Bool.and_eq_true, decide_eq_true_eq] at hmakes
            obtain ⟨rfl, hp⟩ := hmakes
            refine ⟨w.nextAwaiter, List.mem_cons_self, ?_⟩
            rw [createAwaiter_terms_self]
            exact hp
      · rcases List.mem_cons.mp hmem with heq | hmem
        · cases heq
        · exact .inl hmem
  | subscribed a id hf hstill hfs =>
      subst hf hfs
      exact .still hstill (fun _ => rfl)
        (List.forall_mem_cons.mpr ⟨rfl, List.forall_mem_singleton.mpr rfl⟩)
  | added type r hf hw hfs =>
      subst hf hw hfs
      exact ⟨⟨Nat.le_refl _, fun _ _ => rfl, fun _ ho => ho⟩, fun _ _ h => (nomatch h),
        fun _ => trivial, fun _ _ _ => .inl⟩
  | made e spec hf hstill hfs =>
      subst hf hfs
      exact ⟨.of_still hstill, fun e' id hmakes =>
          .inl ⟨_, List.mem_singleton.mpr rfl, hmakes⟩,
        fun _ => .of_none (List.forall_mem_singleton.mpr rfl),
        fun _ _ _ hmem => .inl (hstill.returned hmem)⟩
  | posted ev e id hf hw hfs =>
      subst hf hw hfs
      refine ⟨⟨Nat.le_refl _, fun _ _ => rfl, fun _ => List.mem_cons_of_mem _⟩,
        fun _ _ h => (nomatch h), fun hrelies => ⟨fun _ _ h => (nomatch h),
          ⟨fun e' id' heq => ?_, trivial⟩⟩, fun e' id' ticket hmem => ?_⟩
      · exact .inl (hrelies e' id' heq)
      · rcases List.mem_cons.mp hmem with heq | hmem
        · cases heq
        · exact .inl hmem
  | returned e id ticket hf hw hfs =>
      subst hf hw hfs
      refine ⟨.noted _, fun _ _ h => (nomatch h), fun _ => trivial,
        fun e' id' ticket' hmem => ?_⟩
      rcases List.mem_cons.mp hmem with heq | hmem
      · cases heq
        exact .inr rfl
      · exact .inl hmem
  | redrawn request hf hzero hw hfs =>
      subst hf hw hfs
      exact ⟨⟨Nat.le_refl _, fun _ _ => rfl, fun _ ho => ho⟩, fun _ _ h => (nomatch h),
        fun _ => .of_none (List.forall_mem_singleton.mpr rfl), fun _ _ _ => .inl⟩
  | drew retry request hf hw hfs =>
      subst hf hw hfs
      refine ⟨⟨Nat.le_refl _, fun _ _ => rfl, fun _ => List.mem_cons_of_mem _⟩,
        fun _ _ h => (nomatch h), fun _ => ?_, fun e id ticket hmem => ?_⟩
      · cases request with
        | none => trivial
        | some r =>
            refine ⟨fun _ _ h => (nomatch h), fun e id heq => .inr ?_, trivial⟩
            cases heq
            simp [Frame.makesThrough]
      · rcases List.mem_cons.mp hmem with heq | hmem
        · cases heq
        · exact .inl hmem

omit [RequestTraits ε] in
theorem HasAwaiter.grow {e id : Nat} (hgrow : RequestGrows w w')
    (hcreated : ∀ a e, .created a (some e) ∈ w.log → a < w.nextAwaiter)
    (h : HasAwaiter w e id) : HasAwaiter w' e id := by
  obtain ⟨a, hmem, hp⟩ := h
  refine ⟨a, hgrow.log _ hmem, ?_⟩
  rwa [hgrow.terms a (hcreated a e hmem)]

variable [DecidableEq ι] {frames : ι → List (Frame ε)} {t : ι}

omit [RequestTraits ε] in
theorem AwaitedInv.move (h : AwaitedInv w frames)
    (hcreated : ∀ a e, .created a (some e) ∈ w.log → a < w.nextAwaiter)
    (ht : frames t = f :: rest) (hmove : AwaitMove w f w' fs) :
    AwaitedInv w' (Threads.replaceTop frames t fs) where
  frames u := by
    have hgrow {fs : List (Frame ε)} (h : StackAwaits (HasAwaiter w) fs) :
        StackAwaits (HasAwaiter w') fs :=
      h.imp fun _ _ => HasAwaiter.grow hmove.grows hcreated
    by_cases hu : u = t
    · subst hu
      rw [Threads.replaceTop_self, ht, List.tail_cons]
      have hstack := h.frames u
      rw [ht] at hstack
      refine (hmove.stack fun e id hr =>
        (hstack.1 e id hr).grow hmove.grows hcreated).append
          (hstack.2.imp fun e id hor => ?_)
      rcases hor with hP | hmakes
      · exact .inl (hP.grow hmove.grows hcreated)
      · exact (hmove.makes e id hmakes).symm
    · rw [Threads.replaceTop_of_ne hu]
      exact hgrow (h.frames u)
  log e id ticket hmem := by
    refine HasAwaiter.grow hmove.grows hcreated ?_
    rcases hmove.log e id ticket hmem with hmem | hrelies
    · exact h.log e id ticket hmem
    · have hstack := h.frames t
      rw [ht] at hstack
      exact hstack.1 e id hrelies

end AwaitedInv

/-! ## All of it along a run -/

structure RequestsInv [Fintype ι] [RequestTraits ε] (s : BusSystem ι ε) :
    Prop where
  requests : RequestInv s.world s.frames
  ids : IdInv s.world s.frames
  waiting : ∀ id, waitingFor s.world s.frames id ≤
    (drawnIds s.world.log).count id
  awaited : AwaitedInv s.world s.frames
  nested : ∀ t, WellNested (s.frames t)

section RequestsInv

variable [Fintype ι] [RequestTraits ε] {s s' : BusSystem ι ε}

theorem RequestsInv.init : RequestsInv ({} : BusSystem ι ε) where
  requests :=
    { knows := fun t f hf => by
        rw [List.mem_singleton.mp hf]
        trivial
      table := fun _ _ hr => nomatch hr
      single := fun _ _ hid => nomatch hid
      fresh := fun _ _ => rfl
      log := fun _ ho => nomatch ho }
  ids := ⟨fun _ => ⟨rfl, fun t f hf => by rw [List.mem_singleton.mp hf]; rfl⟩,
    fun _ => rfl⟩
  waiting id := by
    have hzero : Threads.total (Frame.makes id)
        (fun _ : ι => [(.user .main : Frame ε)]) = 0 :=
      Threads.total_eq_zero_iff.mpr fun t f hf => by
        rw [List.mem_singleton.mp hf]
        rfl
    show Threads.total (Frame.makes id) (fun _ : ι => [.user .main]) + 0 ≤ 0
    omega
  awaited :=
    { frames := fun _ => ⟨fun _ _ h => (nomatch h), trivial⟩
      log := fun _ _ _ h => absurd h List.not_mem_nil }
  nested _ := .one

variable [DecidableEq ι]

theorem RequestsInv.step {act : BusAction ι ε} (h : RequestsInv s)
    (hown : OwnPredicates act) (hstep : BusSystem.step s act = some s') :
    RequestsInv s' := by
  have hnested := WellNested.step h.nested hstep
  rcases BusSystem.step_cases hstep with
    ⟨delta, rfl, rfl⟩ | ⟨t, f, rest, o, ht, hmoved, rfl⟩
  · have hgrow : RequestGrows s.world { s.world with now := s.world.now + delta } :=
      ⟨Nat.le_refl _, fun _ _ => rfl, fun _ ho => ho⟩
    exact
      { requests :=
          { knows := h.requests.knows.imp fun _ hg => hg.grow hgrow
            table := h.requests.table
            single := h.requests.single
            fresh := h.requests.fresh
            log := fun o ho => (h.requests.log o ho).grow hgrow }
        ids := ⟨h.ids.next, h.ids.drawn⟩
        waiting := h.waiting
        awaited := ⟨h.awaited.frames, h.awaited.log⟩
        nested := hnested }
  · have hmove := hmoved.requestMove hown
    exact
      { requests := h.requests.move ht hmove
        ids := h.ids.move hmove
        waiting := fun id => waitingFor_move ht hmove id (h.waiting id)
        awaited := h.awaited.move
          (fun a e hmem => (h.requests.log _ hmem).1) ht hmove.awaits
        nested := hnested }

omit [DecidableEq ι] in
/-- Two awaiters that wait for the same result are one. -/
theorem RequestsInv.apart (h : RequestsInv s)
    (hfew : (drawnIds s.world.log).length < 2 ^ 64) {a b id : Nat}
    (ha : (s.world.terms a).predicate = .requestId id)
    (hb : (s.world.terms b).predicate = .requestId id) : a = b := by
  have hlt {c : Nat} (hc : (s.world.terms c).predicate = .requestId id) :
      c < s.world.nextAwaiter := by
    refine Nat.lt_of_not_le fun hle => ?_
    have hfresh := h.requests.fresh c hle
    rw [hc] at hfresh
    cases hfresh
  have hnodup : (drawnIds s.world.log).Nodup := by
    rw [h.ids.drawn hfew]
    exact List.nodup_range' ..
  have hcount := List.nodup_iff_count_le_one.mp hnodup id
  have hwaiting := h.waiting id
  unfold waitingFor at hwaiting
  have hone : (List.range s.world.nextAwaiter).countP
      (fun a => (s.world.terms a).predicate = .requestId id) ≤ 1 := by omega
  rw [List.countP_eq_length_filter] at hone
  have hmem {c : Nat} (hc : (s.world.terms c).predicate = .requestId id) :
      c ∈ (List.range s.world.nextAwaiter).filter
        fun a => (s.world.terms a).predicate = .requestId id :=
    List.mem_filter.mpr ⟨List.mem_range.mpr (hlt hc), decide_eq_true hc⟩
  obtain ⟨c, hc⟩ := List.length_eq_one_iff.mp
    (Nat.le_antisymm hone (List.length_pos_of_mem (hmem ha)))
  have ha' := hmem ha
  have hb' := hmem hb
  rw [hc, List.mem_singleton] at ha' hb'
  exact ha'.trans hb'.symm

end RequestsInv

end EventHub
