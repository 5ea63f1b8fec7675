import EventHub.Bus.History
import EventHub.Proofs.BusStep

/-!
# The queue of the bus

`process()` takes the queue, works on it outside the lock, and gives back what
an exception left over. As long as two calls of `process()` do not overlap, the
queue behaves as a queue drained in sessions: every step of the machine is a
step of `DrainQueue` or leaves it alone, whoever posts and clears meanwhile.
-/

namespace EventHub

variable {ι ε : Type}

/-- A frame of `process()`, up to the end of its loop. -/
def Frame.processing : Frame ε → Bool
  | .process | .draining .. | .dispatching .. => true
  | _ => false

/-- A step that leaves the queue and the calls of `process()` alone. -/
structure QueueQuiet (w w' : World ε) (fs : List (Frame ε)) : Prop where
  queue : w'.queue = w.queue
  nextTicket : w'.nextTicket = w.nextTicket
  log : w'.log = w.log ∨ ∃ o : BusObs ε, o.quiet ∧ w'.log = o :: w.log
  frames : ∀ f ∈ fs, f.processing = false

/-- What a step does to the queue. -/
inductive QueueMove (w : World ε) (f : Frame ε) (w' : World ε) :
    List (Frame ε) → Prop
  | quiet {fs : List (Frame ε)} (hf : f.processing = false)
      (h : QueueQuiet w w' fs) : QueueMove w f w' fs
  | enter {fs : List (Frame ε)} (ev : Event ε) (hf : f.processing = false)
      (hfs : ∀ f' ∈ fs, f'.processing = false) (hw : w' = w.enqueue ev) :
      QueueMove w f w' fs
  | drop {fs : List (Frame ε)} (hf : f.processing = false)
      (hfs : ∀ f' ∈ fs, f'.processing = false) (hw : w' = w.clearPending) :
      QueueMove w f w' fs
  | take (hf : f = .process) (hq : w'.queue = [])
      (ht : w'.nextTicket = w.nextTicket)
      (hlog : w'.log = .processBegan w.queue :: w.log) :
      QueueMove w f w' [.draining w.queue 0]
  | serve {q : QueuedEvent ε} {rest : List (QueuedEvent ε)} {n : Nat}
      (hf : f = .draining (q :: rest) n) (hw : w' = w.note (.dispatched q)) :
      QueueMove w f w' [.dispatch q.event, .dispatching q rest n]
  | served {q : QueuedEvent ε} {rest : List (QueuedEvent ε)} {n : Nat}
      (hf : f = .dispatching q rest n) (hw : w' = w) :
      QueueMove w f w' [.draining rest (n + 1)]
  | done {n : Nat} (hf : f = .draining [] n) (hw : w' = w) :
      QueueMove w f w' [.pollAwaiters, .processed n]
  | threw {q : QueuedEvent ε} {rest : List (QueuedEvent ε)} {n : Nat}
      (hf : f = .dispatching q rest n) (hq : w'.queue = rest ++ w.queue)
      (ht : w'.nextTicket = w.nextTicket)
      (hlog : w'.log = .processThrew q (rest ++ w.queue) :: w.log) :
      QueueMove w f w' []

section QueueMove

variable {w : World ε} {f : Frame ε} {o : Outcome ε}

theorem QueueQuiet.same {fs : List (Frame ε)}
    (hfs : ∀ f ∈ fs, f.processing = false) : QueueQuiet w w fs :=
  ⟨rfl, rfl, .inl rfl, hfs⟩

theorem QueueQuiet.noted {obs : BusObs ε} {fs : List (Frame ε)}
    (hobs : obs.quiet) (hfs : ∀ f ∈ fs, f.processing = false) :
    QueueQuiet w (w.note obs) fs :=
  ⟨rfl, rfl, .inr ⟨obs, hobs, rfl⟩, hfs⟩

theorem advanceDispatch_quiet (alive : Guard → Bool) (w : World ε) (d : Nat)
    (ev : Event ε) (rest : List CallbackRecord) (pc : DispatchPc) :
    QueueQuiet w (advanceDispatch alive w d ev rest pc).world
      (advanceDispatch alive w d ev rest pc).frames := by
  fun_cases advanceDispatch <;>
    first
    | exact .same (by simp [Frame.processing])
    | exact .noted rfl (by simp [Frame.processing])

theorem cancelThen_quiet (w : World ε) (a : Nat) (cause : Cause)
    {rest : List (Frame ε)} (hrest : ∀ f ∈ rest, f.processing = false) :
    QueueQuiet w (cancelThen w a cause rest).world
      (cancelThen w a cause rest).frames := by
  unfold cancelThen
  split
  · exact ⟨rfl, rfl, .inr ⟨_, rfl, rfl⟩, List.forall_mem_cons.mpr ⟨rfl, hrest⟩⟩
  · exact .same hrest

theorem advanceHandle_quiet [RequestTraits ε] (w : World ε) (result : Bool)
    (a : Nat) (ev : Event ε) (pc : HandlePc) :
    QueueQuiet w (advanceHandle w result a ev pc).world
      (advanceHandle w result a ev pc).frames := by
  fun_cases advanceHandle <;>
    first
    | exact .same (by simp [Frame.processing])
    | exact .noted rfl (by simp [Frame.processing])
    | exact cancelThen_quiet _ _ _ (by simp [Frame.processing])

theorem advancePoll_quiet (w : World ε) (a : Nat) (pc : PollPc) :
    QueueQuiet w (advancePoll w a pc).world (advancePoll w a pc).frames := by
  fun_cases advancePoll <;>
    first
    | exact .same (by simp [Frame.processing])
    | exact .noted rfl (by simp [Frame.processing])
    | exact ⟨rfl, rfl, .inl rfl, by simp [Frame.processing]⟩
    | exact cancelThen_quiet _ _ _ (by simp [Frame.processing])

theorem release_quiet (w : World ε) (a : Nat) :
    QueueQuiet w (w.release a) [] := by
  refine ⟨?_, ?_, .inl ?_, by simp⟩ <;>
    · unfold World.release
      dsimp only
      split <;> rfl

theorem advance_queueMove [RequestTraits ε] {alive : Guard → Bool}
    {result : Bool} (h : advance alive w result f = some o) :
    QueueMove w f o.world o.frames := by
  cases f with
  | user code => cases h
  | records d ev rest pc =>
      cases h
      exact .quiet rfl (advanceDispatch_quiet ..)
  | handleEvent a ev pc =>
      cases h
      exact .quiet rfl (advanceHandle_quiet ..)
  | pollTimeout a pc =>
      cases h
      exact .quiet rfl (advancePoll_quiet ..)
  | release a =>
      cases h
      exact .quiet rfl (release_quiet ..)
  | enqueue ev request =>
      cases h
      exact .enter ev rfl (by cases request <;> simp [Frame.processing]) rfl
  | process =>
      cases h
      exact .take rfl rfl rfl rfl
  | draining rest n =>
      cases rest with
      | nil =>
          cases h
          exact .done rfl rfl
      | cons q rest =>
          cases h
          exact .serve rfl rfl
  | dispatching q rest n =>
      cases h
      exact .served rfl rfl
  | dispatch ev | pollAwaiters | processed n | requestReturn e id ticket
  | closeUnsubscribe e =>
      cases h
      exact .quiet rfl ⟨rfl, rfl, .inr ⟨_, rfl, rfl⟩, by simp [Frame.processing]⟩
  | createAwaiter spec guard via =>
      cases h
      refine .quiet rfl ⟨rfl, rfl, .inr ⟨_, rfl, rfl⟩, ?_⟩
      cases via <;> simp [Frame.processing]
  | addCallback type record | cancelAwaiters e cause | close e
  | makeAwaiter e spec | subscribeAwaiter a | storeSubscriptionId a id
  | registerAwaiter a | keepHandle e a =>
      cases h
      exact .quiet rfl ⟨rfl, rfl, .inl rfl, by simp [Frame.processing]⟩
  | polling live =>
      cases live <;> cases h
      · exact .quiet rfl (.noted rfl (by simp))
      · exact .quiet rfl (.same (by simp [Frame.processing]))
  | cancelling awaiters cause =>
      cases awaiters <;> cases h
      · exact .quiet rfl (.same (by simp))
      · exact .quiet rfl (.same (by simp [Frame.processing]))
  | notifyWorkAvailable =>
      simp only [advance] at h
      split at h <;> cases h
      · exact .quiet rfl (.noted rfl (by simp))
      · exact .quiet rfl (.same (by simp))
  | cancel a cause =>
      cases h
      exact .quiet rfl (cancelThen_quiet _ _ _ (by simp))
  | nextRequestId retry request =>
      simp only [advance] at h
      split at h <;> cases h
      · exact .quiet rfl ⟨rfl, rfl, .inl rfl, by simp [Frame.processing]⟩
      · refine .quiet rfl ⟨rfl, rfl, .inr ⟨_, rfl, rfl⟩, ?_⟩
        cases request <;> simp [requestFrames, Frame.processing]

theorem unwind_queueMove (h : unwind w f = some o) :
    QueueMove w f o.world o.frames := by
  cases f with
  | dispatching q rest n =>
      cases h
      have heq := World.restoreUnprocessedEvents_eq w.queue rest
      exact .threw rfl heq rfl (by rw [← heq])
  | pollAwaiters =>
      cases h
      exact .quiet rfl (.same (by simp))
  | records d ev rest pc =>
      refine .quiet rfl ?_
      cases pc with
      | calling r =>
          simp only [unwind] at h
          split at h <;> cases h <;> exact .same (by simp [Frame.processing])
      | reporting r =>
          cases h
          exact .same (by simp)
      | _ => cases h
  | handleEvent a ev pc =>
      refine .quiet rfl ?_
      cases pc with
      | deciding | calling =>
          cases h
          exact .same (by simp)
      | _ => cases h
  | pollTimeout a pc =>
      refine .quiet rfl ?_
      cases pc with
      | calling =>
          simp only [unwind] at h
          split at h <;> cases h <;> exact .same (by simp [Frame.processing])
      | reporting =>
          cases h
          exact .same (by simp)
      | _ => cases h
  | _ => cases h

theorem call_queueMove (w : World ε) (code : UserCode) {c : BusCall ε}
    (hc : c ≠ .process) :
    QueueMove w (.user code) (call w c).1 ((call w c).2 ++ [.user code]) := by
  cases c with
  | process => exact absurd rfl hc
  | clearPending => exact .drop rfl (by simp [call, Frame.processing]) rfl
  | _ => exact .quiet rfl ⟨rfl, rfl, .inl rfl, by simp [call, Frame.processing]⟩

/-- Every step does one of these things to the queue, or calls `process()`. -/
theorem Moved.queueMove [Fintype ι] [DecidableEq ι] [RequestTraits ε]
    {s : BusSystem ι ε} {a : BusAction ι ε} {t : ι} (h : Moved s a t f o) :
    QueueMove s.world f o.world o.frames ∨
      a = .call t .process ∧ o.world = s.world ∧
        ∃ code, f = .user code ∧ o.frames = [.process, .user code] := by
  cases h with
  | advance hmode h => exact .inl (advance_queueMove h)
  | unwind hmode h => exact .inl (unwind_queueMove h)
  | @call t code result c hmode =>
      by_cases hc : c = .process
      · subst hc
        exact .inr ⟨rfl, rfl, code, rfl, rfl⟩
      · exact .inl (call_queueMove _ _ hc)
  | ret result' hmode hcode => exact .inl (.quiet rfl (.same (by simp)))
  | throw hcode => exact .inl (.quiet rfl (.same (by simp)))
  | «catch» hmode =>
      exact .inl (.quiet rfl (.same (by simp [Frame.processing])))

end QueueMove

/-! ## The queue as a queue drained in sessions -/

/-- The queue with its history, given what a call of `process()` has in hand. -/
def World.ledger (w : World ε) (hand : List (QueuedEvent ε)) :
    DrainQueue.State (QueuedEvent ε) where
  waiting := w.queue
  inHand := hand
  entered := entered w.log
  dropped := dropped w.log
  served := dispatched w.log
  session :=
    { snapshot := snapshot w.log
      served := dispatched (sinceBegan w.log)
      entered := entered (sinceBegan w.log)
      dropped := dropped (sinceBegan w.log)
      broken := (sinceBegan w.log).any (·.breaksSession) }

section ledger

variable {w w' : World ε} {hand : List (QueuedEvent ε)}

theorem ledger_cons {o : BusObs ε} (ho : o.beginsSession = false)
    (hlog : w'.log = o :: w.log) :
    w'.ledger hand =
      { waiting := w'.queue
        inHand := hand
        entered := entered w.log ++ o.enteredEvent
        dropped := dropped w.log ++ o.droppedEvents
        served := dispatched w.log ++ o.dispatchedEvent
        session :=
          { snapshot := snapshot w.log
            served := dispatched (sinceBegan w.log) ++ o.dispatchedEvent
            entered := entered (sinceBegan w.log) ++ o.enteredEvent
            dropped := dropped (sinceBegan w.log) ++ o.droppedEvents
            broken := o.breaksSession ||
              (sinceBegan w.log).any (·.breaksSession) } } := by
  simp only [World.ledger, hlog, sinceBegan_cons ho, snapshot_cons ho,
    entered_cons, dropped_cons, dispatched_cons, List.any_cons]

theorem ledger_quiet {fs : List (Frame ε)} (h : QueueQuiet w w' fs) :
    w'.ledger hand = w.ledger hand := by
  have hq := h.queue
  rcases h.log with hlog | ⟨o, ho, hlog⟩
  · simp only [World.ledger, hlog, hq]
  · have hu := BusObs.Unseen.of_quiet ho
    rw [ledger_cons hu.begins hlog, hq, hu.entered, hu.dropped, hu.dispatched,
      hu.breaks]
    simp only [List.append_nil, Bool.false_or, World.ledger]

theorem ledger_enter (ev : Event ε)
    (h : { event := ev, ticket := w.nextTicket } ∉ entered w.log) :
    DrainQueue.Step (w.ledger hand) ((w.enqueue ev).ledger hand) := by
  have hstep := DrainQueue.Step.enter (q := w.ledger hand) _ h
  rw [show (w.enqueue ev).ledger hand = _ from ledger_cons (w := w) rfl rfl]
  simp only [BusObs.enteredEvent, BusObs.droppedEvents,
    BusObs.dispatchedEvent, List.append_nil]
  exact hstep

theorem ledger_drop :
    DrainQueue.Step (w.ledger hand) (w.clearPending.ledger hand) := by
  have hstep := DrainQueue.Step.drop (q := w.ledger hand)
  rw [show w.clearPending.ledger hand = _ from ledger_cons (w := w) rfl rfl]
  simp only [BusObs.enteredEvent, BusObs.droppedEvents,
    BusObs.dispatchedEvent, List.append_nil]
  exact hstep

theorem ledger_take (hq : w'.queue = [])
    (hlog : w'.log = .processBegan w.queue :: w.log) :
    DrainQueue.Step (w.ledger []) (w'.ledger w.queue) := by
  have hstep := DrainQueue.Step.take (q := w.ledger []) rfl
  simp only [World.ledger, hlog, hq, entered_cons, dropped_cons,
    dispatched_cons, sinceBegan_processBegan, BusObs.enteredEvent,
    BusObs.droppedEvents, BusObs.dispatchedEvent, List.append_nil]
  exact hstep

theorem ledger_serve (q : QueuedEvent ε) (rest : List (QueuedEvent ε)) :
    DrainQueue.Step (w.ledger (q :: rest))
      ((w.note (.dispatched q)).ledger rest) := by
  have hstep := DrainQueue.Step.serve (q := w.ledger (q :: rest)) rfl
  rw [show (w.note (.dispatched q)).ledger rest = _ from
    ledger_cons (w := w) rfl rfl]
  simp only [BusObs.enteredEvent, BusObs.droppedEvents,
    BusObs.dispatchedEvent, List.append_nil]
  exact hstep

theorem ledger_putBack {q : QueuedEvent ε} (hq : w'.queue = hand ++ w.queue)
    (hlog : w'.log = .processThrew q (hand ++ w.queue) :: w.log) :
    DrainQueue.Step (w.ledger hand) (w'.ledger []) := by
  have hstep := DrainQueue.Step.putBack (q := w.ledger hand)
  rw [ledger_cons (w := w) rfl hlog, hq]
  simp only [BusObs.enteredEvent, BusObs.droppedEvents,
    BusObs.dispatchedEvent, List.append_nil]
  exact hstep

end ledger

/-! ## The history -/

/-- The queue of a world and its log, given what is in hand. -/
structure World.QueueInv (w : World ε) (hand : List (QueuedEvent ε)) :
    Prop where
  ledger : (w.ledger hand).Inv
  tickets : (entered w.log).map (·.ticket) = List.range w.nextTicket
  history : History.Each QueueObs w.log
  left : ∀ q queue earlier, w.log = .processThrew q queue :: earlier →
    w.queue = queue

/-- The last call of `process()` has not put its hand back. -/
def sessionOpen (log : List (BusObs ε)) : Prop :=
  (sinceBegan log).any (·.breaksSession) = false

namespace World.QueueInv

variable {w w' : World ε} {hand : List (QueuedEvent ε)}

theorem fresh (h : w.QueueInv hand) (ev : Event ε) :
    { event := ev, ticket := w.nextTicket } ∉ entered w.log := by
  intro hmem
  have hticket := List.mem_map_of_mem (f := QueuedEvent.ticket) hmem
  rw [h.tickets] at hticket
  exact Nat.lt_irrefl _ (List.mem_range.mp hticket)

theorem quiet (h : w.QueueInv hand) {fs : List (Frame ε)}
    (hq : QueueQuiet w w' fs) : w'.QueueInv hand where
  ledger := ledger_quiet hq ▸ h.ledger
  tickets := by
    rw [hq.nextTicket, ← h.tickets]
    rcases hq.log with hlog | ⟨o, ho, hlog⟩
    · rw [hlog]
    · rw [hlog, entered_cons, (BusObs.Unseen.of_quiet ho).entered,
        List.append_nil]
  history := by
    rcases hq.log with hlog | ⟨o, ho, hlog⟩
    · exact hlog ▸ h.history
    · rw [hlog]
      refine ⟨?_, h.history⟩
      cases o <;> trivial
  left := by
    rintro q queue earlier heq
    rcases hq.log with hlog | ⟨o, ho, hlog⟩
    · exact hq.queue.trans (h.left q queue earlier (hlog ▸ heq))
    · rw [hlog, List.cons.injEq] at heq
      exact absurd ho (by rw [heq.1]; exact Bool.false_ne_true)

theorem enqueue (h : w.QueueInv hand) (ev : Event ε) :
    (w.enqueue ev).QueueInv hand where
  ledger := h.ledger.step (ledger_enter ev (h.fresh ev))
  tickets := by
    show (entered (_ :: w.log)).map _ = List.range (w.nextTicket + 1)
    rw [entered_cons, List.map_append, h.tickets, List.range_succ]
    rfl
  history := ⟨trivial, h.history⟩
  left := fun _ _ _ heq => nomatch heq

theorem clearPending (h : w.QueueInv hand) :
    w.clearPending.QueueInv hand where
  ledger := h.ledger.step ledger_drop
  tickets := by
    show (entered (_ :: w.log)).map _ = List.range w.nextTicket
    rw [entered_cons, ← h.tickets]
    exact congrArg _ (List.append_nil _)
  history := ⟨trivial, h.history⟩
  left := fun _ _ _ heq => nomatch heq

theorem take (h : w.QueueInv []) (hq : w'.queue = [])
    (ht : w'.nextTicket = w.nextTicket)
    (hlog : w'.log = .processBegan w.queue :: w.log) :
    w'.QueueInv w.queue where
  ledger := h.ledger.step (ledger_take hq hlog)
  tickets := by
    rw [ht, ← h.tickets, hlog, entered_cons]
    exact congrArg _ (List.append_nil _)
  history := hlog ▸ ⟨trivial, h.history⟩
  left := by
    rintro q queue earlier heq
    rw [hlog] at heq
    cases heq

theorem serve {q : QueuedEvent ε} {rest : List (QueuedEvent ε)}
    (h : w.QueueInv (q :: rest)) (hopen : sessionOpen w.log) :
    (w.note (.dispatched q)).QueueInv rest where
  ledger := h.ledger.step (ledger_serve q rest)
  tickets := by
    show (entered (_ :: w.log)).map _ = List.range w.nextTicket
    rw [entered_cons, ← h.tickets]
    exact congrArg _ (List.append_nil _)
  history :=
    ⟨h.ledger.served_in_snapshot hopen List.mem_cons_self, h.history⟩
  left := fun _ _ _ heq => nomatch heq

theorem putBack (h : w.QueueInv hand) (hopen : sessionOpen w.log)
    {q : QueuedEvent ε}
    (hlast : (dispatched (sinceBegan w.log)).getLast? = some q)
    (hq : w'.queue = hand ++ w.queue) (ht : w'.nextTicket = w.nextTicket)
    (hlog : w'.log = .processThrew q (hand ++ w.queue) :: w.log) :
    w'.QueueInv [] where
  ledger := h.ledger.step (ledger_putBack hq hlog)
  tickets := by
    rw [ht, ← h.tickets, hlog, entered_cons]
    exact congrArg _ (List.append_nil _)
  history := by
    have hs := h.ledger.session hopen
    rw [hlog]
    exact ⟨⟨hand, hs.snapshot, hlast, congrArg _ hs.waiting⟩, h.history⟩
  left := by
    rintro q' queue earlier heq
    rw [hlog, List.cons.injEq] at heq
    cases heq.1
    exact hq

end World.QueueInv

/-! ## The invariant -/

/-- What a frame of `process()` knows of the history. -/
def Frame.Drains (log : List (BusObs ε)) (hand : List (QueuedEvent ε)) :
    Frame ε → Prop
  | .process => hand = []
  | .draining rest _ => rest = hand ∧ sessionOpen log
  | .dispatching q rest _ => rest = hand ∧ sessionOpen log ∧
      (dispatched (sinceBegan log)).getLast? = some q
  | _ => True

structure QueueInv [Fintype ι] (s : BusSystem ι ε)
    (hand : List (QueuedEvent ε)) : Prop where
  one : Threads.total Frame.processing s.frames ≤ 1
  frames : Threads.Forall (Frame.Drains s.world.log hand) s.frames
  idle : Threads.total Frame.processing s.frames = 0 → hand = []
  world : s.world.QueueInv hand

/-- No call of `process()` starts while another one is in its loop. -/
def OneProcess [Fintype ι] (s : BusSystem ι ε) : BusAction ι ε → Prop
  | .call _ .process => ¬ Threads.Exists Frame.processing s.frames
  | _ => True

instance [Fintype ι] (s : BusSystem ι ε) (a : BusAction ι ε) :
    Decidable (OneProcess s a) :=
  match a with
  | .call _ .process =>
      inferInstanceAs (Decidable (¬ Threads.Exists Frame.processing s.frames))
  | .call _ (.subscribe ..) | .call _ (.endpointSubscribe ..)
  | .call _ (.unsubscribe _) | .call _ (.unsubscribeAllOf ..)
  | .call _ (.unsubscribeAll _) | .call _ (.emit _) | .call _ (.post _)
  | .call _ .clearPending | .call _ (.close _)
  | .call _ (.endpointCancelAwaiters _) | .call _ (.createAwaiter ..)
  | .call _ (.await ..) | .call _ (.request ..) | .call _ .nextRequestId
  | .call _ (.cancelAwaiter _) | .call _ (.cancelToken _)
  | .call _ (.setExceptionHandler _) | .call _ (.setNotifier _)
  | .call _ (.releaseGuard _)
  | .advance _ | .ret .. | .throw _ | .catch _ | .tick _ =>
      inferInstanceAs (Decidable True)

section QueueInv

variable {log log' : List (BusObs ε)} {hand hand' : List (QueuedEvent ε)}
  {f : Frame ε}

theorem Frame.Drains.of_not_processing (h : f.processing = false) :
    f.Drains log hand := by
  cases f <;> trivial

/-- An observation that neither begins, breaks nor serves a session changes
nothing for a frame of `process()`. -/
theorem Frame.Drains.cons {o : BusObs ε} (h : f.Drains log hand)
    (hbegins : o.beginsSession = false) (hbreaks : o.breaksSession = false)
    (hserves : o.dispatchedEvent = []) : f.Drains (o :: log) hand := by
  have hopen : sessionOpen log → sessionOpen (o :: log) := by
    intro hopen
    rw [sessionOpen, sinceBegan_cons hbegins, List.any_cons, hbreaks,
      Bool.false_or]
    exact hopen
  have hlast : dispatched (sinceBegan (o :: log)) = dispatched (sinceBegan log) := by
    rw [sinceBegan_cons hbegins, dispatched_cons, hserves, List.append_nil]
  cases f with
  | process => exact h
  | draining rest n => exact ⟨h.1, hopen h.2⟩
  | dispatching q rest n => exact ⟨h.1, hopen h.2.1, by rw [hlast]; exact h.2.2⟩
  | _ => trivial

theorem Frame.Drains.quiet {w w' : World ε} {fs : List (Frame ε)}
    (h : f.Drains w.log hand) (hw : QueueQuiet w w' fs) :
    f.Drains w'.log hand := by
  rcases hw.log with hlog | ⟨o, ho, hlog⟩
  · exact hlog ▸ h
  · have hu := BusObs.Unseen.of_quiet ho
    exact hlog ▸ h.cons hu.begins hu.breaks hu.dispatched

variable [Fintype ι] [DecidableEq ι] {s s' : BusSystem ι ε} {t : ι}
  {rest : List (Frame ε)} {o : Outcome ε}

/-- A frame outside `process()` moved. -/
theorem QueueInv.keep (h : QueueInv s hand) (ht : s.frames t = f :: rest)
    (hf : f.processing = false) (hfs : ∀ f' ∈ o.frames, f'.processing = false)
    (hlog : ∀ f' : Frame ε, f'.Drains s.world.log hand →
      f'.Drains o.world.log hand)
    (hw : o.world.QueueInv hand) : QueueInv (s.put t o) hand := by
  have htotal : Threads.total Frame.processing (s.put t o).frames =
      Threads.total Frame.processing s.frames :=
    Threads.total_replaceTop_of_none _ ht hf hfs
  exact
    { one := htotal ▸ h.one
      frames := (h.frames.imp hlog).replace fun f' hf' =>
        .of_not_processing (hfs f' hf')
      idle := htotal ▸ h.idle
      world := hw }

/-- A call of `process()` starts and none is in its loop. -/
theorem QueueInv.begin (h : QueueInv s hand) {code : UserCode}
    (ht : s.frames t = .user code :: rest)
    (hnone : ¬ Threads.Exists Frame.processing s.frames)
    (hfs : o.frames = [.process, .user code]) (hw : o.world = s.world) :
    QueueInv (s.put t o) hand := by
  have hzero : Threads.total Frame.processing s.frames = 0 :=
    Threads.total_eq_zero_iff.mpr (Threads.not_exists_iff.mp hnone)
  have hput : (s.put t o).frames = Threads.replaceTop s.frames t o.frames := rfl
  have htotal : Threads.total Frame.processing (s.put t o).frames = 1 := by
    have hcount := Threads.total_replaceTop (p := Frame.processing)
      o.frames ht
    rw [hfs, hzero] at hcount
    rw [hput, hfs]
    exact hcount
  have hdrains : ∀ f' ∈ o.frames, f'.Drains s.world.log hand := by
    rw [hfs, List.forall_mem_cons, List.forall_mem_singleton]
    exact ⟨h.idle hzero, trivial⟩
  exact
    { one := htotal.le
      frames := by
        show Threads.Forall (Frame.Drains o.world.log hand) _
        rw [hw]
        exact h.frames.replace hdrains
      idle := fun hnil => absurd (htotal.symm.trans hnil) Nat.one_ne_zero
      world := by
        show o.world.QueueInv hand
        exact hw ▸ h.world }

/-- The frame of `process()` moved. -/
theorem QueueInv.move (h : QueueInv s hand) (ht : s.frames t = f :: rest)
    (hf : f.processing = true)
    (hfs : ∀ f' ∈ o.frames, f'.Drains o.world.log hand')
    (hone : o.frames.countP Frame.processing ≤ 1)
    (hidle : o.frames.countP Frame.processing = 0 → hand' = [])
    (hw : o.world.QueueInv hand') : QueueInv (s.put t o) hand' := by
  have hcount := Threads.total_replaceTop (p := Frame.processing)
    o.frames ht
  rw [List.countP_cons_of_pos hf, List.countP_nil] at hcount
  have hle := h.one
  have hput : (s.put t o).frames = Threads.replaceTop s.frames t o.frames := rfl
  have htotal : Threads.total Frame.processing (s.put t o).frames =
      o.frames.countP Frame.processing := by
    have hpos : 0 < Threads.total Frame.processing s.frames := by
      refine Nat.pos_of_ne_zero fun hzero => ?_
      rw [Threads.total_eq_zero_iff] at hzero
      exact absurd (hzero.top ht) (by rw [hf]; exact Bool.false_ne_true.symm)
    rw [hput]
    omega
  exact
    { one := htotal ▸ hone
      frames := Threads.Forall.replace_only h.one ht hf hfs
        fun g hg => .of_not_processing hg
      idle := fun hzero => hidle (htotal ▸ hzero)
      world := hw }

theorem QueueInv.step [RequestTraits ε] {a : BusAction ι ε}
    (h : QueueInv s hand) (ha : OneProcess s a)
    (hstep : BusSystem.step s a = some s') : ∃ hand', QueueInv s' hand' := by
  rcases BusSystem.step_cases hstep with
    ⟨delta, rfl, rfl⟩ | ⟨t, f, rest, o, ht, hmoved, rfl⟩
  · exact ⟨hand, h.one, h.frames, h.idle, h.world.ledger, h.world.tickets,
      h.world.history, h.world.left⟩
  · obtain ⟨w', fs, mode⟩ := o
    rcases hmoved.queueMove with hmove | ⟨rfl, hw, code, rfl, hfs⟩
    swap
    · exact ⟨hand, h.begin ht ha hfs hw⟩
    cases hmove with
    | quiet hf hq =>
        exact ⟨hand, h.keep ht hf hq.frames (fun _ hd => hd.quiet hq)
          (h.world.quiet hq)⟩
    | enter ev hf hfs hw =>
        refine ⟨hand, h.keep ht hf hfs ?_ ?_⟩
        · exact fun f' hd => hw ▸ hd.cons rfl rfl rfl
        · exact hw ▸ h.world.enqueue ev
    | drop hf hfs hw =>
        refine ⟨hand, h.keep ht hf hfs ?_ ?_⟩
        · exact fun f' hd => hw ▸ hd.cons rfl rfl rfl
        · exact hw ▸ h.world.clearPending
    | take hf hq hticket hlog =>
        subst hf
        have hhand : hand = [] := h.frames.top ht
        subst hhand
        refine ⟨s.world.queue, h.move ht rfl ?_ (Nat.le_refl 1) ?_
          (h.world.take hq hticket hlog)⟩
        · intro f' hf'
          rw [List.mem_singleton.mp hf']
          exact ⟨rfl, by rw [hlog]; rfl⟩
        · intro hzero
          cases hzero
    | @serve q rest n hf hw =>
        subst hf hw
        obtain ⟨hhand, hopen⟩ := h.frames.top ht
        subst hhand
        refine ⟨_, h.move ht rfl ?_ (Nat.le_refl 1) (by intro hzero; cases hzero)
          (h.world.serve hopen)⟩
        have hserved : dispatched (sinceBegan (.dispatched q :: s.world.log)) =
            dispatched (sinceBegan s.world.log) ++ [q] := by
          rw [sinceBegan_cons rfl, dispatched_cons]
          rfl
        have hopen' : sessionOpen (.dispatched q :: s.world.log) := by
          rw [sessionOpen, sinceBegan_cons rfl]
          exact hopen
        rw [List.forall_mem_cons, List.forall_mem_singleton]
        refine ⟨trivial, rfl, hopen', ?_⟩
        show (dispatched (sinceBegan (.dispatched q :: s.world.log))).getLast? = _
        rw [hserved, List.getLast?_concat]
    | served hf hw =>
        subst hf hw
        obtain ⟨hhand, hopen, -⟩ := h.frames.top ht
        refine ⟨hand, h.move ht rfl ?_ (Nat.le_refl 1) (by intro hzero; cases hzero)
          h.world⟩
        intro f' hf'
        rw [List.mem_singleton.mp hf']
        exact ⟨hhand, hopen⟩
    | done hf hw =>
        subst hf hw
        obtain ⟨hhand, -⟩ := h.frames.top ht
        subst hhand
        refine ⟨[], h.move ht rfl ?_ (Nat.zero_le 1) (fun _ => rfl) h.world⟩
        rw [List.forall_mem_cons, List.forall_mem_singleton]
        exact ⟨trivial, trivial⟩
    | threw hf hq hticket hlog =>
        subst hf
        obtain ⟨hhand, hopen, hlast⟩ := h.frames.top ht
        subst hhand
        exact ⟨[], h.move ht rfl (fun _ hf' => nomatch hf') (Nat.zero_le 1)
          (fun _ => rfl) (h.world.putBack hopen hlast hq hticket hlog)⟩

omit [DecidableEq ι] in
theorem QueueInv.init [RequestTraits ε] :
    QueueInv ({} : BusSystem ι ε) [] where
  one := by
    refine (Threads.total_eq_zero_iff.mpr fun t f hf => ?_).le.trans
      (Nat.zero_le 1)
    rw [List.mem_singleton.mp hf]
    rfl
  frames := fun t f hf => by
    rw [List.mem_singleton.mp hf]
    trivial
  idle := fun _ => rfl
  world :=
    { ledger := .init
      tickets := rfl
      history := trivial
      left := fun _ _ _ heq => nomatch heq }

end QueueInv

/-! ## The queue is first in, first out -/

/-- The queue as its users see it. -/
structure FifoQueue [Fintype ι] (s : BusSystem ι ε) : Prop where
  /-- Nothing is lost, duplicated or overtaken: what entered and was not
  dropped was dispatched, is in the hand of a call of `process()`, or waits,
  and in this order. -/
  order : ∃ hand,
    DrainQueue.without (entered s.world.log) (dropped s.world.log) =
        dispatched s.world.log ++ hand ++ s.world.queue ∧
      (¬ Threads.Exists Frame.processing s.frames → hand = []) ∧
      Threads.Forall (Frame.Drains s.world.log hand) s.frames
  distinct : (entered s.world.log).map (·.ticket) =
    List.range s.world.nextTicket
  once : (dispatched s.world.log).Nodup
  history : History.Each QueueObs s.world.log
  /-- Right after `process()` threw, the queue is what it left. -/
  left : ∀ q queue earlier, s.world.log = .processThrew q queue :: earlier →
    s.world.queue = queue

/-- In every run whose calls of `process()` do not overlap, the queue is first
in, first out, whatever throws and whoever posts. -/
theorem BusSystem.run_fifoQueue [Fintype ι] [DecidableEq ι] [RequestTraits ε]
    {as : List (BusAction ι ε)} {s : BusSystem ι ε}
    (hrun : Lts.run step {} as = some s)
    (hone : Lts.RunMeets step OneProcess {} as) : FifoQueue s := by
  obtain ⟨hand, h⟩ : ∃ hand, QueueInv s hand :=
    Lts.run_invariant_of_meets (P := fun s => ∃ hand, QueueInv s hand)
      (fun s a s' ⟨hand, h⟩ ha hstep => h.step ha hstep) ⟨[], .init⟩ hone hrun
  exact
    { order := by
        refine ⟨hand, h.world.ledger.order, fun hnone => h.idle ?_, h.frames⟩
        exact Threads.total_eq_zero_iff.mpr (Threads.not_exists_iff.mp hnone)
      distinct := h.world.tickets
      once := h.world.ledger.served_nodup
      history := h.world.history
      left := h.world.left }

/-- Two events are posted, the handler of the first posts a third and throws,
and there is no exception handler. -/
def throwingRun : List (BusAction Unit Nat) :=
  [.call () (.subscribe 0 (.other 0) none), .advance (),
    .call () (.post { type := 0, payload := 1 }), .advance (), .advance (),
    .call () (.post { type := 0, payload := 2 }), .advance (), .advance (),
    .call () .process] ++ List.replicate 5 (.advance ()) ++
  [.call () (.post { type := 0, payload := 3 }), .advance (), .advance (),
    .throw (), .advance (), .advance (), .catch ()]

theorem BusSystem.run_fifoQueue_throwing :
    ∃ s, Lts.run step ({} : BusSystem Unit Nat) throwingRun = some s ∧
      FifoQueue s := by
  obtain ⟨s, hs, -⟩ : ∃ s : BusSystem Unit Nat,
      Lts.run step {} throwingRun = some s ∧ True :=
    Lts.exists_run_of_decide (by decide)
  exact ⟨s, hs, run_fifoQueue hs (.of_checks (by decide))⟩

example : (Lts.run BusSystem.step ({} : BusSystem Unit Nat) throwingRun).map
    (fun s => s.world.queue.map (·.event.payload)) = some [2, 3] := by
  decide

end EventHub
