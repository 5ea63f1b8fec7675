import EventHub.Lib.DrainQueue
import EventHub.Lib.Histories
import EventHub.Bus.Step

/-!
# What the log of a bus says

Read off the log alone, newest observation first; the lists that come out are
oldest first.
-/

namespace EventHub

open History

variable {ε : Type}

namespace BusObs

def enteredEvent : BusObs ε → List (QueuedEvent ε)
  | .entered q => [q]
  | _ => []

def droppedEvents : BusObs ε → List (QueuedEvent ε)
  | .dropped queue => queue
  | _ => []

def dispatchedEvent : BusObs ε → List (QueuedEvent ε)
  | .dispatched q => [q]
  | _ => []

def drawnId : BusObs ε → List Nat
  | .idDrawn id => [id]
  | _ => []

/-- A `process()` took its snapshot. -/
def beginsSession : BusObs ε → Bool
  | .processBegan _ => true
  | _ => false

def breaksSession : BusObs ε → Bool
  | .processThrew .. => true
  | _ => false

/-- The queue and the calls of `process()` are not concerned. -/
def quiet : BusObs ε → Bool
  | .entered _ | .dropped _ | .dispatched _ | .processBegan _
  | .processThrew .. => false
  | _ => true

end BusObs

/-! ## The queue -/

/-- The events that entered the queue. -/
def entered (log : List (BusObs ε)) : List (QueuedEvent ε) :=
  observed BusObs.enteredEvent log

/-- The events that `clear_pending` dropped. -/
def dropped (log : List (BusObs ε)) : List (QueuedEvent ε) :=
  observed BusObs.droppedEvents log

/-- The queued events that were handed to `dispatch`. -/
def dispatched (log : List (BusObs ε)) : List (QueuedEvent ε) :=
  observed BusObs.dispatchedEvent log

/-- What happened since the last call of `process()` began. -/
def sinceBegan (log : List (BusObs ε)) : List (BusObs ε) :=
  log.takeWhile fun o => !o.beginsSession

/-- The snapshot of the last call of `process()`. -/
def snapshot : List (BusObs ε) → List (QueuedEvent ε)
  | [] => []
  | .processBegan queue :: _ => queue
  | _ :: log => snapshot log

section

variable {o : BusObs ε} {log : List (BusObs ε)}

theorem sinceBegan_cons (h : o.beginsSession = false) :
    sinceBegan (o :: log) = o :: sinceBegan log := by
  simp [sinceBegan, h]

@[simp] theorem sinceBegan_processBegan (queue : List (QueuedEvent ε)) :
    sinceBegan (.processBegan queue :: log) = [] := rfl

theorem snapshot_cons (h : o.beginsSession = false) :
    snapshot (o :: log) = snapshot log := by
  cases o with
  | processBegan queue => cases h
  | _ => rfl

@[simp] theorem entered_cons :
    entered (o :: log) = entered log ++ o.enteredEvent := observed_cons ..

@[simp] theorem dropped_cons :
    dropped (o :: log) = dropped log ++ o.droppedEvents := observed_cons ..

@[simp] theorem dispatched_cons :
    dispatched (o :: log) = dispatched log ++ o.dispatchedEvent :=
  observed_cons ..

/-- A quiet observation is not seen by any of the readings above. -/
structure BusObs.Unseen (o : BusObs ε) : Prop where
  entered : o.enteredEvent = []
  dropped : o.droppedEvents = []
  dispatched : o.dispatchedEvent = []
  begins : o.beginsSession = false
  breaks : o.breaksSession = false

theorem BusObs.Unseen.of_quiet (h : o.quiet) : o.Unseen := by
  cases o <;> first
    | exact ⟨rfl, rfl, rfl, rfl, rfl⟩
    | exact absurd h Bool.false_ne_true

end

/-- What an observation of `process()` says, given what came before. -/
def QueueObs (earlier : List (BusObs ε)) : BusObs ε → Prop
  /- The event was in the snapshot and did not enter since. -/
  | .dispatched q =>
      q ∈ snapshot earlier ∧ q ∉ entered (sinceBegan earlier)
  /- The call dispatched its snapshot up to `q`. What it leaves is the rest of
  the snapshot and then what entered since and was not dropped. -/
  | .processThrew q queue =>
      ∃ rest, snapshot earlier = dispatched (sinceBegan earlier) ++ rest ∧
        (dispatched (sinceBegan earlier)).getLast? = some q ∧
        queue = rest ++ DrainQueue.without (entered (sinceBegan earlier))
          (dropped (sinceBegan earlier))
  | _ => True

/-! ## Request ids -/

/-- The ids that `next_request_id()` returned. -/
def drawnIds (log : List (BusObs ε)) : List Nat := observed BusObs.drawnId log

@[simp] theorem drawnIds_cons {o : BusObs ε} {log : List (BusObs ε)} :
    drawnIds (o :: log) = drawnIds log ++ o.drawnId := observed_cons ..

end EventHub
