import Mathlib.Data.Fintype.Basic
import EventHub.Hub.Types

/-!
# Stop flags

`ModuleHub::initialize` and `ModuleHub::request_stop` side by side. The hub has
one stop flag and every module has another: `request_stop` raises the one of the
hub and then those of the modules one after another, on whatever thread it was
called, and `start_worker` lowers the one of its module. Notifications and what
the workers do until they stop are left out; the machine starts where `run()` or
`start()` has cleared the flag of the hub.
-/

namespace EventHub

inductive WorkerState
  /-- `m_worker` is not joinable: never started, or joined since. -/
  | absent
  | running
  | exited
  deriving DecidableEq, Repr

/-- What a hub is initialized with. -/
structure InitSetup (ι κ : Type) where
  thread : ι
  modules : List κ
  options : κ → ModuleOptions := fun _ => defaultOptions

def InitSetup.isPrivate {ι κ : Type} (setup : InitSetup ι κ) (k : κ) : Prop :=
  (setup.options k).execution = .privateThread

instance {ι κ : Type} (setup : InitSetup ι κ) (k : κ) :
    Decidable (setup.isPrivate k) :=
  inferInstanceAs (Decidable (_ = _))

/-- Where the hub's thread is in `initialize()`. -/
inductive InitPc (κ : Type)
  /-- In the hook of the first of these modules, or before it. -/
  | hooks (rest : List κ)
  /-- At `start_worker()` of the first of these modules. -/
  | starting (rest : List κ)
  /-- The flag of the module has been lowered, its thread not yet constructed. -/
  | lowered (k : κ) (rest : List κ)
  | initialized
  /-- In the handler. -/
  | failed
  deriving DecidableEq, Repr

/-- Code of the program may run on the hub's thread, or `shutdown()` does. -/
def InitPc.runsCode {κ : Type} : InitPc κ → Bool
  | .hooks _ | .initialized | .failed => true
  | .starting _ | .lowered _ _ => false

structure StopFlags (ι κ : Type) where
  /-- `m_stop_requested` of the hub. -/
  stopRequested : Bool := false
  /-- `m_worker_stop_requested` of each module. -/
  workerStop : κ → Bool := fun _ => false
  worker : κ → WorkerState := fun _ => .absent
  /-- The calls of `request_stop` in progress, with the modules that they have
  yet to tell. -/
  requests : ι → Option (List κ) := fun _ => none
  pc : InitPc κ

inductive StopAction (ι κ : Type)
  /-- `request_stop()` begins. -/
  | request (t : ι)
  /-- It goes on with the next module, or returns. -/
  | tell (t : ι)
  /-- `initialize()` goes on. -/
  | advance
  /-- A hook throws, or a thread cannot be constructed. -/
  | throw
  /-- `request_worker_stop()` of one module, from its `shutdown()`. -/
  | stopWorker (k : κ)
  /-- The worker sees its flag. -/
  | exit (k : κ)
  /-- It catches an exception. -/
  | fail (k : κ)
  /-- `join_worker()`. -/
  | join (k : κ)
  deriving DecidableEq, Repr

namespace StopFlags

variable {ι κ : Type} [DecidableEq ι] [DecidableEq κ]

/-- `request_worker_stop()`. -/
def requestWorkerStop (s : StopFlags ι κ) (k : κ) : StopFlags ι κ :=
  { s with workerStop := Function.update s.workerStop k true }

def setRequest (s : StopFlags ι κ) (t : ι) (rest : Option (List κ)) :
    StopFlags ι κ :=
  { s with requests := Function.update s.requests t rest }

def setWorker (s : StopFlags ι κ) (k : κ) (worker : WorkerState) :
    StopFlags ι κ :=
  { s with worker := Function.update s.worker k worker }

/-- `start_worker()` lowers the flag of the module. -/
def lowers (setup : InitSetup ι κ) (s : StopFlags ι κ) (k : κ) : Prop :=
  setup.isPrivate k ∧ s.worker k = .absent

instance (setup : InitSetup ι κ) (s : StopFlags ι κ) (k : κ) :
    Decidable (s.lowers setup k) :=
  inferInstanceAs (Decidable (_ ∧ _))

/-- A step of `initialize()`. -/
def advance (setup : InitSetup ι κ) (s : StopFlags ι κ) :
    Option (StopFlags ι κ) :=
  match s.pc with
  | .hooks [] => some { s with pc := .starting setup.modules }
  | .hooks (_ :: rest) => some { s with pc := .hooks rest }
  | .starting [] => some { s with pc := .initialized }
  | .starting (k :: rest) =>
      if s.lowers setup k then
        some { s with
          workerStop := Function.update s.workerStop k false
          pc := .lowered k rest }
      else some { s with pc := .starting rest }
  | .lowered k rest => some { s.setWorker k .running with pc := .starting rest }
  | .initialized | .failed => none

def step (setup : InitSetup ι κ) (s : StopFlags ι κ) :
    StopAction ι κ → Option (StopFlags ι κ)
  | .request t =>
      if (s.requests t).isNone ∧ (t = setup.thread → s.pc.runsCode = true) then
        some ({ s with stopRequested := true }.setRequest t (some setup.modules))
      else none
  | .tell t =>
      match s.requests t with
      | some (k :: rest) => some ((s.requestWorkerStop k).setRequest t (some rest))
      | some [] => some (s.setRequest t none)
      | none => none
  | .advance =>
      if (s.requests setup.thread).isNone then s.advance setup else none
  | .throw =>
      match s.pc with
      | .hooks (_ :: _) | .lowered _ _ =>
          if (s.requests setup.thread).isNone then some { s with pc := .failed }
          else none
      | _ => none
  | .stopWorker k => some (s.requestWorkerStop k)
  | .exit k =>
      if s.worker k = .running ∧ s.workerStop k = true then
        some (s.setWorker k .exited)
      else none
  | .fail k =>
      if s.worker k = .running then
        some ((s.requestWorkerStop k).setWorker k .exited)
      else none
  | .join k =>
      if s.worker k = .exited then some (s.setWorker k .absent) else none

/-- No worker of a private module goes on after a stop request. -/
def Heeded (setup : InitSetup ι κ) (s : StopFlags ι κ) : Prop :=
  s.stopRequested = true → (∀ t, s.requests t = none) →
    ∀ k ∈ setup.modules, setup.isPrivate k →
      s.worker k = .absent ∨ s.workerStop k = true ∨ s.worker k = .exited

/-- A call of `request_stop` has yet to tell module `k`. -/
def ToTell (s : StopFlags ι κ) (k : κ) : Prop :=
  ∃ t, ∃ ks ∈ s.requests t, k ∈ ks

instance [Fintype ι] (s : StopFlags ι κ) (k : κ) : Decidable (s.ToTell k) :=
  inferInstanceAs (Decidable (∃ t, ∃ ks ∈ s.requests t, k ∈ ks))

/-- Where `start_worker()` lowers the flag of a module, no stop has been
requested, or the module has yet to be told of it. -/
def InTime (setup : InitSetup ι κ) (s : StopFlags ι κ) : StopAction ι κ → Prop
  | .advance =>
      match s.pc with
      | .starting (k :: _) =>
          s.lowers setup k → s.stopRequested = true → s.ToTell k
      | _ => True
  | _ => True

instance [Fintype ι] (setup : InitSetup ι κ) (s : StopFlags ι κ)
    (a : StopAction ι κ) : Decidable (s.InTime setup a) :=
  match a with
  | .advance =>
      match h : s.pc with
      | .starting (k :: _) =>
          decidable_of_iff
            (s.lowers setup k → s.stopRequested = true → s.ToTell k)
            (by simp only [InTime, h])
      | .starting [] | .hooks _ | .lowered _ _ | .initialized | .failed =>
          isTrue (by simp only [InTime, h])
  | .request _ | .tell _ | .throw | .stopWorker _ | .exit _ | .fail _ | .join _ =>
      isTrue trivial

end StopFlags

end EventHub
