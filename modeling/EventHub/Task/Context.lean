import EventHub.Task.History

/-!
# `TaskContext`

A context is a pointer to the manager and an id, and it can be copied. The
execution it was made for is not in it; here it is kept beside the id, to say
when the callback the copy was taken from has ended. Executions of one task
follow each other, so the one with number `n` has ended once `n` of them have.
-/

namespace EventHub

/-- A `TaskContext` that the callback of `id` has copied out of its
`execution`-th execution. -/
structure TaskContext where
  id : Nat := 0
  execution : Nat := 0
  deriving DecidableEq, Repr

/-- The operations of a context that ask for a change. -/
inductive ContextCall
  | cancel
  | rescheduleAt (due : Int)
  | rescheduleAfter (now delay : Int)
  deriving DecidableEq, Repr

namespace ContextCall

variable {τ : Type}

/-- `context_cancel` and `context_reschedule`, on the owner of the context. -/
def apply (m : TaskManager τ) (id : Nat) : ContextCall → TaskManager τ × Bool
  | .cancel => m.cancelFromContext id
  | .rescheduleAt due => m.rescheduleFromContext id due
  | .rescheduleAfter now delay =>
      m.rescheduleFromContext id (TaskManager.timeAfter now delay)

/-- The step the call is. -/
def action (id : Nat) : ContextCall → TaskAction τ
  | .cancel => .contextCancel id
  | .rescheduleAt due => .contextReschedule id due
  | .rescheduleAfter now delay =>
      .contextReschedule id (TaskManager.timeAfter now delay)

end ContextCall

/-- A step of the manager, or a call on a copied context. -/
inductive ContextAction (τ : Type)
  | other (a : TaskAction τ)
  | copied (c : TaskContext) (call : ContextCall)

namespace TaskSystem

variable {τ : Type}

/-- A context can be copied out of an execution that has started. -/
def stepContext (s : TaskSystem τ) : ContextAction τ → Option (TaskSystem τ)
  | .other a => s.step a
  | .copied c call =>
      if 1 ≤ c.execution ∧ c.execution ≤ starts c.id s.log then
        s.step (call.action c.id)
      else none

/-- The execution the context was copied out of has ended. -/
def Expired (s : TaskSystem τ) (c : TaskContext) : Prop :=
  c.execution ≤ ends c.id s.log

instance (s : TaskSystem τ) (c : TaskContext) : Decidable (s.Expired c) :=
  inferInstanceAs (Decidable (_ ≤ _))

/-- A call on a copied context whose execution has ended returns false and
changes nothing. -/
def Inert (s : TaskSystem τ) : ContextAction τ → Prop
  | .other _ => True
  | .copied c call =>
      s.Expired c → call.apply s.mgr c.id = (s.mgr, false)

/-- No later execution of the task is running uncancelled when the call is
made, or the call is a reschedule and the manager is closed. -/
def Unclaimed (s : TaskSystem τ) : ContextAction τ → Prop
  | .other _ => True
  | .copied c call =>
      s.Expired c → starts c.id s.log = ends c.id s.log ∨
        withdrawn c.id s.log ∨ call ≠ .cancel ∧ s.mgr.closed

end TaskSystem

end EventHub
