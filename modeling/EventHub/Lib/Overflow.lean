import Mathlib.Algebra.Group.Int.Defs
import Mathlib.Algebra.Group.Nat.Defs
import Mathlib.Tactic.Simps.Basic

/-!
# Signed 64-bit arithmetic that remembers whether it was exact

An operation wraps, and says whether the result is the one of the integers. A
computation is exact if each of its operations is. An operation is exact if and
only if the integer result is in range.
-/

/-- A value, and whether nothing has overflowed on the way to it. -/
structure Arith (α : Type) where
  value : α
  exact : Bool := true

namespace Arith

variable {α β : Type}

instance : Monad Arith where
  pure a := { value := a }
  bind x f :=
    { value := (f x.value).value, exact := x.exact && (f x.value).exact }

@[simp] theorem value_pure (a : α) : (pure a : Arith α).value = a := rfl

@[simp] theorem exact_pure (a : α) : (pure a : Arith α).exact = true := rfl

@[simp] theorem value_bind (x : Arith α) (f : α → Arith β) :
    (x >>= f).value = (f x.value).value := rfl

@[simp] theorem exact_bind (x : Arith α) (f : α → Arith β) :
    (x >>= f).exact = (x.exact && (f x.value).exact) := rfl

def add (a b : Int64) : Arith Int64 where
  value := a + b
  exact := (a + b).toInt = a.toInt + b.toInt

def sub (a b : Int64) : Arith Int64 where
  value := a - b
  exact := (a - b).toInt = a.toInt - b.toInt

def mul (a b : Int64) : Arith Int64 where
  value := a * b
  exact := (a * b).toInt = a.toInt * b.toInt

/-- The integer is one of 64 bits. -/
def Fits (x : Int) : Prop := -2 ^ 63 ≤ x ∧ x < 2 ^ 63

instance (x : Int) : Decidable (Fits x) :=
  inferInstanceAs (Decidable (_ ∧ _))

theorem bmod_eq_self_iff {x : Int} : x.bmod (2 ^ 64) = x ↔ Fits x := by
  constructor
  · intro h
    rw [← h]
    exact ⟨Int.le_bmod (by decide), Int.bmod_lt (by decide)⟩
  · intro ⟨hle, hlt⟩
    exact Int.bmod_eq_of_le (by simpa using hle) (by simpa using hlt)

/-- What 64 bits hold of an integer. -/
def wrap (x : Int) : Int := x.bmod (2 ^ 64)

theorem wrap_of_fits {x : Int} (h : Fits x) : wrap x = x :=
  bmod_eq_self_iff.mpr h

variable {a b : Int64}

theorem exact_add : (add a b).exact ↔ Fits (a.toInt + b.toInt) := by
  rw [add, decide_eq_true_eq, Int64.toInt_add, bmod_eq_self_iff]

theorem exact_sub : (sub a b).exact ↔ Fits (a.toInt - b.toInt) := by
  rw [sub, decide_eq_true_eq, Int64.toInt_sub, bmod_eq_self_iff]

theorem exact_mul : (mul a b).exact ↔ Fits (a.toInt * b.toInt) := by
  rw [mul, decide_eq_true_eq, Int64.toInt_mul, bmod_eq_self_iff]

theorem value_add (h : (add a b).exact) :
    (add a b).value.toInt = a.toInt + b.toInt := of_decide_eq_true h

theorem value_add_eq_wrap : (add a b).value.toInt = wrap (a.toInt + b.toInt) :=
  Int64.toInt_add a b

theorem value_sub (h : (sub a b).exact) :
    (sub a b).value.toInt = a.toInt - b.toInt := of_decide_eq_true h

theorem value_mul (h : (mul a b).exact) :
    (mul a b).value.toInt = a.toInt * b.toInt := of_decide_eq_true h

end Arith
