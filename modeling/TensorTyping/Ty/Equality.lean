import TensorTyping.Ty.Basic

/-!
# Deciding equality of types

Types are equal when they are built alike, down to the method signatures inside interfaces. The test
is a Boolean function that follows the structure of the left-hand type, and `Ty.beq_iff` says that it
is equality.
-/

set_option autoImplicit false

namespace TensorTyping

namespace Ty

mutual

/-- The types are built alike. -/
def beq : Ty → Ty → Bool
  | prim p, prim q => p == q
  | tensor f, tensor g => f == g
  | list a, list b => beq a b
  | optional a, optional b => beq a b
  | future a, future b => beq a b
  | dict k v, dict k' v' => beq k k' && beq v v'
  | tuple s as, tuple t bs => s == t && beqAll as bs
  | function x, function y => x == y
  | interface x ms, interface y ns => x == y && beqMethods ms ns
  | var x, var y => x == y
  | _, _ => false

/-- The types are built alike, one by one. -/
def beqAll : List Ty → List Ty → Bool
  | [], [] => true
  | a :: as, b :: bs => beq a b && beqAll as bs
  | _, _ => false

/-- The method signatures are built alike, one by one. -/
def beqMethods : List (Signature Ty) → List (Signature Ty) → Bool
  | [], [] => true
  | ⟨x, ps, rs⟩ :: ms, ⟨y, qs, ss⟩ :: ns =>
    x == y && beqParams ps qs && beqAll rs ss && beqMethods ms ns
  | _, _ => false

/-- The parameters are built alike, one by one. -/
def beqParams : List (String × Ty) → List (String × Ty) → Bool
  | [], [] => true
  | (x, a) :: ps, (y, b) :: qs => x == y && beq a b && beqParams ps qs
  | _, _ => false

end

mutual

/-- **The Boolean test decides equality of types.** -/
theorem beq_iff : (a b : Ty) → (beq a b = true ↔ a = b)
  | prim _, b => by cases b <;> simp [beq]
  | tensor _, b => by cases b <;> simp [beq]
  | list a, b => by cases b <;> simp [beq, beq_iff a]
  | optional a, b => by cases b <;> simp [beq, beq_iff a]
  | future a, b => by cases b <;> simp [beq, beq_iff a]
  | dict k v, b => by cases b <;> simp [beq, beq_iff k, beq_iff v]
  | tuple _ as, b => by cases b <;> simp [beq, beqAll_iff as]
  | function _, b => by cases b <;> simp [beq]
  | interface _ ms, b => by cases b <;> simp [beq, beqMethods_iff ms]
  | var _, b => by cases b <;> simp [beq]

/-- The Boolean test decides equality of lists of types. -/
theorem beqAll_iff : (as bs : List Ty) → (beqAll as bs = true ↔ as = bs)
  | [], bs => by cases bs <;> simp [beqAll]
  | a :: as, bs => by cases bs <;> simp [beqAll, beq_iff a, beqAll_iff as]

/-- The Boolean test decides equality of lists of method signatures. -/
theorem beqMethods_iff : (ms ns : List (Signature Ty)) → (beqMethods ms ns = true ↔ ms = ns)
  | [], ns => by cases ns <;> simp [beqMethods]
  | ⟨_, _, _⟩ :: _, [] => by simp [beqMethods]
  | ⟨_, ps, rs⟩ :: ms, ⟨_, qs, ss⟩ :: ns => by
    simp [beqMethods, beqParams_iff ps, beqAll_iff rs, beqMethods_iff ms, and_assoc]

/-- The Boolean test decides equality of lists of parameters. -/
theorem beqParams_iff : (ps qs : List (String × Ty)) → (beqParams ps qs = true ↔ ps = qs)
  | [], qs => by cases qs <;> simp [beqParams]
  | (_, _) :: _, [] => by simp [beqParams]
  | (_, a) :: ps, (_, _) :: qs => by simp [beqParams, beq_iff a, beqParams_iff ps]

end

instance : DecidableEq Ty := fun a b => decidable_of_iff _ (beq_iff a b)

end Ty

instance : DecidableEq (Signature Ty)
  | ⟨x, ps, rs⟩, ⟨y, qs, ss⟩ =>
    decidable_of_iff (x = y ∧ ps = qs ∧ rs = ss) (by simp)

end TensorTyping
