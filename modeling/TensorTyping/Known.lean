/-!
# Facts that may be unknown

Everything this library records about a tensor is a fact that may be missing. A missing fact is the
*weaker* statement, so combining two descriptions of one value can only forget: `Known.merge` keeps
what both sides know with the same value and drops everything else. It is the join of the flat order
in which every known value lies below `none`.

Where an operation or a kind of data goes by another name in the type system that this library is
about, that name stands in parentheses in its description: (`merge_facts`).
-/

set_option autoImplicit false

namespace TensorTyping

/-- A fact with values in `α`: `some v` when it is known to be `v`, `none` when nothing is known. -/
abbrev Known (α : Type) := Option α

namespace Known

variable {α : Type}

/-- What two observations of one fact agree on (`merge_facts`). -/
def merge [DecidableEq α] (a b : Known α) : Known α :=
  if a = b then a else none

/-- The values of a list of facts, once every one of them is known. -/
def sequence : List (Known α) → Known (List α)
  | [] => some []
  | none :: _ => none
  | some a :: rest => (sequence rest).map (a :: ·)

/-! ## Laws of the merge -/

section Merge

variable [DecidableEq α]

@[simp] theorem merge_self (a : Known α) : merge a a = a := by
  simp [merge]

@[simp] theorem merge_none_left (a : Known α) : merge none a = none := by
  simp [merge]

@[simp] theorem merge_none_right (a : Known α) : merge a none = none := by
  cases a <;> simp [merge]

/-- A value survives the merge exactly when both sides know it. -/
@[simp] theorem merge_eq_some_iff {a b : Known α} {v : α} :
    merge a b = some v ↔ a = some v ∧ b = some v := by
  by_cases h : a = b
  · simp [merge, h]
  · simp only [merge, h, if_false, reduceCtorEq, false_iff]
    rintro ⟨rfl, rfl⟩
    exact h rfl

end Merge

end Known

end TensorTyping
