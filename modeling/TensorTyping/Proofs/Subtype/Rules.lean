import Mathlib.Data.List.Forall2
import TensorTyping.Proofs.TensorOrder
import TensorTyping.Subtype.Basic

/-!
# The rules of subtyping

The subtype test is one function with a long match, an equality test in front of it and four helper
functions for lists. Nothing after this module opens any of them. For each form that the larger type
can have, one lemma here says exactly which types are below it, and the helpers are given as the
relations on lists that they decide.

Written `a ≤ b`, the relation is the test: `Ty.le_def` is true by definition.

The equality test in front is visible in one rule only. Whatever is equal to a list, a dictionary or
a tuple is below it by the rule for that form as well, so their rules do not mention it. Only for an
interface is equality a reason of its own, since an interface in which two methods share a name need
not offer its own methods.
-/

set_option autoImplicit false

namespace TensorTyping

instance : LE Ty := ⟨fun a b => a.isSubtype b⟩

instance : LE (Signature Ty) := ⟨fun m n => m.isSubtype n⟩

/-! ## Names of tuples -/

namespace TupleNames

@[simp] theorem canStandFor_none (s : Option TupleNames) : canStandFor s none := by
  cases s <;> rfl

@[simp] theorem canStandFor_self (s : Option TupleNames) : canStandFor s s := by
  cases s <;> simp [canStandFor]

theorem canStandFor_trans {s t u : Option TupleNames} (hst : canStandFor s t)
    (htu : canStandFor t u) : canStandFor s u := by
  rcases u with _ | u
  · exact canStandFor_none s
  rcases t with _ | t
  · simp [canStandFor] at htu
  rcases s with _ | s
  · simp [canStandFor] at hst
  · simp only [canStandFor, beq_iff_eq] at *
    exact hst.trans htu

end TupleNames

/-! ## The helpers, as relations on lists -/

namespace Ty

theorem le_def {a b : Ty} : a ≤ b ↔ a.isSubtype b := Iff.rfl

theorem areSubtypes_iff {as bs : List Ty} :
    areSubtypes as bs ↔ List.Forall₂ (· ≤ ·) as bs := by
  induction as generalizing bs with
  | nil => cases bs <;> simp [areSubtypes]
  | cons a as ih => cases bs <;> simp [areSubtypes, ih, le_def]

/-- Parameters accept what others accept when they agree on the names and each accepts what the
other one at its place accepts. The direction of the order turns here. -/
theorem accepts_iff {ps qs : List (String × Ty)} :
    accepts ps qs ↔ List.Forall₂ (fun p q => p.1 = q.1 ∧ q.2 ≤ p.2) ps qs := by
  induction ps generalizing qs with
  | nil => cases qs <;> simp [accepts]
  | cons p ps ih =>
    obtain ⟨x, a⟩ := p
    rcases qs with _ | ⟨⟨y, b⟩, qs⟩
    · simp [accepts]
    · simp [accepts, ih, le_def, and_assoc]

end Ty

namespace Signature

theorem le_def {m n : Signature Ty} : m ≤ n ↔ m.isSubtype n := Iff.rfl

/-- A method can stand for another whose parameters and returned types it fits; its own name plays
no role. -/
theorem le_iff {m n : Signature Ty} :
    m ≤ n ↔ List.Forall₂ (fun p q => p.1 = q.1 ∧ q.2 ≤ p.2) m.params n.params ∧
      List.Forall₂ (· ≤ ·) m.returns n.returns := by
  rw [le_def, isSubtype, Bool.and_eq_true, Ty.accepts_iff, Ty.areSubtypes_iff]

end Signature

namespace Ty

theorem offers_iff {ms : List (Signature Ty)} {n : Signature Ty} :
    offers ms n ↔ ∃ m, ms.find? (·.name == n.name) = some m ∧ m ≤ n := by
  induction ms with
  | nil => simp [offers]
  | cons m ms ih =>
    rw [offers]
    by_cases h : m.name = n.name
    · rw [if_pos h, List.find?_cons_of_pos (by simpa using h)]
      simp [Signature.le_def]
    · rw [if_neg h, List.find?_cons_of_neg (by simpa using h), ih]

theorem offersAll_iff {ms ns : List (Signature Ty)} :
    offersAll ms ns ↔ ∀ n ∈ ns, ∃ m, ms.find? (·.name == n.name) = some m ∧ m ≤ n := by
  induction ns with
  | nil => simp [offersAll]
  | cons n ns ih => simp [offersAll, offers_iff, ih]

/-! ## What is below a type of a given form

Each proof opens the match once for every form of the smaller type. Where both forms are the same,
what is left is that equality of the two types is covered by the rule. -/

protected theorem le_refl (a : Ty) : a ≤ a := by
  rw [le_def, isSubtype.eq_def]
  simp

theorem le_prim_iff {a : Ty} {p : Primitive} :
    a ≤ prim p ↔ a = prim p ∨ p = .any ∨ (p = .number ∧ (a = prim .int ∨ a = prim .float)) := by
  rw [le_def, isSubtype.eq_def]
  cases a with
  | prim q => cases p <;> cases q <;> simp
  | _ => cases p <;> simp

theorem le_any (a : Ty) : a ≤ prim .any :=
  le_prim_iff.2 (.inr (.inl rfl))

@[simp] theorem le_none_iff {a : Ty} : a ≤ prim .none ↔ a = prim .none := by
  simp [le_prim_iff]

@[simp] theorem le_tensor_iff {a : Ty} {g : TensorFacts} :
    a ≤ tensor g ↔ ∃ f, a = tensor f ∧ f ≤ g := by
  rw [le_def, isSubtype.eq_def]
  cases a with
  | tensor f =>
    simp only [beq_iff_eq, Bool.or_eq_true, tensor.injEq, exists_eq_left',
      TensorFacts.le_iff_merge_eq, or_iff_right_iff_imp]
    rintro rfl
    exact TensorFacts.merge_self f
  | _ => simp

@[simp] theorem le_list_iff {a b : Ty} : a ≤ list b ↔ ∃ e, a = list e ∧ e ≤ b := by
  rw [le_def, isSubtype.eq_def]
  cases a with
  | list e =>
    simp only [beq_iff_eq, Bool.or_eq_true, list.injEq, exists_eq_left', le_def,
      or_iff_right_iff_imp]
    rintro rfl
    exact Ty.le_refl e
  | _ => simp

@[simp] theorem le_future_iff {a b : Ty} : a ≤ future b ↔ ∃ e, a = future e ∧ e ≤ b := by
  rw [le_def, isSubtype.eq_def]
  cases a with
  | future e =>
    simp only [beq_iff_eq, Bool.or_eq_true, future.injEq, exists_eq_left', le_def,
      or_iff_right_iff_imp]
    rintro rfl
    exact Ty.le_refl e
  | _ => simp

@[simp] theorem le_dict_iff {a k v : Ty} :
    a ≤ dict k v ↔ ∃ k' v', a = dict k' v' ∧ k' ≤ k ∧ v' ≤ v := by
  rw [le_def, isSubtype.eq_def]
  cases a with
  | dict k' v' =>
    simp only [beq_iff_eq, Bool.or_eq_true, Bool.and_eq_true, dict.injEq, and_assoc,
      exists_and_left, exists_eq_left', le_def, or_iff_right_iff_imp]
    rintro ⟨rfl, rfl⟩
    exact ⟨Ty.le_refl k', Ty.le_refl v'⟩
  | _ => simp

/-- Three things are below an optional: none, whatever is below its element, and the optionals of
such types. The test takes the layers off in a fixed order, which this rule does not show. -/
theorem le_optional_iff {a b : Ty} :
    a ≤ optional b ↔ a = prim .none ∨ a ≤ b ∨ ∃ e, a = optional e ∧ e ≤ b := by
  rw [le_def, isSubtype.eq_def]
  cases a with
  | prim p => cases p <;> simp [le_def]
  | optional e =>
    simp only [beq_iff_eq, Bool.or_eq_true, optional.injEq, exists_eq_left', reduceCtorEq,
      false_or, le_def, or_iff_right_iff_imp]
    rintro rfl
    exact .inr (Ty.le_refl e)
  | _ => simp [le_def]

@[simp] theorem le_tuple_iff {a : Ty} {t : Option TupleNames} {bs : List Ty} :
    a ≤ tuple t bs ↔
      ∃ s as, a = tuple s as ∧ TupleNames.canStandFor s t ∧ List.Forall₂ (· ≤ ·) as bs := by
  rw [le_def, isSubtype.eq_def]
  cases a with
  | tuple s as =>
    simp only [beq_iff_eq, Bool.or_eq_true, Bool.and_eq_true, tuple.injEq, and_assoc,
      exists_and_left, exists_eq_left', areSubtypes_iff, or_iff_right_iff_imp]
    rintro ⟨rfl, rfl⟩
    exact ⟨TupleNames.canStandFor_self s, List.forall₂_same.2 fun e _ => Ty.le_refl e⟩
  | _ => simp

@[simp] theorem le_function_iff {a : Ty} {x : String} : a ≤ function x ↔ a = function x := by
  rw [le_def, isSubtype.eq_def]
  cases a <;> simp

/-- An interface is above itself, and above every interface in which each of its methods is found
under its name and can be stood for. -/
theorem le_interface_iff {a : Ty} {y : String} {ns : List (Signature Ty)} :
    a ≤ interface y ns ↔ a = interface y ns ∨
      ∃ x ms, a = interface x ms ∧
        ∀ n ∈ ns, ∃ m, ms.find? (·.name == n.name) = some m ∧ m ≤ n := by
  rw [le_def, isSubtype.eq_def]
  cases a <;> simp [offersAll_iff]

@[simp] theorem le_var_iff {a : Ty} {x : String} : a ≤ var x ↔ a = var x := by
  rw [le_def, isSubtype.eq_def]
  cases a <;> simp

/-! ## Optionals -/

theorem none_le_optional (b : Ty) : prim .none ≤ optional b :=
  le_optional_iff.2 (.inl rfl)

theorem le_optional_of_le {a b : Ty} (h : a ≤ b) : a ≤ optional b :=
  le_optional_iff.2 (.inr (.inl h))

theorem optional_le_optional {a b : Ty} (h : a ≤ b) : optional a ≤ optional b :=
  le_optional_iff.2 (.inr (.inr ⟨a, rfl, h⟩))

end Ty

end TensorTyping
