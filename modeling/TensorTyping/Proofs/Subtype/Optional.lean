import TensorTyping.Proofs.Subtype.Rules
import TensorTyping.Proofs.Ty.Parts

/-!
# Optionals in subtyping

Two rules of subtyping compete for an optional on the right. One takes a layer off the right-hand
type only, the other takes one off both, so towers of optionals can be compared in many ways. All
ways come to the same: of a tower only two things matter, how many layers it has and what is inside
of them (`Ty.le_iff_layers`). Layers may be added on the way up but not taken off, and there are two
exceptions. The type of all values is above everything, no matter what is around it. And none is
below a layer already, so that it needs one layer more on the right but nothing in particular
inside.

That optionals compare as their elements do is read off from this. So is the fact about types inside
all layers that `TensorTyping.Proofs.Subtype.Explained` rests on.
-/

set_option autoImplicit false

namespace TensorTyping

namespace Ty

/-! ## Layers -/

/-- The type inside all layers of optional. -/
def bare : Ty → Ty
  | optional e => e.bare
  | t => t

/-- The number of layers of optional around a type. -/
def layers : Ty → Nat
  | optional e => e.layers + 1
  | _ => 0

theorem bare_optional (e : Ty) : (optional e).bare = e.bare := rfl

theorem layers_optional (e : Ty) : (optional e).layers = e.layers + 1 := rfl

section NotOptional

variable {t : Ty} (ht : ∀ e, t ≠ optional e)

include ht

theorem bare_of_ne_optional : t.bare = t := by
  cases t with
  | optional e => exact absurd rfl (ht e)
  | _ => rfl

theorem layers_of_ne_optional : t.layers = 0 := by
  cases t with
  | optional e => exact absurd rfl (ht e)
  | _ => rfl

/-- An optional is below no other form of type but the type of all values. -/
theorem optional_le_iff_of_ne_optional {a : Ty} : optional a ≤ t ↔ t = prim .any := by
  constructor
  · intro h
    cases t with
    | prim p => simpa [le_prim_iff] using h
    | optional e => exact absurd rfl (ht e)
    | _ => simp [le_interface_iff] at h
  · rintro rfl
    exact le_any _

end NotOptional

/-! ## Towers -/

/-- `a` is below `b` as far as the layers and what is inside of them tell: there are no more layers
around a subtype, or less layers around none, or the type of all values is inside `b`. -/
def BelowByLayers (a b : Ty) : Prop :=
  b.bare = prim .any ∨ (a.bare = prim .none ∧ a.layers < b.layers) ∨
    (a.layers ≤ b.layers ∧ a.bare ≤ b.bare)

/-- Where there is no layer on the right, there may be none on the left. -/
theorem le_iff_layers_of_ne_optional {a b : Ty} (hb : ∀ e, b ≠ optional e) :
    a ≤ b ↔ BelowByLayers a b := by
  rw [BelowByLayers, bare_of_ne_optional hb, layers_of_ne_optional hb]
  by_cases ha : ∃ e, a = optional e
  · obtain ⟨e, rfl⟩ := ha
    rw [optional_le_iff_of_ne_optional hb, layers_optional]
    simp
  · have hne : ∀ e, a ≠ optional e := fun e he => ha ⟨e, he⟩
    have hany : b = prim .any → a ≤ b := fun h => h ▸ le_any a
    rw [layers_of_ne_optional hne, bare_of_ne_optional hne]
    simpa using hany

/-- **Towers of optionals.** Only the number of layers and the types inside of them matter. -/
theorem le_iff_layers {a b : Ty} : a ≤ b ↔ BelowByLayers a b := by
  -- each rule takes one layer off on the right
  induction b generalizing a with
  | optional e ih =>
    simp only [le_optional_iff, ih, BelowByLayers, bare_optional, layers_optional]
    by_cases ha : ∃ a', a = optional a'
    · -- what the first rule gives, the second gives as well
      obtain ⟨a', rfl⟩ := ha
      simp only [optional.injEq, exists_eq_left', bare_optional, layers_optional, reduceCtorEq,
        false_or]
      grind
    · have hne : ∀ e, a ≠ optional e := fun e he => ha ⟨e, he⟩
      simp only [hne, false_and, exists_false, or_false, bare_of_ne_optional hne,
        layers_of_ne_optional hne]
      grind
  | _ => exact le_iff_layers_of_ne_optional (by simp)

theorem optional_le_optional_iff {a b : Ty} : optional a ≤ optional b ↔ a ≤ b := by
  rw [le_iff_layers, le_iff_layers, BelowByLayers, BelowByLayers, bare_optional, bare_optional,
    layers_optional, layers_optional, Nat.add_lt_add_iff_right, Nat.add_le_add_iff_right]

/-! ## Optional as an operation on types -/

/-- **Optional is an order embedding and adds only none.** Optionals compare as their elements do.
Below an optional there are none, the types below its element, and the optionals of these. And above
an optional there are only optionals and the type of all values. -/
theorem optional_embeds_and_adds_none (a b : Ty) :
    ((optional a).isSubtype (optional b) ↔ a.isSubtype b) ∧
    (a.isSubtype (optional b) ↔
      a = prim .none ∨ a.isSubtype b ∨ ∃ e, a = optional e ∧ e.isSubtype b) ∧
    ((∀ e, b ≠ optional e) → ((optional a).isSubtype b ↔ b = prim .any)) := by
  simp only [← le_def]
  exact ⟨optional_le_optional_iff, le_optional_iff, fun hb => optional_le_iff_of_ne_optional hb⟩

/-- Two layers on the left and one on the right. They compare as with one layer less on both sides,
where the right-hand type is no optional any more. -/
theorem optional_embeds_and_adds_none_layers :
    let a := optional (prim .int)
    let b := prim .number
    ((prim .int).isSubtype b ∧ a.isSubtype (optional b)) ∧
      (∀ e, b ≠ optional e) ∧ ¬ a.isSubtype b ∧ ¬ (optional a).isSubtype (optional b) := by
  intro a b
  have hint : (prim .int).isSubtype b := by decide +kernel
  have hb : ∀ e, b ≠ optional e := by simp [b]
  have ha : ¬ a.isSubtype b := by
    rw [(optional_embeds_and_adds_none (prim .int) b).2.2 hb]
    simp [b]
  refine ⟨⟨hint, (optional_embeds_and_adds_none (prim .int) b).1.2 hint⟩, hb, ha, ?_⟩
  exact (optional_embeds_and_adds_none a b).1.not.2 ha

end Ty

end TensorTyping
