import Mathlib.Data.Set.Insert
import TensorTyping.Proofs.Text.Items
import TensorTyping.Shape.Basic

/-!
# Reading shapes back from their texts

The text of a shape is the row of its axes, each written as a number or as a star. Neither of these
holds a comma, so the row can be taken apart, and an axis is told by its own text: numbers are
written with digits only, and no two of them alike.

What a text cannot tell is whether the rank was known. An unknown rank is written as if there were
one axis of unknown extent, so `(*)` stands for two shapes. `Shape.shownAxes` says this once: it is
the list of axes that a text shows, and it is all that a text shows.
-/

set_option autoImplicit false

namespace TensorTyping

open Text

namespace Shape

/-! ## The text of one axis -/

theorem isItem_displayExtent (x : Known Extent) : IsItem (displayExtent x) := by
  cases x with
  | none => exact ⟨by decide, by decide⟩
  | some n => exact isItem_repr n.toNat

/-- A star is no digit, so a known extent never looks like an unknown one. -/
theorem repr_ne_star (n : Nat) : n.repr ≠ "*" := by
  intro h
  have hstar : '*' ∈ n.repr.toList := by
    rw [h]
    decide
  exact absurd (isDigit_of_mem_repr hstar) (by decide)

theorem displayExtent_injective : Function.Injective displayExtent := by
  intro x y h
  cases x with
  | none =>
    cases y with
    | none => rfl
    | some n => exact absurd h.symm (repr_ne_star n.toNat)
  | some m =>
    cases y with
    | none => exact absurd h (repr_ne_star m.toNat)
    | some n =>
      have hdigits : Nat.toDigits 10 m.toNat = Nat.toDigits 10 n.toNat := by
        rw [← Nat.toList_repr, ← Nat.toList_repr]
        exact congrArg String.toList h
      have hvalue : m.toNat = n.toNat := calc
        m.toNat = Nat.ofDigitChars 10 (Nat.toDigits 10 m.toNat) 0 :=
          Nat.ofDigitChars_ten_toDigits.symm
        _ = Nat.ofDigitChars 10 (Nat.toDigits 10 n.toNat) 0 := by rw [hdigits]
        _ = n.toNat := Nat.ofDigitChars_ten_toDigits
      rw [UInt64.toNat_inj.1 hvalue]

/-! ## The row of axes -/

/-- The axes that the text of a shape shows. An unknown rank is shown as one axis of unknown
extent. -/
def shownAxes (s : Shape) : List (Known Extent) := s.dims.getD [none]

theorem display_eq_shownAxes (s : Shape) :
    s.display = "(" ++ ", ".intercalate (s.shownAxes.map displayExtent) ++ ")" := by
  obtain ⟨_ | dims⟩ := s
  · decide
  · rfl

/-- The text of a shape shows these axes, and nothing else. -/
theorem display_eq_iff_shownAxes_eq {a b : Shape} :
    a.display = b.display ↔ a.shownAxes = b.shownAxes := by
  have hitems : ∀ s : Shape, ∀ t ∈ s.shownAxes.map displayExtent, IsItem t := by
    intro s
    rw [List.forall_mem_map]
    exact fun x _ => isItem_displayExtent x
  rw [display_eq_shownAxes, display_eq_shownAxes, String.append_left_inj, String.append_right_inj]
  constructor
  · intro h
    exact displayExtent_injective.list_map (items_eq_of_intercalate_eq (hitems a) (hitems b) h)
  · intro h
    rw [h]

/-- Axes determine a shape of known rank. So where two shapes show the same axes and differ, one of
them has an unknown rank, and the other one has the axis that is shown in its place. -/
theorem shownAxes_eq_iff {a b : Shape} :
    a.shownAxes = b.shownAxes ↔ a = b ∨ ({a, b} : Set Shape) = {unknown, ofRank 1} := by
  rw [Set.pair_eq_pair_iff]
  -- the exception is what the two mixed cases leave, once for each order of the pair
  obtain ⟨adims⟩ := a
  obtain ⟨bdims⟩ := b
  cases adims with
  | none =>
    cases bdims with
    | none => simp
    | some ys => simp [shownAxes, unknown, ofRank, ofDims, eq_comm]
  | some xs =>
    cases bdims with
    | none => simp [shownAxes, unknown, ofRank, ofDims]
    | some ys => simp [shownAxes, unknown]

/-- **The text of a shape determines the shape, with one exception**: an unknown rank and a single
axis of unknown extent are written alike. -/
theorem display_eq_display_iff (a b : Shape) :
    a.display = b.display ↔ a = b ∨ ({a, b} : Set Shape) = {unknown, ofRank 1} := by
  rw [display_eq_iff_shownAxes_eq, shownAxes_eq_iff]

example : unknown ≠ ofRank 1 ∧ unknown.display = (ofRank 1).display := by decide

end Shape

end TensorTyping
