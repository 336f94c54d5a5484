import TensorTyping.Ty.Basic

/-!
# Bindings of type variables

A finite map from type variables to types, seen through `Bindings.get?`. The three operations on it
are described by what they do to that view.
-/

set_option autoImplicit false

namespace TensorTyping

/-- Which type each variable stands for, so far (`TypeEnv`). -/
structure Bindings where
  /-- The bound variables with their types; of two entries for one variable the first counts. -/
  entries : List (String × Ty)
deriving Repr

namespace Bindings

/-- No variable is bound. -/
def empty : Bindings := ⟨[]⟩

/-- The type bound to `x`. -/
def get? (b : Bindings) (x : String) : Option Ty := b.entries.lookup x

/-- The bindings without `x`. -/
def erase (b : Bindings) (x : String) : Bindings := ⟨b.entries.filter (·.1 != x)⟩

/-- The bindings with `x` bound to `t`, whatever it was bound to before. -/
def insert (b : Bindings) (x : String) (t : Ty) : Bindings := ⟨(x, t) :: (b.erase x).entries⟩

/-! ## The view -/

@[simp] theorem get?_empty (x : String) : empty.get? x = none := rfl

theorem lookup_filter_ne (x y : String) (es : List (String × Ty)) :
    (es.filter (·.1 != x)).lookup y = if x = y then none else es.lookup y := by
  induction es with
  | nil => simp
  | cons e es ih =>
    obtain ⟨z, t⟩ := e
    by_cases hz : z = x
    · subst hz
      rw [List.filter_cons_of_neg (by simp), ih]
      by_cases hy : z = y
      · rw [if_pos hy, if_pos hy]
      · have : (y == z) = false := by simpa using fun h : y = z => hy h.symm
        simp [List.lookup_cons, this]
    · rw [List.filter_cons_of_pos (by simpa using hz), List.lookup_cons, List.lookup_cons, ih]
      by_cases hy : y = z
      · rw [if_neg fun h : x = y => hz (hy ▸ h.symm), if_neg fun h : x = y => hz (hy ▸ h.symm)]
      · have : (y == z) = false := by simpa using hy
        simp [this]

@[simp] theorem get?_erase (b : Bindings) (x y : String) :
    (b.erase x).get? y = if x = y then none else b.get? y :=
  lookup_filter_ne x y b.entries

@[simp] theorem get?_insert (b : Bindings) (x y : String) (t : Ty) :
    (b.insert x t).get? y = if x = y then some t else b.get? y := by
  by_cases h : x = y
  · simp [insert, get?, h]
  · have : (y == x) = false := by simpa using fun e : y = x => h e.symm
    simp [insert, get?, erase, List.lookup_cons, lookup_filter_ne, h, this]

end Bindings

end TensorTyping
