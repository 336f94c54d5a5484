import Mathlib.Algebra.BigOperators.Group.List.Basic
import Mathlib.Data.Nat.Find
import TensorTyping.TensorFacts

/-!
# Row-major strides are exact

The strides of a dense tensor are found from the last axis forward. Each step multiplies two words
and looks whether the product fits, and a product that does not fit is lost for all axes before.
Here the strides are compared with exact products of natural numbers. They are the same as far as
words go: the row of tests answers as one test of the exact product would (`Shape.rowMajorFrom_eq`).

This needs factors that are not zero, and it is why an axis of extent zero counts as one. A product
that is lost stays lost, since further factors do not make the exact product smaller
(`Extent.ofNat?_bind_times?`). For the same reason the exact strides shrink from axis to axis
(`Shape.exactStride_antitone`), so that the unknown ones stand in front of the known ones, and the
first stride of all tells whether any is unknown.
-/

set_option autoImplicit false

namespace TensorTyping

/-! ## Words for numbers -/

namespace Extent

/-- The word for a number, when there is one. -/
def ofNat? (n : Nat) : Option Extent :=
  if n < UInt64.size then some (UInt64.ofNat n) else none

theorem ofNat?_of_lt {n : Nat} (h : n < UInt64.size) : ofNat? n = some (UInt64.ofNat n) :=
  if_pos h

theorem ofNat?_eq_none_iff {n : Nat} : ofNat? n = none ↔ UInt64.size ≤ n := by
  simp [ofNat?]

theorem isSome_ofNat? {n : Nat} : (ofNat? n).isSome ↔ n < UInt64.size := by
  simp [ofNat?]

theorem map_toNat_ofNat? (n : Nat) :
    (ofNat? n).map UInt64.toNat = if n < UInt64.size then some n else none := by
  by_cases h : n < UInt64.size
  · rw [ofNat?_of_lt h, if_pos h, Option.map_some, UInt64.toNat_ofNat_of_lt' h]
  · rw [ofNat?_eq_none_iff.2 (by omega), if_neg h, Option.map_none]

/-- The test of one multiplication is a test of the exact product. -/
theorem times?_eq_ofNat? (m n : Extent) : m.times? n = ofNat? (m.toNat * n.toNat) := by
  rw [times?, ofNat?, UInt64.ofNat_mul, UInt64.ofNat_toNat, UInt64.ofNat_toNat]

/-- **A row of tests is one test.** Multiplying a product that may be lost already is a test of the
exact product: once lost, it stays lost, as the further factor is not zero. -/
theorem ofNat?_bind_times? (m : Nat) {n : Extent} (hn : 0 < n.toNat) :
    (ofNat? m).bind (·.times? n) = ofNat? (m * n.toNat) := by
  by_cases hm : m < UInt64.size
  · rw [ofNat?_of_lt hm, Option.bind_some, times?_eq_ofNat?, UInt64.toNat_ofNat_of_lt' hm]
  · have hle : m ≤ m * n.toNat := Nat.le_mul_of_pos_right m hn
    rw [ofNat?_eq_none_iff.2 (by omega), ofNat?_eq_none_iff.2 (by omega), Option.bind_none]

end Extent

namespace Shape

/-! ## Exact strides -/

/-- The exact product of the extents, where an extent of zero counts as one. -/
def span (sizes : List Extent) : Nat := (sizes.map fun size => max size.toNat 1).prod

/-- The exact stride of axis `i`: the product of the extents behind it. -/
def exactStride (sizes : List Extent) (i : Nat) : Nat := span (sizes.drop (i + 1))

@[simp] theorem span_nil : span [] = 1 := rfl

theorem span_cons (size : Extent) (rest : List Extent) :
    span (size :: rest) = max size.toNat 1 * span rest := by
  rw [span, List.map_cons, List.prod_cons, span]

/-- Fewer axes have a smaller product, as no factor is zero. -/
theorem span_le_of_suffix {rest sizes : List Extent} (h : rest <:+ sizes) :
    span rest ≤ span sizes := by
  obtain ⟨front, rfl⟩ := h
  induction front with
  | nil => exact le_rfl
  | cons size front ih =>
    rw [List.cons_append, span_cons]
    exact ih.trans (Nat.le_mul_of_pos_left _ (by omega))

/-- Strides shrink from the first axis to the last. -/
theorem exactStride_antitone (sizes : List Extent) {i j : Nat} (hij : i ≤ j) :
    exactStride sizes j ≤ exactStride sizes i := by
  refine span_le_of_suffix ?_
  exact List.drop_suffix_drop_left sizes (by omega)

/-- Behind the last axis there is nothing to multiply. -/
theorem exactStride_of_length_le {sizes : List Extent} {i : Nat} (h : sizes.length ≤ i + 1) :
    exactStride sizes i = 1 := by
  rw [exactStride, List.drop_of_length_le h, span_nil]

/-! ## The loop -/

/-- **The loop.** Each stride is the exact one, and so is the product that is passed on, each as far
as it fits in a word. -/
theorem rowMajorFrom_eq (sizes : List Extent) :
    rowMajorFrom sizes =
      ((List.range sizes.length).map fun i => Extent.ofNat? (exactStride sizes i),
        Extent.ofNat? (span sizes)) := by
  induction sizes with
  | nil => rfl
  | cons size rest ih =>
    have hfactor : (max size 1).toNat = max size.toNat 1 := UInt64.toNat_max size 1
    have hpos : 0 < (max size 1).toNat := by omega
    rw [rowMajorFrom, ih, List.length_cons, List.range_succ_eq_map, List.map_cons, List.map_map,
      span_cons, Nat.mul_comm]
    simp only [Extent.ofNat?_bind_times? _ hpos, hfactor]
    rfl

/-- A dense tensor has a stride for each axis. -/
theorem rank_rowMajor (sizes : List Extent) : (rowMajor sizes).rank = some sizes.length := by
  rw [rowMajor, rowMajorFrom_eq, rank, ofDims, Option.map_some, List.length_map, List.length_range]

/-- The stride of an axis is the exact one, when that fits in a word. -/
theorem extent_rowMajor {sizes : List Extent} {i : Nat} (hi : i < sizes.length) :
    (rowMajor sizes).extent i = Extent.ofNat? (exactStride sizes i) := by
  rw [rowMajor, rowMajorFrom_eq, extent, ofDims, Option.bind_some, List.getElem?_map,
    List.getElem?_range hi, Option.map_some, Option.join_some]

/-! ## Which strides are known -/

/-- There is a first axis from which on strides are known. -/
theorem exists_known_from (sizes : List Extent) :
    ∃ k, ∀ i, UInt64.size ≤ exactStride sizes i ↔ i < k := by
  have hlast : ∃ k, exactStride sizes k < UInt64.size := by
    refine ⟨sizes.length, ?_⟩
    rw [exactStride_of_length_le (Nat.le_succ _)]
    decide
  refine ⟨Nat.find hlast, fun i => ?_⟩
  rw [Nat.lt_find_iff]
  constructor
  · intro hi j hj
    exact Nat.not_lt.2 (hi.trans (exactStride_antitone sizes hj))
  · intro hall
    exact Nat.not_lt.1 (hall i le_rfl)

theorem isComplete_ofSizes (sizes : List Extent) : (ofSizes sizes).isComplete := by
  simp [isComplete, ofSizes, ofDims]

/-- All strides are known when the first one is, which is the largest. -/
theorem isComplete_rowMajor_iff {sizes : List Extent} :
    (rowMajor sizes).isComplete ↔ sizes = [] ∨ exactStride sizes 0 < UInt64.size := by
  have hall : (rowMajor sizes).isComplete ↔
      ∀ i < sizes.length, exactStride sizes i < UInt64.size := by
    rw [rowMajor, rowMajorFrom_eq, isComplete, ofDims, Option.any_some, List.all_map,
      List.all_eq_true]
    simp only [List.mem_range, Function.comp_apply, Extent.isSome_ofNat?]
  rw [hall]
  constructor
  · intro h
    rcases sizes with _ | ⟨size, rest⟩
    · exact .inl rfl
    · exact .inr (h 0 (Nat.succ_pos _))
  · rintro (rfl | hfirst) i hi
    · exact absurd hi (Nat.not_lt_zero i)
    · exact (exactStride_antitone sizes (Nat.zero_le i)).trans_lt hfirst

end Shape

open Shape

/-- **Row-major strides are exact up to the limit of a word.** There is one for each axis, and it is
the product of the extents behind the axis, with zero counted as one, or unknown if this number does
not fit in a word. So the unknown strides are those of the first axes, up to some axis. And a dense
tensor is complete exactly when it has no axes or the product for its first axis fits. -/
theorem rowMajor_exact (sizes : List Extent) :
    (rowMajor sizes).rank = some sizes.length ∧
    (∀ i < sizes.length, ((rowMajor sizes).extent i).map UInt64.toNat =
      if exactStride sizes i < UInt64.size then some (exactStride sizes i) else none) ∧
    (∃ k, ∀ i < sizes.length, (rowMajor sizes).extent i = none ↔ i < k) ∧
    ∀ scalar device, (TensorFacts.dense scalar device sizes).isComplete ↔
      sizes = [] ∨ exactStride sizes 0 < UInt64.size := by
  refine ⟨rank_rowMajor sizes, fun i hi => ?_, ?_, fun scalar device => ?_⟩
  · rw [extent_rowMajor hi, Extent.map_toNat_ofNat?]
  · obtain ⟨k, hk⟩ := exists_known_from sizes
    refine ⟨k, fun i hi => ?_⟩
    rw [extent_rowMajor hi, Extent.ofNat?_eq_none_iff, hk]
  · rw [← isComplete_rowMajor_iff, TensorFacts.isComplete, TensorFacts.dense]
    simp [isComplete_ofSizes]

/-- Four axes, one of extent zero. The product of the last two is the first number that does not
fit, so the strides of the two axes before them are unknown. -/
theorem rowMajor_exact_at_limit :
    let sizes : List Extent := [7, 0, 0x8000000000000000, 2]
    (2 < sizes.length ∧ ((rowMajor sizes).extent 2).map UInt64.toNat = some 2) ∧
      (1 < sizes.length ∧ exactStride sizes 1 = UInt64.size ∧
        ((rowMajor sizes).extent 1).map UInt64.toNat = none) ∧
      ¬ (TensorFacts.dense .float .cpu sizes).isComplete := by
  intro sizes
  obtain ⟨_, hentry, _, hcomplete⟩ := rowMajor_exact sizes
  have hlength : sizes.length = 4 := rfl
  have hfits : exactStride sizes 2 = 2 := by decide +kernel
  have hlimit : exactStride sizes 1 = UInt64.size := by decide +kernel
  have hfirst : ¬ (sizes = [] ∨ exactStride sizes 0 < UInt64.size) := by decide +kernel
  refine ⟨⟨by omega, ?_⟩, ⟨by omega, hlimit, ?_⟩, (hcomplete .float .cpu).not.2 hfirst⟩
  · rw [hentry 2 (by omega), hfits]
    rfl
  · rw [hentry 1 (by omega), hlimit]
    exact if_neg (Nat.lt_irrefl _)

end TensorTyping
