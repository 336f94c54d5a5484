import Mathlib.Algebra.BigOperators.Ring.List
import Mathlib.Algebra.Ring.Nat
import Mathlib.Data.Set.Function
import Mathlib.Order.Interval.Set.Basic
import TensorTyping.Proofs.Shape.RowMajor

/-!
# Addresses in a dense tensor

An element of a dense tensor lies at the sum of its index along each axis times the stride of the
axis (`Shape.offset`). When all strides are known, every element has a place of its own and no place
is left over: the offsets of the indices within bounds are the numbers below the product of the
sizes, each taken once.

The inverse is division with remainder from the first axis on (`Shape.indexAt`): the quotient by the
stride is the index along the axis, and the axes behind share the remainder. So the stride has to be
the number of elements behind the axis. It is the product of the sizes there with zero counted as
one, which is the same unless one of them is zero, and then there are no elements at all.

Offsets are exact numbers and not words. The size of the first axis enters no stride, so a tensor
whose strides are all known may have more elements than a word can count.
-/

set_option autoImplicit false

namespace TensorTyping

/-- The values of a list of facts are all known when each of them is. -/
theorem Known.isSome_sequence {α : Type} (facts : List (Known α)) :
    (sequence facts).isSome = facts.all Option.isSome := by
  induction facts with
  | nil => rfl
  | cons fact facts ih =>
    cases fact with
    | none => rfl
    | some v => rw [sequence, Option.isSome_map, ih, List.all_cons, Option.isSome_some, Bool.true_and]

namespace Shape

/-- The extents of a complete shape can be listed. -/
theorem exists_sizes?_of_isComplete {s : Shape} (h : s.isComplete) :
    ∃ extents, s.sizes? = some extents := by
  rw [← Option.isSome_iff_exists]
  obtain ⟨_ | dims⟩ := s
  · cases h
  · exact (Known.isSome_sequence dims).trans h

/-! ## Indices and offsets -/

/-- The number of elements of a tensor of the given sizes. -/
def volume (sizes : List Extent) : Nat := (sizes.map UInt64.toNat).prod

/-- The index names an element: it has an entry for each axis, below the extent of that axis. -/
def InBounds (sizes : List Extent) (index : List Nat) : Prop :=
  List.Forall₂ (fun i size => i < size.toNat) index sizes

/-- The place of the element of the given index. -/
def offset (strides : List Extent) (index : List Nat) : Nat :=
  (List.zipWith (fun i stride => i * stride.toNat) index strides).sum

/-- The index of the element at a place. -/
def indexAt : List Extent → Nat → List Nat
  | [], _ => []
  | stride :: strides, n => n / stride.toNat :: indexAt strides (n % stride.toNat)

theorem volume_cons (size : Extent) (rest : List Extent) :
    volume (size :: rest) = size.toNat * volume rest := by
  rw [volume, List.map_cons, List.prod_cons, volume]

theorem offset_cons (stride : Extent) (strides : List Extent) (i : Nat) (index : List Nat) :
    offset (stride :: strides) (i :: index) = i * stride.toNat + offset strides index := by
  rw [offset, List.zipWith_cons_cons, List.sum_cons, offset]

/-! ## Axes of extent zero -/

theorem volume_eq_zero_iff {sizes : List Extent} : volume sizes = 0 ↔ 0 ∈ sizes := by
  rw [volume, List.prod_eq_zero_iff, List.mem_map]
  constructor
  · rintro ⟨size, hmem, hzero⟩
    rwa [← UInt64.toNat_inj.1 (hzero.trans UInt64.toNat_zero.symm)]
  · intro hmem
    exact ⟨0, hmem, UInt64.toNat_zero⟩

/-- An axis of extent zero leaves no index in bounds. -/
theorem InBounds.volume_pos {sizes : List Extent} {index : List Nat} (h : InBounds sizes index) :
    0 < volume sizes := by
  induction h with
  | nil => exact Nat.one_pos
  | cons hi _ ih =>
    rw [volume_cons]
    exact Nat.mul_pos (Nat.zero_lt_of_lt hi) ih

/-- Unless there are no elements at all, counting zero as one makes no difference. -/
theorem span_eq_volume {sizes : List Extent} (h : 0 < volume sizes) :
    span sizes = volume sizes := by
  induction sizes with
  | nil => rfl
  | cons size rest ih =>
    rw [volume_cons] at h ⊢
    have hsize : 0 < size.toNat := Nat.pos_of_mul_pos_right h
    have hrest : 0 < volume rest := Nat.pos_of_mul_pos_left h
    rw [span_cons, ih hrest, max_eq_left hsize]

/-! ## Known strides -/

/-- The strides of all axes are known together with those of the axes behind the first, and the first
of them is the product of the sizes behind it. -/
theorem exists_of_sizes?_rowMajor_cons {size : Extent} {rest strides : List Extent}
    (h : (rowMajor (size :: rest)).sizes? = some strides) :
    ∃ stride behind, strides = stride :: behind ∧ stride.toNat = span rest ∧
      (rowMajor rest).sizes? = some behind := by
  -- the loop hands the product of the axes behind on to the first axis
  have hdims : (rowMajor (size :: rest)).sizes? =
      Known.sequence (Extent.ofNat? (span rest) :: (rowMajorFrom rest).1) := by
    have hspan : (rowMajorFrom rest).2 = Extent.ofNat? (span rest) := by rw [rowMajorFrom_eq]
    rw [← hspan]
    rfl
  rw [hdims] at h
  by_cases hfits : span rest < UInt64.size
  · rw [Extent.ofNat?_of_lt hfits, Known.sequence, Option.map_eq_some_iff] at h
    obtain ⟨behind, hbehind, rfl⟩ := h
    exact ⟨_, behind, rfl, UInt64.toNat_ofNat_of_lt' hfits, hbehind⟩
  · rw [Extent.ofNat?_eq_none_iff.2 (Nat.not_lt.1 hfits), Known.sequence] at h
    cases h

theorem sizes?_rowMajor_nil {strides : List Extent} (h : (rowMajor []).sizes? = some strides) :
    strides = [] :=
  (Option.some.inj h).symm

/-- One step: where there is an element behind an axis, the stride of the axis is the number of
elements there. -/
theorem exists_volume_of_sizes?_rowMajor_cons {size : Extent} {rest strides : List Extent}
    (h : (rowMajor (size :: rest)).sizes? = some strides) (hrest : 0 < volume rest) :
    ∃ stride behind, strides = stride :: behind ∧ stride.toNat = volume rest ∧
      (rowMajor rest).sizes? = some behind := by
  obtain ⟨stride, behind, hstrides, hstride, hbehind⟩ := exists_of_sizes?_rowMajor_cons h
  exact ⟨stride, behind, hstrides, hstride.trans (span_eq_volume hrest), hbehind⟩

/-! ## From indices to offsets -/

/-- Offsets stay below the number of elements. -/
theorem offset_lt {sizes strides : List Extent} {index : List Nat}
    (h : (rowMajor sizes).sizes? = some strides) (hindex : InBounds sizes index) :
    offset strides index < volume sizes := by
  induction hindex generalizing strides with
  | nil =>
    rw [sizes?_rowMajor_nil h]
    exact Nat.one_pos
  | @cons i size index rest hi hindex ih =>
    obtain ⟨stride, behind, rfl, hstride, hbehind⟩ :=
      exists_volume_of_sizes?_rowMajor_cons h (InBounds.volume_pos hindex)
    rw [offset_cons, volume_cons, hstride]
    calc i * volume rest + offset behind index
        < i * volume rest + volume rest := Nat.add_lt_add_left (ih hbehind) _
      _ = (i + 1) * volume rest := (Nat.succ_mul i (volume rest)).symm
      _ ≤ size.toNat * volume rest := Nat.mul_le_mul_right _ hi

/-- The index is found again from the offset. -/
theorem indexAt_offset {sizes strides : List Extent} {index : List Nat}
    (h : (rowMajor sizes).sizes? = some strides) (hindex : InBounds sizes index) :
    indexAt strides (offset strides index) = index := by
  induction hindex generalizing strides with
  | nil =>
    rw [sizes?_rowMajor_nil h]
    rfl
  | @cons i size index rest hi hindex ih =>
    obtain ⟨stride, behind, rfl, hstride, hbehind⟩ :=
      exists_volume_of_sizes?_rowMajor_cons h (InBounds.volume_pos hindex)
    have hlt : offset behind index < volume rest := offset_lt hbehind hindex
    -- what the axes behind contribute is the remainder, as it is smaller than the stride
    have hquotient : (i * volume rest + offset behind index) / volume rest = i := by
      rw [Nat.mul_comm, Nat.mul_add_div (InBounds.volume_pos hindex), Nat.div_eq_of_lt hlt, Nat.add_zero]
    have hremainder : (i * volume rest + offset behind index) % volume rest =
        offset behind index := by
      rw [Nat.mul_comm, Nat.mul_add_mod, Nat.mod_eq_of_lt hlt]
    rw [offset_cons, indexAt, hstride, hquotient, hremainder, ih hbehind]

/-! ## From offsets to indices -/

/-- A place below the number of elements belongs to an element. -/
theorem inBounds_indexAt {sizes strides : List Extent} {n : Nat}
    (h : (rowMajor sizes).sizes? = some strides) (hn : n < volume sizes) :
    InBounds sizes (indexAt strides n) := by
  induction sizes generalizing strides n with
  | nil =>
    rw [sizes?_rowMajor_nil h]
    exact List.Forall₂.nil
  | cons size rest ih =>
    rw [volume_cons] at hn
    -- there is an element, so the stride is the number of elements behind and may be divided by
    have hrest : 0 < volume rest := Nat.pos_of_mul_pos_left (Nat.zero_lt_of_lt hn)
    obtain ⟨stride, behind, rfl, hstride, hbehind⟩ := exists_volume_of_sizes?_rowMajor_cons h hrest
    rw [indexAt, hstride]
    exact List.Forall₂.cons (Nat.div_lt_of_lt_mul (Nat.mul_comm _ _ ▸ hn))
      (ih hbehind (Nat.mod_lt n hrest))

/-- The index of a place leads back to it. -/
theorem offset_indexAt {sizes strides : List Extent} {n : Nat}
    (h : (rowMajor sizes).sizes? = some strides) (hn : n < volume sizes) :
    offset strides (indexAt strides n) = n := by
  induction sizes generalizing strides n with
  | nil =>
    rw [sizes?_rowMajor_nil h]
    exact (Nat.lt_one_iff.1 hn).symm
  | cons size rest ih =>
    rw [volume_cons] at hn
    have hrest : 0 < volume rest := Nat.pos_of_mul_pos_left (Nat.zero_lt_of_lt hn)
    obtain ⟨stride, behind, rfl, hstride, hbehind⟩ := exists_volume_of_sizes?_rowMajor_cons h hrest
    rw [indexAt, offset_cons, hstride, ih hbehind (Nat.mod_lt n hrest), Nat.div_add_mod']

example : offset [12, 4, 1] [1, 2, 3] = 23 ∧ indexAt [12, 4, 1] 23 = [1, 2, 3] := by decide

end Shape

open Shape

/-- **Row-major strides leave no gaps and do not overlap.** Where the strides of a dense tensor are
all known, the offsets of the indices within bounds are the numbers below the product of the sizes,
each taken once. With an axis of extent zero there are neither indices nor such numbers. -/
theorem rowMajor_addresses (sizes : List Extent) (h : (rowMajor sizes).isComplete) :
    ∃ strides, (rowMajor sizes).sizes? = some strides ∧
      Set.BijOn (offset strides) {index | InBounds sizes index} (Set.Iio (volume sizes)) ∧
      (0 ∈ sizes → {index | InBounds sizes index} = ∅ ∧ Set.Iio (volume sizes) = ∅) := by
  obtain ⟨strides, hstrides⟩ := exists_sizes?_of_isComplete h
  refine ⟨strides, hstrides, ?_, fun hzero => ?_⟩
  · have hinverse : Set.InvOn (indexAt strides) (offset strides)
        {index | InBounds sizes index} (Set.Iio (volume sizes)) :=
      ⟨fun index hindex => indexAt_offset hstrides hindex,
        fun n hn => offset_indexAt hstrides hn⟩
    refine hinverse.bijOn (fun index hindex => ?_) fun n hn => ?_
    · exact offset_lt hstrides hindex
    · exact inBounds_indexAt hstrides hn
  · have hvolume : volume sizes = 0 := volume_eq_zero_iff.2 hzero
    refine ⟨Set.eq_empty_of_forall_notMem fun index hindex => ?_, ?_⟩
    · exact Nat.ne_of_gt (InBounds.volume_pos hindex) hvolume
    · rw [hvolume]
      exact Set.eq_empty_of_forall_notMem fun n hn => Nat.not_lt_zero n hn

/-- A tensor with more elements than a word can count, in which one element lies at the first place
that is not a word; and an empty one, which has strides as well. -/
theorem rowMajor_addresses_beyond_words :
    let large : List Extent := [0x8000000000000000, 2, 3]
    let empty : List Extent := [4, 0, 5]
    ((rowMajor large).isComplete ∧ ∃ strides, (rowMajor large).sizes? = some strides ∧
        ∃! index, InBounds large index ∧ offset strides index = UInt64.size) ∧
      (rowMajor empty).isComplete ∧ 0 ∈ empty ∧ {index | InBounds empty index} = ∅ := by
  intro large empty
  have hlarge : (rowMajor large).isComplete := by decide +kernel
  have hempty : (rowMajor empty).isComplete := by decide +kernel
  have hzero : 0 ∈ empty := by decide
  obtain ⟨strides, hstrides, hbij, _⟩ := rowMajor_addresses large hlarge
  obtain ⟨_, _, _, hnone⟩ := rowMajor_addresses empty hempty
  refine ⟨⟨hlarge, strides, hstrides, ?_⟩, hempty, hzero, (hnone hzero).1⟩
  have hplace : UInt64.size < volume large := by decide +kernel
  obtain ⟨index, hindex, hoffset⟩ := hbij.surjOn hplace
  refine ⟨index, ⟨hindex, hoffset⟩, fun other hother => ?_⟩
  exact hbij.injOn hother.1 hindex (hother.2.trans hoffset.symm)

end TensorTyping
