import TensorTyping.Device
import TensorTyping.Scalar
import TensorTyping.Shape.RowMajor

/-!
# Tensor facts

What is known of a tensor: the kind of its elements, its device, its sizes and strides, whether
gradients are recorded for it, and whether it is undefined. Facts are independent of each other, so
two descriptions merge fact by fact, and the description that knows nothing is the generic tensor.
-/

set_option autoImplicit false

namespace TensorTyping

/-- A description of a tensor by the facts known of it (`TensorType`). -/
structure TensorFacts where
  /-- The kind of the elements. -/
  scalar : Known Scalar
  /-- Where the tensor lives. -/
  device : Known Device
  /-- The extents along the axes. -/
  sizes : Shape
  /-- The distances between neighbours along the axes. -/
  strides : Shape
  /-- Whether gradients are recorded. -/
  requiresGrad : Known Bool
  /-- Whether the tensor is undefined. -/
  undefined : Known Bool
deriving DecidableEq, Repr

namespace TensorFacts

/-- The generic tensor: no fact is known. -/
def unknown : TensorFacts := ⟨none, none, .unknown, .unknown, none, none⟩

/-- A defined tensor of the given sizes, stored in row-major order (`TensorType::from_sizes`). -/
def dense (scalar : Scalar) (device : Device) (sizes : List Extent) : TensorFacts where
  scalar := some scalar
  device := some device
  sizes := .ofSizes sizes
  strides := .rowMajor sizes
  requiresGrad := none
  undefined := some false

/-- The number of axes (`TensorType::dim`). -/
def rank (t : TensorFacts) : Known Nat := t.sizes.rank

/-- Element kind, device, sizes and strides are all known. -/
def isComplete (t : TensorFacts) : Bool :=
  t.scalar.isSome && t.device.isSome && t.sizes.isComplete && t.strides.isComplete

/-- What two descriptions agree on. -/
def merge (a b : TensorFacts) : TensorFacts where
  scalar := a.scalar.merge b.scalar
  device := a.device.merge b.device
  sizes := a.sizes.merge b.sizes
  strides := a.strides.merge b.strides
  requiresGrad := a.requiresGrad.merge b.requiresGrad
  undefined := a.undefined.merge b.undefined

/-- What two descriptions agree on, unless the policy refuses their ranks (`merge_with`). The sizes
are looked at before the strides. -/
def mergeUnder (policy : MergePolicy) (a b : TensorFacts) : Except RankMismatch TensorFacts := do
  let sizes ← a.sizes.mergeUnder policy b.sizes
  let strides ← a.strides.mergeUnder policy b.strides
  return { a.merge b with sizes, strides }

/-- A tensor in text: `Float(2, 3)`, `FloatTensor` without a rank, `Tensor(2, 3)` without an element
kind, and a mark behind a tensor that is known to be undefined. -/
def display (t : TensorFacts) : String :=
  let shape := if t.rank.isSome then t.sizes.display else ""
  let mark := if t.undefined = some true then "[Undefined]" else ""
  match t.scalar with
  | some s => s.name ++ (if t.rank.isSome then "" else "Tensor") ++ shape ++ mark
  | none => "Tensor" ++ shape ++ mark

end TensorFacts

end TensorTyping
