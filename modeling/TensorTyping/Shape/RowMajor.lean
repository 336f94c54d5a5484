import TensorTyping.Shape.Basic

/-!
# Row-major strides

In a dense tensor whose last axis varies fastest, the stride of an axis is the product of the extents
behind it. An axis of extent zero counts as one, so that an empty tensor has strides as well.

A stride is exact or unknown. Strides are found from the last axis forward, and their products never
shrink on the way, so once a product no longer fits in a word, that stride and the strides of all axes
before it are unknown.
-/

set_option autoImplicit false

namespace TensorTyping

/-- The product of two extents, when it fits in a word. -/
def Extent.times? (m n : Extent) : Option Extent :=
  if m.toNat * n.toNat < UInt64.size then some (m * n) else none

namespace Shape

/-- The strides of the given axes, and the product of all their extents, which is the stride of the
axis that would come before them. -/
def rowMajorFrom : List Extent → List (Known Extent) × Known Extent
  | [] => ([], some 1)
  | size :: rest =>
    let (strides, stride) := rowMajorFrom rest
    (stride :: strides, stride.bind (·.times? (max size 1)))

/-- The strides of a dense tensor of the given sizes (`contiguous_strides`). -/
def rowMajor (sizes : List Extent) : Shape :=
  ofDims (rowMajorFrom sizes).1

end Shape

end TensorTyping
