import TensorTyping.Json.Basic
import TensorTyping.Kind
import TensorTyping.TensorFacts

/-!
# Tensor facts in JSON

How the facts about tensors are written in JSON, and what is accepted when they are read. Writing
spells out every key, with `null` for what is unknown. Reading is wider: it follows the rules for
records, so a description may leave out what it does not know.

Shapes are the one place where leaving out and writing `null` differ: a shape stands for itself even
when its rank is unknown, so it is never `null`, and as an array it has exactly one item.
-/

set_option autoImplicit false

namespace TensorTyping

/-! ## Names -/

/-- A kind is written as its name. -/
def Kind.toJson (k : Kind) : Json := .str k.name

/-- Reads a kind. -/
def Kind.ofJson? (j : Json) : Option Kind := j.tag?.bind ofName?

/-- An element kind is written as its name. -/
def Scalar.toJson (s : Scalar) : Json := .str s.name

/-- Reads an element kind. -/
def Scalar.ofJson? (j : Json) : Option Scalar := j.tag?.bind ofName?

/-- A backend is written as its tag. -/
def Backend.toJson (b : Backend) : Json := .str b.tag

/-- Reads a backend. -/
def Backend.ofJson? (j : Json) : Option Backend := j.tag?.bind ofTag?

/-! ## Devices -/

namespace Device

/-- The keys of a device, in order. -/
def keys : List String := ["kind", "index"]

/-- A device as an object. -/
def toJson (d : Device) : Json :=
  .obj [("kind", d.backend.toJson), ("index", .ofKnown (.ofNat ·.toNat) d.index)]

/-- Reads a device; only its ordinal may be left out. -/
def ofJson? (j : Json) : Option Device := do
  let members ← j.record? keys 1
  let backend ← Json.member? members "kind" Backend.ofJson?
  let index ← Json.memberD members "index" none (Json.known? Json.word16?)
  return { backend, index }

end Device

/-! ## Shapes -/

namespace Shape

/-- The keys of a shape. -/
def keys : List String := ["dims"]

/-- A shape as an object. -/
def toJson (s : Shape) : Json :=
  .obj [("dims", .ofKnown (.ofList (.ofKnown (.ofNat ·.toNat))) s.dims)]

/-- Reads a shape. -/
def ofJson? (j : Json) : Option Shape := do
  let members ← j.record? keys 1
  let dims ← Json.memberD members "dims" none (Json.known? (Json.list? (Json.known? Json.word64?)))
  return { dims }

end Shape

/-! ## Tensor facts -/

namespace TensorFacts

/-- The keys of a description, in order. -/
def keys : List String :=
  ["scalar_type", "device", "sizes", "strides", "requires_grad", "undefined"]

/-- A description as an object with every key. -/
def toJson (t : TensorFacts) : Json :=
  .obj [
    ("scalar_type", .ofKnown Scalar.toJson t.scalar),
    ("device", .ofKnown Device.toJson t.device),
    ("sizes", t.sizes.toJson),
    ("strides", t.strides.toJson),
    ("requires_grad", .ofKnown .bool t.requiresGrad),
    ("undefined", .ofKnown .bool t.undefined)]

/-- Reads a description; every fact may be left out. -/
def ofJson? (j : Json) : Option TensorFacts := do
  let members ← j.record? keys 0
  let scalar ← Json.memberD members "scalar_type" none (Json.known? Scalar.ofJson?)
  let device ← Json.memberD members "device" none (Json.known? Device.ofJson?)
  let sizes ← Json.memberD members "sizes" .unknown Shape.ofJson?
  let strides ← Json.memberD members "strides" .unknown Shape.ofJson?
  let requiresGrad ← Json.memberD members "requires_grad" none (Json.known? Json.bool?)
  let undefined ← Json.memberD members "undefined" none (Json.known? Json.bool?)
  return { scalar, device, sizes, strides, requiresGrad, undefined }

end TensorFacts

end TensorTyping
