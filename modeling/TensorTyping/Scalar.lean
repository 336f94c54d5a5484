/-!
# Element kinds

The kinds of number a tensor can hold. Each has one name, used both in text and in JSON, and
`Scalar.ofName?` reads exactly those names back.
-/

set_option autoImplicit false

namespace TensorTyping

/-- The kind of number held by the elements of a tensor (`ScalarType`). -/
inductive Scalar where
  | byte
  | char
  | short
  | int
  | long
  | half
  | float
  | double
  | complexHalf
  | complexFloat
  | complexDouble
  | bool
  | qint8
  | quint8
  | qint32
  | bfloat16
deriving DecidableEq, Repr

namespace Scalar

/-- Every element kind. -/
def all : List Scalar :=
  [byte, char, short, int, long, half, float, double, complexHalf, complexFloat, complexDouble,
    bool, qint8, quint8, qint32, bfloat16]

/-- The name of an element kind. -/
def name : Scalar → String
  | byte => "Byte"
  | char => "Char"
  | short => "Short"
  | int => "Int"
  | long => "Long"
  | half => "Half"
  | float => "Float"
  | double => "Double"
  | complexHalf => "ComplexHalf"
  | complexFloat => "ComplexFloat"
  | complexDouble => "ComplexDouble"
  | bool => "Bool"
  | qint8 => "QInt8"
  | quint8 => "QUInt8"
  | qint32 => "QInt32"
  | bfloat16 => "BFloat16"

/-- The element kind of a given name; case counts. -/
def ofName? (s : String) : Option Scalar :=
  all.find? (·.name == s)

/-- Real floating point, the sixteen bit brain format included. -/
def isFloatingPoint : Scalar → Bool
  | half | float | double | bfloat16 => true
  | _ => false

/-- Complex numbers of any width. -/
def isComplex : Scalar → Bool
  | complexHalf | complexFloat | complexDouble => true
  | _ => false

/-- Quantized integers. -/
def isQuantized : Scalar → Bool
  | qint8 | quint8 | qint32 => true
  | _ => false

@[simp] theorem ofName?_name (s : Scalar) : ofName? s.name = some s := by
  cases s <;> decide

end Scalar

end TensorTyping
