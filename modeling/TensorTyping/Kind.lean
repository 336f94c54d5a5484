/-!
# Kinds of types

Ten primitive types have no parts. Every other type belongs to one of nine further kinds, five of
which are containers: types that hold other types. Kinds are ordered as they are listed, primitives
first.
-/

set_option autoImplicit false

namespace TensorTyping

/-- A type without parts. -/
inductive Primitive where
  | any
  | none
  | number
  | int
  | float
  | bool
  | string
  | device
  | generator
  | capsule
deriving DecidableEq, Repr

namespace Primitive

/-- Every primitive type. -/
def all : List Primitive :=
  [any, none, number, int, float, bool, string, device, generator, capsule]

/-- The name of a primitive in type expressions. -/
def name : Primitive → String
  | any => "Any"
  | none => "None"
  | number => "Number"
  | int => "Int"
  | float => "Float"
  | bool => "Bool"
  | string => "String"
  | device => "Device"
  | generator => "Generator"
  | capsule => "Capsule"

/-- The short name of a primitive. -/
def shortName : Primitive → String
  | any => "Any"
  | none => "None"
  | number => "Scalar"
  | int => "int"
  | float => "float"
  | bool => "bool"
  | string => "str"
  | device => "Device"
  | generator => "Generator"
  | capsule => "Capsule"

theorem mem_all (p : Primitive) : p ∈ all := by
  cases p <;> decide

end Primitive

/-- The outermost form of a type. -/
inductive Kind where
  | primitive (p : Primitive)
  | tensor
  | list
  | optional
  | tuple
  | dict
  | future
  | function
  | interface
  | var
deriving DecidableEq, Repr

namespace Kind

/-- Every kind, in order. -/
def all : List Kind :=
  Primitive.all.map primitive ++
    [tensor, list, optional, tuple, dict, future, function, interface, var]

/-- The name of a kind. -/
def name : Kind → String
  | primitive p => p.name
  | tensor => "Tensor"
  | list => "List"
  | optional => "Optional"
  | tuple => "Tuple"
  | dict => "Dict"
  | future => "Future"
  | function => "Function"
  | interface => "Interface"
  | var => "Var"

/-- The kind of a given name; case counts. -/
def ofName? (s : String) : Option Kind :=
  all.find? (·.name == s)

/-- Types of this kind have no parts. -/
def isPrimitive : Kind → Bool
  | primitive _ => true
  | _ => false

/-- Types of this kind hold other types. -/
def isContainer : Kind → Bool
  | list | optional | tuple | dict | future => true
  | _ => false

/-- The place of a kind in the order, counted from zero. -/
def position (k : Kind) : Nat := all.idxOf k

instance : Ord Kind := ⟨fun a b => compare a.position b.position⟩

theorem mem_all (k : Kind) : k ∈ all := by
  cases k with
  | primitive p => exact List.mem_append_left _ (List.mem_map_of_mem p.mem_all)
  | _ => decide

@[simp] theorem ofName?_name (k : Kind) : ofName? k.name = some k := by
  cases k with
  | primitive p => cases p <;> decide
  | _ => decide

end Kind

end TensorTyping
