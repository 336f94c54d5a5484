import TensorTyping.Kind
import TensorTyping.TensorFacts

/-!
# Types

The types of values in a tensor program. Besides the primitives there are tensors, refined by the
facts known of them; containers; tuples, plain or with field names; functions and interfaces, which
are known by name; and variables, which stand for a type yet to be found.

Containers hold other types, their *children*. An interface is not a container: the types in its
method signatures belong to the interface and are not among its children. Most operations walk a
type through its children, and `nodes`, the number of types such a walk meets, bounds the walk.

Any value of `Ty` can be written down, including tuples whose field names do not fit. The legal ones
are those that the checked constructors of `TensorTyping.Ty.Member` build.
-/

set_option autoImplicit false

namespace TensorTyping

/-- A method signature over types `τ` (`FunctionSchema`): parameters with their names, and the types
returned. -/
structure Signature (τ : Type) where
  /-- The name of the method. -/
  name : String
  /-- The parameters in order. -/
  params : List (String × τ)
  /-- The types returned, in order. -/
  returns : List τ
deriving Repr

/-- The names that make a tuple a named tuple (`TupleSchema`). -/
structure TupleNames where
  /-- The qualified name of the tuple, if it has one. -/
  name : Option String
  /-- The names of the fields, in the order of the elements. -/
  fields : List String
deriving DecidableEq, Repr

/-- The name under which a named tuple appears in messages. -/
def TupleNames.container (names : TupleNames) : String := names.name.getD "NamedTuple"

/-- A type. -/
inductive Ty where
  /-- A type without parts. -/
  | prim (p : Primitive)
  /-- A tensor of which the given facts are known. -/
  | tensor (facts : TensorFacts)
  /-- A list. -/
  | list (elem : Ty)
  /-- A value, or none. -/
  | optional (elem : Ty)
  /-- A value that may arrive later. -/
  | future (elem : Ty)
  /-- A dictionary. -/
  | dict (key value : Ty)
  /-- A tuple, with or without names. -/
  | tuple (names : Option TupleNames) (elems : List Ty)
  /-- A function, known by name. -/
  | function (name : String)
  /-- An interface: a name and the methods behind it. -/
  | interface (name : String) (methods : List (Signature Ty))
  /-- A type variable. -/
  | var (name : String)
deriving Repr

namespace Ty

/-- The tensor of which nothing is known (`Type::tensor`). -/
def genericTensor : Ty := tensor .unknown

/-! ## Parts of a type -/

/-- The outermost form of a type. -/
def kind : Ty → Kind
  | prim p => .primitive p
  | tensor _ => .tensor
  | list _ => .list
  | optional _ => .optional
  | future _ => .future
  | dict _ _ => .dict
  | tuple _ _ => .tuple
  | function _ => .function
  | interface _ _ => .interface
  | var _ => .var

/-- The primitive type of a kind that has just one type (`primitive_singleton`). -/
def ofKind? : Kind → Option Ty
  | .primitive p => some (prim p)
  | _ => none

/-- The types that a container holds, in order (`contained_types`); nothing for any other type. -/
def children : Ty → List Ty
  | list e | optional e | future e => [e]
  | dict k v => [k, v]
  | tuple _ es => es
  | _ => []

/-- The element type of a list, an optional or a future (`element_type`). -/
def elem? : Ty → Option Ty
  | list e | optional e | future e => some e
  | _ => none

/-- The key and value types of a dictionary. -/
def dict? : Ty → Option (Ty × Ty)
  | dict k v => some (k, v)
  | _ => none

/-- The facts of a tensor. -/
def tensor? : Ty → Option TensorFacts
  | tensor facts => some facts
  | _ => none

/-- The name of a variable. -/
def var? : Ty → Option String
  | var x => some x
  | _ => none

/-- The type of the field `x` of a named tuple. -/
def field? (x : String) : Ty → Option Ty
  | tuple (some names) es => (names.fields.idxOf? x).bind (es[·]?)
  | _ => none

/-- The first method `x` of an interface. -/
def method? (x : String) : Ty → Option (Signature Ty)
  | interface _ ms => ms.find? (·.name == x)
  | _ => none

/-- This is the type of all values. -/
def isAny : Ty → Bool
  | prim .any => true
  | _ => false

/-- This is the type of the value none. -/
def isNone : Ty → Bool
  | prim .none => true
  | _ => false

/-! ## Walking through the children -/

mutual

/-- A variable occurs in the type, reached through children (`has_free_variables`). -/
def hasVars : Ty → Bool
  | list e | optional e | future e => e.hasVars
  | dict k v => k.hasVars || v.hasVars
  | tuple _ es => anyHasVars es
  | var _ => true
  | _ => false

/-- A variable occurs in one of the types. -/
def anyHasVars : List Ty → Bool
  | [] => false
  | t :: ts => t.hasVars || anyHasVars ts

end

mutual

/-- The number of types met on a walk through the children, the type itself included. -/
def nodes : Ty → Nat
  | list e | optional e | future e => e.nodes + 1
  | dict k v => k.nodes + v.nodes + 1
  | tuple _ es => nodesAll es + 1
  | _ => 1

/-- The number of types met on a walk through each of the types in turn. -/
def nodesAll : List Ty → Nat
  | [] => 0
  | t :: ts => t.nodes + nodesAll ts

end

@[simp] theorem nodesAll_append (ts us : List Ty) :
    nodesAll (ts ++ us) = nodesAll ts + nodesAll us := by
  induction ts with
  | nil => simp [nodesAll]
  | cons t ts ih => simp [nodesAll, ih, Nat.add_assoc]

@[simp] theorem nodesAll_reverse (ts : List Ty) : nodesAll ts.reverse = nodesAll ts := by
  induction ts with
  | nil => rfl
  | cons t ts ih => simp [nodesAll, ih, Nat.add_comm]

/-- A walk meets the type itself and then walks its children. -/
theorem nodes_eq (t : Ty) : t.nodes = nodesAll t.children + 1 := by
  cases t <;> simp [nodes, children, nodesAll]

end Ty

end TensorTyping
