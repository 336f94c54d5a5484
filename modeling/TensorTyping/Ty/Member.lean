import TensorTyping.Ty.Text

/-!
# Members of named tuples and interfaces

A named tuple and an interface are known to the outside by name, so their members must not change
their meaning behind that name: no member may contain the type of all values, and no two members may
share a name. The checked constructors here keep to this rule and report the first member that breaks
it.

Whether a type contains the type of all values is found by a scan with an explicit stack, so that the
depth of a type costs no recursion. The scan goes through children only. It need not look inside an
interface, because the interface could not have been built with such a member.
-/

set_option autoImplicit false

namespace TensorTyping

namespace Ty

/-! ## The scan -/

/-- The type of all values is one of the types on the stack, or lies inside one of them. Each round
takes the top of the stack away and puts its children there one after the other, so that the last one
is the next to be taken, and the number of types still to be met goes down by one. -/
def anyOnStack : List Ty → Bool
  | [] => false
  | t :: rest => t.isAny || anyOnStack (t.children.reverse ++ rest)
termination_by stack => nodesAll stack
decreasing_by
  simp only [nodesAll_append, nodesAll_reverse, nodesAll, nodes_eq]
  omega

/-- The type is the type of all values, or contains it, reached through children (`contains_any`). -/
def containsAny (t : Ty) : Bool := anyOnStack [t]

end Ty

/-! ## Reasons for a refusal -/

/-- What a member is to the tuple or interface that names it. -/
inductive Role where
  /-- A field of a named tuple. -/
  | field
  /-- A parameter of a method. -/
  | argument
  /-- A type returned by a method. -/
  | result
deriving DecidableEq, Repr

/-- The role in messages. -/
def Role.name : Role → String
  | field => "attribute"
  | argument => "method argument"
  | result => "method return"

/-- Why a named tuple or an interface cannot be built. -/
inductive MemberError where
  /-- The type of a member contains the type of all values. -/
  | containsAny (container : String) (role : Role) (member : String) (type : Ty)
  /-- Two members have the same name. -/
  | duplicate (container member : String)
deriving Repr

/-- The text of a refusal. -/
def MemberError.message : MemberError → String
  | containsAny container role member type =>
    "attempting to add " ++ role.name ++ " '" ++ member ++ "' of type " ++ type.expression ++
      " to '" ++ container ++ "' but it contains an Any type. " ++
      "Any types cannot be members of interfaces or named tuples."
  | duplicate container member =>
    "duplicate member '" ++ member ++ "' in '" ++ container ++ "'"

namespace Ty

/-! ## Checked construction -/

/-- Refuses a member whose type contains the type of all values (`check_no_any`). -/
def requireNoAny (container : String) (role : Role) (member : String) (t : Ty) :
    Except MemberError Unit :=
  if t.containsAny then .error (.containsAny container role member t) else .ok ()

/-- Refuses the first field that contains the type of all values or whose name is among those
`seen`; of the two faults of one field, the former is reported. -/
def checkFields (container : String) (seen : List String) :
    List (String × Ty) → Except MemberError Unit
  | [] => .ok ()
  | (x, t) :: fields => do
    requireNoAny container .field x t
    if x ∈ seen then throw (.duplicate container x)
    checkFields container (x :: seen) fields

/-- The named tuple of the given fields (`TupleType::named`). -/
def namedTuple (name : Option String) (fields : List (String × Ty)) : Except MemberError Ty := do
  let names : TupleNames := ⟨name, fields.map (·.1)⟩
  checkFields names.container [] fields
  return tuple (some names) (fields.map (·.2))

/-- Refuses the first method whose name is among those `seen`, or one of whose parameters, or else
of whose returned types, contains the type of all values. -/
def checkMethods (container : String) (seen : List String) :
    List (Signature Ty) → Except MemberError Unit
  | [] => .ok ()
  | m :: methods => do
    if m.name ∈ seen then throw (.duplicate container m.name)
    m.params.forM fun (x, t) => requireNoAny container .argument (m.name ++ "." ++ x) t
    m.returns.forM fun t => requireNoAny container .result m.name t
    checkMethods container (m.name :: seen) methods

/-- The interface of the given methods (`InterfaceBuilder::finish`). -/
def interfaceOf (name : String) (methods : List (Signature Ty)) : Except MemberError Ty := do
  checkMethods name [] methods
  return interface name methods

/-! ## Exchanging the children -/

/-- Refuses the first element under a field name that contains the type of all values. The elements
of a plain tuple are free. -/
def checkElems (names : Option TupleNames) (elems : List Ty) : Except MemberError Unit :=
  match names with
  | none => .ok ()
  | some ns => (ns.fields.zip elems).forM fun (x, t) => requireNoAny ns.container .field x t

/-- The type with the given children in the place of its own (`with_contained`). There have to be as
many of them; a type without children stays as it is. -/
def rebuild : Ty → List Ty → Except MemberError Ty
  | list _, [e] => .ok (list e)
  | optional _, [e] => .ok (optional e)
  | future _, [e] => .ok (future e)
  | dict _ _, [k, v] => .ok (dict k v)
  | tuple names _, es => do
    checkElems names es
    return tuple names es
  | t, _ => .ok t

/-- The type with the given children in the place of its own, or `none` when their number is not the
number of its own. -/
def rebuild? (t : Ty) (cs : List Ty) : Option (Except MemberError Ty) :=
  if cs.length = t.children.length then some (t.rebuild cs) else none

end Ty

end TensorTyping
