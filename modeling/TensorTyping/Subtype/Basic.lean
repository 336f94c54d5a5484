import TensorTyping.Ty.Equality

/-!
# Subtyping

`a.isSubtype b` says that a value of type `a` can stand wherever a value of type `b` is expected.

* The type of all values is above every type, and the numbers are above integers and floats.
* A tensor is below another when merging the two loses nothing the other knows.
* An optional is above none, above what its element is above, and above optionals of such types.
* Lists, futures, dictionaries and tuples are compared part by part. A tuple with field names can
  stand for one without, but not the other way round, and two tuples with field names have to agree
  on them; the qualified name of a tuple plays no role.
* An interface is below another when it has all methods of the other. A method can stand for another
  when it accepts all arguments the other accepts, under the same names, and returns only what the
  other returns. So parameters are compared in the opposite direction.

The direction turns with every parameter, so no single argument shrinks from call to call; the sum
of the sizes of the two does.
-/

set_option autoImplicit false

namespace TensorTyping

/-- A tuple with the names `s` can stand for one with the names `t`, as far as names go. -/
def TupleNames.canStandFor : Option TupleNames → Option TupleNames → Bool
  | _, none => true
  | none, some _ => false
  | some s, some t => s.fields == t.fields

mutual

/-- A value of type `a` can stand wherever a `b` is expected (`is_subtype_of`). -/
def Ty.isSubtype (a b : Ty) : Bool :=
  a == b || match a, b with
    | _, .prim .any => true
    | .prim .int, .prim .number => true
    | .prim .float, .prim .number => true
    | .prim .none, .optional _ => true
    | .tensor f, .tensor g => f.merge g == g
    -- the element of the right-hand optional may be an optional itself, so the whole left-hand
    -- type is tried against it before its own layer is taken off
    | .optional a, .optional b => Ty.isSubtype (.optional a) b || Ty.isSubtype a b
    | a, .optional b => Ty.isSubtype a b
    | .list a, .list b => Ty.isSubtype a b
    | .future a, .future b => Ty.isSubtype a b
    | .dict k v, .dict k' v' => Ty.isSubtype k k' && Ty.isSubtype v v'
    | .tuple s as, .tuple t bs => TupleNames.canStandFor s t && Ty.areSubtypes as bs
    | .interface _ ms, .interface _ ns => Ty.offersAll ms ns
    | _, _ => false
termination_by sizeOf a + sizeOf b

/-- The lists are equally long, and the types are subtypes one by one. -/
def Ty.areSubtypes (as bs : List Ty) : Bool :=
  match as, bs with
  | [], [] => true
  | a :: as, b :: bs => Ty.isSubtype a b && Ty.areSubtypes as bs
  | _, _ => false
termination_by sizeOf as + sizeOf bs

/-- For each method of `ns` there is one in `ms` that can stand for it. -/
def Ty.offersAll (ms ns : List (Signature Ty)) : Bool :=
  match ns with
  | [] => true
  | n :: ns => Ty.offers ms n && Ty.offersAll ms ns
termination_by sizeOf ms + sizeOf ns

/-- The first method in `ms` with the name of `n` can stand for `n`. -/
def Ty.offers (ms : List (Signature Ty)) (n : Signature Ty) : Bool :=
  match ms with
  | [] => false
  | m :: ms => if m.name = n.name then Signature.isSubtype m n else Ty.offers ms n
termination_by sizeOf ms + sizeOf n

/-- A method with the signature `m` can stand for one with the signature `n`. -/
def Signature.isSubtype (m n : Signature Ty) : Bool :=
  match m, n with
  | ⟨_, ps, rs⟩, ⟨_, qs, ss⟩ => Ty.accepts ps qs && Ty.areSubtypes rs ss
termination_by sizeOf m + sizeOf n

/-- Parameters `ps` accept every argument that `qs` accept, under the same names. -/
def Ty.accepts (ps qs : List (String × Ty)) : Bool :=
  match ps, qs with
  | [], [] => true
  -- the direction turns here: what `qs` accept has to be accepted by `ps`
  | (x, a) :: ps, (y, b) :: qs => x == y && Ty.isSubtype b a && Ty.accepts ps qs
  | _, _ => false
termination_by sizeOf ps + sizeOf qs

end

end TensorTyping
