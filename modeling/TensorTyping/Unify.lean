import TensorTyping.Subtype.Basic
import TensorTyping.Ty.Member

/-!
# Unification

`a.unify b` looks for a type that both `a` and `b` are subtypes of. It answers with the larger of the
two when they are comparable. Otherwise it goes by form:

* two tensors unify to the facts they share;
* none and another type unify to an optional of the other type;
* tuples of one length unify element by element, and field names are lost;
* lists, and the values of dictionaries, unify only when they are comparable once all tensor facts are
  forgotten. No other part of them is widened. The keys of dictionaries unify like any types.

There is no rule for two types that are both below the generic tensor, since only tensors are
(`Ty.unify_of_le_genericTensor`). As only none is below none (`Ty.le_none_iff`), the rules for none
look at the form alone.

`unify` walks the left-hand type, so it needs no measure of its own.
-/

set_option autoImplicit false

namespace TensorTyping

namespace Ty

/-- The larger of two comparable types (`either_is_supertype`); the second one when each is a subtype
of the other. -/
def larger? (a b : Ty) : Option Ty :=
  if a.isSubtype b then some b
  else if b.isSubtype a then some a
  else none

/-! ## Forgetting tensor facts -/

/-- The type with the given children in the place of its own, or the type itself when they cannot
stand there. -/
def rebuildD (t : Ty) (cs : List Ty) : Ty :=
  match t.rebuild cs with
  | .ok t' => t'
  | .error _ => t

mutual

/-- The type with every tensor, reached through children, made generic (`unshaped_type`). -/
def forgetFacts : Ty → Ty
  | tensor _ => genericTensor
  | list e => list e.forgetFacts
  | optional e => optional e.forgetFacts
  | future e => future e.forgetFacts
  | dict k v => dict k.forgetFacts v.forgetFacts
  | tuple s es => (tuple s es).rebuildD (forgetFactsAll es)
  | t => t

/-- The types with every tensor made generic. -/
def forgetFactsAll : List Ty → List Ty
  | [] => []
  | t :: ts => t.forgetFacts :: forgetFactsAll ts

end

/-! ## Common supertypes -/

mutual

/-- A common supertype of two types, if the rules above give one. -/
def unify (a b : Ty) : Option Ty :=
  match larger? a b with
  | some t => some t
  | none =>
    match a, b with
    | tensor f, tensor g => some (tensor (f.merge g))
    | prim .none, b => some (optional b)
    | a, prim .none => some (optional a)
    | list a, list b => larger? (list a).forgetFacts (list b).forgetFacts
    -- the elements may have been widened, so the names no longer vouch for them
    | tuple _ as, tuple _ bs => (unifyEach as bs).map (tuple none)
    | dict k v, dict k' v' => do
      let key ← unify k k'
      let value ← larger? v.forgetFacts v'.forgetFacts
      return dict key value
    | _, _ => none

/-- Common supertypes one by one, for lists of the same length. -/
def unifyEach : List Ty → List Ty → Option (List Ty)
  | [], [] => some []
  | a :: as, b :: bs => do
    let t ← unify a b
    let ts ← unifyEach as bs
    return t :: ts
  | _, _ => none

end

/-- A common supertype of a non-empty list of types, found from left to right (`unify_all`). -/
def unifyAll : List Ty → Option Ty
  | [] => none
  | t :: ts => ts.foldlM unify t

end Ty

end TensorTyping
