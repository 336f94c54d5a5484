import TensorTyping.Generic.Bindings
import TensorTyping.Ty.Member

/-!
# Instantiating a type

Puts the bound types in the place of the variables of a type, once: variables inside a bound type
stay. A type without variables is its own instance. There is no instance when a variable is unbound,
and it is an error when a named tuple would get a member that it must not have. The type is walked
from left to right, and the first of these two that is met is the answer.
-/

set_option autoImplicit false

namespace TensorTyping

namespace Ty

mutual

/-- The instance of a type under bindings (`evaluate`), or `none` when a variable is unbound. -/
def instantiate (b : Bindings) (t : Ty) : Except MemberError (Option Ty) :=
  if t.hasVars then
    match t with
    | var x => .ok (b.get? x)
    | list e => do
      let some e' ← instantiate b e | return none
      return some (list e')
    | optional e => do
      let some e' ← instantiate b e | return none
      return some (optional e')
    | future e => do
      let some e' ← instantiate b e | return none
      return some (future e')
    | dict k v => do
      let some k' ← instantiate b k | return none
      let some v' ← instantiate b v | return none
      return some (dict k' v')
    | tuple s es => do
      let some es' ← instantiateAll b es | return none
      return some (← (tuple s es).rebuild es')
    | t => .ok (some t)
  else .ok (some t)

/-- The instances of types under bindings, or `none` when a variable is unbound. -/
def instantiateAll (b : Bindings) : List Ty → Except MemberError (Option (List Ty))
  | [] => .ok (some [])
  | t :: ts => do
    let some t' ← instantiate b t | return none
    let some ts' ← instantiateAll b ts | return none
    return some (t' :: ts')

end

end Ty

end TensorTyping
