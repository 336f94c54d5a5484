import TensorTyping.Ty.Basic

/-!
# Types in text

A type has two written forms. `Ty.display` is the short form for listings, in which an optional
integer is `int?` and a tensor shows the facts known of it. `Ty.expression` is the form in which the
type would be written in a program, `Optional[Int]`, and which messages use; there every tensor is
just `Tensor`, and a named tuple with a qualified name is that name.
-/

set_option autoImplicit false

namespace TensorTyping

namespace Ty

mutual

/-- The type as a type expression (`annotation_str`). -/
def expression : Ty → String
  | prim p => p.name
  | tensor _ => "Tensor"
  | list e => "List[" ++ e.expression ++ "]"
  | optional e => "Optional[" ++ e.expression ++ "]"
  | future e => "Future[" ++ e.expression ++ "]"
  | dict k v => "Dict[" ++ k.expression ++ ", " ++ v.expression ++ "]"
  | tuple names es =>
    match names.bind (·.name) with
    | some x => x
    | none => "Tuple[" ++ ", ".intercalate (expressions es) ++ "]"
  | function x | interface x _ | var x => x

/-- The types as type expressions. -/
def expressions : List Ty → List String
  | [] => []
  | t :: ts => t.expression :: expressions ts

end

/-- Each text with the name at its place before it; texts beyond the names stay as they are. -/
def withNames : List String → List String → List String
  | x :: xs, s :: ss => (x ++ " : " ++ s) :: withNames xs ss
  | _, ss => ss

mutual

/-- The type in its short form. -/
def display : Ty → String
  | prim p => p.shortName
  | tensor facts => facts.display
  | list e => e.display ++ "[]"
  | optional e => e.display ++ "?"
  | future e => "Future[" ++ e.display ++ "]"
  | dict k v => "Dict(" ++ k.display ++ ", " ++ v.display ++ ")"
  | tuple none es => "(" ++ ", ".intercalate (displays es) ++ ")"
  | tuple (some names) es =>
    "NamedTuple(" ++ ", ".intercalate (withNames names.fields (displays es)) ++ ")"
  | function _ => "Function"
  | interface x _ | var x => x

/-- The types in their short forms. -/
def displays : List Ty → List String
  | [] => []
  | t :: ts => t.display :: displays ts

end

end Ty

/-- A method signature in text: `f(x : Int) -> Int`. Only a single returned type goes without
parentheses. -/
def Signature.display (m : Signature Ty) : String :=
  let params := m.params.map fun (x, t) => x ++ " : " ++ t.expression
  let returns :=
    match m.returns with
    | [t] => t.expression
    | ts => "(" ++ ", ".intercalate (ts.map Ty.expression) ++ ")"
  m.name ++ "(" ++ ", ".intercalate params ++ ") -> " ++ returns

end TensorTyping
