import TensorTyping.Known

/-!
# JSON values and how records are read from them

A `Json` is a JSON document after its text has been read. An integer stays apart from a number that
was written with a fraction or an exponent, because only the former is ever accepted as a count.

Records are read by four rules, which hold for every record of this library:

* a record is an object, or the array of its leading values in the order of its keys;
* a key that is missing takes the default of that key;
* a key that the record does not know is ignored;
* a key that the record knows must not be repeated.
-/

set_option autoImplicit false

namespace TensorTyping

/-- A JSON value. An object is the list of its members, in the order in which they were written. -/
inductive Json where
  | null
  | bool (b : Bool)
  /-- A number written as an integer. -/
  | int (n : Int)
  /-- A number written with a fraction or an exponent: `mantissa * 10 ^ exponent`. -/
  | decimal (mantissa exponent : Int)
  | str (s : String)
  | arr (items : List Json)
  | obj (members : List (String × Json))
deriving Inhabited, Repr

namespace Json

variable {α : Type}

/-! ## Scalar values -/

/-- A truth value. -/
def bool? : Json → Option Bool
  | bool b => some b
  | _ => none

/-- A string. -/
def str? : Json → Option String
  | str s => some s
  | _ => none

/-- An integer from zero up to, but excluding, `bound`. -/
def natBelow? (bound : Nat) : Json → Option Nat
  | int (.ofNat n) => if n < bound then some n else none
  | _ => none

/-- An integer that fits in a word of sixty-four bits. -/
def word64? (j : Json) : Option UInt64 :=
  (j.natBelow? UInt64.size).map .ofNat

/-- An integer that fits in a word of sixteen bits. -/
def word16? (j : Json) : Option UInt16 :=
  (j.natBelow? UInt16.size).map .ofNat

/-- The tag of a choice without data: a string, or an object whose one member has the tag as its key
and `null` as its value. -/
def tag? : Json → Option String
  | str s => some s
  | obj [(s, null)] => some s
  | _ => none

/-! ## Composite values -/

/-- Either `null`, for an unknown fact, or what `read` accepts. -/
def known? (read : Json → Option α) : Json → Option (Known α)
  | null => some none
  | j => (read j).map some

/-- An array whose items `read` accepts, every one. -/
def list? (read : Json → Option α) : Json → Option (List α)
  | arr items => items.mapM read
  | _ => none

/-- The members of a record with the given keys. An object has at most one member for each of them,
and any number of members under other keys. An array has at least `least` items and at most one for
each key. -/
def record? (keys : List String) (least : Nat) : Json → Option (List (String × Json))
  | obj members =>
    if ((members.map Prod.fst).filter (· ∈ keys)).Nodup then some members else none
  | arr items =>
    if least ≤ items.length ∧ items.length ≤ keys.length then some (keys.zip items) else none
  | _ => none

/-- The member `key` as `read` accepts it, or `default` when there is no such member. -/
def memberD (members : List (String × Json)) (key : String) (default : α)
    (read : Json → Option α) : Option α :=
  match members.lookup key with
  | some j => read j
  | none => some default

/-- The member `key` as `read` accepts it; it has to be present. -/
def member? (members : List (String × Json)) (key : String) (read : Json → Option α) : Option α :=
  (members.lookup key).bind read

/-! ## Writing -/

/-- A natural number. -/
def ofNat (n : Nat) : Json := int n

/-- `null` for an unknown fact, and otherwise the value as `write` puts it. -/
def ofKnown (write : α → Json) : Known α → Json
  | none => null
  | some a => write a

/-- The array of the values as `write` puts them. -/
def ofList (write : α → Json) (as : List α) : Json :=
  arr (as.map write)

end Json

end TensorTyping
