import Ecommerce.Common.Number

/-!
# Json — values that come from and go to JSON

An object is the list of its own properties.  A property whose value is `undefined` is left out, as
`JSON.stringify` leaves it out.
-/

namespace Ecommerce

inductive Json where
  | null
  | bool (b : Bool)
  | num (n : Number)
  | str (s : String)
  | arr (elems : List Json)
  | obj (fields : List (String × Json))

namespace Json

/-- Whether the value counts as true in a condition. -/
def truthy : Json → Bool
  | .null => false
  | .bool b => b
  | .num n => n ≠ .nan ∧ n ≠ .ofInt 0
  | .str s => s ≠ ""
  | .arr _ => true
  | .obj _ => true

/-- The property `key`; `none` for `undefined`. -/
def get? (v : Json) (key : String) : Option Json :=
  match v with
  | .obj fields => fields.lookup key
  | _ => none

end Json

end Ecommerce
