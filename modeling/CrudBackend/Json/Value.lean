import CrudBackend.Decimal.Binary64

/-!
JSON values. An object keeps its members in the order of the document. A number is an integer if
it is written as one and fits a 64-bit word, signed or unsigned, and a floating-point number
otherwise.
-/

namespace CrudBackend

namespace Json

inductive Number where
  | integer (n : Int)
  | float (x : Decimal.Binary64)
  deriving DecidableEq, Repr

end Json

inductive Json where
  | null
  | bool (b : Bool)
  | number (n : Json.Number)
  | string (s : String)
  | array (items : List Json)
  | object (members : List (String × Json))
  deriving Repr, Inhabited

namespace Json

/-- Gives a key a value. A key that is present keeps its place. -/
def putMember (members : List (String × Json)) (key : String) (value : Json) :
    List (String × Json) :=
  if members.any (·.1 == key) then
    members.map fun (k, v) => if k == key then (k, value) else (k, v)
  else members ++ [(key, value)]

def member? (key : String) (members : List (String × Json)) : Option Json := members.lookup key

/-- Strings, numbers and Booleans are scalars; null is not. -/
def isScalar : Json → Bool
  | .string _ => true
  | .number _ => true
  | .bool _ => true
  | _ => false

end Json

end CrudBackend
