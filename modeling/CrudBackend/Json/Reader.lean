import CrudBackend.Json.Token

/-!
Reading JSON. The tokens of a text are taken one after the other by a machine whose stack holds the
arrays and objects that are still open. It follows the grammar strictly: one value, no trailing
commas, keys in quotes. A key that comes again keeps its place and takes the new value.
-/

namespace CrudBackend.Json

/-- An open container that waits for a value: an array with its items so far, last first, or an
object with its members so far and the key of the value. -/
inductive Frame where
  | array (items : List Json)
  | member (members : List (String × Json)) (key : String)

/-- What may come next, given the open containers, innermost first. -/
inductive Reading where
  | value (stack : List Frame)
  | firstItem (stack : List Frame)
  | firstKey (stack : List Frame)
  | nextKey (members : List (String × Json)) (stack : List Frame)
  | colon (members : List (String × Json)) (key : String) (stack : List Frame)
  | complete (v : Json) (stack : List Frame)

def maxDepth : Nat := 127

def Reading.start (stack : List Frame) : Token → Option Reading
  | .null => some (.complete .null stack)
  | .bool b => some (.complete (.bool b) stack)
  | .number n => some (.complete (.number n) stack)
  | .string s => some (.complete (.string s) stack)
  | .openArray => if stack.length < maxDepth then some (.firstItem stack) else none
  | .openObject => if stack.length < maxDepth then some (.firstKey stack) else none
  | _ => none

def Reading.proceed (v : Json) : List Frame → Token → Option Reading
  | .array items :: stack, .comma => some (.value (.array (v :: items) :: stack))
  | .array items :: stack, .closeArray =>
    some (.complete (.array (v :: items).reverse) stack)
  | .member members key :: stack, .comma => some (.nextKey (putMember members key v) stack)
  | .member members key :: stack, .closeObject =>
    some (.complete (.object (putMember members key v)) stack)
  | _, _ => none

def Reading.step : Reading → Token → Option Reading
  | .value stack, t => start stack t
  | .firstItem stack, .closeArray => some (.complete (.array []) stack)
  | .firstItem stack, t => start (.array [] :: stack) t
  | .firstKey stack, .closeObject => some (.complete (.object []) stack)
  | .firstKey stack, .string key => some (.colon [] key stack)
  | .nextKey members stack, .string key => some (.colon members key stack)
  | .colon members key stack, .colon => some (.value (.member members key :: stack))
  | .complete v stack, t => proceed v stack t
  | _, _ => none

def parse? (text : String) : Option Json := do
  match ← (← tokens text.toList).foldlM Reading.step (.value []) with
  | .complete v [] => some v
  | _ => none

end CrudBackend.Json
