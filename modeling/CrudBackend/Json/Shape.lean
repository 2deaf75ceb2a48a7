import CrudBackend.Json.Printer
import CrudBackend.Text.Quoted

/-!
Taking typed records out of JSON values. A record is written as an object, whose keys are taken in
the order of the document, or as an array of all its fields in the order of their declaration. The
first value of a wrong type is reported, and only when there is none the first required field that
is missing.
-/

namespace CrudBackend.Json

inductive Wanted where
  | string
  | boolean
  | sequence
  | record (label : String)
  deriving DecidableEq, Repr

inductive ShapeFault where
  | wrongType (found : Json) (wanted : Wanted)
  | missingField (name : String)
  | noAlternative (label : String)
  | tooFewItems (given : Nat) (label : String) (size : Nat)
  | tooManyItems (given : Nat)
  deriving Repr

def foundText : Json → String
  | .null => "null"
  | .bool b => "boolean `" ++ (if b then "true" else "false") ++ "`"
  | .number (.integer n) => "integer `" ++ toString n ++ "`"
  | .number (.float x) => "floating point `" ++ floatText x ++ "`"
  | .string s => "string " ++ Text.quoted s
  | .array _ => "sequence"
  | .object _ => "map"

def Wanted.text : Wanted → String
  | .string => "a string"
  | .boolean => "a boolean"
  | .sequence => "a sequence"
  | .record label => "struct " ++ label

def ShapeFault.message : ShapeFault → String
  | .wrongType found wanted => "invalid type: " ++ foundText found ++ ", expected " ++ wanted.text
  | .missingField name => "missing field `" ++ name ++ "`"
  | .noAlternative label => "data did not match any variant of untagged enum " ++ label
  | .tooFewItems given label size =>
    "invalid length " ++ toString given ++ ", expected struct " ++ label ++ " with " ++
      toString size ++ " elements"
  | .tooManyItems given =>
    "invalid length " ++ toString given ++ ", expected fewer elements in array"

def asString : Json → Except ShapeFault String
  | .string s => .ok s
  | v => .error (.wrongType v .string)

def asBoolean : Json → Except ShapeFault Bool
  | .bool b => .ok b
  | v => .error (.wrongType v .boolean)

def asAny (v : Json) : Except ShapeFault Json := .ok v

def optional {α : Type} (read : Json → Except ShapeFault α) : Json → Except ShapeFault (Option α)
  | .null => .ok none
  | v => (read v).map some

def asList {α : Type} (read : Json → Except ShapeFault α) : Json → Except ShapeFault (List α)
  | .array items => items.mapM read
  | v => .error (.wrongType v .sequence)

/-- The fields of a record in the order of their declaration, and those that must be present. -/
structure RecordShape where
  label : String
  fields : List String
  required : List String

/-- A record. `put` gives a field of it a value. -/
def asRecord {α : Type} (shape : RecordShape) (blank : α)
    (put : α → String → Json → Except ShapeFault α) : Json → Except ShapeFault α
  | .object members => do
    let known := members.filter fun (key, _) => shape.fields.contains key
    let filled ← known.foldlM (fun r (key, v) => put r key v) blank
    match shape.required.find? fun name => !members.any (·.1 == name) with
    | some name => .error (.missingField name)
    | none => .ok filled
  | .array items => do
    let filled ← (shape.fields.zip items).foldlM (fun r (key, v) => put r key v) blank
    if items.length < shape.fields.length then
      .error (.tooFewItems items.length shape.label shape.fields.length)
    else if shape.fields.length < items.length then .error (.tooManyItems items.length)
    else .ok filled
  | v => .error (.wrongType v (.record shape.label))

end CrudBackend.Json
