import CrudBackend.Spec.Basic
import CrudBackend.Spec.Fault

/-!
The table of enumerations. Those that the document declares come first and win; the value lists
that fields carry fill the gaps, the first field of each name deciding.
-/

namespace CrudBackend

def labelText (comment label : Option Json) : String :=
  match comment, label with
  | some c, _ => c.plainText
  | none, some l => l.plainText
  | none, none => ""

def EnumValue.ofDescriptor (enum : String) (index : Nat) :
    ValueDescriptor → Except SpecFault EnumValue
  | .entry (some v) comment label =>
    if v.isScalar then .ok ⟨v.plainText, labelText comment label⟩
    else .error (.enumEntryWithoutValue enum index)
  | .entry none _ _ => .error (.enumEntryWithoutValue enum index)
  | .bare v =>
    if v.isScalar then .ok ⟨v.plainText, ""⟩ else .error (.enumEntryNotScalar enum index v)

def EnumValue.listFrom (enum : String) :
    Nat → List ValueDescriptor → Except SpecFault (List EnumValue)
  | _, [] => .ok []
  | index, d :: rest => do
    let v ← ofDescriptor enum index d
    return v :: (← listFrom enum (index + 1) rest)

def EnumDef.ofDescriptors (name : String) (values : List ValueDescriptor) :
    Except SpecFault EnumDef := do
  return ⟨name, ← EnumValue.listFrom name 0 values⟩

/-- Enumerations by name, in the order in which they were entered. -/
abbrev EnumTable := List (String × EnumDef)

namespace EnumTable

def has (t : EnumTable) (name : String) : Bool := t.any (·.1 == name)

def enter (t : EnumTable) (entry : String × EnumDef) : EnumTable :=
  if t.has entry.1 then t else t ++ [entry]

def ofDeclared : List (String × List ValueDescriptor) → Except SpecFault EnumTable
  | [] => .ok []
  | (name, values) :: rest => do
    let d ← EnumDef.ofDescriptors name values
    return (name, d) :: (← ofDeclared rest)

def carried? (f : FieldDescriptor) : Option (String × List ValueDescriptor) :=
  if Text.trim f.type = "enum" then
    match Text.filled? f.enumName, f.enumValues with
    | some name, some values => some (name, values)
    | _, _ => none
  else none

/-- The enumerations that fields carry, entered behind those of a table. The values of a name that
is entered already are not looked at. -/
def collect (t : EnumTable) : List FieldDescriptor → Except SpecFault EnumTable
  | [] => .ok t
  | f :: rest =>
    match carried? f with
    | none => collect t rest
    | some (name, values) =>
      if t.has name then collect t rest
      else do
        let d ← EnumDef.ofDescriptors name values
        collect (t ++ [(name, d)]) rest

def allFields (entities : List EntityDescriptor) : List FieldDescriptor :=
  entities.flatMap fun e => e.fields.getD []

/-- The table of a document. The values that a field carries are checked even when the declared
ones win. -/
def ofDocument (d : Document) : Except SpecFault EnumTable := do
  let declared ← ofDeclared d.enums
  let carried ← collect [] (allFields d.entities)
  return carried.foldl enter declared

end EnumTable

end CrudBackend
