import CrudBackend.Json.Shape
import CrudBackend.Text.Digits

/-!
Descriptors: what a specification document says, field by field, before anything is made of it.
A document is a list of entity descriptors, or an object with enumerations and a list of entities.
-/

namespace CrudBackend

open Json (ShapeFault RecordShape optional asString asBoolean asList asAny asRecord)

inductive ValueDescriptor where
  | entry (value comment label : Option Json)
  | bare (v : Json)

inductive LengthDescriptor where
  | number (n : Int)
  | text (s : String)

structure FieldDescriptor where
  name : String := ""
  type : String := ""
  notNull : Option Bool := none
  length : Option LengthDescriptor := none
  enumName : Option String := none
  enumValues : Option (List ValueDescriptor) := none
  defaultValue : Option Json := none
  comment : Option String := none

structure UniqueDescriptor where
  name : Option String := none
  columns : Option (List String) := none

structure ParamDescriptor where
  name : String := ""
  type : String := ""
  required : Option Bool := none
  comment : Option String := none
  enumName : Option String := none

structure ApiDescriptor where
  name : String := ""
  summary : Option String := none
  path : Option String := none
  paramMode : Option String := none
  dtoName : Option String := none
  params : Option (List ParamDescriptor) := none
  requiredPerms : Option (List Json) := none
  authRequired : Option Bool := none

structure EntityDescriptor where
  className : String := ""
  tableName : String := ""
  moduleName : Option String := none
  comment : Option String := none
  znName : Option String := none
  displayName : Option String := none
  fields : Option (List FieldDescriptor) := none
  uniqueConstraints : Option (List UniqueDescriptor) := none
  apis : Option (List ApiDescriptor) := none
  softDelete : Option Bool := none
  timestamps : Option Bool := none

structure Document where
  enums : List (String × List ValueDescriptor)
  entities : List EntityDescriptor

inductive FormatFault where
  | notJson
  | entityList (fault : ShapeFault)
  | entities (fault : ShapeFault)
  | enums (fault : ShapeFault)
  | enumsNotObject
  | entitiesNotList
  | unknownTopLevel

/-- The message of a fault. What is wrong with a text that is not JSON is not told. -/
def FormatFault.message : FormatFault → String
  | .notJson => "not valid JSON"
  | .entityList fault => "entity list: " ++ fault.message
  | .entities fault => "entities: " ++ fault.message
  | .enums fault => "enums: " ++ fault.message
  | .enumsNotObject => "\"enums\" must be an object of name -> value list"
  | .entitiesNotList => "\"entities\" must be a list of entity descriptors"
  | .unknownTopLevel => "expected a list of entities or an object \x7benums, entities\x7d"

def presentMember? (key : String) (members : List (String × Json)) : Option Json :=
  match Json.member? key members with
  | some .null => none
  | v => v

/-- Every value describes a value of an enumeration; whether it is a usable one is seen later. -/
def ValueDescriptor.ofJson : Json → ValueDescriptor
  | .object members =>
    .entry (presentMember? "value" members) (presentMember? "comment" members)
      (presentMember? "label" members)
  | v => .bare v

def ValueDescriptor.listOfJson : Json → Except ShapeFault (List ValueDescriptor) :=
  asList fun v => .ok (ofJson v)

/-- A number must fit a signed 64-bit word. -/
def LengthDescriptor.ofJson : Json → Except ShapeFault LengthDescriptor
  | .number (.integer n) =>
    if n < Text.wordHalf 64 then .ok (.number n) else .error (.noAlternative "RawLength")
  | .string s => .ok (.text s)
  | _ => .error (.noAlternative "RawLength")

namespace FieldDescriptor

def shape : RecordShape where
  label := "RawField"
  fields := ["name", "type", "notNull", "length", "enumName", "enumValues", "defaultValue",
    "comment"]
  required := ["name", "type"]

def put (d : FieldDescriptor) (key : String) (v : Json) : Except ShapeFault FieldDescriptor := do
  match key with
  | "name" => return { d with name := ← asString v }
  | "type" => return { d with type := ← asString v }
  | "notNull" => return { d with notNull := ← optional asBoolean v }
  | "length" => return { d with length := ← optional LengthDescriptor.ofJson v }
  | "enumName" => return { d with enumName := ← optional asString v }
  | "enumValues" => return { d with enumValues := ← optional ValueDescriptor.listOfJson v }
  | "defaultValue" => return { d with defaultValue := ← optional asAny v }
  | "comment" => return { d with comment := ← optional asString v }
  | _ => return d

def ofJson : Json → Except ShapeFault FieldDescriptor := asRecord shape {} put

end FieldDescriptor

namespace UniqueDescriptor

def shape : RecordShape where
  label := "RawUnique"
  fields := ["name", "columns"]
  required := []

def put (d : UniqueDescriptor) (key : String) (v : Json) : Except ShapeFault UniqueDescriptor := do
  match key with
  | "name" => return { d with name := ← optional asString v }
  | "columns" => return { d with columns := ← optional (asList asString) v }
  | _ => return d

def ofJson : Json → Except ShapeFault UniqueDescriptor := asRecord shape {} put

end UniqueDescriptor

namespace ParamDescriptor

def shape : RecordShape where
  label := "RawParam"
  fields := ["name", "type", "required", "comment", "enumName"]
  required := ["name", "type"]

def put (d : ParamDescriptor) (key : String) (v : Json) : Except ShapeFault ParamDescriptor := do
  match key with
  | "name" => return { d with name := ← asString v }
  | "type" => return { d with type := ← asString v }
  | "required" => return { d with required := ← optional asBoolean v }
  | "comment" => return { d with comment := ← optional asString v }
  | "enumName" => return { d with enumName := ← optional asString v }
  | _ => return d

def ofJson : Json → Except ShapeFault ParamDescriptor := asRecord shape {} put

end ParamDescriptor

namespace ApiDescriptor

def shape : RecordShape where
  label := "RawApi"
  fields := ["name", "summary", "path", "paramMode", "dtoName", "params", "requiredPerms",
    "authRequired"]
  required := ["name"]

def put (d : ApiDescriptor) (key : String) (v : Json) : Except ShapeFault ApiDescriptor := do
  match key with
  | "name" => return { d with name := ← asString v }
  | "summary" => return { d with summary := ← optional asString v }
  | "path" => return { d with path := ← optional asString v }
  | "paramMode" => return { d with paramMode := ← optional asString v }
  | "dtoName" => return { d with dtoName := ← optional asString v }
  | "params" => return { d with params := ← optional (asList ParamDescriptor.ofJson) v }
  | "requiredPerms" => return { d with requiredPerms := ← optional (asList asAny) v }
  | "authRequired" => return { d with authRequired := ← optional asBoolean v }
  | _ => return d

def ofJson : Json → Except ShapeFault ApiDescriptor := asRecord shape {} put

end ApiDescriptor

namespace EntityDescriptor

def shape : RecordShape where
  label := "RawEntity"
  fields := ["className", "tableName", "moduleName", "comment", "znName", "displayName", "fields",
    "uniqueConstraints", "apis", "softDelete", "timestamps"]
  required := ["className", "tableName"]

def put (d : EntityDescriptor) (key : String) (v : Json) : Except ShapeFault EntityDescriptor := do
  match key with
  | "className" => return { d with className := ← asString v }
  | "tableName" => return { d with tableName := ← asString v }
  | "moduleName" => return { d with moduleName := ← optional asString v }
  | "comment" => return { d with comment := ← optional asString v }
  | "znName" => return { d with znName := ← optional asString v }
  | "displayName" => return { d with displayName := ← optional asString v }
  | "fields" => return { d with fields := ← optional (asList FieldDescriptor.ofJson) v }
  | "uniqueConstraints" =>
    return { d with uniqueConstraints := ← optional (asList UniqueDescriptor.ofJson) v }
  | "apis" => return { d with apis := ← optional (asList ApiDescriptor.ofJson) v }
  | "softDelete" => return { d with softDelete := ← optional asBoolean v }
  | "timestamps" => return { d with timestamps := ← optional asBoolean v }
  | _ => return d

def ofJson : Json → Except ShapeFault EntityDescriptor := asRecord shape {} put

end EntityDescriptor

namespace Document

def enumOfMember : String × Json → Except ShapeFault (String × List ValueDescriptor)
  | (name, v) => (ValueDescriptor.listOfJson v).map fun values => (name, values)

def enumsOfJson : Option Json → Except FormatFault (List (String × List ValueDescriptor))
  | none => .ok []
  | some .null => .ok []
  | some (.object members) => (members.mapM enumOfMember).mapError .enums
  | some _ => .error .enumsNotObject

/-- Null and the empty list say nothing about the entities. -/
def saysSomething : Json → Bool
  | .null => false
  | .array items => !items.isEmpty
  | _ => true

/-- The entities of an object stand under one of two keys; the first that says something counts. -/
def entitiesMember (members : List (String × Json)) : Json :=
  match (Json.member? "entities" members).filter saysSomething with
  | some v => v
  | none => ((Json.member? "modules" members).filter saysSomething).getD (.array [])

def entitiesOfJson : Json → Except FormatFault (List EntityDescriptor)
  | .array items => (asList EntityDescriptor.ofJson (.array items)).mapError .entities
  | _ => .error .entitiesNotList

def ofJson : Json → Except FormatFault Document
  | .array items => do
    return ⟨[], ← (asList EntityDescriptor.ofJson (.array items)).mapError .entityList⟩
  | .object members => do
    let enums ← enumsOfJson (Json.member? "enums" members)
    let entities ← entitiesOfJson (entitiesMember members)
    return ⟨enums, entities⟩
  | _ => .error .unknownTopLevel

end Document

end CrudBackend
