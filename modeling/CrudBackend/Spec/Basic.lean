import CrudBackend.Naming.SnakeCase
import CrudBackend.Text.Blank

/-!
The specification of a backend: enumerations and entities, each entity with its fields, unique
constraints and API entries. These are the normalized forms that everything else works from; how
they are read from a document is the matter of other modules.
-/

namespace CrudBackend

/-- The type of a field or parameter. An unknown tag is kept as it is written. -/
inductive FieldType where
  | string
  | integer
  | long
  | boolean
  | localDateTime
  | json
  | enumeration
  | list (element : FieldType)
  | other (tag : String)
  deriving DecidableEq, Repr

namespace FieldType

def scalar (tag : String) : FieldType :=
  if tag = "String" then string
  else if tag = "Integer" then integer
  else if tag = "Long" then long
  else if tag = "Boolean" then boolean
  else if tag = "LocalDateTime" then localDateTime
  else if tag = "Json" then json
  else if tag = "enum" then enumeration
  else other tag

/-- The element tag of a list tag. It must be a word of ASCII letters, digits and underscores, so
lists do not nest. -/
def elementTag? : List Char → Option (List Char)
  | 'L' :: 'i' :: 's' :: 't' :: '<' :: rest =>
    let inner := Text.trimmed rest.dropLast
    if rest.getLast? == some '>' && !inner.isEmpty && inner.all (fun c => c.isAlphanum || c == '_')
    then some inner
    else none
  | _ => none

def parse (tag : String) : FieldType :=
  let cs := Text.trimmed tag.toList
  match elementTag? cs with
  | some element => list (scalar (String.ofList element))
  | none => scalar (String.ofList cs)

def tag : FieldType → String
  | string => "String"
  | integer => "Integer"
  | long => "Long"
  | boolean => "Boolean"
  | localDateTime => "LocalDateTime"
  | json => "Json"
  | enumeration => "enum"
  | list element => "List<" ++ element.tag ++ ">"
  | other t => t

def isEnum : FieldType → Bool
  | enumeration => true
  | _ => false

end FieldType

/-- One value of an enumeration: how it is stored, and a label, which may be empty. -/
structure EnumValue where
  value : String
  label : String
  deriving DecidableEq, Repr

/-- An enumeration. The order of its values is the order of the generated members. -/
structure EnumDef where
  name : String
  values : List EnumValue
  deriving DecidableEq, Repr

structure Field where
  name : String
  type : FieldType
  notNull : Bool
  /-- The bound on the length of a string. -/
  length : Option Int
  /-- The enumeration that the type refers to. -/
  enumName : Option String
  /-- The default value as it is written. -/
  defaultValue : Option String
  comment : Option String
  deriving DecidableEq, Repr

def Field.column (f : Field) : String := Naming.snakeCase f.name

structure Param where
  name : String
  type : FieldType
  required : Bool
  comment : Option String
  enumName : Option String
  deriving DecidableEq, Repr

/-- How an API entry receives its input: as an entity, as a paged query, as a list of ids, or in a
request model of its own. -/
inductive Mode where
  | entity
  | query
  | ids
  | custom (requestName : Option String) (params : List Param)
  deriving DecidableEq, Repr

structure Api where
  name : String
  summary : String
  path : String
  mode : Mode
  /-- The permissions that a caller must hold. -/
  requiredPerms : List String
  authRequired : Bool
  deriving DecidableEq, Repr

namespace Api

/-- The endpoint rejects callers that are not logged in. -/
def requiresAuth (a : Api) : Bool := a.authRequired || !a.requiredPerms.isEmpty

def isCustom (a : Api) : Bool :=
  match a.mode with
  | .custom _ _ => true
  | _ => false

end Api

structure UniqueConstraint where
  name : String
  columns : List String
  deriving DecidableEq, Repr

structure Entity where
  className : String
  tableName : String
  moduleName : String
  comment : String
  displayName : String
  fields : List Field
  uniqueConstraints : List UniqueConstraint
  apis : List Api
  /-- Records are flagged as deleted rather than removed. -/
  softDelete : Bool
  /-- Records carry the times of their creation and last change. -/
  timestamps : Bool
  deriving DecidableEq, Repr

def idColumn : String := "id"

def createdAtColumn : String := "created_at"

def updatedAtColumn : String := "updated_at"

def deletedColumn : String := "deleted"

namespace Entity

/-- The stem that the files of an entity share. A class of the module `sys` drops its first
syllable `Sys` unless nothing else is left. -/
def fileStem (e : Entity) : String :=
  match e.moduleName == "sys", e.className.toList with
  | true, 'S' :: 'y' :: 's' :: c :: rest => String.ofList (Naming.snakeChars (c :: rest))
  | _, _ => Naming.snakeCase e.className

def sharedColumns (e : Entity) : List String :=
  idColumn :: ((if e.timestamps then [createdAtColumn, updatedAtColumn] else []) ++
    (if e.softDelete then [deletedColumn] else []))

def columnNames (e : Entity) : List String := e.sharedColumns ++ e.fields.map Field.column

def customApis (e : Entity) : List Api := e.apis.filter Api.isCustom

end Entity

/-- A specification: enumerations by name in the order in which they were found, and entities. -/
structure Spec where
  enums : List (String × EnumDef)
  entities : List Entity
  deriving DecidableEq, Repr

def textLe (s t : String) : Bool := !decide (t < s)

def Spec.moduleNames (s : Spec) : List String :=
  ((s.entities.map Entity.moduleName).mergeSort textLe).eraseDups

end CrudBackend
