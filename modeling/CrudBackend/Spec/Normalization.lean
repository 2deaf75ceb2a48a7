import CrudBackend.Spec.Basic
import CrudBackend.Spec.Fault
import CrudBackend.Text.Digits

/-!
From descriptors to entities: types are parsed, names trimmed, defaults filled in. A descriptor is
refused only for a length that is no number and for an unknown mode of an API entry.
-/

namespace CrudBackend

/-- An enumeration name counts only where the type refers to one. -/
def enumReference (type : FieldType) (name : Option String) : Option String :=
  if type.isEnum then Text.filled? name else none

/-- A length; blank text stands for none. -/
def readLength (field : String) : Option LengthDescriptor → Except SpecFault (Option Int)
  | none => .ok none
  | some (.number n) => .ok (some n)
  | some (.text s) =>
    match Text.nonBlank? s with
    | none => .ok none
    | some t =>
      match Text.readSigned? 64 t with
      | some n => .ok (some n)
      | none => .error (.lengthNotInteger field s)

def defaultText (v : Option Json) : Option String := v.map Json.plainText

def Field.ofDescriptor (d : FieldDescriptor) : Except SpecFault Field := do
  let type := FieldType.parse d.type
  let length ← readLength d.name d.length
  return {
    name := d.name
    type
    notNull := d.notNull.getD false
    length
    enumName := enumReference type d.enumName
    defaultValue := defaultText d.defaultValue
    comment := d.comment }

def Param.ofDescriptor (d : ParamDescriptor) : Param :=
  let type := FieldType.parse d.type
  { name := d.name
    type
    required := d.required.getD false
    comment := d.comment
    enumName := enumReference type d.enumName }

inductive ModeKind where
  | entity
  | query
  | ids
  | custom
  deriving DecidableEq, Repr

/-- The mode that a keyword names, in any ASCII case and with blanks around it. No keyword at all
stands for the entity mode. The word that names none is handed back. -/
def ModeKind.parse (s : String) : Except String ModeKind :=
  let word := (Text.trim s).map Char.toUpper
  if word = "" ∨ word = "ENTITY" then .ok .entity
  else if word = "QUERY" then .ok .query
  else if word = "IDS" then .ok .ids
  else if word = "CUSTOM" then .ok .custom
  else .error word

def ModeKind.keyword : ModeKind → String
  | .entity => "ENTITY"
  | .query => "QUERY"
  | .ids => "IDS"
  | .custom => "CUSTOM"

def Mode.kind : Mode → ModeKind
  | .entity => .entity
  | .query => .query
  | .ids => .ids
  | .custom _ _ => .custom

def permissionsOf (values : Option (List Json)) : List String :=
  (values.getD []).filterMap fun v => Text.nonBlank? v.plainText

def Api.ofDescriptor (className : String) (d : ApiDescriptor) : Except SpecFault Api := do
  let kind ← (ModeKind.parse (d.paramMode.getD "ENTITY")).mapError
    (.unknownMode className d.name)
  let mode := match kind with
    | .entity => Mode.entity
    | .query => Mode.query
    | .ids => Mode.ids
    | .custom => Mode.custom (Text.filled? d.dtoName) ((d.params.getD []).map Param.ofDescriptor)
  return {
    name := d.name
    summary := (Text.filled? d.summary).getD d.name
    path := (Text.filled? d.path).getD ("/" ++ d.name)
    mode
    requiredPerms := permissionsOf d.requiredPerms
    authRequired := d.authRequired.getD false }

def UniqueConstraint.ofDescriptor (d : UniqueDescriptor) : UniqueConstraint :=
  { name := d.name.getD ""
    columns := (d.columns.getD []).map Naming.snakeCase }

def defaultModule : String := "biz"

def Entity.ofDescriptor (d : EntityDescriptor) : Except SpecFault Entity := do
  let className := Text.trim d.className
  let fields ← (d.fields.getD []).mapM Field.ofDescriptor
  let apis ← (d.apis.getD []).mapM (Api.ofDescriptor className)
  return {
    className
    tableName := d.tableName
    moduleName := (Text.filled? d.moduleName).getD defaultModule
    comment := d.comment.getD ""
    displayName := ((Text.filled? d.displayName).or (Text.filled? d.znName)).getD className
    fields
    uniqueConstraints := (d.uniqueConstraints.getD []).map UniqueConstraint.ofDescriptor
    apis
    softDelete := d.softDelete.getD true
    timestamps := d.timestamps.getD true }

end CrudBackend
