import CrudBackend.Python.Literal
import CrudBackend.Spec.Basic

/-!
How the fields of an entity appear in Python: type hints, and column types of the database layer.
-/

namespace CrudBackend

/-- The hint of a type. A reference to an enumeration is the class of that name; the element of a
list has no reference, and an unknown type admits anything. -/
def FieldType.hint (enumName : Option String) : FieldType → String
  | string => "str"
  | integer => "int"
  | long => "int"
  | boolean => "bool"
  | localDateTime => "datetime"
  | json => "Dict[str, Any]"
  | enumeration => enumName.getD "str"
  | list element => "List[" ++ element.hint none ++ "]"
  | other _ => "Any"

def enumColumn (name : String) : String :=
  "SAEnum(" ++ name ++ ", name='enum_" ++ Naming.snakeCase name ++ "', native_enum=False)"

namespace Field

def hint (f : Field) : String := f.type.hint f.enumName

/-- The column type of a field. Only a string has use for a length, and only for a positive one. -/
def columnType (f : Field) : String :=
  match f.type with
  | .string =>
    match f.length with
    | some n => if 0 < n then "String(" ++ toString n ++ ")" else "Text"
    | none => "Text"
  | .integer => "Integer"
  | .long => "BigInteger"
  | .boolean => "Boolean"
  | .localDateTime => "DateTime(timezone=False)"
  | .json => "JSON"
  | .list _ => "JSON"
  | .enumeration => enumColumn (f.enumName.getD "str")
  | .other _ => "Text"

/-- A field may be absent unless it is declared otherwise. -/
def nullable (f : Field) : Bool := !f.notNull

def mappedHint (f : Field) : String :=
  if f.nullable then "Optional[" ++ f.hint ++ "]" else f.hint

end Field

end CrudBackend
