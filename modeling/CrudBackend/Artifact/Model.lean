import CrudBackend.Artifact.Column
import CrudBackend.Artifact.Source
import CrudBackend.Config.ImportTarget
import CrudBackend.Layout

/-!
The module of the stored record of an entity: its bases, its table, its unique constraints, and a
line for each column.
-/

namespace CrudBackend.Artifact

def mixinsOf (e : Entity) : List String :=
  "IdMixin" :: ((if e.timestamps then ["TimeMixin"] else []) ++
    (if e.softDelete then ["SoftDeleteMixin"] else []))

def columnArguments (f : Field) : List String :=
  [f.columnType, "nullable=" ++ Python.bool f.nullable] ++
    (match f.defaultValue with
      | some v => ["default=" ++ Python.defaultLiteral v]
      | none => []) ++
    (match f.comment with
      | some c => if c = "" then [] else ["comment=" ++ Python.quote c]
      | none => [])

def columnLine (f : Field) : String :=
  f.column ++ ": Mapped[" ++ f.mappedHint ++ "] = mapped_column(" ++
    commaSeparated (columnArguments f) ++ ")"

def constraintLine (u : UniqueConstraint) : String :=
  "UniqueConstraint(" ++ commaSeparated (u.columns.map Python.quote) ++ ", name=" ++
    Python.quote u.name ++ ")"

/-- The lines of the unique constraints; constraints without columns are left out. -/
def constraintLines (us : List UniqueConstraint) : List String :=
  match us.filter fun u => !u.columns.isEmpty with
  | [] => []
  | us => ["", indented "__table_args__ = ("] ++
      us.map (fun u => indented (indented (constraintLine u)) ++ ",") ++ [indented ")"]

def docLines (comment : String) : List String :=
  let doc := Python.docText comment
  if doc = "" then [] else [indented ("\"\"\"" ++ doc ++ "\"\"\"")]

def model (e : Entity) (l : Layout) (i : Imports) : String :=
  generated (
    ["from datetime import datetime",
     "from typing import Any, Dict, List, Optional",
     "",
     "from sqlalchemy import JSON, BigInteger, Boolean, DateTime, Integer, String, Text, " ++
       "UniqueConstraint",
     "from sqlalchemy import Enum as SAEnum",
     "from sqlalchemy.orm import Mapped, mapped_column",
     "",
     "from " ++ l.enumsModule ++ " import *",
     "from " ++ i.base.module ++ " import " ++ i.base.name,
     "from " ++ l.mixinsModule ++ " import " ++ commaSeparated ((mixinsOf e).mergeSort textLe),
     "",
     "",
     "class " ++ e.className ++ "(" ++ commaSeparated (mixinsOf e ++ [i.base.name]) ++ "):"] ++
    docLines e.comment ++
    [indented ("__tablename__ = " ++ Python.quote e.tableName)] ++
    constraintLines e.uniqueConstraints ++
    "" :: e.fields.map fun f => indented (columnLine f))

end CrudBackend.Artifact
