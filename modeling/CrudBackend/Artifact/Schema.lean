import CrudBackend.Artifact.Column
import CrudBackend.Artifact.Source
import CrudBackend.Layout

/-!
The module of the request and response models of an entity: what it takes to create a record, to
change one, to look for some, and what a record shows.
-/

namespace CrudBackend.Artifact

def optionalLine (f : Field) : String := f.column ++ ": Optional[" ++ f.hint ++ "] = None"

/-- A field of the model for new records. Only fields that may be absent can be left out. -/
def createLine (f : Field) : String :=
  if f.nullable then optionalLine f else f.column ++ ": " ++ f.hint

def forbidsExtra : String := indented "model_config = ConfigDict(extra=\"forbid\")"

def schema (e : Entity) (l : Layout) : String :=
  let optionalFields := e.fields.map fun f => indented (optionalLine f)
  generated (
    ["from datetime import datetime",
     "from typing import Any, Dict, List, Optional",
     "",
     "from pydantic import BaseModel, ConfigDict",
     "",
     "from " ++ l.enumsModule ++ " import *",
     "from " ++ l.commonModule ++ " import BaseRead, PageQuery, PageResult",
     "",
     "",
     "class " ++ e.className ++ "Create(BaseModel):",
     forbidsExtra,
     ""] ++
    (e.fields.map fun f => indented (createLine f)) ++
    ["",
     "",
     "class " ++ e.className ++ "Update(BaseModel):",
     forbidsExtra,
     "",
     indented "id: str"] ++
    optionalFields ++
    ["",
     "",
     "class " ++ e.className ++ "Query(PageQuery):",
     forbidsExtra,
     ""] ++
    optionalFields ++
    ["",
     "",
     "class " ++ e.className ++ "Read(BaseRead):",
     indented "model_config = ConfigDict(from_attributes=True)",
     ""] ++
    optionalFields ++
    ["",
     "",
     e.className ++ "Page = PageResult[" ++ e.className ++ "Read]"])

end CrudBackend.Artifact
