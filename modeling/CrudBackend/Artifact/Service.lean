import CrudBackend.Artifact.Source
import CrudBackend.Layout
import CrudBackend.Python.Identifier
import CrudBackend.Python.Literal

/-!
The modules of the service of an entity: the generated one, and the hand-written extension, of which
only a first draft is ever written.
-/

namespace CrudBackend.Artifact

/-- The module of the generated service. A registered extension goes before the generated base. -/
def service (e : Entity) (l : Layout) (extended : Bool) : String :=
  let c := e.className
  generated (
    ["from " ++ l.serviceBaseModule ++ " import CRUDService",
     "from " ++ l.modelModule e ++ " import " ++ c] ++
    (if extended then
      ["from ." ++ e.fileStem ++ "_service_impl import " ++ c ++ "ServiceImpl"] else []) ++
    ["",
     "",
     "class " ++ c ++ "ServiceBase(CRUDService):",
     indented ("model = " ++ c),
     indented ("soft_delete = " ++ Python.bool e.softDelete),
     indented ("timestamps = " ++ Python.bool e.timestamps),
     indented ("columns = frozenset(\x7b" ++ commaSeparated (e.columnNames.map Python.quote) ++
       "\x7d)"),
     "",
     "",
     "class " ++ c ++ "Service(" ++
       (if extended then c ++ "ServiceImpl, " else "") ++ c ++ "ServiceBase):",
     indented "pass"])

/-- Drops each item that equals the one before it. -/
def withoutRepeats : List String → List String
  | [] => []
  | [x] => [x]
  | x :: y :: rest =>
    if x = y then withoutRepeats (y :: rest) else x :: withoutRepeats (y :: rest)

def extensionMethods (e : Entity) : List String :=
  withoutRepeats (e.customApis.map fun a => Python.functionName a.name)

def methodDraft (e : Entity) (method : String) : List String :=
  ["",
   indented ("def " ++ method ++ "(self, data: Dict[str, Any]) -> Any:"),
   indented (indented ("raise NotImplementedError(\"" ++ e.className ++ "Service." ++ method ++
     "\")"))]

/-- The draft of an extension. It carries no marker, for it belongs to the one who fills it in. -/
def serviceImpl (e : Entity) (l : Layout) : String :=
  source (
    [annotationsImport,
     "",
     "from typing import Any, Dict",
     "",
     "from " ++ l.serviceBaseModule ++ " import ServiceExtension",
     "",
     "",
     "class " ++ e.className ++ "ServiceImpl(ServiceExtension):",
     indented ("\"\"\"Hand-written behavior for " ++ e.className ++
       "Service. Never regenerated.\"\"\"")] ++
    (extensionMethods e).flatMap (methodDraft e))

end CrudBackend.Artifact
