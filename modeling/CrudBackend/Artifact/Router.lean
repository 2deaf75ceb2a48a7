import CrudBackend.Artifact.Endpoint
import CrudBackend.Artifact.Source
import CrudBackend.Config.Route
import CrudBackend.Layout
import CrudBackend.Python.Literal

/-!
The module of the endpoints of an entity, and the module that mounts the endpoints of all entities.
-/

namespace CrudBackend.Artifact

def Guard.text : Guard → String
  | context provider => "Depends(" ++ provider ++ ")"
  | permission p => "Depends(require_perm(" ++ Python.quote p ++ "))"

def guardsArgument (guards : List Guard) : String :=
  if guards.isEmpty then ""
  else ", dependencies=[" ++ commaSeparated (guards.map Guard.text) ++ "]"

def ServiceSource.parameter (serviceClass : String) : ServiceSource → String
  | provided provider =>
    "svc: " ++ serviceClass ++ " = Depends(" ++ provider ++ "(" ++ serviceClass ++ "))"
  | built (some context) => "db=Depends(get_db), ctx=Depends(" ++ context ++ ")"
  | built none => "db=Depends(get_db)"
  | missing => "svc: " ++ serviceClass ++ " = None"

def ServiceSource.construction (serviceClass : String) : ServiceSource → List String
  | built (some _) => ["svc = " ++ serviceClass ++ "(db, ctx)"]
  | built none => ["svc = " ++ serviceClass ++ "(db, None)"]
  | _ => []

def Action.request (className : String) : Action → String
  | save => className ++ "Create"
  | update => className ++ "Update"
  | list => className ++ "Query"
  | delete => "IdsReq"
  | page => className ++ "Query"
  | custom _ request _ => request

def filtersLine : String :=
  "filters = req.model_dump(exclude=\x7b\"page\", \"size\", \"order_by\"\x7d, exclude_none=True)"

def Action.body (res className : String) : Action → List String
  | save =>
    ["obj = svc.create(req.model_dump())",
     "return " ++ res ++ ".success(" ++ className ++ "Read.model_validate(obj))"]
  | update =>
    ["obj = svc.update(req.id, req.model_dump(exclude=\x7b\"id\"\x7d))",
     "if obj is None:",
     indented "raise HTTPException(status_code=404, detail=\"not found\")",
     "return " ++ res ++ ".success(" ++ className ++ "Read.model_validate(obj))"]
  | list =>
    [filtersLine,
     "items = svc.list(filters, order_by=req.order_by)",
     "return " ++ res ++ ".success([" ++ className ++ "Read.model_validate(x) for x in items])"]
  | delete =>
    ["n = svc.delete_many(req.ids)",
     "return " ++ res ++ ".success(\x7b\"deleted\": n\x7d)"]
  | page =>
    [filtersLine,
     "total, items = svc.paging(filters, page=req.page, size=req.size, order_by=req.order_by)",
     "return " ++ res ++ ".success(\x7b\"total\": total, \"items\": [" ++ className ++
       "Read.model_validate(x) for x in items]\x7d)"]
  | custom method _ _ =>
    ["out = svc." ++ method ++ "(req.model_dump())",
     "return " ++ res ++ ".success(out)"]

def paramLine (p : Param) : String :=
  let remark := Python.flattened (p.comment.getD "")
  let hint := p.type.hint p.enumName
  Naming.snakeCase p.name ++
    (if p.required then ": " ++ hint else ": Optional[" ++ hint ++ "] = None") ++
    (if remark = "" then "" else "  # " ++ remark)

def Action.requestModel : Action → List String
  | custom _ request params =>
    ["", "", "class " ++ request ++ "(BaseModel):",
     indented "model_config = ConfigDict(extra=\"forbid\")"] ++
      params.map fun p => indented (paramLine p)
  | _ => []

def Endpoint.lines (className res : String) (h : Endpoint) : List String :=
  let serviceClass := className ++ "Service"
  h.action.requestModel ++
    ["", "",
     "@router.post(" ++ Python.quote h.path ++ ", summary=" ++ Python.quote h.summary ++
       guardsArgument h.guards ++ ")",
     "def " ++ h.function ++ "(req: " ++ h.action.request className ++ ", " ++
       h.service.parameter serviceClass ++ "):"] ++
    (h.service.construction serviceClass ++ h.action.body res className).map indented

def importedDeps (deps : ImportTarget) : List String := knownDeps.filter deps.has

def api (e : Entity) (l : Layout) (i : Imports) (r : RouteTemplates) : String :=
  let expand := fun template =>
    Python.quote (expandTemplate template e.moduleName e.fileStem e.className)
  generated (
    ["from datetime import datetime",
     "from typing import Any, Dict, List, Optional",
     "",
     "from fastapi import APIRouter, Depends, HTTPException",
     "from pydantic import BaseModel, ConfigDict",
     "",
     "from " ++ i.res.module ++ " import " ++ i.res.name] ++
    (match importedDeps i.deps with
      | [] => []
      | names => ["from " ++ i.deps.module ++ " import " ++ commaSeparated names]) ++
    ["",
     "from " ++ l.enumsModule ++ " import *",
     "from " ++ l.schemaModule e ++ " import *",
     "from " ++ l.commonModule ++ " import IdsReq",
     "from " ++ l.serviceModule e ++ " import " ++ e.className ++ "Service",
     "",
     "router = APIRouter(prefix=" ++ expand r.prefixTemplate ++ ", tags=[" ++
       expand r.tagTemplate ++ "])"] ++
    (endpoints e i.deps).flatMap (Endpoint.lines e.className i.res.name))

/-- The endpoints of an entity as the router mounts them: their module, and the name that their own
router gets. -/
structure Mount where
  module : String
  name : String
  deriving DecidableEq, Repr

def mountOf (l : Layout) (e : Entity) : Mount := ⟨l.apiModule e, e.moduleName ++ "_" ++ e.fileStem⟩

def router (mounts : List Mount) : String :=
  generated (
    ["from fastapi import APIRouter", ""] ++
    (mounts.map fun m => "from " ++ m.module ++ " import router as " ++ m.name ++ "_router") ++
    ["", "api_router = APIRouter()", ""] ++
    mounts.map fun m => "api_router.include_router(" ++ m.name ++ "_router)")

end CrudBackend.Artifact
