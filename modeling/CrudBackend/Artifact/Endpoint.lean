import CrudBackend.Artifact.Column
import CrudBackend.Config.ImportTarget
import CrudBackend.Naming.Reservation
import CrudBackend.Naming.TitleCase
import CrudBackend.Python.Identifier

/-!
The endpoints of an entity, before they are written out: what each one does, which guards a caller
has to pass, and where its service comes from. Guards and service are taken from what the
application provides.
-/

namespace CrudBackend.Artifact

inductive Action where
  | save
  | update
  | list
  | delete
  | page
  | custom (method request : String) (params : List Param)
  deriving DecidableEq, Repr

/-- A condition that a caller has to meet: coming with the context of a provider, or holding a
permission. -/
inductive Guard where
  | context (provider : String)
  | permission (p : String)
  deriving DecidableEq, Repr

/-- Where the service of an endpoint comes from: from a provider, from a database session and a
context if there is one, or from nowhere. -/
inductive ServiceSource where
  | provided (provider : String)
  | built (context : Option String)
  | missing
  deriving DecidableEq, Repr

structure Endpoint where
  path : String
  summary : String
  function : String
  action : Action
  guards : List Guard
  service : ServiceSource
  deriving DecidableEq, Repr

def defaultRequestName (className apiName : String) : String :=
  className ++ Naming.titleCase apiName ++ "Req"

/-- What an API entry asks for. Among the entries that take an entity only three names are known. -/
def actionOf? (className : String) (a : Api) : Option Action :=
  match a.mode with
  | .entity =>
    if a.name = "save" then some .save
    else if a.name = "update" then some .update
    else if a.name = "list" then some .list
    else none
  | .query => some .page
  | .ids => some .delete
  | .custom requestName params =>
    some (.custom (Python.functionName a.name)
      (requestName.getD (defaultRequestName className a.name)) params)

def Action.functionName : Action → String
  | save => "save"
  | update => "update"
  | list => "list_"
  | delete => "delete"
  | page => "paging"
  | custom method _ _ => method

/-- The names that endpoints know how to use, in the order in which they are imported. -/
def knownDeps : List String :=
  ["get_db", "get_ctx", "get_ctx_required", "require_perm", "provide_service",
   "provide_service_optional"]

/-- The guards of an API entry: the caller's context if the entry needs a login, and then its
permissions, each as far as the application provides for it. -/
def guardsOf (deps : ImportTarget) (a : Api) : List Guard :=
  if a.requiresAuth then
    (if deps.has "get_ctx_required" then [.context "get_ctx_required"]
      else if deps.has "get_ctx" then [.context "get_ctx"]
      else []) ++
    (if deps.has "require_perm" then a.requiredPerms.map .permission else [])
  else []

def serviceOf (deps : ImportTarget) (a : Api) : ServiceSource :=
  let provider := if a.requiresAuth then "provide_service" else "provide_service_optional"
  let context := if a.requiresAuth then "get_ctx_required" else "get_ctx"
  if deps.has provider then .provided provider
  else if deps.has "get_db" then .built (if deps.has context then some context else none)
  else .missing

def actions (e : Entity) : List (Api × Action) :=
  e.apis.filterMap fun a => (actionOf? e.className a).map fun action => (a, action)

def endpoints (e : Entity) (deps : ImportTarget) : List Endpoint :=
  let wanted := (actions e).map fun (_, action) => action.functionName
  (Naming.reserveAll [] wanted).zipWith
    (fun function (a, action) =>
      { path := a.path
        summary := a.summary
        function
        action
        guards := guardsOf deps a
        service := serviceOf deps a })
    (actions e)

end CrudBackend.Artifact
