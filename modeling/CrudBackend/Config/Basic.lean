import CrudBackend.Spec.Basic

/-!
The configuration of a generated backend: where its files go, which foundation symbols it imports,
how routes are spelled, and which entities have hand-written service extensions.
-/

namespace CrudBackend

/-- Directories of the generated files below the directory of the application. -/
structure GenPaths where
  enums : String := "enums"
  models : String := "models"
  schemas : String := "schemas"
  services : String := "services"
  api : String := "api"
  deriving DecidableEq, Repr

/-- Foundation imports as they are written, `module:Name` or `module:Name,Name`. -/
structure ImportTexts where
  base : String
  deps : String
  res : String
  deriving DecidableEq, Repr

def defaultDeps : String :=
  "get_db,get_ctx,get_ctx_required,require_perm,provide_service,provide_service_optional"

def ImportTexts.ofPackage (pkg : String) : ImportTexts where
  base := pkg ++ ".models.base:Base"
  deps := pkg ++ ".deps:" ++ defaultDeps
  res := pkg ++ ".common.res:Res"

structure RouteTemplates where
  prefixTemplate : String := "/\x7bmodule\x7d/\x7bentity\x7d"
  tagTemplate : String := "\x7bmodule\x7d:\x7bentity\x7d"
  deriving DecidableEq, Repr

structure Config where
  /-- The directory of the application below the root of the project. -/
  appDir : String := "app"
  /-- The package of the application. -/
  appPkg : String := "app"
  genPaths : GenPaths := {}
  imports : ImportTexts := ImportTexts.ofPackage "app"
  routes : RouteTemplates := {}
  /-- Entities with a service extension, by class or by module and class. -/
  extensions : List String := []
  deriving DecidableEq, Repr

/-- A separator at either end is dropped, others become dots. -/
def dotted (cs : List Char) : List Char :=
  let bare := ((cs.dropWhile (· == '/')).reverse.dropWhile (· == '/')).reverse
  bare.map fun c => if c == '/' then '.' else c

namespace Config

def packageOf (c : Config) (genPath : String) : String :=
  let path := String.ofList (dotted genPath.toList)
  if path = "" then c.appPkg else c.appPkg ++ "." ++ path

def registers (c : Config) (moduleName className : String) : Bool :=
  c.extensions.contains className || c.extensions.contains (moduleName ++ "." ++ className)

def hasExtension (c : Config) (e : Entity) : Bool := c.registers e.moduleName e.className

end Config

end CrudBackend
