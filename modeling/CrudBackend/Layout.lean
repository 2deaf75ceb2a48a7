import CrudBackend.Config.Basic
import CrudBackend.Files.Path

/-!
Where the generated files go and which Python modules they are. Directory and package of a kind of
file come from the same setting, so an import names the file that is written.
-/

namespace CrudBackend

structure Layout where
  appDir : Path
  enumsDir : Path
  modelsDir : Path
  schemasDir : Path
  servicesDir : Path
  apiDir : Path
  enumsPkg : String
  modelsPkg : String
  schemasPkg : String
  servicesPkg : String
  apiPkg : String
  deriving DecidableEq, Repr

structure EntityFiles where
  model : Path
  schema : Path
  service : Path
  serviceImpl : Path
  api : Path
  deriving DecidableEq, Repr

namespace Layout

def of (root : Path) (c : Config) : Layout :=
  let app := root.join c.appDir
  { appDir := app
    enumsDir := app.join c.genPaths.enums
    modelsDir := app.join c.genPaths.models
    schemasDir := app.join c.genPaths.schemas
    servicesDir := app.join c.genPaths.services
    apiDir := app.join c.genPaths.api
    enumsPkg := c.packageOf c.genPaths.enums
    modelsPkg := c.packageOf c.genPaths.models
    schemasPkg := c.packageOf c.genPaths.schemas
    servicesPkg := c.packageOf c.genPaths.services
    apiPkg := c.packageOf c.genPaths.api }

def enumsModule (l : Layout) : String := l.enumsPkg ++ ".enums"

def mixinsModule (l : Layout) : String := l.modelsPkg ++ "._gen_mixins"

def commonModule (l : Layout) : String := l.schemasPkg ++ "._gen_common"

def serviceBaseModule (l : Layout) : String := l.servicesPkg ++ "._gen_base"

def routerModule (l : Layout) : String := l.apiPkg ++ ".router"

def moduleIn (pkg : String) (e : Entity) (ending : String) : String :=
  pkg ++ "." ++ e.moduleName ++ "." ++ e.fileStem ++ ending

def modelModule (l : Layout) (e : Entity) : String := moduleIn l.modelsPkg e ""

def schemaModule (l : Layout) (e : Entity) : String := moduleIn l.schemasPkg e ""

def serviceModule (l : Layout) (e : Entity) : String := moduleIn l.servicesPkg e "_service"

def apiModule (l : Layout) (e : Entity) : String := moduleIn l.apiPkg e ""

def enumsFile (l : Layout) : Path := l.enumsDir.join "enums.py"

def mixinsFile (l : Layout) : Path := l.modelsDir.join "_gen_mixins.py"

def commonFile (l : Layout) : Path := l.schemasDir.join "_gen_common.py"

def serviceBaseFile (l : Layout) : Path := l.servicesDir.join "_gen_base.py"

def permFile (l : Layout) : Path := l.apiDir.join "_gen_perm.py"

def routerFile (l : Layout) : Path := l.apiDir.join "router.py"

/-- The files that do not belong to one entity, in the order in which they are generated. -/
def sharedFiles (l : Layout) : List Path :=
  [l.enumsFile, l.mixinsFile, l.commonFile, l.serviceBaseFile, l.permFile, l.routerFile]

def packageDirs (l : Layout) : List Path :=
  [l.enumsDir, l.modelsDir, l.schemasDir, l.servicesDir, l.apiDir]

/-- The directories that have a directory for each module. -/
def moduleRoots (l : Layout) : List Path := [l.modelsDir, l.schemasDir, l.servicesDir, l.apiDir]

def moduleDirs (l : Layout) (e : Entity) : List Path := l.moduleRoots.map (·.join e.moduleName)

def fileIn (root : Path) (e : Entity) (ending : String) : Path :=
  (root.join e.moduleName).join (e.fileStem ++ ending)

def entityFiles (l : Layout) (e : Entity) : EntityFiles where
  model := fileIn l.modelsDir e ".py"
  schema := fileIn l.schemasDir e ".py"
  service := fileIn l.servicesDir e "_service.py"
  serviceImpl := fileIn l.servicesDir e "_service_impl.py"
  api := fileIn l.apiDir e ".py"

end Layout

end CrudBackend
