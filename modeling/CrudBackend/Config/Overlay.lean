import CrudBackend.Config.Basic
import CrudBackend.Json.Reader
import CrudBackend.Json.Shape

/-!
Reading a configuration. A document overrides the built-in settings one by one; keys that it does
not mention, or gives as null, keep them. The built-in imports belong to the package of the
application, so they follow a package that the document names.
-/

namespace CrudBackend

open Json (ShapeFault RecordShape optional asString asList asRecord)

structure GenPathsOverlay where
  enums : Option String := none
  models : Option String := none
  schemas : Option String := none
  services : Option String := none
  api : Option String := none
  deriving DecidableEq, Repr

structure ImportsOverlay where
  base : Option String := none
  deps : Option String := none
  res : Option String := none
  deriving DecidableEq, Repr

structure RoutesOverlay where
  prefixTemplate : Option String := none
  tagTemplate : Option String := none
  deriving DecidableEq, Repr

structure ConfigOverlay where
  appDir : Option String := none
  appPkg : Option String := none
  genPaths : Option GenPathsOverlay := none
  imports : Option ImportsOverlay := none
  routes : Option RoutesOverlay := none
  extensions : Option (List String) := none
  deriving DecidableEq, Repr

inductive ConfigFault where
  | notJson
  | notObject
  | shape (fault : ShapeFault)

/-- The message of a fault. What is wrong with a text that is not JSON is not told. -/
def ConfigFault.message : ConfigFault → String
  | .notJson => "not valid JSON"
  | .notObject => "top level must be a JSON object"
  | .shape fault => fault.message

namespace GenPathsOverlay

def shape : RecordShape where
  label := "GenPathsOverlay"
  fields := ["enums", "models", "schemas", "services", "api"]
  required := []

def put (o : GenPathsOverlay) (key : String) (v : Json) : Except ShapeFault GenPathsOverlay := do
  match key with
  | "enums" => return { o with enums := ← optional asString v }
  | "models" => return { o with models := ← optional asString v }
  | "schemas" => return { o with schemas := ← optional asString v }
  | "services" => return { o with services := ← optional asString v }
  | "api" => return { o with api := ← optional asString v }
  | _ => return o

def ofJson : Json → Except ShapeFault GenPathsOverlay := asRecord shape {} put

def applyTo (o : GenPathsOverlay) (p : GenPaths) : GenPaths where
  enums := o.enums.getD p.enums
  models := o.models.getD p.models
  schemas := o.schemas.getD p.schemas
  services := o.services.getD p.services
  api := o.api.getD p.api

end GenPathsOverlay

namespace ImportsOverlay

def shape : RecordShape where
  label := "ImportsOverlay"
  fields := ["base", "deps", "res"]
  required := []

def put (o : ImportsOverlay) (key : String) (v : Json) : Except ShapeFault ImportsOverlay := do
  match key with
  | "base" => return { o with base := ← optional asString v }
  | "deps" => return { o with deps := ← optional asString v }
  | "res" => return { o with res := ← optional asString v }
  | _ => return o

def ofJson : Json → Except ShapeFault ImportsOverlay := asRecord shape {} put

def applyTo (o : ImportsOverlay) (i : ImportTexts) : ImportTexts where
  base := o.base.getD i.base
  deps := o.deps.getD i.deps
  res := o.res.getD i.res

end ImportsOverlay

namespace RoutesOverlay

def shape : RecordShape where
  label := "ApiOverlay"
  fields := ["prefix_template", "tag_template"]
  required := []

def put (o : RoutesOverlay) (key : String) (v : Json) : Except ShapeFault RoutesOverlay := do
  match key with
  | "prefix_template" => return { o with prefixTemplate := ← optional asString v }
  | "tag_template" => return { o with tagTemplate := ← optional asString v }
  | _ => return o

def ofJson : Json → Except ShapeFault RoutesOverlay := asRecord shape {} put

def applyTo (o : RoutesOverlay) (r : RouteTemplates) : RouteTemplates where
  prefixTemplate := o.prefixTemplate.getD r.prefixTemplate
  tagTemplate := o.tagTemplate.getD r.tagTemplate

end RoutesOverlay

namespace ConfigOverlay

def shape : RecordShape where
  label := "ConfigOverlay"
  fields := ["app_dir", "app_pkg", "gen_paths", "imports", "api", "extensions"]
  required := []

def put (o : ConfigOverlay) (key : String) (v : Json) : Except ShapeFault ConfigOverlay := do
  match key with
  | "app_dir" => return { o with appDir := ← optional asString v }
  | "app_pkg" => return { o with appPkg := ← optional asString v }
  | "gen_paths" => return { o with genPaths := ← optional GenPathsOverlay.ofJson v }
  | "imports" => return { o with imports := ← optional ImportsOverlay.ofJson v }
  | "api" => return { o with routes := ← optional RoutesOverlay.ofJson v }
  | "extensions" => return { o with extensions := ← optional (asList asString) v }
  | _ => return o

def ofJson : Json → Except ConfigFault ConfigOverlay
  | .object members => (asRecord shape {} put (.object members)).mapError .shape
  | _ => .error .notObject

def toConfig (o : ConfigOverlay) : Config :=
  let appPkg := o.appPkg.getD "app"
  { appDir := o.appDir.getD "app"
    appPkg
    genPaths := (o.genPaths.getD {}).applyTo {}
    imports := (o.imports.getD {}).applyTo (ImportTexts.ofPackage appPkg)
    routes := (o.routes.getD {}).applyTo {}
    extensions := (o.extensions.getD []).map Text.trim }

end ConfigOverlay

def Config.parse (text : String) : Except ConfigFault Config :=
  match Json.parse? text with
  | some v => (ConfigOverlay.ofJson v).map ConfigOverlay.toConfig
  | none => .error .notJson

end CrudBackend
