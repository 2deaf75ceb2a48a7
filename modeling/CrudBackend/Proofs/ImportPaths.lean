import CrudBackend.Proofs.Segments

/-!
Imports name the files that a run writes. Every generated module has a dotted name, which others use
to import it, and a file. The words of the name behind the package of the application are the
components of the file behind the directory of the application, unless the setting that both come
from is spelled as an absolute path: then the file is below the root of the file system, and the
name is not.
-/

namespace CrudBackend

open FileTree

/-- The directory lies below the application as the package does: its components are the words of the
package. -/
def PackageNames (c : Config) (app : Path) (pkg : String) (dir : Path) : Prop :=
  ∃ names, (∀ name ∈ names, IsPlain name) ∧ pkg = dottedName c.appPkg names ∧
    dir.components = app.components ++ names.map .name

/-- The file lies below the application as the module does: its components are the words of the
module, the last of them with the ending of a source. -/
def ModuleNames (c : Config) (app : Path) (module : String) (file : Path) : Prop :=
  ∃ names last, (∀ name ∈ names ++ [last], IsPlain name) ∧
    module = dottedName c.appPkg (names ++ [last]) ∧
    file.components = app.components ++ names.map .name ++ [.name (last ++ ".py")]

/-- The setting stays below the application: it is relative, or the application is at the root of the
file system. -/
def Stays (app : Path) (setting : String) : Prop :=
  (Path.mk setting).isAbsolute = false ∨ app.components = [.root]

def Artifact.Prints (text module : String) : Prop :=
  ∃ lines names, text = source lines ∧ "from " ++ module ++ " import " ++ names ∈ lines

section Settings

variable {c : Config} {app : Path} {g : String} {names : List String} {last : String}

theorem isPlain_append {s ending : String} (hs : IsPlain s) (hsep : '/' ∉ ending.toList)
    (hdot : '.' ∉ ending.toList) : IsPlain (s ++ ending) := by
  refine ⟨fun h => hs.not_empty ?_, ?_, ?_⟩
  · rw [← String.toList_inj, String.toList_append] at h
    exact String.toList_eq_nil_iff.mp (List.append_eq_nil_iff.mp h).1
  · rw [String.toList_append, List.mem_append, not_or]
    exact ⟨hs.no_separator, hsep⟩
  · rw [String.toList_append, List.mem_append, not_or]
    exact ⟨hs.no_dot, hdot⟩

/-- The components of the directory of a setting: those of the application in front, or the root
alone. -/
theorem exists_components (hg : IsWay g) (app : Path) : ∃ lead,
    (app.join g).components = lead ++ (steps ⟨g⟩).map .name ∧
      (lead = app.components ↔ Stays app g) := by
  have hsegments : ∀ s ∈ steps ⟨g⟩, IsSegment s := fun s hs => (hg.isPlain_of_mem s hs).isSegment
  cases habs : (Path.mk g).isAbsolute with
  | false =>
    exact ⟨app.components, Path.components_join habs hsegments, iff_of_true rfl (Or.inl habs)⟩
  | true =>
    refine ⟨[.root], Path.components_join_absolute habs hsegments, ?_⟩
    unfold Stays
    rw [habs]
    exact ⟨fun h => Or.inr h.symm, fun h => (h.resolve_left Bool.noConfusion).symm⟩

theorem packageNames_iff (hg : IsWay g) (c : Config) (app : Path) :
    PackageNames c app (c.packageOf g) (app.join g) ↔ Stays app g := by
  obtain ⟨lead, hcomponents, hlead⟩ := exists_components hg app
  rw [← hlead]
  constructor
  · rintro ⟨names, hplain, hpkg, hdir⟩
    have hnames : names = steps ⟨g⟩ :=
      dottedName_inj (fun name hname => (hplain name hname).no_dot)
        (fun name hname => (hg.isPlain_of_mem name hname).no_dot)
        (hpkg.symm.trans (hg.packageOf_eq c))
    rw [hcomponents, hnames, List.append_cancel_right_eq] at hdir
    exact hdir
  · rintro rfl
    exact ⟨_, hg.isPlain_of_mem, hg.packageOf_eq c, hcomponents⟩

/-- A module some way down the directory of a setting. -/
theorem moduleNames_iff (names : List String) (last : String) (hg : IsWay g) {module : String}
    {file : Path} (hplain : ∀ name ∈ names ++ [last], IsPlain name)
    (hmodule : module = dottedName c.appPkg (steps ⟨g⟩ ++ (names ++ [last])))
    (hfile : file.components =
      (app.join g).components ++ names.map .name ++ [.name (last ++ ".py")]) :
    ModuleNames c app module file ↔ Stays app g := by
  obtain ⟨lead, hcomponents, hlead⟩ := exists_components hg app
  have hall : ∀ name ∈ steps ⟨g⟩ ++ (names ++ [last]), IsPlain name :=
    List.forall_mem_append.mpr ⟨hg.isPlain_of_mem, hplain⟩
  rw [← hlead]
  constructor
  · rintro ⟨names', last', hplain', hmodule', hfile'⟩
    have heq : names' ++ [last'] = steps ⟨g⟩ ++ (names ++ [last]) :=
      dottedName_inj (fun name hname => (hplain' name hname).no_dot)
        (fun name hname => (hall name hname).no_dot) (hmodule'.symm.trans hmodule)
    rw [← List.append_assoc] at heq
    obtain ⟨rfl, hlast⟩ := List.append_inj' heq rfl
    cases hlast
    rw [hfile, hcomponents] at hfile'
    simpa using hfile'
  · rintro rfl
    refine ⟨steps ⟨g⟩ ++ names, last, ?_, ?_, ?_⟩
    · rwa [List.append_assoc]
    · rw [hmodule, List.append_assoc]
    · rw [hfile, hcomponents, List.map_append, List.append_assoc app.components]

/-- A module that is shared; its ending is its name behind a dot. -/
theorem moduleNames_shared (last : String) (hg : IsWay g) (hlast : IsPlain last) {ending file : String}
    (hending : ending = "." ++ last) (hfile : file = last ++ ".py") :
    ModuleNames c app (c.packageOf g ++ ending) ((app.join g).join file) ↔ Stays app g := by
  subst hending hfile
  refine moduleNames_iff [] last hg (List.forall_mem_singleton.mpr hlast) ?_ ?_
  · rw [hg.packageOf_eq, ← String.append_assoc, dottedName_concat, List.nil_append]
  · have hsegment : IsSegment (last ++ ".py") :=
      isSegment_append hlast.no_separator (by decide) (by decide)
    rw [Path.components_join_segment hsegment, List.map_nil, List.append_nil]

/-- A module of an entity. -/
theorem moduleNames_entity (hg : IsWay g) {e : Entity} (hclass : IsPlain e.className)
    (hmodule : IsPlain e.moduleName) {ending file : String} (hsep : '/' ∉ ending.toList)
    (hdot : '.' ∉ ending.toList) (hfile : file = ending ++ ".py") :
    ModuleNames c app (Layout.moduleIn (c.packageOf g) e ending)
      (Layout.fileIn (app.join g) e file) ↔ Stays app g := by
  subst hfile
  have hstem : IsPlain (e.fileStem ++ ending) :=
    isPlain_append (Entity.isPlain_fileStem hclass) hsep hdot
  have hfile : IsSegment (e.fileStem ++ (ending ++ ".py")) := by
    rw [← String.append_assoc]
    exact isSegment_append hstem.no_separator (by decide) (by decide)
  refine moduleNames_iff [e.moduleName] (e.fileStem ++ ending) hg ?_ ?_ ?_
  · exact List.forall_mem_cons.mpr ⟨hmodule, List.forall_mem_singleton.mpr hstem⟩
  · rw [Layout.moduleIn, hg.packageOf_eq, dottedName_concat, String.append_assoc,
      dottedName_concat, List.append_assoc]
  · rw [Layout.fileIn, Path.components_join_segment hfile,
      Path.components_join_segment hmodule.isSegment, String.append_assoc]
    rfl

end Settings

/-! ### The modules of a run -/

/-- A generated module: the setting that its directory comes from, the name that others import it by,
its file, its text, and the texts that import from it. -/
structure GeneratedModule where
  setting : String
  name : String
  file : Path
  text : String
  importers : List String

namespace Generation

open Artifact

def modulesOf (s : Spec) (c : Config) (l : Layout) (i : Imports) (e : Entity) :
    List GeneratedModule :=
  let model := Artifact.model e l i
  let schema := Artifact.schema e l
  let service := Artifact.service e l (c.hasExtension e)
  let api := Artifact.api e l i c.routes
  let router := Artifact.router (mounts s l)
  [⟨c.genPaths.enums, l.enumsModule, l.enumsFile, enums s, [model, schema, api]⟩,
   ⟨c.genPaths.models, l.mixinsModule, l.mixinsFile, mixins, [model]⟩,
   ⟨c.genPaths.schemas, l.commonModule, l.commonFile, common, [schema, api]⟩,
   ⟨c.genPaths.services, l.serviceBaseModule, l.serviceBaseFile, serviceBase,
     [service, serviceImpl e l]⟩,
   ⟨c.genPaths.api, l.routerModule, l.routerFile, router, []⟩,
   ⟨c.genPaths.models, l.modelModule e, (l.entityFiles e).model, model, [service]⟩,
   ⟨c.genPaths.schemas, l.schemaModule e, (l.entityFiles e).schema, schema, [api]⟩,
   ⟨c.genPaths.services, l.serviceModule e, (l.entityFiles e).service, service, [api]⟩,
   ⟨c.genPaths.api, l.apiModule e, (l.entityFiles e).api, api, [router]⟩]

variable {s : Spec} {c : Config} {l : Layout} {i : Imports} {e : Entity} {spec : RawPath}

theorem prints_of_mem {text module rest : String} {lines : List String} (names : String)
    (htext : text = source lines) (hrest : rest = " import " ++ names)
    (hmem : "from " ++ module ++ rest ∈ lines) : Prints text module := by
  refine ⟨lines, names, htext, ?_⟩
  rwa [String.append_assoc, ← hrest]

theorem prints_model (e : Entity) (l : Layout) (i : Imports) :
    Prints (model e l i) l.enumsModule ∧ Prints (model e l i) l.mixinsModule :=
  ⟨prints_of_mem "*" rfl rfl (by simp),
    _, commaSeparated ((mixinsOf e).mergeSort textLe), rfl, by simp⟩

theorem prints_schema (e : Entity) (l : Layout) :
    Prints (schema e l) l.enumsModule ∧ Prints (schema e l) l.commonModule :=
  ⟨prints_of_mem "*" rfl rfl (by simp),
    prints_of_mem "BaseRead, PageQuery, PageResult" rfl rfl (by simp)⟩

theorem prints_service (e : Entity) (l : Layout) (extended : Bool) :
    Prints (service e l extended) l.serviceBaseModule ∧
      Prints (service e l extended) (l.modelModule e) :=
  ⟨prints_of_mem "CRUDService" rfl rfl (by simp), _, e.className, rfl, by simp⟩

theorem prints_serviceImpl (e : Entity) (l : Layout) :
    Prints (serviceImpl e l) l.serviceBaseModule :=
  prints_of_mem "ServiceExtension" rfl rfl (by simp)

theorem prints_api (e : Entity) (l : Layout) (i : Imports) (r : RouteTemplates) :
    Prints (api e l i r) l.enumsModule ∧ Prints (api e l i r) (l.schemaModule e) ∧
      Prints (api e l i r) l.commonModule ∧ Prints (api e l i r) (l.serviceModule e) := by
  refine ⟨prints_of_mem "*" rfl rfl (by simp),
    prints_of_mem "*" rfl rfl (by simp),
    prints_of_mem "IdsReq" rfl rfl (by simp), _, e.className ++ "Service", rfl, ?_⟩
  rw [← String.append_assoc]
  simp

theorem prints_router {ms : List Mount} {m : Mount} (hm : m ∈ ms) : Prints (router ms) m.module := by
  have hrest : " import router as " ++ m.name ++ "_router" =
      " import " ++ ("router as " ++ m.name ++ "_router") := by
    simp only [← String.append_assoc]
    rfl
  refine prints_of_mem _ rfl hrest ?_
  have hline : "from " ++ m.module ++ (" import router as " ++ m.name ++ "_router") =
      "from " ++ m.module ++ " import router as " ++ m.name ++ "_router" := by
    simp only [String.append_assoc]
  rw [hline]
  simp only [List.mem_cons, List.mem_append]
  exact Or.inr (Or.inr (Or.inr (Or.inl (Or.inl (Or.inr (List.mem_map_of_mem hm))))))

theorem prints_of_mem_modulesOf (he : e ∈ s.entities) {m : GeneratedModule}
    (hm : m ∈ modulesOf s c l i e) : ∀ text ∈ m.importers, Prints text m.name := by
  have hmount : mountOf l e ∈ mounts s l := List.mem_map_of_mem he
  simp only [modulesOf, List.mem_cons, List.not_mem_nil, or_false] at hm
  rcases hm with rfl | rfl | rfl | rfl | rfl | rfl | rfl | rfl | rfl
  all_goals
    simp only [List.forall_mem_cons, List.not_mem_nil, false_implies, implies_true, and_true]
  · exact ⟨(prints_model e l i).1, (prints_schema e l).1, (prints_api e l i _).1⟩
  · exact (prints_model e l i).2
  · exact ⟨(prints_schema e l).2, (prints_api e l i _).2.2.1⟩
  · exact ⟨(prints_service e l (c.hasExtension e)).1, prints_serviceImpl e l⟩
  · exact (prints_service e l (c.hasExtension e)).2
  · exact (prints_api e l i _).2.1
  · exact (prints_api e l i _).2.2.2
  · exact prints_router (m := mountOf l e) hmount

/-- A run writes the file of a module with its text. -/
theorem mem_pieces_of_mem_modulesOf (he : e ∈ s.entities) {m : GeneratedModule}
    (hm : m ∈ modulesOf s c l i e) : .generated m.file m.text ∈ pieces s c l i spec := by
  have hshared : ∀ x ∈ sharedTexts s l, .generated (x.1.join x.2.1) x.2.2 ∈ pieces s c l i spec :=
    fun x hx => mem_pieces_of_goes (.shared hx) fun _ => by simp
  have hentity : ∀ x ∈ entityTexts c l i e,
      .generated (Layout.fileIn x.1 e x.2.1) x.2.2 ∈ pieces s c l i spec :=
    fun x hx => mem_pieces_of_goes (.file he hx) fun _ => by simp
  simp only [sharedTexts, entityTexts, List.forall_mem_cons, List.not_mem_nil, false_implies,
    implies_true, and_true] at hshared hentity
  obtain ⟨henums, hmixins, hcommon, hbase, -, hrouter⟩ := hshared
  obtain ⟨hmodel, hschema, hservice, hapi⟩ := hentity
  simp only [modulesOf, List.mem_cons, List.not_mem_nil, or_false] at hm
  rcases hm with rfl | rfl | rfl | rfl | rfl | rfl | rfl | rfl | rfl
  · exact henums
  · exact hmixins
  · exact hcommon
  · exact hbase
  · exact hrouter
  · exact hmodel
  · exact hschema
  · exact hservice
  · exact hapi

def settings (c : Config) : List String :=
  [c.genPaths.enums, c.genPaths.models, c.genPaths.schemas, c.genPaths.services, c.genPaths.api]

def packagesOf (c : Config) (l : Layout) : List (String × String × Path) :=
  [(c.genPaths.enums, l.enumsPkg, l.enumsDir), (c.genPaths.models, l.modelsPkg, l.modelsDir),
   (c.genPaths.schemas, l.schemasPkg, l.schemasDir),
   (c.genPaths.services, l.servicesPkg, l.servicesDir), (c.genPaths.api, l.apiPkg, l.apiDir)]

theorem packageNames_of_mem_packagesOf {root : Path} (hsettings : ∀ g ∈ settings c, IsWay g)
    {x : String × String × Path} (hx : x ∈ packagesOf c (.of root c)) :
    PackageNames c (root.join c.appDir) x.2.1 x.2.2 ↔ Stays (root.join c.appDir) x.1 := by
  simp only [settings, List.forall_mem_cons, List.not_mem_nil, false_implies, implies_true,
    and_true] at hsettings
  obtain ⟨henums, hmodels, hschemas, hservices, hapi⟩ := hsettings
  simp only [packagesOf, Layout.of, List.mem_cons, List.not_mem_nil, or_false] at hx
  rcases hx with rfl | rfl | rfl | rfl | rfl
  all_goals dsimp only
  · exact packageNames_iff henums c _
  · exact packageNames_iff hmodels c _
  · exact packageNames_iff hschemas c _
  · exact packageNames_iff hservices c _
  · exact packageNames_iff hapi c _

theorem moduleNames_of_mem_modulesOf {root : Path} (hsettings : ∀ g ∈ settings c, IsWay g)
    (hclass : IsPlain e.className) (hmodule : IsPlain e.moduleName) {m : GeneratedModule}
    (hm : m ∈ modulesOf s c (.of root c) i e) :
    ModuleNames c (root.join c.appDir) m.name m.file ↔ Stays (root.join c.appDir) m.setting := by
  simp only [settings, List.forall_mem_cons, List.not_mem_nil, false_implies, implies_true,
    and_true] at hsettings
  obtain ⟨henums, hmodels, hschemas, hservices, hapi⟩ := hsettings
  simp only [modulesOf, List.mem_cons, List.not_mem_nil, or_false] at hm
  rcases hm with rfl | rfl | rfl | rfl | rfl | rfl | rfl | rfl | rfl
  all_goals
    dsimp only [Layout.enumsModule, Layout.enumsFile, Layout.mixinsModule, Layout.mixinsFile,
      Layout.commonModule, Layout.commonFile, Layout.serviceBaseModule, Layout.serviceBaseFile,
      Layout.routerModule, Layout.routerFile, Layout.modelModule, Layout.schemaModule,
      Layout.serviceModule, Layout.apiModule, Layout.entityFiles, Layout.of]
  · exact moduleNames_shared "enums" henums (by decide) (by decide) (by decide)
  · exact moduleNames_shared "_gen_mixins" hmodels (by decide) (by decide) (by decide)
  · exact moduleNames_shared "_gen_common" hschemas (by decide) (by decide) (by decide)
  · exact moduleNames_shared "_gen_base" hservices (by decide) (by decide) (by decide)
  · exact moduleNames_shared "router" hapi (by decide) (by decide) (by decide)
  · exact moduleNames_entity hmodels hclass hmodule (by decide) (by decide) (by decide)
  · exact moduleNames_entity hschemas hclass hmodule (by decide) (by decide) (by decide)
  · exact moduleNames_entity hservices hclass hmodule (by decide) (by decide) (by decide)
  · exact moduleNames_entity hapi hclass hmodule (by decide) (by decide) (by decide)

/-- Let the settings spell plain segments, with separators at their ends or without. Each of the five
directories then lies below the application as its package does, and each module that is imported has
a name that leads, segment by segment, to the file that the run writes for it, if and only if the
setting stays below the application. The importing texts and the line that mounts the router print
these names. -/
theorem imports_name_the_files_iff (he : e ∈ s.entities)
    (hclass : Python.isIdentifier e.className = true)
    (hmodule : Python.isIdentifier e.moduleName = true) (hsettings : ∀ g ∈ settings c, IsWay g)
    (root : Path) (i : Imports) (spec : RawPath) :
    (∀ x ∈ packagesOf c (.of root c),
      PackageNames c (root.join c.appDir) x.2.1 x.2.2 ↔ Stays (root.join c.appDir) x.1) ∧
    (∀ m ∈ modulesOf s c (.of root c) i e,
      (ModuleNames c (root.join c.appDir) m.name m.file ↔ Stays (root.join c.appDir) m.setting) ∧
      .generated m.file m.text ∈ pieces s c (.of root c) i spec ∧
      ∀ text ∈ m.importers, Prints text m.name) ∧
    mountImport (.of root c) = "from " ++ (Layout.of root c).routerModule ++ " import api_router" := by
  have hclass := isPlain_of_isIdentifier hclass
  have hmodule := isPlain_of_isIdentifier hmodule
  refine ⟨fun x hx => packageNames_of_mem_packagesOf hsettings hx, fun m hm => ⟨?_, ?_, ?_⟩, rfl⟩
  · exact moduleNames_of_mem_modulesOf hsettings hclass hmodule hm
  · exact mem_pieces_of_mem_modulesOf he hm
  · exact prints_of_mem_modulesOf he hm

/-- A configuration whose records are kept two directories down, and whose request and response
models are kept in the package of the application itself. -/
def nestedConfig : Config := { genPaths := { models := "db/models/", schemas := "" } }

theorem nested_modules_are_named : (∀ g ∈ settings nestedConfig, IsWay g) ∧
    ∀ e ∈ itemJob.spec.entities, ∀ i : Imports,
      ∀ m ∈ modulesOf itemJob.spec nestedConfig (.of ⟨"."⟩ nestedConfig) i e,
        ModuleNames nestedConfig ⟨"./app"⟩ m.name m.file := by
  have hsettings : ∀ g ∈ settings nestedConfig, IsWay g := by decide +kernel
  have hidentifiers : ∀ e ∈ itemJob.spec.entities,
      Python.isIdentifier e.className = true ∧ Python.isIdentifier e.moduleName = true := by
    decide +kernel
  have hrelative : ∀ g ∈ settings nestedConfig, (Path.mk g).isAbsolute = false := by decide +kernel
  refine ⟨hsettings, fun e he i m hm => ?_⟩
  obtain ⟨hclass, hmodule⟩ := hidentifiers e he
  obtain ⟨-, hmodules, -⟩ :=
    imports_name_the_files_iff he hclass hmodule hsettings ⟨"."⟩ i (.ofText "/s")
  refine (hmodules m hm).1.mpr (Or.inl (hrelative _ ?_))
  simp only [modulesOf, List.mem_cons, List.not_mem_nil, or_false] at hm
  rcases hm with rfl | rfl | rfl | rfl | rfl | rfl | rfl | rfl | rfl <;> simp [settings]

def slashedConfig : Config := { genPaths := { models := "/models" } }

/-- The records of an application in `/p` are imported from `app.models` and written to `/models`. -/
theorem slashed_setting_leaves_application : (∀ g ∈ settings slashedConfig, IsWay g) ∧
    ("/models", "app.models", ⟨"/models"⟩) ∈ packagesOf slashedConfig (.of ⟨"/p"⟩ slashedConfig) ∧
    ¬ PackageNames slashedConfig ⟨"/p/app"⟩ "app.models" ⟨"/models"⟩ := by
  have hsettings : ∀ g ∈ settings slashedConfig, IsWay g := by decide +kernel
  have hmem : ("/models", "app.models", ⟨"/models"⟩) ∈
      packagesOf slashedConfig (.of ⟨"/p"⟩ slashedConfig) := by decide +kernel
  refine ⟨hsettings, hmem, fun hnames => ?_⟩
  have hstays : Stays ⟨"/p/app"⟩ "/models" := (packageNames_of_mem_packagesOf hsettings hmem).mp hnames
  revert hstays
  unfold Stays
  decide +kernel

end Generation

end CrudBackend
