import CrudBackend.Proofs.LineBreaks
import CrudBackend.Proofs.Output.Targets
import CrudBackend.Proofs.Protection
import CrudBackend.Proofs.Reading

/-!
Free text cannot bring in lines. What is left of a specification when its free text is taken out,
its skeleton, decides how many lines each generated module has: a value, a label, a comment, a
default, a path or a permission stays on the line that it is written to, whatever it says.
-/

namespace CrudBackend

/-! ### Skeletons -/

/-- An enumeration without its raw values and labels. Only their number is left. -/
def EnumDef.skeleton (d : EnumDef) : EnumDef := { d with values := d.values.map fun _ => ⟨"", ""⟩ }

def Field.skeleton (f : Field) : Field := { f with defaultValue := none, comment := none }

def Param.skeleton (p : Param) : Param := { p with comment := none }

def Mode.skeleton : Mode → Mode
  | .custom requestName params => .custom requestName (params.map Param.skeleton)
  | mode => mode

def Api.skeleton (a : Api) : Api :=
  { a with
    summary := ""
    path := ""
    mode := a.mode.skeleton
    requiredPerms := a.requiredPerms.map fun _ => "" }

def UniqueConstraint.skeleton (u : UniqueConstraint) : UniqueConstraint := { u with name := "" }

/-- An entity without its texts. Of the comment it is left whether there is anything to say. -/
def Entity.skeleton (e : Entity) : Entity :=
  { e with
    tableName := ""
    comment := if Python.flattened e.comment = "" then "" else "comment"
    fields := e.fields.map Field.skeleton
    uniqueConstraints := e.uniqueConstraints.map UniqueConstraint.skeleton
    apis := e.apis.map Api.skeleton }

def Spec.skeleton (s : Spec) : Spec where
  enums := s.enums.map fun (name, d) => (name, d.skeleton)
  entities := s.entities.map Entity.skeleton

def Config.skeleton (c : Config) : Config := { c with routes := ⟨"", ""⟩ }

namespace Artifact

def Action.skeleton : Action → Action
  | custom method request params => custom method request (params.map Param.skeleton)
  | action => action

def Guard.skeleton : Guard → Guard
  | permission _ => permission ""
  | guard => guard

def Endpoint.skeleton (h : Endpoint) : Endpoint :=
  { h with
    path := ""
    summary := ""
    action := h.action.skeleton
    guards := h.guards.map Guard.skeleton }

variable (e : Entity) (deps : ImportTarget) (a : Api)

theorem actionOf?_skeleton (className : String) :
    actionOf? className a.skeleton = (actionOf? className a).map Action.skeleton := by
  obtain ⟨name, summary, path, mode, perms, auth⟩ := a
  cases mode with
  | entity =>
    simp only [actionOf?, Api.skeleton, Mode.skeleton, apply_ite (Option.map Action.skeleton)]
    rfl
  | query => rfl
  | ids => rfl
  | custom request params => rfl

theorem actions_skeleton :
    actions e.skeleton = (actions e).map fun (a, action) => (a.skeleton, action.skeleton) := by
  simp only [actions, Entity.skeleton, List.filterMap_map, List.map_filterMap]
  refine List.filterMap_congr fun a _ => ?_
  simp only [Function.comp_apply, actionOf?_skeleton, Option.map_map]
  rfl

theorem functionName_skeleton (action : Action) :
    action.skeleton.functionName = action.functionName := by
  cases action <;> rfl

theorem requiresAuth_skeleton : a.skeleton.requiresAuth = a.requiresAuth := by
  simp only [Api.requiresAuth, Api.skeleton, List.isEmpty_map]

theorem guardsOf_skeleton : guardsOf deps a.skeleton = (guardsOf deps a).map Guard.skeleton := by
  simp only [guardsOf, requiresAuth_skeleton]
  split_ifs <;> simp [Api.skeleton, Guard.skeleton, Function.comp_def]

theorem serviceOf_skeleton : serviceOf deps a.skeleton = serviceOf deps a := by
  simp only [serviceOf, requiresAuth_skeleton]

theorem endpoints_skeleton :
    endpoints e.skeleton deps = (endpoints e deps).map Endpoint.skeleton := by
  have hwanted : ((actions e).map fun (a, action) => (a.skeleton, action.skeleton)).map
      (fun (_, action) => action.functionName) = (actions e).map fun (_, action) =>
        action.functionName := by
    rw [List.map_map]
    exact List.map_congr_left fun entry _ => functionName_skeleton entry.2
  unfold endpoints
  simp only [actions_skeleton, hwanted, List.zipWith_map_right, List.map_zipWith]
  simp only [guardsOf_skeleton, serviceOf_skeleton]
  rfl

/-! ### Lines of the modules -/

section Enumerations

variable (d : EnumDef)

theorem length_membersOf : (membersOf d).length = d.values.length := by
  simp [membersOf, Naming.length_reserveAll]

theorem line_of_mem_membersOf {m : EnumMember} (hm : m ∈ membersOf d) :
    lineBreaks m.line = 0 ∧ EndsSolid m.line.toList := by
  rw [membersOf, ← List.map_uncurry_zip_eq_zipWith] at hm
  obtain ⟨⟨symbol, v⟩, hmem, hm⟩ := List.mem_map.mp hm
  have heq : m = ⟨symbol, v.value, Python.flattened v.label⟩ := hm.symm
  subst heq
  have hsymbols : ∀ name ∈ d.values.map fun v => Python.symbol v.value, lineBreaks name = 0 := by
    rw [List.forall_mem_map]
    exact fun v _ => Python.lineBreaks_symbol v.value
  have hsymbol : lineBreaks symbol = 0 :=
    Naming.forall_mem_reserveAll Naming.lineBreaks_numbered hsymbols symbol
      (List.of_mem_zip hmem).1
  have hequals : lineBreaks " = " = 0 := rfl
  have hhash : lineBreaks "  # " = 0 := rfl
  unfold EnumMember.line
  dsimp only
  split_ifs with hremark
  · rw [String.append_empty]
    refine ⟨?_, EndsSolid.append_string (Python.endsSolid_quote _) _⟩
    rw [lineBreaks_append, lineBreaks_append, hsymbol, hequals, Python.lineBreaks_quote]
  · refine ⟨?_, ((Python.endsSolid_flattened hremark).append_string _).append_string _⟩
    rw [lineBreaks_append, lineBreaks_append, lineBreaks_append, lineBreaks_append, hsymbol,
      hequals, hhash, Python.lineBreaks_quote, Python.lineBreaks_flattened]

/-- An enumeration takes three lines and one for each value; one line stands in for no values. -/
theorem height_enumClass : height (enumClass d) =
    height ["", "", "class " ++ d.name ++ "(str, Enum):"] + max 1 d.values.length := by
  rw [← length_membersOf, enumClass, height_append, height_indented]
  cases hmembers : membersOf d with
  | nil => rfl
  | cons m rest =>
    have hlines : height ((m :: rest).map EnumMember.line) = (m :: rest).length := by
      rw [← List.length_map EnumMember.line]
      refine height_eq_length ?_
      rw [List.forall_mem_map]
      exact fun m hm => (line_of_mem_membersOf d (hmembers ▸ hm)).1
    dsimp only
    rw [hlines, max_eq_right (by simp)]

theorem closed_enumClass : Closed (enumClass d) := by
  unfold enumClass
  refine Closed.append ?_ _
  cases hmembers : membersOf d with
  | nil => exact closed_singleton (endsSolid_of_getLast? (c := 's') rfl rfl)
  | cons m rest =>
    refine closed_of_forall ?_ (by simp)
    rw [List.forall_mem_map, List.forall_mem_map]
    exact fun m hm => (line_of_mem_membersOf d (hmembers ▸ hm)).2.append_string _

end Enumerations

theorem closed_enums (s : Spec) :
    Closed ("from enum import Enum" :: s.enums.flatMap fun (_, d) => enumClass d) := by
  have hfirst : EndsSolid "from enum import Enum".toList := endsSolid_of_getLast? (c := 'm') rfl rfl
  rw [← List.singleton_append]
  refine (closed_singleton hfirst).append_flatMap ?_ s.enums
  rintro ⟨_, d⟩
  exact closed_enumClass d

theorem lineBreaks_enums (s : Spec) : lineBreaks (enums s.skeleton) = lineBreaks (enums s) := by
  have hheight : ∀ entry : String × EnumDef,
      height (enumClass entry.2.skeleton) = height (enumClass entry.2) := by
    intro entry
    rw [height_enumClass, height_enumClass, EnumDef.skeleton, List.length_map]
  rw [enums, enums, lineBreaks_generated (closed_enums _), lineBreaks_generated (closed_enums _),
    height, height, Spec.skeleton, List.flatMap_map]
  exact congrArg _ (congrArg _ (height_flatMap_congr hheight s.enums))

theorem docText_eq_empty_iff (s : String) : Python.docText s = "" ↔ Python.flattened s = "" := by
  have hchar : ∀ c, Python.docChar c ≠ [] := by
    intro c
    unfold Python.docChar
    split_ifs <;> simp
  rw [Python.docText, ← String.toList_inj, ← String.toList_inj, String.toList_ofList,
    String.toList_empty, List.flatMap_eq_nil_iff]
  exact ⟨fun h => List.eq_nil_iff_forall_not_mem.mpr fun c hc => hchar c (h c hc),
    fun h c hc => absurd hc (h ▸ List.not_mem_nil)⟩

theorem height_docLines (comment : String) :
    height (docLines comment) = if Python.flattened comment = "" then 0 else 1 := by
  have hquotes : lineBreaks "\"\"\"" = 0 := rfl
  unfold docLines
  simp only [docText_eq_empty_iff]
  split_ifs
  · rfl
  · rw [height, lineBreaks_indented, lineBreaks_append, lineBreaks_append, hquotes,
      Python.lineBreaks_docText]
    rfl

theorem height_docLines_skeleton (e : Entity) :
    height (docLines e.skeleton.comment) = height (docLines e.comment) := by
  rw [height_docLines, height_docLines, Entity.skeleton]
  dsimp only
  by_cases h : Python.flattened e.comment = ""
  · rw [if_pos h, if_pos h, if_pos (by decide)]
  · rw [if_neg h, if_neg h, if_neg (by decide)]

/-- Only the type of a column can bring line breaks into the arguments. -/
theorem lineBreaks_columnArguments (f : Field) :
    lineBreaks (commaSeparated (columnArguments f)) = lineBreaks f.columnType := by
  have hnullable : lineBreaks ("nullable=" ++ Python.bool f.nullable) = 0 := by
    rw [lineBreaks_append, Python.lineBreaks_bool]
    rfl
  have hdefault : ∀ v, lineBreaks ("default=" ++ Python.defaultLiteral v) = 0 := by
    intro v
    rw [lineBreaks_append, Python.lineBreaks_defaultLiteral]
    rfl
  have hcomment : ∀ c, lineBreaks ("comment=" ++ Python.quote c) = 0 := by
    intro c
    rw [lineBreaks_append, Python.lineBreaks_quote]
    rfl
  obtain ⟨others, hsplit, hothers⟩ : ∃ others, columnArguments f = f.columnType :: others ∧
      ∀ argument ∈ others, lineBreaks argument = 0 := by
    unfold columnArguments
    rw [List.cons_append, List.cons_append]
    refine ⟨_, rfl, ?_⟩
    simp only [List.forall_mem_append, List.forall_mem_singleton]
    refine ⟨⟨hnullable, ?_⟩, ?_⟩
    · cases f.defaultValue with
      | none => exact List.forall_mem_nil _
      | some v => exact List.forall_mem_singleton.mpr (hdefault v)
    · cases f.comment with
      | none => exact List.forall_mem_nil _
      | some c =>
        dsimp only
        split_ifs
        · exact List.forall_mem_nil _
        · exact List.forall_mem_singleton.mpr (hcomment c)
  have hcount := lineBreaks_commaSeparated (columnArguments f)
  rw [hsplit, height, height_eq_length hothers, List.length_cons] at hcount
  rw [hsplit]
  omega

theorem lineBreaks_columnLine (f : Field) :
    lineBreaks (columnLine f.skeleton) = lineBreaks (columnLine f) := by
  simp only [columnLine, lineBreaks_append, lineBreaks_columnArguments]
  rfl

theorem endsSolid_columnLine (f : Field) : EndsSolid (indented (columnLine f)).toList := by
  have hclosing : EndsSolid ")".toList := endsSolid_of_getLast? (c := ')') rfl rfl
  exact (hclosing.append_string _).append_string _

theorem lineBreaks_constraintLine (u : UniqueConstraint) :
    lineBreaks (constraintLine u.skeleton) = lineBreaks (constraintLine u) := by
  unfold constraintLine
  simp only [lineBreaks_append, Python.lineBreaks_quote]
  rfl

theorem height_constraintLines (us : List UniqueConstraint) :
    height (constraintLines (us.map UniqueConstraint.skeleton)) = height (constraintLines us) := by
  have hkept : (us.map UniqueConstraint.skeleton).filter (fun u => !u.columns.isEmpty) =
      (us.filter fun u => !u.columns.isEmpty).map UniqueConstraint.skeleton := List.filter_map
  unfold constraintLines
  rw [hkept]
  cases us.filter fun u => !u.columns.isEmpty with
  | nil => rfl
  | cons u rest =>
    have hkept : u.skeleton :: rest.map UniqueConstraint.skeleton =
        (u :: rest).map UniqueConstraint.skeleton := rfl
    rw [List.map_cons]
    dsimp only
    have hlines : height ((u :: rest).map fun u =>
        indented (indented (constraintLine u.skeleton)) ++ ",") =
        height ((u :: rest).map fun u => indented (indented (constraintLine u)) ++ ",") := by
      refine height_map_congr (fun u => ?_) _
      rw [lineBreaks_append, lineBreaks_append, lineBreaks_indented, lineBreaks_indented,
        lineBreaks_indented, lineBreaks_indented, lineBreaks_constraintLine]
    rw [height_append, height_append, height_append, height_append, hkept, List.map_map, ← hlines]
    rfl

theorem closed_append_constraintLines {lines : List String} (h : Closed lines)
    (us : List UniqueConstraint) : Closed (lines ++ constraintLines us) := by
  have hclosing : EndsSolid (indented ")").toList := endsSolid_of_getLast? (c := ')') rfl rfl
  unfold constraintLines
  split
  · rwa [List.append_nil]
  · exact ((closed_singleton hclosing).append _).append _

theorem lineBreaks_model (e : Entity) (l : Layout) (i : Imports) :
    lineBreaks (model e.skeleton l i) = lineBreaks (model e l i) := by
  have hcolumns : ∀ e : Entity, ∀ line ∈ e.fields.map fun f => indented (columnLine f),
      EndsSolid line.toList := by
    intro e
    rw [List.forall_mem_map]
    exact fun f _ => endsSolid_columnLine f
  have htable : ∀ e : Entity,
      Closed [indented ("__tablename__ = " ++ Python.quote e.tableName)] := fun e =>
    closed_singleton (((Python.endsSolid_quote _).append_string _).append_string _)
  have hname : ∀ e : Entity,
      lineBreaks (indented ("__tablename__ = " ++ Python.quote e.tableName)) =
        lineBreaks "__tablename__ = " := by
    intro e
    rw [lineBreaks_indented, lineBreaks_append, Python.lineBreaks_quote, Nat.add_zero]
  have hclass : e.skeleton.className = e.className := rfl
  have hmixins : mixinsOf e.skeleton = mixinsOf e := rfl
  have hconstraints : e.skeleton.uniqueConstraints =
      e.uniqueConstraints.map UniqueConstraint.skeleton := rfl
  have hfields : e.skeleton.fields = e.fields.map Field.skeleton := rfl
  have hlines : height (e.fields.map fun f => indented (columnLine f.skeleton)) =
      height (e.fields.map fun f => indented (columnLine f)) := by
    refine height_map_congr (fun f => ?_) _
    rw [lineBreaks_indented, lineBreaks_indented, lineBreaks_columnLine]
  -- without fields the blank line behind the head of the class is the last one, and trimmed away
  unfold model
  rw [lineBreaks_generated_append
      (closed_append_constraintLines ((htable _).append _) _) (hcolumns _),
    lineBreaks_generated_append
      (closed_append_constraintLines ((htable _).append _) _) (hcolumns _)]
  simp only [height_append, height_docLines_skeleton, hclass, hmixins, hconstraints,
    height_constraintLines, height, hname, hfields, List.map_map, Function.comp_def, hlines,
    List.map_eq_nil_iff]

theorem schema_skeleton (e : Entity) (l : Layout) : schema e.skeleton l = schema e l := by
  simp only [schema, Entity.skeleton, List.map_map]
  rfl

theorem service_skeleton (e : Entity) (l : Layout) (extended : Bool) :
    service e.skeleton l extended = service e l extended := by
  have hcolumns : e.skeleton.columnNames = e.columnNames := by
    simp only [Entity.columnNames, Entity.skeleton, List.map_map]
    rfl
  rw [service, hcolumns]
  rfl

section Endpoints

variable (className res : String)

theorem lineBreaks_paramLine (p : Param) :
    lineBreaks (paramLine p.skeleton) = lineBreaks (paramLine p) := by
  have hhash : lineBreaks "  # " = 0 := rfl
  have hremark : ∀ p : Param, lineBreaks (paramLine p) = lineBreaks (Naming.snakeCase p.name ++
      if p.required then ": " ++ p.type.hint p.enumName
      else ": Optional[" ++ p.type.hint p.enumName ++ "] = None") := by
    intro p
    unfold paramLine
    dsimp only
    rw [lineBreaks_append, Nat.add_eq_left]
    split_ifs
    · rfl
    · rw [lineBreaks_append, hhash, Python.lineBreaks_flattened]
  rw [hremark, hremark]
  rfl

theorem height_requestModel (action : Action) :
    height action.skeleton.requestModel = height action.requestModel := by
  cases action with
  | custom method request params =>
    have hparams : height (params.map fun p => indented (paramLine p.skeleton)) =
        height (params.map fun p => indented (paramLine p)) := by
      refine height_map_congr (fun p => ?_) _
      rw [lineBreaks_indented, lineBreaks_indented, lineBreaks_paramLine]
    simp only [Action.skeleton, Action.requestModel, height_append, List.map_map, Function.comp_def,
      hparams]
  | _ => rfl

theorem lineBreaks_guardsArgument (guards : List Guard) :
    lineBreaks (guardsArgument (guards.map Guard.skeleton)) = lineBreaks (guardsArgument guards) := by
  have htext : ∀ p, (Guard.permission p).text =
      "Depends(require_perm(" ++ Python.quote p ++ "))" := fun _ => rfl
  have hguard : ∀ g : Guard, lineBreaks g.skeleton.text = lineBreaks g.text := by
    intro g
    cases g with
    | context provider => rfl
    | permission p =>
      rw [Guard.skeleton, htext, htext]
      simp only [lineBreaks_append, Python.lineBreaks_quote]
  unfold guardsArgument
  rw [List.isEmpty_map]
  split_ifs
  · rfl
  · have hguards := lineBreaks_commaSeparated_congr hguard guards
    simp only [lineBreaks_append, List.map_map, Function.comp_def, hguards]

theorem height_lines (h : Endpoint) :
    height (h.skeleton.lines className res) = height (h.lines className res) := by
  have hrequest : h.skeleton.action.request className = h.action.request className := by
    rw [Endpoint.skeleton]
    cases h.action <;> rfl
  have hbody : h.skeleton.action.body res className = h.action.body res className := by
    rw [Endpoint.skeleton]
    cases h.action <;> rfl
  have hmodel : height h.skeleton.action.requestModel = height h.action.requestModel :=
    height_requestModel h.action
  have hguards : lineBreaks (guardsArgument h.skeleton.guards) =
      lineBreaks (guardsArgument h.guards) := lineBreaks_guardsArgument h.guards
  have hfunction : h.skeleton.function = h.function := rfl
  have hservice : h.skeleton.service = h.service := rfl
  simp only [Endpoint.lines, height_append, height, lineBreaks_append, Python.lineBreaks_quote,
    hrequest, hbody, hmodel, hguards, hfunction, hservice]

/-- A handler ends with a call. -/
theorem closed_body (action : Action) : Closed (action.body res className) := by
  cases action
  all_goals
    refine closed_of_getLast? rfl (endsSolid_of_getLast? (c := ')') ?_ rfl)
    simp only [List.getLast_cons_cons, List.getLast_singleton, String.toList_append,
      List.getLast?_append]
    rfl

theorem closed_lines (h : Endpoint) : Closed (h.lines className res) := by
  unfold Endpoint.lines
  exact ((closed_body className res h.action).append _).map_indented.append _

end Endpoints

theorem lineBreaks_api (e : Entity) (l : Layout) (i : Imports) (r : RouteTemplates) :
    lineBreaks (api e.skeleton l i ⟨"", ""⟩) = lineBreaks (api e l i r) := by
  have hclosing : EndsSolid "])".toList := endsSolid_of_getLast? (c := ')') rfl rfl
  have hclass : e.skeleton.className = e.className := rfl
  have hschema : l.schemaModule e.skeleton = l.schemaModule e := rfl
  have hservice : l.serviceModule e.skeleton = l.serviceModule e := rfl
  have hlines : height ((endpoints e i.deps).flatMap fun h =>
      h.skeleton.lines e.className i.res.name) =
      height ((endpoints e i.deps).flatMap (Endpoint.lines e.className i.res.name)) :=
    height_flatMap_congr (height_lines e.className i.res.name) _
  unfold api
  dsimp only
  rw [lineBreaks_generated (Closed.append_flatMap ?_ (closed_lines _ _) _),
    lineBreaks_generated (Closed.append_flatMap ?_ (closed_lines _ _) _)]
  simp only [height_append, height, lineBreaks_append, Python.lineBreaks_quote, hclass, hschema,
    hservice, endpoints_skeleton, List.flatMap_map, hlines]
  -- the line of the router stands before the endpoints
  all_goals
    refine Closed.append (closed_of_getLast? rfl ?_) _
    simp only [List.getLast_cons_cons, List.getLast_singleton]
    exact hclosing.append_string _

end Artifact

/-! ### Two runs -/

namespace Generation

open Artifact

def filesOf (c : Config) (l : Layout) (i : Imports) (e : Entity) : List (Path × String) :=
  (entityTexts c l i e).map fun (dir, ending, text) => (Layout.fileIn dir e ending, text)

/-- The generated files that say something of the specification: the enumerations, and the files of
each entity. -/
def renderedFiles (s : Spec) (c : Config) (root : Path) :
    Except ImportFault (List (Path × String)) :=
  c.resolveImports.map fun i =>
    ((Layout.of root c).enumsFile, enums s) :: s.entities.flatMap (filesOf c (.of root c) i)

def outline (file : Path × String) : Path × Nat := (file.1, lineBreaks file.2)

variable {s s' : Spec} {c c' : Config}

theorem outline_filesOf (c : Config) (l : Layout) (i : Imports) (e : Entity) :
    (filesOf c.skeleton l i e.skeleton).map outline = (filesOf c l i e).map outline := by
  have hextended : c.skeleton.hasExtension e.skeleton = c.hasExtension e := rfl
  have hroutes : c.skeleton.routes = ⟨"", ""⟩ := rfl
  have hfile : ∀ dir ending, Layout.fileIn dir e.skeleton ending = Layout.fileIn dir e ending :=
    fun _ _ => rfl
  simp only [filesOf, entityTexts, hextended, hroutes, schema_skeleton, service_skeleton,
    List.map_cons, hfile, outline, lineBreaks_model, lineBreaks_api e l i c.routes]

theorem outline_renderedFiles (s : Spec) (c : Config) (root : Path) :
    (renderedFiles s.skeleton c.skeleton root).map (List.map outline) =
      (renderedFiles s c root).map (List.map outline) := by
  have himports : c.skeleton.resolveImports = c.resolveImports := rfl
  have hlayout : Layout.of root c.skeleton = Layout.of root c := rfl
  have hentities : s.skeleton.entities = s.entities.map Entity.skeleton := rfl
  unfold renderedFiles
  rw [himports, hlayout, hentities]
  cases c.resolveImports with
  | error fault => simp only [Except.map]
  | ok i =>
    simp only [Except.map, List.map_cons, List.flatMap_map, List.map_flatMap, outline_filesOf]
    rw [outline, outline, lineBreaks_enums]

/-- Take two specifications and two configurations that are the same but for free text: for raw
values and labels, table names, comments of entities as long as both say something or both say
nothing, defaults and comments of fields, names of unique constraints, summaries, paths and
permissions of API entries, comments of parameters, and route templates. Then the same imports are
resolved or refused, and the same files are generated, file by file with the same number of line
breaks. -/
theorem free_text_adds_no_lines (hs : s.skeleton = s'.skeleton) (hc : c.skeleton = c'.skeleton)
    (root : Path) :
    (renderedFiles s c root).map (List.map outline) =
      (renderedFiles s' c' root).map (List.map outline) := by
  rw [← outline_renderedFiles s c, hs, hc, outline_renderedFiles]

/-- A document with one text wherever free text can stand. -/
def shipmentJson (text : String) : Json :=
  .object [("enums", .object [("Size", .array [.object [("value", .string text),
      ("label", .string text)]])]),
    ("entities", .array [.object [("className", .string "Shipment"), ("tableName", .string text),
      ("moduleName", .string "depot"), ("comment", .string text),
      ("fields", .array [.object [("name", .string "size"), ("type", .string "enum"),
        ("enumName", .string "Size"), ("defaultValue", .string text), ("comment", .string text)]]),
      ("uniqueConstraints", .array [.object [("name", .string text),
        ("columns", .array [.string "size"])]]),
      ("apis", .array [.object [("name", .string "send"), ("summary", .string text),
        ("path", .string text), ("paramMode", .string "CUSTOM"),
        ("params", .array [.object [("name", .string "note"), ("type", .string "String"),
          ("comment", .string text)]]),
        ("requiredPerms", .array [.string text])]])]])]

def shipmentSpec (text : String) : Spec where
  enums := [("Size", ⟨"Size", [⟨text, text⟩]⟩)]
  entities := [⟨"Shipment", text, "depot", text, "Shipment",
    [⟨"size", .enumeration, false, none, some "Size", some text, some text⟩], [⟨text, ["size"]⟩],
    [⟨"send", text, text, .custom none [⟨"note", .string, false, some text, none⟩], [text], false⟩],
    true, true⟩]

def textConfig (text : String) : Config := { routes := ⟨text, text⟩ }

theorem two_lines_add_no_lines :
    Spec.ofJson (shipmentJson "ready") = .ok (shipmentSpec "ready") ∧
    Spec.ofJson (shipmentJson "import\nos") = .ok (shipmentSpec "import\nos") ∧
    (renderedFiles (shipmentSpec "ready") (textConfig "ready") ⟨"."⟩).map (List.map outline) =
      (renderedFiles (shipmentSpec "import\nos") (textConfig "import\nos") ⟨"."⟩).map
        (List.map outline) := by
  have hspec : (shipmentSpec "ready").skeleton = (shipmentSpec "import\nos").skeleton := by
    decide +kernel
  have hconfig : (textConfig "ready").skeleton = (textConfig "import\nos").skeleton := rfl
  exact ⟨eq_ok_of_toOption (by decide +kernel), eq_ok_of_toOption (by decide +kernel),
    free_text_adds_no_lines hspec hconfig ⟨"."⟩⟩

end Generation

end CrudBackend
