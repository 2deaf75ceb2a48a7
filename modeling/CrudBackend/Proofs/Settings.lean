import CrudBackend.Config.Overlay
import CrudBackend.Proofs.Records

/-!
A configuration setting by setting. Each setting has a place of its own in a document, a key or a key
of a section. What stands there counts, and if nothing does the built-in value; only the built-in
imports are not fixed, for they belong to the package of the application. So documents that agree at
the place of a setting, whatever they say elsewhere and in whichever order, give it the same value.
-/

namespace CrudBackend

open Json (Edit Fills Keyed RecordShape ShapeFault asList asRecord asString entriesOf
  fills_of_bind optional valueAt)

/-! ### Fields of overlays -/

theorem GenPathsOverlay.fills :
    Fills put "enums" asString enums ∧ Fills put "models" asString models ∧
    Fills put "schemas" asString schemas ∧ Fills put "services" asString services ∧
    Fills put "api" asString api := by
  -- each field is compared with each key that is put
  refine ⟨?_, ?_, ?_, ?_, ?_⟩ <;> intro o key v o' h <;> unfold put at h <;> split at h <;>
    first | exact fills_of_bind (fun x hx => by simp [hx]) h | (cases h; simp_all)

theorem ImportsOverlay.fills : Fills put "base" asString base ∧ Fills put "deps" asString deps ∧
    Fills put "res" asString res := by
  refine ⟨?_, ?_, ?_⟩ <;> intro o key v o' h <;> unfold put at h <;> split at h <;>
    first | exact fills_of_bind (fun x hx => by simp [hx]) h | (cases h; simp_all)

theorem RoutesOverlay.fills : Fills put "prefix_template" asString prefixTemplate ∧
    Fills put "tag_template" asString tagTemplate := by
  refine ⟨?_, ?_⟩ <;> intro o key v o' h <;> unfold put at h <;> split at h <;>
    first | exact fills_of_bind (fun x hx => by simp [hx]) h | (cases h; simp_all)

theorem ConfigOverlay.fills :
    Fills put "app_dir" asString appDir ∧ Fills put "app_pkg" asString appPkg ∧
    Fills put "gen_paths" GenPathsOverlay.ofJson genPaths ∧
    Fills put "imports" ImportsOverlay.ofJson imports ∧
    Fills put "api" RoutesOverlay.ofJson routes ∧
    Fills put "extensions" (asList asString) extensions := by
  refine ⟨?_, ?_, ?_, ?_, ?_, ?_⟩ <;> intro o key v o' h <;> unfold put at h <;> split at h <;>
    first | exact fills_of_bind (fun x hx => by simp [hx]) h | (cases h; simp_all)

/-! ### Settings -/

inductive Setting where
  | appDir
  | appPkg
  | enumsDir
  | modelsDir
  | schemasDir
  | servicesDir
  | apiDir
  | base
  | deps
  | res
  | prefixTemplate
  | tagTemplate
  deriving DecidableEq

namespace Setting

def of (c : Config) : Setting → String
  | appDir => c.appDir
  | appPkg => c.appPkg
  | enumsDir => c.genPaths.enums
  | modelsDir => c.genPaths.models
  | schemasDir => c.genPaths.schemas
  | servicesDir => c.genPaths.services
  | apiDir => c.genPaths.api
  | base => c.imports.base
  | deps => c.imports.deps
  | res => c.imports.res
  | prefixTemplate => c.routes.prefixTemplate
  | tagTemplate => c.routes.tagTemplate

def builtIn (pkg : String) (x : Setting) : String := of { imports := .ofPackage pkg } x

def IsImport (x : Setting) : Prop := x = base ∨ x = deps ∨ x = res

def key : Setting → String
  | appDir => "app_dir"
  | appPkg => "app_pkg"
  | enumsDir | modelsDir | schemasDir | servicesDir | apiDir => "gen_paths"
  | base | deps | res => "imports"
  | prefixTemplate | tagTemplate => "api"

/-- The fields of the section of the setting, if it stands in one, and its key there. -/
def within? : Setting → Option (RecordShape × String)
  | appDir | appPkg => none
  | enumsDir => some (GenPathsOverlay.shape, "enums")
  | modelsDir => some (GenPathsOverlay.shape, "models")
  | schemasDir => some (GenPathsOverlay.shape, "schemas")
  | servicesDir => some (GenPathsOverlay.shape, "services")
  | apiDir => some (GenPathsOverlay.shape, "api")
  | base => some (ImportsOverlay.shape, "base")
  | deps => some (ImportsOverlay.shape, "deps")
  | res => some (ImportsOverlay.shape, "res")
  | prefixTemplate => some (RoutesOverlay.shape, "prefix_template")
  | tagTemplate => some (RoutesOverlay.shape, "tag_template")

/-- The value at the place of the setting in a document. A section that is an array counts as its
items under its fields in order. -/
def valueIn (members : List (String × Json)) (x : Setting) : Json :=
  match x.within? with
  | none => valueAt x.key members
  | some (shape, key) => valueAt key (entriesOf shape (valueAt x.key members))

def overlaid (o : ConfigOverlay) : Setting → Option String
  | appDir => o.appDir
  | appPkg => o.appPkg
  | enumsDir => (o.genPaths.getD {}).enums
  | modelsDir => (o.genPaths.getD {}).models
  | schemasDir => (o.genPaths.getD {}).schemas
  | servicesDir => (o.genPaths.getD {}).services
  | apiDir => (o.genPaths.getD {}).api
  | base => (o.imports.getD {}).base
  | deps => (o.imports.getD {}).deps
  | res => (o.imports.getD {}).res
  | prefixTemplate => (o.routes.getD {}).prefixTemplate
  | tagTemplate => (o.routes.getD {}).tagTemplate

/-- A text overrides the built-in value, and null does not. -/
inductive Overrides (builtIn : String) : Json → String → Prop
  | given (s : String) : Overrides builtIn (.string s) s
  | missing : Overrides builtIn .null builtIn

variable {x : Setting} {o : ConfigOverlay} {members members' : List (String × Json)}

theorem of_toConfig (o : ConfigOverlay) (x : Setting) :
    x.of o.toConfig = (x.overlaid o).getD (x.builtIn o.toConfig.appPkg) := by
  cases x <;> rfl

theorem overrides_of_optional {v : Json} {text : Option String} {builtIn : String}
    (h : optional asString v = .ok text) : Overrides builtIn v (text.getD builtIn) := by
  cases v with
  | null =>
    cases h
    exact .missing
  | string s =>
    cases h
    exact .given s
  | _ => cases h

/-- The fields of an overlay have what stands under their keys. -/
theorem optional_valueAt (hmembers : Keyed (.object members))
    (h : ConfigOverlay.ofJson (.object members) = .ok o) {β : Type}
    {read : Json → Except ShapeFault β} {get : ConfigOverlay → Option β} {key : String}
    (hfills : Fills ConfigOverlay.put key read get) (hkey : key ∈ ConfigOverlay.shape.fields)
    (hblank : get {} = none) : optional read (valueAt key members) = .ok (get o) :=
  hfills.of_asRecord hkey (by decide) hblank hmembers (mapError_eq_ok.mp h)

/-- An overlay has what stands at the place of the setting. -/
theorem optional_valueIn (hmembers : Keyed (.object members))
    (h : ConfigOverlay.ofJson (.object members) = .ok o) (x : Setting) :
    optional asString (x.valueIn members) = .ok (x.overlaid o) := by
  obtain ⟨happDir, happPkg, hgenPaths, himports, hroutes, -⟩ := ConfigOverlay.fills
  have hpaths := optional_valueAt hmembers h hgenPaths (by decide) rfl
  have htargets := optional_valueAt hmembers h himports (by decide) rfl
  have htemplates := optional_valueAt hmembers h hroutes (by decide) rfl
  obtain ⟨henums, hmodels, hschemas, hservices, hapi⟩ := GenPathsOverlay.fills
  obtain ⟨hbase, hdeps, hres⟩ := ImportsOverlay.fills
  obtain ⟨hroute, htag⟩ := RoutesOverlay.fills
  have hkeyed := hmembers.valueAt
  cases x with
  | appDir => exact optional_valueAt hmembers h happDir (by decide) rfl
  | appPkg => exact optional_valueAt hmembers h happPkg (by decide) rfl
  | enumsDir => exact henums.of_optional (by decide) (by decide) rfl (hkeyed _) hpaths
  | modelsDir => exact hmodels.of_optional (by decide) (by decide) rfl (hkeyed _) hpaths
  | schemasDir => exact hschemas.of_optional (by decide) (by decide) rfl (hkeyed _) hpaths
  | servicesDir => exact hservices.of_optional (by decide) (by decide) rfl (hkeyed _) hpaths
  | apiDir => exact hapi.of_optional (by decide) (by decide) rfl (hkeyed _) hpaths
  | base => exact hbase.of_optional (by decide) (by decide) rfl (hkeyed _) htargets
  | deps => exact hdeps.of_optional (by decide) (by decide) rfl (hkeyed _) htargets
  | res => exact hres.of_optional (by decide) (by decide) rfl (hkeyed _) htargets
  | prefixTemplate => exact hroute.of_optional (by decide) (by decide) rfl (hkeyed _) htemplates
  | tagTemplate => exact htag.of_optional (by decide) (by decide) rfl (hkeyed _) htemplates

/-- An edit that leaves the place of the setting alone, in the document and in its section. -/
def LeftAlone (x : Setting) : List (String × Json) → List (String × Json) → Prop :=
  Edit x.key (x.within?.map Prod.snd)

theorem valueIn_of_leftAlone (hmembers : Keyed (.object members))
    (h : x.LeftAlone members members') : x.valueIn members' = x.valueIn members := by
  unfold LeftAlone at h
  unfold valueIn
  cases hwithin : x.within? with
  | none =>
    rw [hwithin] at h
    exact h.valueAt_eq hmembers
  | some place =>
    rw [hwithin] at h
    exact h.valueAt_within_eq hmembers place.1

theorem Overrides.eq_of_builtIn {builtIn builtIn' s s' : String} {v : Json}
    (h : Overrides builtIn v s) (h' : Overrides builtIn' v s') (hb : v = .null → builtIn' = builtIn) :
    s' = s := by
  cases h with
  | given =>
    cases h'
    rfl
  | missing =>
    cases h'
    exact hb rfl

theorem builtIn_eq_of_not_isImport (h : ¬ x.IsImport) (pkg pkg' : String) :
    x.builtIn pkg = x.builtIn pkg' := by
  cases x with
  | base => exact absurd (Or.inl rfl) h
  | deps => exact absurd (Or.inr (Or.inl rfl)) h
  | res => exact absurd (Or.inr (Or.inr rfl)) h
  | _ => rfl

end Setting

/-! ### Extensions -/

/-- Entities are listed by their names, which are trimmed, and null lists none. -/
inductive ListsNames : Json → List String → Prop
  | names (texts : List String) : ListsNames (.array (texts.map .string)) (texts.map Text.trim)
  | missing : ListsNames .null []

namespace ListsNames

variable {v : Json} {names names' : List String}

theorem eq_map_of_mapM {items : List Json} {texts : List String}
    (h : items.mapM asString = .ok texts) : items = texts.map .string := by
  have hall := mapM_eq_ok_iff.mp h
  clear h
  induction hall with
  | nil => rfl
  | @cons item text _ _ hitem _ ih =>
    cases item with
    | string s =>
      cases hitem
      rw [List.map_cons, ← ih]
    | _ => cases hitem

theorem of_optional {texts : Option (List String)} (h : optional (asList asString) v = .ok texts) :
    ListsNames v ((texts.getD []).map Text.trim) := by
  cases v with
  | null =>
    cases h
    exact .missing
  | array items =>
    cases hitems : items.mapM asString with
    | error fault =>
      simp only [Json.optional, asList, hitems] at h
      cases h
    | ok texts =>
      simp only [Json.optional, asList, hitems] at h
      cases h
      rw [eq_map_of_mapM hitems]
      exact .names texts
  | _ => cases h

theorem unique (h : ListsNames v names) (h' : ListsNames v names') : names = names' := by
  cases h with
  | missing =>
    cases h'
    rfl
  | names texts =>
    generalize hv : Json.array (texts.map .string) = v at h'
    cases h' with
    | missing => cases hv
    | names texts' =>
      have htexts : texts = texts' :=
        List.map_injective_iff.mpr (fun _ _ => Json.string.inj) (Json.array.inj hv)
      rw [htexts]

end ListsNames

namespace ConfigOverlay

/-- The text is a document with these members, and it is read as this configuration. -/
structure Reads (text : String) (members : List (String × Json)) (c : Config) : Prop where
  document : Json.parse? text = some (.object members)
  accepted : Config.parse text = .ok c

variable {text text' : String} {members members' : List (String × Json)} {c c' : Config}

theorem exists_reads (h : Config.parse text = .ok c) : ∃ members, Reads text members c := by
  have hparse := h
  unfold Config.parse at h
  cases hv : Json.parse? text with
  | none =>
    rw [hv] at h
    cases h
  | some v =>
    rw [hv] at h
    cases v with
    | object members => exact ⟨members, hv, hparse⟩
    | _ => cases h

theorem Reads.keyed (h : Reads text members c) : Keyed (.object members) :=
  Json.keyed_of_parse? h.document

theorem Reads.exists_overlay (h : Reads text members c) :
    ∃ o, ofJson (.object members) = .ok o ∧ c = o.toConfig := by
  have hparse := h.accepted
  rw [Config.parse, h.document] at hparse
  dsimp only at hparse
  cases hread : ofJson (.object members) with
  | error fault =>
    rw [hread] at hparse
    cases hparse
  | ok o =>
    rw [hread] at hparse
    cases hparse
    exact ⟨o, rfl, rfl⟩

theorem Reads.overrides (h : Reads text members c) (x : Setting) :
    Setting.Overrides (x.builtIn c.appPkg) (x.valueIn members) (x.of c) := by
  obtain ⟨o, ho, rfl⟩ := h.exists_overlay
  rw [Setting.of_toConfig]
  exact Setting.overrides_of_optional (Setting.optional_valueIn h.keyed ho x)

theorem Reads.listsNames (h : Reads text members c) :
    ListsNames (valueAt "extensions" members) c.extensions := by
  obtain ⟨o, ho, rfl⟩ := h.exists_overlay
  obtain ⟨-, -, -, -, -, hextensions⟩ := fills
  exact .of_optional (Setting.optional_valueAt h.keyed ho hextensions (by decide) rfl)

/-- Documents with the same value at the place of a setting give it the same value. Where an import
is built in, they need the same package, too. -/
theorem Reads.of_eq (h : Reads text members c) (h' : Reads text' members' c') {x : Setting}
    (hsame : x.valueIn members' = x.valueIn members)
    (hpkg : x.IsImport → x.valueIn members = .null → c'.appPkg = c.appPkg) : x.of c' = x.of c := by
  have hnew := h'.overrides x
  rw [hsame] at hnew
  refine (h.overrides x).eq_of_builtIn hnew fun hnull => ?_
  by_cases himport : x.IsImport
  · rw [hpkg himport hnull]
  · exact Setting.builtIn_eq_of_not_isImport himport _ _

/-- A document overrides the settings one by one. Each is the text at its own place, or what is built
in if there is none, which for an import depends on the package that is in force; and the extensions
are the names that are listed, trimmed. So it does not matter for a setting how the rest of a document
changes, in as many steps as one likes. -/
theorem settings_are_overridden_one_by_one :
    (∀ text c, Config.parse text = .ok c → ∃ members, Reads text members c) ∧
    ∀ text members c, Reads text members c →
      (∀ x : Setting, Setting.Overrides (x.builtIn c.appPkg) (x.valueIn members) (x.of c)) ∧
      ListsNames (valueAt "extensions" members) c.extensions ∧
      ∀ text' members' c', Reads text' members' c' →
        (∀ x : Setting, x.valueIn members' = x.valueIn members ∨
            Relation.ReflTransGen x.LeftAlone members members' →
          (x.IsImport → x.valueIn members = .null → c'.appPkg = c.appPkg) → x.of c' = x.of c) ∧
        (valueAt "extensions" members' = valueAt "extensions" members ∨
            Relation.ReflTransGen (Edit "extensions" none) members members' →
          c'.extensions = c.extensions) := by
  refine ⟨fun _ _ => exists_reads, fun text members c h => ⟨h.overrides, h.listsNames, ?_⟩⟩
  intro text' members' c' h'
  have hkeyed := h.keyed
  constructor
  · intro x hsame hpkg
    refine h.of_eq h' ?_ hpkg
    rcases hsame with hsame | hedits
    · exact hsame
    · exact Edit.eq_of_edits Setting.valueIn_of_leftAlone hkeyed hedits
  · intro hsame
    have hsame : valueAt "extensions" members' = valueAt "extensions" members := by
      rcases hsame with hsame | hedits
      · exact hsame
      · exact Edit.eq_of_edits (fun hmembers hedit => hedit.valueAt_eq hmembers) hkeyed hedits
    exact (hsame ▸ h'.listsNames).unique h.listsNames

def shopSettingsText : String :=
  "\x7b\"app_pkg\": \"shop\", \"imports\": \x7b\"res\": \"lib:R\"\x7d, " ++
  "\"gen_paths\": [\"kinds\", null, null, null, null], \"extensions\": [\" Order \"]\x7d"

def shopSettings : List (String × Json) :=
  [("app_pkg", .string "shop"), ("imports", .object [("res", .string "lib:R")]),
    ("gen_paths", .array [.string "kinds", .null, .null, .null, .null]),
    ("extensions", .array [.string " Order "])]

/-- The settings after a change of everything but the package and the wrapper. -/
def changedSettingsText : String :=
  "\x7b\"note\": true, \"extensions\": null, " ++
  "\"imports\": \x7b\"res\": \"lib:R\", \"deps\": \"own:get_db\"\x7d, \"app_pkg\": \"shop\"\x7d"

def changedSettings : List (String × Json) :=
  [("note", .bool true), ("extensions", .null),
    ("imports", .object [("res", .string "lib:R"), ("deps", .string "own:get_db")]),
    ("app_pkg", .string "shop")]

theorem shopSettings_changed :
    Relation.ReflTransGen Setting.res.LeftAlone shopSettings changedSettings := by
  have hdeps : Edit "res" none [("res", .string "lib:R")]
      (Json.putMember [("res", .string "lib:R")] "deps" (.string "own:get_db")) :=
    .put (by decide) (.string _)
  have hpaths (members) :
      Setting.res.LeftAlone members (members.filter fun m => m.1 ≠ "gen_paths") :=
    .remove (by decide)
  have hextensions (members) :
      Setting.res.LeftAlone members (Json.putMember members "extensions" .null) :=
    .put (by decide) .null
  have hnote (members) :
      Setting.res.LeftAlone members (Json.putMember members "note" (.bool true)) :=
    .put (by decide) (.bool true)
  refine .head (.within (.inl rfl) hdeps) (.head (hpaths _) ?_)
  refine .head (hextensions _) (.head (hnote _) ?_)
  exact .single (.reorder (List.reverse_perm changedSettings))

theorem wrapper_is_kept : ∃ c c', Reads shopSettingsText shopSettings c ∧
    Reads changedSettingsText changedSettings c' ∧
    Relation.ReflTransGen Setting.res.LeftAlone shopSettings changedSettings ∧
    Setting.res.of c' = Setting.res.of c ∧
    Setting.Overrides (Setting.base.builtIn "shop") .null "shop.models.base:Base" ∧
    Setting.Overrides (Setting.enumsDir.builtIn "shop") (.string "kinds") c.genPaths.enums ∧
    ListsNames (.array [.string " Order "]) c.extensions := by
  have htokens : Json.tokens shopSettingsText.toList = some [.openObject, .string "app_pkg", .colon,
      .string "shop", .comma, .string "imports", .colon, .openObject, .string "res", .colon,
      .string "lib:R", .closeObject, .comma, .string "gen_paths", .colon, .openArray, .string "kinds",
      .comma, .null, .comma, .null, .comma, .null, .comma, .null, .closeArray, .comma,
      .string "extensions", .colon, .openArray, .string " Order ", .closeArray, .closeObject] := by
    decide +kernel
  have htokens' : Json.tokens changedSettingsText.toList = some [.openObject, .string "note", .colon,
      .bool true, .comma, .string "extensions", .colon, .null, .comma, .string "imports", .colon,
      .openObject, .string "res", .colon, .string "lib:R", .comma, .string "deps", .colon,
      .string "own:get_db", .closeObject, .comma, .string "app_pkg", .colon, .string "shop",
      .closeObject] := by
    decide +kernel
  have hdocument : Json.parse? shopSettingsText = some (.object shopSettings) := by
    rw [Json.parse?, htokens]
    rfl
  have hdocument' : Json.parse? changedSettingsText = some (.object changedSettings) := by
    rw [Json.parse?, htokens']
    rfl
  have hreads : Reads shopSettingsText shopSettings
      { appPkg := "shop", genPaths := { enums := "kinds" },
        imports := { ImportTexts.ofPackage "shop" with res := "lib:R" }, extensions := ["Order"] } :=
    ⟨hdocument, by rw [Config.parse, hdocument]; rfl⟩
  have hreads' : Reads changedSettingsText changedSettings
      { appPkg := "shop"
        imports := { ImportTexts.ofPackage "shop" with deps := "own:get_db", res := "lib:R" } } :=
    ⟨hdocument', by rw [Config.parse, hdocument']; rfl⟩
  obtain ⟨hsettings, hextensions, hchanges⟩ := settings_are_overridden_one_by_one.2 _ _ _ hreads
  obtain ⟨hkept, -⟩ := hchanges _ _ _ hreads'
  have hres := hkept .res (.inr shopSettings_changed) fun _ _ => rfl
  exact ⟨_, _, hreads, hreads', shopSettings_changed, hres, hsettings .base, hsettings .enumsDir,
    hextensions⟩

end ConfigOverlay

end CrudBackend
