import CrudBackend.Proofs.Reading
import Mathlib.Data.List.DropRight

/-!
Which documents become specifications, and what holds of those that do. Descriptors are brought into
a normal form: names are trimmed, lists do not nest, and only what is of an enumeration type names an
enumeration. The checks then ask whether the specification is consistent, and a document whose parts
have a normal form is accepted if and only if it is.
-/

namespace CrudBackend

/-! ### Trimmed texts -/

namespace Text

/-- There are no blanks at the ends of the text, and something is between them. -/
structure IsNeat (s : String) : Prop where
  not_empty : s ≠ ""
  trim_eq : trim s = s

theorem trimmed_trimmed (cs : List Char) : trimmed (trimmed cs) = trimmed cs := by
  have hfront : (trimmed cs).dropWhile isBlank = trimmed cs := by
    rw [List.dropWhile_eq_self_iff]
    intro hlen
    -- trimming the end leaves the beginning, which the trimming before has made solid
    have hbegin : trimmed cs <+: cs.dropWhile isBlank := List.rdropWhile_prefix _ _
    have hlong : 0 < (cs.dropWhile isBlank).length := hlen.trans_le hbegin.length_le
    rw [hbegin.getElem hlen]
    exact List.dropWhile_get_zero_not _ _ hlong
  calc trimmed (trimmed cs) = withoutTrailingBlanks (trimmed cs) := by rw [trimmed, hfront]
    _ = trimmed cs := List.rdropWhile_idempotent _ _

variable {s t : String} {o : Option String}

theorem trim_trim (s : String) : trim (trim s) = trim s := by
  rw [trim, trim, String.toList_ofList, trimmed_trimmed]

theorem isNeat_of_nonBlank? (h : nonBlank? s = some t) : IsNeat t := by
  rw [nonBlank?] at h
  split at h
  · cases h
  · next hne =>
    cases h
    exact ⟨hne, trim_trim s⟩

theorem isNeat_of_filled? (h : filled? o = some t) : IsNeat t := by
  obtain ⟨s, -, hs⟩ := Option.bind_eq_some_iff.mp h
  exact isNeat_of_nonBlank? hs

theorem isNeat_filled?_getD (o : Option String) (ht : IsNeat t) : IsNeat ((filled? o).getD t) := by
  cases h : filled? o with
  | none => exact ht
  | some s => exact isNeat_of_filled? h

end Text

open Text

/-! ### Normal forms -/

def FieldType.IsFlat (type : FieldType) : Prop := ∀ element, type ≠ .list (.list element)

theorem FieldType.scalar_ne_list (tag : String) (element : FieldType) :
    scalar tag ≠ list element := by
  unfold scalar
  split_ifs <;> exact fun h => FieldType.noConfusion h

theorem FieldType.isFlat_parse (tag : String) : (parse tag).IsFlat := by
  intro element
  rw [parse]
  split
  · exact fun h => scalar_ne_list _ _ (FieldType.list.inj h)
  · exact scalar_ne_list _ _

/-- The parts of an entity have the form that descriptors are brought into. -/
structure Entity.Normal (e : Entity) : Prop where
  moduleName : IsNeat e.moduleName
  perms : ∀ a ∈ e.apis, ∀ perm ∈ a.requiredPerms, IsNeat perm
  fieldTypes : ∀ f ∈ e.fields, f.type.IsFlat
  paramTypes : ∀ a ∈ e.apis, ∀ p ∈ a.params, p.type.IsFlat
  /-- Only what is of an enumeration type names an enumeration. -/
  fieldEnums : ∀ f ∈ e.fields, f.type ≠ .enumeration → f.enumName = none
  paramEnums : ∀ a ∈ e.apis, ∀ p ∈ a.params, p.type ≠ .enumeration → p.enumName = none

theorem FieldType.isEnum_iff {type : FieldType} : type.isEnum = true ↔ type = .enumeration := by
  cases type <;> simp [isEnum]

theorem enumReference_eq_none {type : FieldType} (h : type ≠ .enumeration) (name : Option String) :
    enumReference type name = none := by
  rw [enumReference, if_neg (mt FieldType.isEnum_iff.mp h)]

theorem Field.normal_ofDescriptor {d : FieldDescriptor} {f : Field}
    (h : Field.ofDescriptor d = .ok f) :
    f.type.IsFlat ∧ (f.type ≠ .enumeration → f.enumName = none) := by
  rw [ofDescriptor] at h
  obtain ⟨length, -, h⟩ := bindExcept_eq_ok.mp h
  cases h
  exact ⟨FieldType.isFlat_parse _, fun hne => enumReference_eq_none hne _⟩

theorem Param.normal_ofDescriptor (d : ParamDescriptor) :
    (Param.ofDescriptor d).type.IsFlat ∧
      ((Param.ofDescriptor d).type ≠ .enumeration → (Param.ofDescriptor d).enumName = none) :=
  ⟨FieldType.isFlat_parse _, fun hne => enumReference_eq_none hne _⟩

theorem isNeat_of_mem_permissionsOf {values : Option (List Json)} {perm : String}
    (h : perm ∈ permissionsOf values) : IsNeat perm := by
  obtain ⟨v, -, hv⟩ := List.mem_filterMap.mp h
  exact isNeat_of_nonBlank? hv

theorem Api.normal_ofDescriptor {className : String} {d : ApiDescriptor} {a : Api}
    (h : Api.ofDescriptor className d = .ok a) :
    (∀ perm ∈ a.requiredPerms, IsNeat perm) ∧
      ∀ p ∈ a.params, p.type.IsFlat ∧ (p.type ≠ .enumeration → p.enumName = none) := by
  rw [ofDescriptor] at h
  obtain ⟨kind, -, h⟩ := bindExcept_eq_ok.mp h
  cases h
  refine ⟨fun perm hperm => isNeat_of_mem_permissionsOf hperm, ?_⟩
  intro p hp
  cases kind with
  | custom =>
    obtain ⟨d, -, rfl⟩ := List.mem_map.mp hp
    exact Param.normal_ofDescriptor d
  | _ => cases hp

theorem Entity.normal_ofDescriptor {d : EntityDescriptor} {e : Entity}
    (h : Entity.ofDescriptor d = .ok e) : e.Normal := by
  rw [ofDescriptor] at h
  obtain ⟨fields, hfields, h⟩ := bindExcept_eq_ok.mp h
  obtain ⟨apis, hapis, h⟩ := bindExcept_eq_ok.mp h
  cases h
  have hfield : ∀ f ∈ fields, f.type.IsFlat ∧ (f.type ≠ .enumeration → f.enumName = none) := by
    intro f hf
    obtain ⟨d, -, hd⟩ := exists_of_mem_mapM hfields hf
    exact Field.normal_ofDescriptor hd
  have hapi : ∀ a ∈ apis, (∀ perm ∈ a.requiredPerms, IsNeat perm) ∧
      ∀ p ∈ a.params, p.type.IsFlat ∧ (p.type ≠ .enumeration → p.enumName = none) := by
    intro a ha
    obtain ⟨d, -, hd⟩ := exists_of_mem_mapM hapis ha
    exact Api.normal_ofDescriptor hd
  exact {
    moduleName := isNeat_filled?_getD _ ⟨by decide, by decide⟩
    perms := fun a ha => (hapi a ha).1
    fieldTypes := fun f hf => (hfield f hf).1
    paramTypes := fun a ha p hp => ((hapi a ha).2 p hp).1
    fieldEnums := fun f hf => (hfield f hf).2
    paramEnums := fun a ha p hp => ((hapi a ha).2 p hp).2 }

/-! ### The names in the table of enumerations -/

namespace EnumTable

variable {t t' : EnumTable} {name : String}

def Named (t : EnumTable) : Prop := ∀ x ∈ t, x.2.name = x.1

theorem name_ofDescriptors {values : List ValueDescriptor} {d : EnumDef}
    (h : EnumDef.ofDescriptors name values = .ok d) : d.name = name := by
  rw [EnumDef.ofDescriptors] at h
  obtain ⟨vs, -, h⟩ := bindExcept_eq_ok.mp h
  cases h
  rfl

theorem named_ofDeclared {declared : List (String × List ValueDescriptor)}
    (h : ofDeclared declared = .ok t) : t.Named := by
  induction declared generalizing t with
  | nil =>
    cases h
    exact List.forall_mem_nil _
  | cons x rest ih =>
    rw [ofDeclared] at h
    obtain ⟨d, hd, h⟩ := bindExcept_eq_ok.mp h
    obtain ⟨more, hmore, h⟩ := bindExcept_eq_ok.mp h
    cases h
    exact List.forall_mem_cons.mpr ⟨name_ofDescriptors hd, ih hmore⟩

theorem named_collect {fields : List FieldDescriptor} (ht : t.Named)
    (h : collect t fields = .ok t') : t'.Named := by
  induction fields generalizing t with
  | nil =>
    cases h
    exact ht
  | cons f rest ih =>
    rw [collect] at h
    split at h
    · exact ih ht h
    · split at h
      · exact ih ht h
      · obtain ⟨d, hd, h⟩ := bindExcept_eq_ok.mp h
        refine ih ?_ h
        intro x hx
        rcases List.mem_append.mp hx with hx | hx
        · exact ht x hx
        · rw [List.mem_singleton.mp hx]
          exact name_ofDescriptors hd

theorem named_foldl_enter {carried : EnumTable} (ht : t.Named) (hcarried : carried.Named) :
    (carried.foldl enter t).Named := by
  induction carried generalizing t with
  | nil => exact ht
  | cons x rest ih =>
    obtain ⟨hx, hrest⟩ := List.forall_mem_cons.mp hcarried
    refine ih ?_ hrest
    rw [enter]
    split
    · exact ht
    · intro y hy
      rcases List.mem_append.mp hy with hy | hy
      · exact ht y hy
      · rw [List.mem_singleton.mp hy]
        exact hx

theorem named_ofDocument {d : Document} (h : ofDocument d = .ok t) : t.Named := by
  rw [ofDocument] at h
  obtain ⟨declared, hdeclared, h⟩ := bindExcept_eq_ok.mp h
  obtain ⟨carried, hcarried, h⟩ := bindExcept_eq_ok.mp h
  cases h
  exact named_foldl_enter (named_ofDeclared hdeclared)
    (named_collect (List.forall_mem_nil _) hcarried)

theorem has_iff : t.has name = true ↔ name ∈ t.map Prod.fst := by
  simp [has, List.any_eq_true]

end EnumTable

/-! ### Consistency -/

def EnumTable.Resolves (enums : EnumTable) (name : Option String) : Prop :=
  ∃ n, name = some n ∧ n ∈ enums.map Prod.fst

/-- What the checks ask for: every enumeration type resolves, unique constraints are about columns
that exist, and no two entities share their files. -/
structure Spec.Consistent (s : Spec) : Prop where
  fields : ∀ e ∈ s.entities, ∀ f ∈ e.fields, f.type = .enumeration →
    EnumTable.Resolves s.enums f.enumName
  params : ∀ e ∈ s.entities, ∀ a ∈ e.apis, ∀ p ∈ a.params, p.type = .enumeration →
    EnumTable.Resolves s.enums p.enumName
  columns : ∀ e ∈ s.entities, ∀ u ∈ e.uniqueConstraints, ∀ c ∈ u.columns, c ∈ e.columnNames
  files : (s.entities.map Entity.fileKey).Nodup

theorem EnumUse.check_eq_ok_iff {enums : EnumTable} {u : EnumUse} :
    u.check enums = .ok () ↔ EnumTable.Resolves enums u.enumName := by
  rw [check]
  cases hname : u.enumName with
  | none => simp [EnumTable.Resolves]
  | some name =>
    have hhas : enums.has name = true ↔ EnumTable.Resolves enums (some name) := by
      rw [EnumTable.has_iff]
      exact ⟨fun h => ⟨name, rfl, h⟩, fun ⟨n, hn, h⟩ => by rwa [Option.some.inj hn]⟩
    rw [← hhas]
    by_cases h : enums.has name = true <;> simp [h]

namespace Entity

variable {enums : EnumTable} {e : Entity}

theorem checkConstraint_eq_ok_iff {u : UniqueConstraint} :
    e.checkConstraint u = .ok () ↔ ∀ c ∈ u.columns, c ∈ e.columnNames := by
  rw [checkConstraint]
  cases h : u.columns.find? fun c => !e.columnNames.contains c with
  | none =>
    rw [List.find?_eq_none] at h
    simpa using h
  | some c =>
    have hmiss := List.find?_some h
    have hin := List.mem_of_find?_eq_some h
    simp only [reduceCtorEq, false_iff, not_forall]
    exact ⟨c, hin, by simpa using hmiss⟩

theorem fieldUses_check_iff : (∀ u ∈ e.fieldUses, u.check enums = .ok ()) ↔
    ∀ f ∈ e.fields, f.type = .enumeration → enums.Resolves f.enumName := by
  simp only [fieldUses, List.forall_mem_map, List.mem_filter, EnumUse.check_eq_ok_iff,
    FieldType.isEnum_iff, and_imp]

theorem paramUses_check_iff : (∀ u ∈ e.paramUses, u.check enums = .ok ()) ↔
    ∀ a ∈ e.apis, ∀ p ∈ a.params, p.type = .enumeration → enums.Resolves p.enumName := by
  simp only [paramUses, List.forall_mem_flatMap, List.forall_mem_map, List.mem_filter,
    EnumUse.check_eq_ok_iff, FieldType.isEnum_iff, and_imp]

theorem passes_iff : e.Passes enums ↔
    (∀ f ∈ e.fields, f.type = .enumeration → enums.Resolves f.enumName) ∧
    (∀ a ∈ e.apis, ∀ p ∈ a.params, p.type = .enumeration → enums.Resolves p.enumName) ∧
    ∀ u ∈ e.uniqueConstraints, ∀ c ∈ u.columns, c ∈ e.columnNames := by
  rw [← fieldUses_check_iff, ← paramUses_check_iff]
  constructor
  · exact fun h => ⟨h.fields, h.params, fun u hu => checkConstraint_eq_ok_iff.mp (h.constraints u hu)⟩
  · exact fun ⟨hf, hp, hu⟩ => ⟨hf, hp, fun u h => checkConstraint_eq_ok_iff.mpr (hu u h)⟩

end Entity

theorem Spec.check_eq_ok_iff {s : Spec} : s.check = .ok () ↔ s.Consistent := by
  rw [check, Entity.checkAll_eq_ok_iff]
  constructor
  · rintro ⟨hpass, hnodup, -⟩
    have hpass := fun e he => Entity.passes_iff.mp (hpass e he)
    exact ⟨fun e he => (hpass e he).1, fun e he => (hpass e he).2.1, fun e he => (hpass e he).2.2,
      hnodup⟩
  · intro h
    refine ⟨fun e he => Entity.passes_iff.mpr ⟨h.fields e he, h.params e he, h.columns e he⟩,
      h.files, fun e _ => List.not_mem_nil⟩

/-! ### Documents whose parts have a normal form -/

/-- The values of all enumerations, all lengths and all modes of the document can be read. -/
structure Document.Readable (d : Document) : Prop where
  declared : ∀ x ∈ d.enums, ∃ e, EnumDef.ofDescriptors x.1 x.2 = .ok e
  carried : ∀ f ∈ EnumTable.allFields d.entities, ∀ x, EnumTable.carried? f = some x →
    ∃ e, EnumDef.ofDescriptors x.1 x.2 = .ok e
  lengths : ∀ f ∈ EnumTable.allFields d.entities, ∃ n, readLength f.name f.length = .ok n
  modes : ∀ e ∈ d.entities, ∀ a ∈ e.apis.getD [],
    ∃ kind, ModeKind.parse (a.paramMode.getD "ENTITY") = .ok kind

namespace EnumTable

theorem exists_ofDeclared {declared : List (String × List ValueDescriptor)}
    (h : ∀ x ∈ declared, ∃ e, EnumDef.ofDescriptors x.1 x.2 = .ok e) :
    ∃ t, ofDeclared declared = .ok t := by
  induction declared with
  | nil => exact ⟨[], rfl⟩
  | cons x rest ih =>
    obtain ⟨⟨d, hd⟩, hrest⟩ := List.forall_mem_cons.mp h
    obtain ⟨t, ht⟩ := ih hrest
    exact ⟨(x.1, d) :: t, bindExcept_eq_ok.mpr ⟨d, hd, bindExcept_eq_ok.mpr ⟨t, ht, rfl⟩⟩⟩

theorem exists_collect {fields : List FieldDescriptor} (t : EnumTable)
    (h : ∀ f ∈ fields, ∀ x, carried? f = some x → ∃ e, EnumDef.ofDescriptors x.1 x.2 = .ok e) :
    ∃ t', collect t fields = .ok t' := by
  induction fields generalizing t with
  | nil => exact ⟨t, rfl⟩
  | cons f rest ih =>
    obtain ⟨hf, hrest⟩ := List.forall_mem_cons.mp h
    rw [collect]
    split
    · exact ih t hrest
    · next name values hcarried =>
      split
      · exact ih t hrest
      · obtain ⟨d, hd⟩ := hf _ hcarried
        obtain ⟨t', ht'⟩ := ih (t ++ [(name, d)]) hrest
        exact ⟨t', bindExcept_eq_ok.mpr ⟨d, hd, ht'⟩⟩

theorem exists_ofDocument {d : Document} (h : d.Readable) : ∃ t, ofDocument d = .ok t := by
  obtain ⟨declared, hdeclared⟩ := exists_ofDeclared h.declared
  obtain ⟨carried, hcarried⟩ := exists_collect [] h.carried
  exact ⟨carried.foldl enter declared, bindExcept_eq_ok.mpr ⟨declared, hdeclared,
    bindExcept_eq_ok.mpr ⟨carried, hcarried, rfl⟩⟩⟩

end EnumTable

theorem Field.exists_ofDescriptor {d : FieldDescriptor} (h : ∃ n, readLength d.name d.length = .ok n) :
    ∃ f, Field.ofDescriptor d = .ok f := by
  obtain ⟨n, hn⟩ := h
  exact ⟨_, bindExcept_eq_ok.mpr ⟨n, hn, rfl⟩⟩

theorem Api.exists_ofDescriptor (className : String) {d : ApiDescriptor}
    (h : ∃ kind, ModeKind.parse (d.paramMode.getD "ENTITY") = .ok kind) :
    ∃ a, Api.ofDescriptor className d = .ok a := by
  obtain ⟨kind, hkind⟩ := h
  exact ⟨_, bindExcept_eq_ok.mpr ⟨kind, mapError_eq_ok.mpr hkind, rfl⟩⟩

theorem Entity.exists_ofDescriptor {d : EntityDescriptor}
    (hlengths : ∀ f ∈ d.fields.getD [], ∃ n, readLength f.name f.length = .ok n)
    (hmodes : ∀ a ∈ d.apis.getD [], ∃ kind, ModeKind.parse (a.paramMode.getD "ENTITY") = .ok kind) :
    ∃ e, Entity.ofDescriptor d = .ok e := by
  obtain ⟨fields, hfields⟩ := exists_mapM fun f hf => Field.exists_ofDescriptor (hlengths f hf)
  obtain ⟨apis, hapis⟩ :=
    exists_mapM fun a ha => Api.exists_ofDescriptor (trim d.className) (hmodes a ha)
  exact ⟨_, bindExcept_eq_ok.mpr ⟨fields, hfields, bindExcept_eq_ok.mpr ⟨apis, hapis, rfl⟩⟩⟩

theorem Document.Readable.exists_entities {d : Document} (h : d.Readable) :
    ∃ entities, d.entities.mapM Entity.ofDescriptor = .ok entities :=
  exists_mapM fun e he => Entity.exists_ofDescriptor
    (fun f hf => h.lengths f (List.mem_flatMap.mpr ⟨e, he, hf⟩)) (h.modes e he)

namespace Spec

variable {v : Json} {d : Document} {s : Spec}

/-- With the normal forms at hand, only the checks can fail. -/
theorem ofDocument_eq_check (henums : EnumTable.ofDocument d = .ok s.enums)
    (hentities : d.entities.mapM Entity.ofDescriptor = .ok s.entities) :
    ofDocument d = s.check.map fun _ => s := by
  rw [ofDocument, henums, hentities]
  rfl

/-- An accepted specification is consistent, its entities are normal, and its enumerations are
entered under their names. A document whose parts can be read has one normal form, and is accepted
with it if and only if that is consistent. -/
theorem accepted_iff_consistent (v : Json) :
    (∀ s, ofJson v = .ok s → s.Consistent ∧ (∀ e ∈ s.entities, e.Normal) ∧
      ∀ x ∈ s.enums, x.2.name = x.1) ∧
    ∀ d, Document.ofJson v = .ok d → d.Readable →
      ∃ s : Spec, EnumTable.ofDocument d = .ok s.enums ∧
        d.entities.mapM Entity.ofDescriptor = .ok s.entities ∧
        (s.Consistent → ofJson v = .ok s) ∧
        (¬ s.Consistent → ∃ fault, ofJson v = .error (.invalid fault)) := by
  constructor
  · intro s h
    obtain ⟨d, -, h⟩ := bindExcept_eq_ok.mp h
    obtain ⟨henums, hentities, hcheck⟩ := ofDocument_eq_ok (mapError_eq_ok.mp h)
    refine ⟨check_eq_ok_iff.mp hcheck, ?_, EnumTable.named_ofDocument henums⟩
    intro e he
    obtain ⟨d, -, hd⟩ := exists_of_mem_mapM hentities he
    exact Entity.normal_ofDescriptor hd
  · intro d hd hreadable
    obtain ⟨enums, henums⟩ := EnumTable.exists_ofDocument hreadable
    obtain ⟨entities, hentities⟩ := hreadable.exists_entities
    have hv : ofJson v = ((check ⟨enums, entities⟩).map fun _ => ⟨enums, entities⟩).mapError
        SpecError.invalid := by
      rw [← ofDocument_eq_check henums hentities, ofJson, hd]
      rfl
    refine ⟨⟨enums, entities⟩, henums, hentities, ?_, ?_⟩
    · intro hs
      rw [hv, check_eq_ok_iff.mpr hs]
      rfl
    · intro hs
      cases hcheck : check ⟨enums, entities⟩ with
      | ok u => exact absurd (check_eq_ok_iff.mp hcheck) hs
      | error fault => exact ⟨fault, by rw [hv, hcheck]; rfl⟩

/-- One entity with an enumeration of its own and a constraint on one column. -/
def ticketJson (column : String) : Json :=
  .array [.object [("className", .string " Ticket"), ("tableName", .string "tickets"),
    ("moduleName", .string "desk "),
    ("fields", .array [.object [("name", .string "ticketState"), ("type", .string "enum"),
      ("enumName", .string "State"), ("enumValues", .array [.string "open", .string "done"])]]),
    ("uniqueConstraints", .array [.object [("columns", .array [.string column])]])]]

def ticketDocument (column : String) : Document where
  enums := []
  entities := [{
    className := " Ticket", tableName := "tickets", moduleName := some "desk "
    fields := some [{
      name := "ticketState", type := "enum", enumName := some "State"
      enumValues := some [.bare (.string "open"), .bare (.string "done")] }]
    uniqueConstraints := some [{ columns := some [column] }] }]

/-- Its normal form, where the column is in snake case. -/
def ticketSpec (column : String) : Spec where
  enums := [("State", ⟨"State", [⟨"open", ""⟩, ⟨"done", ""⟩]⟩)]
  entities := [⟨"Ticket", "tickets", "desk", "", "Ticket",
    [⟨"ticketState", .enumeration, false, none, some "State", none, none⟩],
    [⟨"", [column]⟩], [], true, true⟩]

theorem readable_ticketDocument (column : String) : (ticketDocument column).Readable where
  declared := List.forall_mem_nil _
  carried := by
    refine List.forall_mem_singleton.mpr fun x hx => ?_
    cases hx
    exact ⟨_, rfl⟩
  lengths := List.forall_mem_singleton.mpr ⟨none, rfl⟩
  modes := List.forall_mem_singleton.mpr (List.forall_mem_nil _)

/-- A constraint on a column that the entity has is accepted, and one on another column is not. -/
theorem ticketSpec_is_consistent :
    (ofJson (ticketJson "ticketState") = .ok (ticketSpec "ticket_state") ∧
      (ticketSpec "ticket_state").Consistent ∧
      ∀ e ∈ (ticketSpec "ticket_state").entities, e.Normal) ∧
    ¬ (ticketSpec "status").Consistent ∧
      ∃ fault, ofJson (ticketJson "status") = .error (.invalid fault) := by
  have hread : ∀ column, Document.ofJson (ticketJson column) = .ok (ticketDocument column) :=
    fun _ => rfl
  have hform : ∀ x ∈ [("ticketState", "ticket_state"), ("status", "status")],
      ((ticketDocument x.1).entities.mapM Entity.ofDescriptor).toOption =
        some (ticketSpec x.2).entities := by decide +kernel
  -- the normal form of either document is the one written down above
  have hspec : ∀ x ∈ [("ticketState", "ticket_state"), ("status", "status")],
      ((ticketSpec x.2).Consistent → ofJson (ticketJson x.1) = .ok (ticketSpec x.2)) ∧
        (¬ (ticketSpec x.2).Consistent →
          ∃ fault, ofJson (ticketJson x.1) = .error (.invalid fault)) := by
    intro x hx
    obtain ⟨⟨enums, entities⟩, henums, hentities, hverdict⟩ :=
      (accepted_iff_consistent (ticketJson x.1)).2 _ (hread x.1) (readable_ticketDocument x.1)
    cases henums
    cases (eq_ok_of_toOption (hform x hx)).symm.trans hentities
    exact hverdict
  have hconsistent : (ticketSpec "ticket_state").Consistent :=
    check_eq_ok_iff.mp (eq_ok_of_toOption (by decide +kernel))
  have hinconsistent : ¬ (ticketSpec "status").Consistent := fun h =>
    absurd (congrArg Except.toOption (check_eq_ok_iff.mpr h)) (by decide +kernel)
  have haccepted := (hspec _ (List.mem_cons_self ..)).1 hconsistent
  have hnormal := ((accepted_iff_consistent _).1 _ haccepted).2.1
  exact ⟨⟨haccepted, hconsistent, hnormal⟩, hinconsistent,
    (hspec ("status", "status") (by simp)).2 hinconsistent⟩

end Spec

end CrudBackend
