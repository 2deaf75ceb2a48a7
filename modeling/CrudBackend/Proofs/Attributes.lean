import CrudBackend.Artifact.Model
import CrudBackend.Artifact.Schema
import CrudBackend.Artifact.Shared
import CrudBackend.Proofs.Acceptance
import CrudBackend.Python.Identifier

/-!
Attributes of the generated classes. A class has the attributes of its bases and then those that it
declares, and a name that comes twice hides what came first. Nothing is hidden in the record of an
entity and in the models to create, change and look for it if and only if the columns of its fields
are distinct, differ from its shared columns, and differ from the parameters of paging. The checks of
a specification do not look at this.
-/

namespace CrudBackend

namespace Artifact

/-! ### Reading classes -/

/-- The attribute that a line of a class declares: a name, indented once, with a colon behind it. -/
def attribute? : List Char → Option String
  | ' ' :: ' ' :: ' ' :: ' ' :: cs =>
    if (cs.dropWhile Python.continuesIdentifier).head? = some ':' then
      some (String.ofList (cs.takeWhile Python.continuesIdentifier))
    else none
  | _ => none

def isHeader : List Char → Bool
  | 'c' :: 'l' :: 'a' :: 's' :: 's' :: ' ' :: rest => rest.getLast? == some ':'
  | _ => false

def isInner (line : List Char) : Bool := line.isEmpty || line.head? == some ' '

/-- The classes of a module with the attributes that they declare. -/
def classesOf : List (List Char) → List (String × List String)
  | [] => []
  | line :: rest =>
    if isHeader line then
      (String.ofList line, (rest.takeWhile isInner).filterMap attribute?) :: classesOf rest
    else classesOf rest

section Reading

variable {line : List Char} {before body after : List (List Char)} {name : String}

theorem not_isHeader_of_isInner (h : isInner line = true) : isHeader line = false := by
  cases line with
  | nil => rfl
  | cons c cs =>
    have hc : c = ' ' := by simpa [isInner] using h
    subst hc
    rfl

theorem classesOf_cons (h : isHeader line = false) : classesOf (line :: after) = classesOf after := by
  rw [classesOf, h]
  rfl

theorem classesOf_append (hbefore : ∀ line ∈ before, isHeader line = false) :
    classesOf (before ++ after) = classesOf after := by
  induction before with
  | nil => rfl
  | cons line rest ih =>
    rw [List.cons_append, classesOf_cons (hbefore line (List.mem_cons_self ..))]
    exact ih fun other hother => hbefore other (List.mem_cons_of_mem _ hother)

theorem classesOf_block (hheader : isHeader line = true)
    (hbody : ∀ line ∈ body, isInner line = true)
    (hafter : ∀ line ∈ after.head?, isInner line = false) :
    classesOf (line :: (body ++ after)) =
      (String.ofList line, body.filterMap attribute?) :: classesOf after := by
  have htake : (body ++ after).takeWhile isInner = body := by
    rw [List.takeWhile_append_of_pos hbody]
    cases after with
    | nil => simp
    | cons line rest =>
      have hline : isInner line = false := hafter line rfl
      simp [hline]
  have hskip : classesOf (body ++ after) = classesOf after :=
    classesOf_append fun line hline => not_isHeader_of_isInner (hbody line hline)
  rw [classesOf, if_pos hheader, htake, hskip]

theorem toList_indented (line : String) :
    (indented line).toList = ' ' :: ' ' :: ' ' :: ' ' :: line.toList := by
  simp [indented]

theorem isInner_indented (line : String) : isInner (indented line).toList = true := by
  rw [toList_indented]
  rfl

/-- A name with a colon behind it is read back. -/
theorem attribute?_indented (name rest : String)
    (hname : ∀ c ∈ name.toList, Python.continuesIdentifier c = true) :
    attribute? (indented (name ++ ":" ++ rest)).toList = some name := by
  have hcs : (name ++ ":" ++ rest).toList = name.toList ++ ':' :: rest.toList := by simp
  have hstop : Python.continuesIdentifier ':' = false := rfl
  rw [toList_indented, hcs, attribute?, List.takeWhile_append_of_pos hname,
    List.dropWhile_append_of_pos hname]
  simp [hstop]

structure Silent (text : String) : Prop where
  isInner : isInner text.toList = true
  attribute? : attribute? text.toList = none

theorem silent_blank : Silent "" := ⟨rfl, rfl⟩

/-- What follows the indentation is neither a name nor a colon. -/
theorem silent_of_toList {text : String} {c : Char} {cs : List Char} (htext : text.toList = c :: cs)
    (hname : Python.continuesIdentifier c = false) (hcolon : c ≠ ':') : Silent (indented text) := by
  refine ⟨isInner_indented text, ?_⟩
  rw [toList_indented, htext, attribute?, List.dropWhile_cons_of_neg (by simp [hname])]
  simp [hcolon]

/-- A name is assigned to. -/
theorem silent_assignment (name value : String)
    (hname : ∀ c ∈ name.toList, Python.continuesIdentifier c = true) :
    Silent (indented (name ++ " = " ++ value)) := by
  have hcs : (name ++ " = " ++ value).toList = name.toList ++ ' ' :: '=' :: ' ' :: value.toList := by
    simp
  have hstop : Python.continuesIdentifier ' ' = false := rfl
  refine ⟨isInner_indented _, ?_⟩
  rw [toList_indented, hcs, attribute?, List.dropWhile_append_of_pos hname,
    List.dropWhile_cons_of_neg (by simp [hstop])]
  simp

end Reading

/-! ### Classes -/

def pagingNames : List String := ["page", "size", "order_by"]

/-- The bases that are generated once for all entities. -/
inductive SharedClass where
  | id
  | times
  | softDelete
  | paging
  | read
  deriving DecidableEq, Repr

namespace SharedClass

def name : SharedClass → String
  | id => "IdMixin"
  | times => "TimeMixin"
  | softDelete => "SoftDeleteMixin"
  | paging => "PageQuery"
  | read => "BaseRead"

def attributes : SharedClass → List String
  | id => [idColumn]
  | times => [createdAtColumn, updatedAtColumn]
  | softDelete => [deletedColumn]
  | paging => pagingNames
  | read => [idColumn, createdAtColumn, updatedAtColumn, deletedColumn]

def header : SharedClass → String
  | paging => "class PageQuery(BaseModel):"
  | read => "class BaseRead(BaseModel):"
  | b => "class " ++ b.name ++ ":"

def module : SharedClass → String
  | paging => common
  | read => common
  | _ => mixins

end SharedClass

structure GeneratedClass where
  name : String
  /-- The bases that are generated as well. -/
  bases : List SharedClass
  /-- The bases that come from elsewhere. -/
  others : List String
  /-- The attributes that the class declares itself. -/
  declared : List String

namespace GeneratedClass

def header (c : GeneratedClass) : String :=
  "class " ++ c.name ++ "(" ++ commaSeparated (c.bases.map SharedClass.name ++ c.others) ++ "):"

/-- The attributes of the class, those of its bases first. -/
def attributes (c : GeneratedClass) : List String :=
  c.bases.flatMap SharedClass.attributes ++ c.declared

end GeneratedClass

def recordClass (e : Entity) (i : Imports) : GeneratedClass where
  name := e.className
  bases := .id :: ((if e.timestamps then [.times] else []) ++
    (if e.softDelete then [.softDelete] else []))
  others := [i.base.name]
  declared := e.fields.map Field.column

def createClass (e : Entity) : GeneratedClass :=
  ⟨e.className ++ "Create", [], ["BaseModel"], e.fields.map Field.column⟩

def updateClass (e : Entity) : GeneratedClass :=
  ⟨e.className ++ "Update", [], ["BaseModel"], idColumn :: e.fields.map Field.column⟩

def queryClass (e : Entity) : GeneratedClass :=
  ⟨e.className ++ "Query", [.paging], [], e.fields.map Field.column⟩

def readClass (e : Entity) : GeneratedClass :=
  ⟨e.className ++ "Read", [.read], [], e.fields.map Field.column⟩

/-- The module consists of lines in which these classes are read. -/
def Shows (text : String) (classes : List GeneratedClass) : Prop :=
  ∃ lines, text = generated lines ∧
    classesOf (lines.map String.toList) = classes.map fun c => (c.header, c.declared)

variable {e : Entity} {l : Layout} {i : Imports}

/-- The shared bases have the attributes that are told of them. -/
theorem mem_classesOf_shared (b : SharedClass) :
    ∃ lines, b.module = generated lines ∧
      (b.header, b.attributes) ∈ classesOf (lines.map String.toList) := by
  cases b
  all_goals
    refine ⟨_, rfl, ?_⟩
    simp only [List.map_cons, List.map_nil, String.toList_append]
    repeat rw [String.toList_ofList]
    decide +kernel

theorem map_name_recordClass (e : Entity) (i : Imports) :
    (recordClass e i).bases.map SharedClass.name = mixinsOf e := by
  unfold recordClass mixinsOf
  cases e.timestamps <;> cases e.softDelete <;> rfl

theorem attributes_recordClass (e : Entity) (i : Imports) :
    (recordClass e i).attributes = e.columnNames := by
  unfold GeneratedClass.attributes recordClass Entity.columnNames Entity.sharedColumns
  cases e.timestamps <;> cases e.softDelete <;> rfl

theorem isHeader_header (c : GeneratedClass) : isHeader c.header.toList = true := by
  have hcs : c.header.toList = "class ".toList ++ (c.name.toList ++ '(' ::
      (commaSeparated (c.bases.map SharedClass.name ++ c.others)).toList ++ [')'] ++ [':']) := by
    simp [GeneratedClass.header]
  rw [hcs, String.toList_ofList]
  simp only [List.cons_append, List.nil_append, isHeader, List.getLast?_concat, beq_self_eq_true]

/-! ### Rendered classes -/

/-- The class and the columns of its fields are written with letters, digits and underscores. -/
structure PlainNames (e : Entity) : Prop where
  className : ∀ c ∈ e.className.toList, Python.continuesIdentifier c = true
  columns : ∀ f ∈ e.fields, ∀ c ∈ f.column.toList, Python.continuesIdentifier c = true

def TellsColumn (line : Field → String) : Prop := ∀ f, ∃ rest, line f = f.column ++ ":" ++ rest

theorem tellsColumn_columnLine : TellsColumn columnLine := by
  intro f
  refine ⟨" Mapped[" ++ f.mappedHint ++ "] = mapped_column(" ++
    commaSeparated (columnArguments f) ++ ")", ?_⟩
  simp only [columnLine, String.append_assoc]
  rfl

theorem tellsColumn_optionalLine : TellsColumn optionalLine := by
  intro f
  refine ⟨" Optional[" ++ f.hint ++ "] = None", ?_⟩
  simp only [optionalLine, String.append_assoc]
  rfl

theorem tellsColumn_createLine : TellsColumn createLine := by
  intro f
  unfold createLine
  split_ifs
  · exact tellsColumn_optionalLine f
  · refine ⟨" " ++ f.hint, ?_⟩
    simp only [String.append_assoc]
    rfl

structure Opens (prelude own : List String) : Prop where
  isInner : ∀ text ∈ prelude, isInner text.toList = true
  declares : (prelude.map String.toList).filterMap attribute? = own

theorem opens_of_silent {prelude : List String} (h : ∀ text ∈ prelude, Silent text) :
    Opens prelude [] := by
  refine ⟨fun text htext => (h text htext).isInner, ?_⟩
  rw [List.filterMap_map, List.filterMap_eq_nil_iff]
  exact fun text htext => (h text htext).attribute?

theorem Opens.append {p q own more : List String} (hp : Opens p own) (hq : Opens q more) :
    Opens (p ++ q) (own ++ more) := by
  refine ⟨List.forall_mem_append.mpr ⟨hp.isInner, hq.isInner⟩, ?_⟩
  rw [List.map_append, List.filterMap_append, hp.declares, hq.declares]

section Rendered

variable {c : GeneratedClass} {line : Field → String} {prelude trail own : List String}
  {after : List (List Char)}

theorem filterMap_attribute? (he : PlainNames e) (hline : TellsColumn line) :
    ((e.fields.map fun f => indented (line f)).map String.toList).filterMap attribute? =
      e.fields.map Field.column := by
  rw [List.map_map, List.filterMap_map, ← List.filterMap_eq_map]
  refine List.filterMap_congr fun f hf => ?_
  obtain ⟨rest, hrest⟩ := hline f
  rw [Function.comp_apply, Function.comp_apply, hrest]
  exact attribute?_indented f.column rest (he.columns f hf)

def block (c : GeneratedClass) (prelude : List String) (line : Field → String) (fields : List Field)
    (trail : List String) : List (List Char) :=
  c.header.toList ::
    (prelude ++ (fields.map fun f => indented (line f)) ++ trail).map String.toList

/-- A class is read with what its first lines declare and with the columns of the fields. -/
theorem classesOf_class (he : PlainNames e) (hline : TellsColumn line)
    (hprelude : Opens prelude own) (htrail : ∀ text ∈ trail, text = "")
    (hdeclared : c.declared = own ++ e.fields.map Field.column)
    (hafter : ∀ text ∈ after.head?, isInner text = false) :
    classesOf (block c prelude line e.fields trail ++ after) =
      (c.header, c.declared) :: classesOf after := by
  have hnone : (trail.map String.toList).filterMap attribute? = [] := by
    rw [List.filterMap_map, List.filterMap_eq_nil_iff]
    intro text htext
    rw [htrail text htext]
    rfl
  have hbody : ∀ text ∈ (prelude ++ (e.fields.map fun f => indented (line f)) ++ trail).map
      String.toList, isInner text = true := by
    simp only [List.forall_mem_map, List.forall_mem_append]
    refine ⟨⟨hprelude.isInner, fun f _ => isInner_indented _⟩, fun text htext => ?_⟩
    rw [htrail text htext]
    rfl
  rw [block, List.cons_append, classesOf_block (isHeader_header c) hbody hafter,
    String.ofList_toList, List.map_append, List.map_append, List.filterMap_append,
    List.filterMap_append, filterMap_attribute? he hline, hprelude.declares, hnone, hdeclared,
    List.append_nil]

end Rendered

theorem silent_docLines (comment : String) : ∀ text ∈ docLines comment, Silent text := by
  intro text htext
  unfold docLines at htext
  dsimp only at htext
  split_ifs at htext
  · cases htext
  · cases List.mem_singleton.mp htext
    exact silent_of_toList (c := '"') (by simp; rfl) rfl (by decide)

theorem silent_constraintLines (us : List UniqueConstraint) :
    ∀ text ∈ constraintLines us, Silent text := by
  intro text htext
  unfold constraintLines at htext
  split at htext
  · cases htext
  · simp only [List.mem_append, List.mem_cons, List.mem_map, List.not_mem_nil, or_false] at htext
    rcases htext with ((rfl | rfl) | ⟨u, -, rfl⟩) | rfl
    · exact silent_blank
    · exact silent_assignment "__table_args__" "(" (List.all_eq_true.mp (by decide))
    · have htext : indented (indented (constraintLine u)) ++ "," =
          indented (indented (constraintLine u) ++ ",") := by
        simp only [indented, String.append_assoc]
      rw [htext]
      exact silent_of_toList (c := ' ') (by rw [String.toList_append, toList_indented]; rfl) rfl
        (by decide)
    · exact silent_of_toList (c := ')') rfl rfl (by decide)

/-- The lines of a record that stand before its columns. -/
theorem silent_prelude (e : Entity) : ∀ text ∈ docLines e.comment ++
    [indented ("__tablename__ = " ++ Python.quote e.tableName)] ++
    constraintLines e.uniqueConstraints ++ [""], Silent text := by
  simp only [List.forall_mem_append, List.forall_mem_singleton]
  refine ⟨⟨⟨silent_docLines _, ?_⟩, silent_constraintLines _⟩, silent_blank⟩
  exact silent_assignment "__tablename__" _ (List.all_eq_true.mp (by decide))

theorem shows_model (he : PlainNames e) : Shows (model e l i) [recordClass e i] := by
  have hheader : "class " ++ e.className ++ "(" ++ commaSeparated (mixinsOf e ++ [i.base.name]) ++
      "):" = (recordClass e i).header := by
    rw [GeneratedClass.header, map_name_recordClass]
    rfl
  have hclass : classesOf (block (recordClass e i) _ columnLine e.fields [] ++ []) = _ :=
    classesOf_class he tellsColumn_columnLine (opens_of_silent (silent_prelude e)) (by simp) rfl
      (by simp)
  refine ⟨_, rfl, ?_⟩
  rw [hheader]
  simp only [block, List.map_append, List.map_cons, List.map_nil, List.append_assoc,
    List.cons_append, List.nil_append, List.append_nil, String.toList_append] at hclass ⊢
  repeat rw [String.toList_ofList]
  repeat rw [classesOf_cons rfl]
  exact hclass

theorem silent_config (value : String) : Silent (indented ("model_config = " ++ value)) :=
  silent_assignment "model_config" value (List.all_eq_true.mp (by decide))

theorem opens_forbidsExtra : Opens [forbidsExtra, ""] [] := by
  refine opens_of_silent ?_
  simp only [List.forall_mem_cons, List.not_mem_nil, false_implies, implies_true, and_true]
  exact ⟨silent_config "ConfigDict(extra=\"forbid\")", silent_blank⟩

theorem opens_update : Opens [forbidsExtra, "", indented "id: str"] [idColumn] := by
  have hid : attribute? (indented "id: str").toList = some idColumn :=
    attribute?_indented "id" " str" (List.all_eq_true.mp (by decide))
  refine opens_forbidsExtra.append (q := [indented "id: str"]) ⟨?_, ?_⟩
  · exact List.forall_mem_singleton.mpr (isInner_indented _)
  · rw [List.map_singleton, List.filterMap_cons_some hid, List.filterMap_nil]

theorem opens_read :
    Opens [indented "model_config = ConfigDict(from_attributes=True)", ""] [] := by
  refine opens_of_silent ?_
  simp only [List.forall_mem_cons, List.not_mem_nil, false_implies, implies_true, and_true]
  exact ⟨silent_config "ConfigDict(from_attributes=True)", silent_blank⟩

theorem not_isInner_header (c : GeneratedClass) : isInner c.header.toList = false := by
  have hheader := isHeader_header c
  contrapose! hheader
  rw [not_isHeader_of_isInner (by simpa using hheader)]
  decide

theorem not_isInner_block (c : GeneratedClass) (prelude trail : List String) (line : Field → String)
    (fields : List Field) (after : List (List Char)) :
    ∀ text ∈ (block c prelude line fields trail ++ after).head?, isInner text = false := by
  rintro text ⟨⟩
  exact not_isInner_header c

theorem header_eq (name suffix base : String) (bases : List SharedClass) (others declared : List String)
    (hbases : bases.map SharedClass.name ++ others = [base]) :
    "class " ++ name ++ (suffix ++ "(" ++ base ++ "):") =
      (⟨name ++ suffix, bases, others, declared⟩ : GeneratedClass).header := by
  rw [GeneratedClass.header, hbases]
  simp only [String.append_assoc]
  rfl

theorem getLast?_of_isHeader {line : List Char} (h : isHeader line = true) :
    line.getLast? = some ':' := by
  unfold isHeader at h
  split at h
  · rename_i rest
    rw [beq_iff_eq] at h
    obtain ⟨front, rfl⟩ := List.getLast?_eq_some_iff.mp h
    exact List.getLast?_concat (l := _ :: _ :: _ :: _ :: _ :: _ :: front)
  · cases h

def pageLine (className : String) : String :=
  className ++ "Page = PageResult[" ++ className ++ "Read]"

theorem not_isHeader_pageLine (className : String) :
    isHeader (pageLine className).toList = false := by
  refine Bool.eq_false_iff.mpr fun h => ?_
  have hlast := getLast?_of_isHeader h
  rw [pageLine, String.toList_append,
    show "Read]".toList = "Read".toList ++ [']'] from String.toList_ofList, ← List.append_assoc,
    List.getLast?_concat] at hlast
  cases hlast

theorem not_isInner_pageLine (he : PlainNames e) :
    ∀ text ∈ [(pageLine e.className).toList].head?, isInner text = false := by
  rintro text ⟨⟩
  have hclass := he.className
  rw [pageLine, String.toList_append, String.toList_append, String.toList_append]
  cases hcs : e.className.toList with
  | nil => rfl
  | cons c cs =>
    rw [hcs] at hclass
    have hc : c ≠ ' ' := by
      rintro rfl
      exact Bool.false_ne_true (hclass ' ' (List.mem_cons_self ..))
    simp [isInner, hc]

theorem shows_schema (he : PlainNames e) : Shows (schema e l)
    [createClass e, updateClass e, queryClass e, readClass e] := by
  have hblank : ∀ text ∈ ["", ""], text = "" := by simp
  have hblocks : classesOf (block (createClass e) [forbidsExtra, ""] createLine e.fields ["", ""] ++
      (block (updateClass e) [forbidsExtra, "", indented "id: str"] optionalLine e.fields ["", ""] ++
      (block (queryClass e) [forbidsExtra, ""] optionalLine e.fields ["", ""] ++
      (block (readClass e) [indented "model_config = ConfigDict(from_attributes=True)", ""]
        optionalLine e.fields ["", ""] ++ [(pageLine e.className).toList])))) =
      [createClass e, updateClass e, queryClass e, readClass e].map fun c =>
        (c.header, c.declared) := by
    rw [classesOf_class he tellsColumn_createLine opens_forbidsExtra hblank rfl
        (not_isInner_block _ _ _ _ _ _),
      classesOf_class he tellsColumn_optionalLine opens_update hblank rfl
        (not_isInner_block _ _ _ _ _ _),
      classesOf_class he tellsColumn_optionalLine opens_forbidsExtra hblank rfl
        (not_isInner_block _ _ _ _ _ _),
      classesOf_class he tellsColumn_optionalLine opens_read hblank rfl (not_isInner_pageLine he),
      classesOf_cons (not_isHeader_pageLine _)]
    rfl
  have hcreate := header_eq e.className "Create" "BaseModel" [] _ (e.fields.map Field.column) rfl
  have hupdate := header_eq e.className "Update" "BaseModel" [] _
    (idColumn :: e.fields.map Field.column) rfl
  have hquery := header_eq e.className "Query" "PageQuery" [.paging] []
    (e.fields.map Field.column) rfl
  have hread := header_eq e.className "Read" "BaseRead" [.read] [] (e.fields.map Field.column) rfl
  refine ⟨_, rfl, ?_⟩
  rw [← hblocks]
  simp only [block, createClass, updateClass, queryClass, readClass, ← hcreate, ← hupdate, ← hquery,
    ← hread, pageLine]
  simp only [List.map_append, List.map_cons, List.map_nil, List.append_assoc,
    List.cons_append, List.nil_append, String.toList_append]
  repeat rw [String.toList_ofList]
  repeat rw [classesOf_cons rfl]
  rfl

end Artifact

/-! ### Acceptance -/

def Entity.withField (e : Entity) (f : Field) : Entity := { e with fields := e.fields ++ [f] }

namespace Spec

variable {s : Spec} {e : Entity} {f : Field}

def withField (s : Spec) (e : Entity) (f : Field) : Spec :=
  { s with entities := s.entities.map fun d => if d = e then d.withField f else d }

theorem mem_withField (he : e ∈ s.entities) (f : Field) :
    e.withField f ∈ (s.withField e f).entities :=
  List.mem_map.mpr ⟨e, he, if_pos rfl⟩

/-- One more field does no harm to a specification, whatever its column is. -/
theorem Consistent.withField (h : s.Consistent)
    (hf : f.type = .enumeration → EnumTable.Resolves s.enums f.enumName) :
    (s.withField e f).Consistent := by
  have hkey : ∀ d : Entity, (if d = e then d.withField f else d).fileKey = d.fileKey := by
    intro d
    split_ifs <;> rfl
  refine ⟨List.forall_mem_map.mpr fun d hd => ?_, List.forall_mem_map.mpr fun d hd => ?_,
    List.forall_mem_map.mpr fun d hd => ?_, ?_⟩
  · split_ifs
    · refine List.forall_mem_append.mpr ⟨h.fields d hd, ?_⟩
      exact List.forall_mem_singleton.mpr hf
    · exact h.fields d hd
  · split_ifs <;> exact h.params d hd
  · intro u hu c hc
    have hcolumn : c ∈ d.columnNames := by
      split_ifs at hu <;> exact h.columns d hd u hu c hc
    split_ifs
    · have hmore : (d.withField f).columnNames = d.columnNames ++ [f.column] := by
        rw [Entity.columnNames, Entity.withField, List.map_append, ← List.append_assoc]
        rfl
      rw [hmore]
      exact List.mem_append_left _ hcolumn
    · exact hcolumn
  · rw [Spec.withField, List.map_map]
    simp only [Function.comp_def, hkey]
    exact h.files

end Spec

/-! ### Distinct attributes -/

namespace Artifact

variable {e : Entity} {i : Imports}

/-- Names that are distinct stay so with the columns of the fields behind them if and only if these
are distinct and other names. -/
theorem nodup_append_columns (names : List String) (hnames : names.Nodup) (e : Entity) :
    (names ++ e.fields.map Field.column).Nodup ↔
      (e.fields.map Field.column).Nodup ∧ ∀ f ∈ e.fields, f.column ∉ names := by
  rw [List.nodup_append', List.disjoint_right, List.forall_mem_map]
  exact and_iff_right hnames

theorem attributes_nodup_iff (e : Entity) (i : Imports) :
    (e.columnNames.Nodup ∧ ∀ f ∈ e.fields, f.column ∉ pagingNames) ↔
      ∀ c ∈ [recordClass e i, createClass e, updateClass e, queryClass e], c.attributes.Nodup := by
  have hquery : (queryClass e).attributes.Nodup ↔
      (e.fields.map Field.column).Nodup ∧ ∀ f ∈ e.fields, f.column ∉ pagingNames :=
    nodup_append_columns pagingNames (by decide) e
  have hupdate : e.columnNames.Nodup → (updateClass e).attributes.Nodup := by
    intro hnames
    have hid : [idColumn].Sublist e.sharedColumns :=
      List.singleton_sublist.mpr (List.mem_cons_self ..)
    exact hnames.sublist (hid.append_right _)
  simp only [List.forall_mem_cons, List.not_mem_nil, false_implies, implies_true, and_true,
    attributes_recordClass]
  constructor
  · rintro ⟨hnames, hpaging⟩
    have hcolumns : (e.fields.map Field.column).Nodup := (List.nodup_append'.mp hnames).2.1
    exact ⟨hnames, hcolumns, hupdate hnames, hquery.mpr ⟨hcolumns, hpaging⟩⟩
  · rintro ⟨hnames, -, -, hpaging⟩
    exact ⟨hnames, (hquery.mp hpaging).2⟩

/-- Take any entity of a specification that is accepted. The modules of its record and of its models
show the classes described here, over the shared bases described here. All columns are distinct and
none is a parameter of paging if and only if nothing is hidden in the record and in the models to
create, change and look for it; in what a record shows nothing is hidden if and only if the columns
of the fields are distinct and none is a shared one, whether the entity has that or not. Acceptance
has no part in this: with one more field of any column, the entity passes the checks again. -/
theorem attributes_are_distinct_iff {v : Json} {s : Spec} (hs : Spec.ofJson v = .ok s)
    (he : e ∈ s.entities) (l : Layout) (i : Imports) :
    (∀ b : SharedClass, ∃ lines, b.module = generated lines ∧
      (b.header, b.attributes) ∈ classesOf (lines.map String.toList)) ∧
    (PlainNames e → Shows (model e l i) [recordClass e i] ∧
      Shows (schema e l) [createClass e, updateClass e, queryClass e, readClass e]) ∧
    ((e.columnNames.Nodup ∧ ∀ f ∈ e.fields, f.column ∉ pagingNames) ↔
      ∀ c ∈ [recordClass e i, createClass e, updateClass e, queryClass e], c.attributes.Nodup) ∧
    ((readClass e).attributes.Nodup ↔ (e.fields.map Field.column).Nodup ∧
      ∀ f ∈ e.fields, f.column ∉ SharedClass.read.attributes) ∧
    ∀ f : Field, (f.type = .enumeration → EnumTable.Resolves s.enums f.enumName) →
      (s.withField e f).check = .ok () ∧ e.withField f ∈ (s.withField e f).entities := by
  obtain ⟨d, -, hd⟩ := bindExcept_eq_ok.mp hs
  obtain ⟨-, -, hcheck⟩ := Spec.ofDocument_eq_ok (mapError_eq_ok.mp hd)
  have hconsistent := Spec.check_eq_ok_iff.mp hcheck
  exact ⟨mem_classesOf_shared, fun hnames => ⟨shows_model hnames, shows_schema hnames⟩,
    attributes_nodup_iff e i,
    nodup_append_columns SharedClass.read.attributes (by decide) e,
    fun f hf => ⟨Spec.check_eq_ok_iff.mpr (hconsistent.withField hf), Spec.mem_withField he f⟩⟩

/-- A document of one entity. Two of its fields have one column, and a third is called like a
parameter of paging. -/
def catalogueJson : Json :=
  .array [.object [("className", .string "Order"), ("tableName", .string "orders"),
    ("moduleName", .string "shop"),
    ("fields", .array [.object [("name", .string "page"), ("type", .string "Integer")],
      .object [("name", .string "orderNo"), ("type", .string "String")],
      .object [("name", .string "order_no"), ("type", .string "String")]])]]

def catalogueSpec : Spec where
  enums := []
  entities := [⟨"Order", "orders", "shop", "", "Order",
    [⟨"page", .integer, false, none, none, none, none⟩,
      ⟨"orderNo", .string, false, none, none, none, none⟩,
      ⟨"order_no", .string, false, none, none, none, none⟩], [], [], true, true⟩]

theorem hidden_attributes_are_accepted : Spec.ofJson catalogueJson = .ok catalogueSpec ∧
    ∃ e ∈ catalogueSpec.entities, ¬ e.columnNames.Nodup ∧ ∃ f ∈ e.fields, f.column ∈ pagingNames := by
  refine ⟨eq_ok_of_toOption (by decide +kernel), ?_⟩
  decide +kernel

theorem ticket_attributes_are_distinct :
    Spec.ofJson (Spec.ticketJson "ticketState") = .ok (Spec.ticketSpec "ticket_state") ∧
    ∀ e ∈ (Spec.ticketSpec "ticket_state").entities, ∀ i : Imports,
      ∀ c ∈ [recordClass e i, createClass e, updateClass e, queryClass e], c.attributes.Nodup := by
  have haccepted :
      Spec.ofJson (Spec.ticketJson "ticketState") = .ok (Spec.ticketSpec "ticket_state") :=
    eq_ok_of_toOption (by decide +kernel)
  have hdistinct : ∀ e ∈ (Spec.ticketSpec "ticket_state").entities,
      e.columnNames.Nodup ∧ ∀ f ∈ e.fields, f.column ∉ pagingNames := by decide +kernel
  refine ⟨haccepted, fun e he i => ?_⟩
  obtain ⟨-, -, hiff, -⟩ := attributes_are_distinct_iff haccepted he (.of ⟨"."⟩ {}) i
  exact hiff.mp (hdistinct e he)

end Artifact

end CrudBackend
