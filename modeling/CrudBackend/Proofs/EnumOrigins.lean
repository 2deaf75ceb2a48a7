import CrudBackend.Proofs.Acceptance
import CrudBackend.Proofs.Descriptors
import CrudBackend.Proofs.Refusals

/-!
Where the enumerations of a specification come from. Those that the document declares stand first and
win; the value lists that fields carry fill the gaps in the order in which their names first appear,
and the first field of a name decides. An enumeration has one value for each item of the list it
comes from. A name under which a field carries a list is in the table in any case, so the checks never
find it undeclared.
-/

namespace CrudBackend

/-! ### Values and the items that describe them -/

section Items

variable {key name : String} {members : List (String × Json)} {item : Json} {items : List Json}

def Lacks (key : String) (members : List (String × Json)) : Prop :=
  Json.member? key members = none ∨ Json.member? key members = some .null

/-- The label that an object gives: the comment counts before the label, and null does not count. -/
inductive Labelled (members : List (String × Json)) : String → Prop where
  | comment {c : Json} (hcomment : Json.member? "comment" members = some c) (hc : c ≠ .null) :
    Labelled members c.plainText
  | label {l : Json} (hcomment : Lacks "comment" members)
      (hlabel : Json.member? "label" members = some l) (hl : l ≠ .null) :
    Labelled members l.plainText
  | none (hcomment : Lacks "comment" members) (hlabel : Lacks "label" members) :
    Labelled members ""

/-- The item of a list describes a value: it is the bare value, or an object with value and label. -/
inductive Describes : Json → EnumValue → Prop where
  | bare {v : Json} (hv : v.isScalar = true) : Describes v ⟨v.plainText, ""⟩
  | entry {members : List (String × Json)} {v : Json} {label : String}
      (hvalue : Json.member? "value" members = some v) (hv : v.isScalar = true)
      (hlabel : Labelled members label) :
    Describes (.object members) ⟨v.plainText, label⟩

/-- The enumeration has this name, and the items describe its values, one by one and in order. -/
structure EnumDef.ListedBy (e : EnumDef) (name : String) (items : List Json) : Prop where
  name : e.name = name
  values : List.Forall₂ Describes items e.values

theorem presentMember?_eq_none (h : presentMember? key members = none) : Lacks key members := by
  unfold presentMember? at h
  split at h
  · next hnull => exact Or.inr hnull
  · exact Or.inl h

theorem presentMember?_eq_some {v : Json} (h : presentMember? key members = some v) :
    Json.member? key members = some v ∧ v ≠ .null := by
  unfold presentMember? at h
  split at h
  · cases h
  · next hne =>
    refine ⟨h, ?_⟩
    intro hnull
    exact hne (hnull ▸ h)

theorem labelled_labelText (members : List (String × Json)) :
    Labelled members
      (labelText (presentMember? "comment" members) (presentMember? "label" members)) := by
  cases hcomment : presentMember? "comment" members with
  | some c =>
    obtain ⟨hmember, hc⟩ := presentMember?_eq_some hcomment
    exact .comment hmember hc
  | none =>
    have hlacks := presentMember?_eq_none hcomment
    cases hlabel : presentMember? "label" members with
    | some l =>
      obtain ⟨hmember, hl⟩ := presentMember?_eq_some hlabel
      exact .label hlacks hmember hl
    | none => exact .none hlacks (presentMember?_eq_none hlabel)

theorem describes_of_ofDescriptor {index : Nat} {x : EnumValue}
    (h : EnumValue.ofDescriptor name index (ValueDescriptor.ofJson item) = .ok x) :
    Describes item x := by
  cases item with
  | object members =>
    rw [ValueDescriptor.ofJson] at h
    cases hvalue : presentMember? "value" members with
    | none =>
      rw [hvalue] at h
      cases h
    | some v =>
      rw [hvalue, EnumValue.ofDescriptor] at h
      split_ifs at h with hv
      cases h
      exact .entry (presentMember?_eq_some hvalue).1 hv (labelled_labelText members)
  | _ =>
    simp only [ValueDescriptor.ofJson, EnumValue.ofDescriptor] at h
    split_ifs at h with hv
    cases h
    exact .bare hv

theorem describes_of_listFrom {index : Nat} {values : List EnumValue}
    (h : EnumValue.listFrom name index (items.map ValueDescriptor.ofJson) = .ok values) :
    List.Forall₂ Describes items values := by
  induction items generalizing index values with
  | nil =>
    cases h
    exact .nil
  | cons item rest ih =>
    rw [List.map_cons, EnumValue.listFrom] at h
    obtain ⟨x, hx, h⟩ := bindExcept_eq_ok.mp h
    obtain ⟨more, hmore, h⟩ := bindExcept_eq_ok.mp h
    cases h
    exact .cons (describes_of_ofDescriptor hx) (ih hmore)

theorem listedBy_of_ofDescriptors {e : EnumDef}
    (h : EnumDef.ofDescriptors name (items.map ValueDescriptor.ofJson) = .ok e) :
    e.ListedBy name items := by
  rw [EnumDef.ofDescriptors] at h
  obtain ⟨values, hvalues, h⟩ := bindExcept_eq_ok.mp h
  cases h
  exact ⟨rfl, describes_of_listFrom hvalues⟩

end Items

/-! ### Enumerations that fields carry -/

/-- The name under which a field carries values: the type is that of enumerations, there is a list,
and the trimmed name is not empty. -/
def FieldDescriptor.carriedName? (f : FieldDescriptor) : Option String :=
  if Text.trim f.type = "enum" ∧ f.enumValues.isSome then Text.filled? f.enumName else none

namespace EnumTable

variable {t t' added declared carried : EnumTable} {f : FieldDescriptor}
  {fields rest : List FieldDescriptor} {x : String × EnumDef} {e : EnumDef} {name : String}

theorem carriedName?_of_none (h : carried? f = none) : f.carriedName? = none := by
  unfold carried? at h
  unfold FieldDescriptor.carriedName?
  split_ifs with hcond
  · rw [if_pos hcond.1] at h
    obtain ⟨values, hvalues⟩ := Option.isSome_iff_exists.mp hcond.2
    cases hname : Text.filled? f.enumName with
    | none => rfl
    | some name =>
      rw [hname, hvalues] at h
      cases h
  · rfl

theorem carriedName?_of_some {values : List ValueDescriptor} (h : carried? f = some (name, values)) :
    f.carriedName? = some name ∧ f.enumValues = some values := by
  unfold carried? at h
  split_ifs at h with htype
  split at h
  · next hname hvalues =>
    cases h
    refine ⟨?_, hvalues⟩
    rw [FieldDescriptor.carriedName?, if_pos ⟨htype, by rw [hvalues]; rfl⟩, hname]
  · cases h

/-- The first field that carries values under the name lists those of the enumeration. -/
inductive FirstCarried (fields : List FieldDescriptor) (x : String × EnumDef) : Prop where
  | intro (before after : List FieldDescriptor) (f : FieldDescriptor) (items : List Json)
      (hsplit : fields = before ++ f :: after)
      (hbefore : ∀ g ∈ before, g.carriedName? ≠ some x.1)
      (hname : f.carriedName? = some x.1)
      (hitems : f.enumValues = some (items.map ValueDescriptor.ofJson))
      (hlisted : x.2.ListedBy x.1 items)

theorem FirstCarried.cons (h : FirstCarried rest x) (hf : f.carriedName? ≠ some x.1) :
    FirstCarried (f :: rest) x := by
  cases h with
  | intro before after g items hsplit hbefore hname hitems hlisted =>
    refine .intro (f :: before) after g items ?_ ?_ hname hitems hlisted
    · rw [hsplit, List.cons_append]
    · exact List.forall_mem_cons.mpr ⟨hf, hbefore⟩

/-- What fields add to a table: their names that are not entered, in the order in which they first
appear, each as the first field of the name lists it. -/
structure Collected (t : EnumTable) (fields : List FieldDescriptor) (added : EnumTable) : Prop where
  names : added.map Prod.fst = ((fields.filterMap FieldDescriptor.carriedName?).filter
    fun name => name ∉ t.map Prod.fst).eraseDups
  nodup : (added.map Prod.fst).Nodup
  first : ∀ x ∈ added, FirstCarried fields x

namespace Collected

theorem nil (t : EnumTable) : Collected t [] [] := ⟨rfl, List.nodup_nil, List.forall_mem_nil _⟩

theorem not_mem (h : Collected t fields added) (hx : x ∈ added) : x.1 ∉ t.map Prod.fst := by
  have hname : x.1 ∈ added.map Prod.fst := List.mem_map_of_mem hx
  rw [h.names, List.mem_eraseDups, List.mem_filter] at hname
  exact of_decide_eq_true hname.2

/-- A field adds nothing if it carries nothing, or something whose name is entered. -/
theorem skip (h : Collected t rest added)
    (hf : ∀ name, f.carriedName? = some name → name ∈ t.map Prod.fst) :
    Collected t (f :: rest) added where
  names := by
    rw [h.names]
    cases hname : f.carriedName? with
    | none => rw [List.filterMap_cons_none hname]
    | some name =>
      rw [List.filterMap_cons_some hname, List.filter_cons_of_neg]
      simpa using hf name hname
  nodup := h.nodup
  first := fun x hx => (h.first x hx).cons fun hname => h.not_mem hx (hf x.1 hname)

/-- A field adds the enumeration it carries if its name is new. -/
theorem enter {items : List Json} (h : Collected (t ++ [(name, e)]) rest added)
    (hname : f.carriedName? = some name) (hnew : name ∉ t.map Prod.fst)
    (hitems : f.enumValues = some (items.map ValueDescriptor.ofJson))
    (hlisted : e.ListedBy name items) :
    Collected t (f :: rest) ((name, e) :: added) := by
  have hne : ∀ x ∈ added, x.1 ≠ name := by
    intro x hx heq
    apply h.not_mem hx
    rw [List.map_append, heq]
    exact List.mem_append_right _ (List.mem_singleton_self _)
  have hkept : ∀ other, decide (other ∉ (t ++ [(name, e)]).map Prod.fst) =
      (!(other == name) && decide (other ∉ t.map Prod.fst)) := by
    intro other
    rw [List.map_append, Bool.eq_iff_iff]
    simp only [decide_eq_true_eq, List.mem_append, not_or, Bool.and_eq_true, Bool.not_eq_true',
      beq_eq_false_iff_ne, List.map_cons, List.map_nil, List.mem_singleton]
    exact and_comm
  refine ⟨?_, ?_, ?_⟩
  · rw [List.filterMap_cons_some hname, List.filter_cons_of_pos (by simpa using hnew),
      List.eraseDups_cons, List.filter_filter, List.map_cons, h.names]
    simp only [hkept]
  · rw [List.map_cons, List.nodup_cons]
    refine ⟨?_, h.nodup⟩
    intro hmem
    obtain ⟨x, hx, heq⟩ := List.mem_map.mp hmem
    exact hne x hx heq
  · intro x hx
    rcases List.mem_cons.mp hx with rfl | hx
    · exact .intro [] rest f items rfl (List.forall_mem_nil _) hname hitems hlisted
    · refine (h.first x hx).cons ?_
      rw [hname]
      exact fun heq => hne x hx (Option.some.inj heq).symm

end Collected

theorem collected_of_collect (hfields : ∀ f ∈ fields, f.Itemized) (h : collect t fields = .ok t') :
    ∃ added, t' = t ++ added ∧ Collected t fields added := by
  induction fields generalizing t with
  | nil =>
    cases h
    exact ⟨[], (List.append_nil _).symm, .nil _⟩
  | cons f rest ih =>
    obtain ⟨hf, hrest⟩ := List.forall_mem_cons.mp hfields
    rw [collect] at h
    split at h
    · next hnone =>
      obtain ⟨added, ht', hadded⟩ := ih hrest h
      refine ⟨added, ht', hadded.skip ?_⟩
      intro name hname
      rw [carriedName?_of_none hnone] at hname
      cases hname
    · next name values hsome =>
      obtain ⟨hname, hvalues⟩ := carriedName?_of_some hsome
      split at h
      · next hhas =>
        obtain ⟨added, ht', hadded⟩ := ih hrest h
        refine ⟨added, ht', hadded.skip ?_⟩
        intro other hother
        rw [hname] at hother
        cases hother
        exact has_iff.mp hhas
      · next hhas =>
        obtain ⟨items, rfl⟩ := hf values hvalues
        obtain ⟨e, he, h⟩ := bindExcept_eq_ok.mp h
        obtain ⟨added, ht', hadded⟩ := ih hrest h
        refine ⟨(name, e) :: added, ?_, ?_⟩
        · rw [ht', List.append_assoc, List.singleton_append]
        · exact hadded.enter hname (mt has_iff.mpr hhas) hvalues (listedBy_of_ofDescriptors he)

/-! ### Declared enumerations and the gaps they leave -/

theorem foldl_enter (t : EnumTable) (h : (carried.map Prod.fst).Nodup) :
    carried.foldl enter t = t ++ carried.filter fun x => x.1 ∉ t.map Prod.fst := by
  induction carried generalizing t with
  | nil => exact (List.append_nil t).symm
  | cons x rest ih =>
    rw [List.map_cons, List.nodup_cons] at h
    obtain ⟨hx, hrest⟩ := h
    rw [List.foldl_cons, enter]
    by_cases hin : x.1 ∈ t.map Prod.fst
    · rw [if_pos (has_iff.mpr hin), List.filter_cons_of_neg (by simpa using hin), ih t hrest]
    · rw [if_neg (mt has_iff.mp hin), List.filter_cons_of_pos (by simpa using hin), ih _ hrest,
        List.append_assoc, List.singleton_append]
      congr 2
      apply List.filter_congr
      intro y hy
      have hne : y.1 ≠ x.1 := fun heq => hx (heq ▸ List.mem_map_of_mem hy)
      simp [hne]

def Declared (member : String × Json) (x : String × EnumDef) : Prop :=
  x.1 = member.1 ∧ ∃ items, member.2 = .array items ∧ x.2.ListedBy member.1 items

theorem declared_of_ofDeclared {members : List (String × Json)}
    {enums : List (String × List ValueDescriptor)}
    (henums : List.Forall₂ Document.Declares members enums) (h : ofDeclared enums = .ok t) :
    List.Forall₂ Declared members t := by
  induction henums generalizing t with
  | nil =>
    cases h
    exact .nil
  | @cons member x members enums hx _ ih =>
    obtain ⟨hname, items, hitems, hvalues⟩ := hx
    rw [ofDeclared, hname, hvalues] at h
    obtain ⟨e, he, h⟩ := bindExcept_eq_ok.mp h
    obtain ⟨more, hmore, h⟩ := bindExcept_eq_ok.mp h
    cases h
    exact .cons ⟨rfl, items, hitems, listedBy_of_ofDescriptors he⟩ (ih hmore)

/-- A table in two parts: the enumerations that members declare, in order, and those that fields carry
under other names, in the order in which the names first appear. -/
structure Merges (members : List (String × Json)) (fields : List FieldDescriptor)
    (declared carried : EnumTable) : Prop where
  declared : List.Forall₂ Declared members declared
  names : carried.map Prod.fst = (fields.filterMap FieldDescriptor.carriedName?).eraseDups.filter
    fun name => name ∉ members.map Prod.fst
  carried : ∀ x ∈ carried, FirstCarried fields x

theorem map_fst_of_declared {members : List (String × Json)}
    (h : List.Forall₂ Declared members t) : t.map Prod.fst = members.map Prod.fst := by
  induction h with
  | nil => rfl
  | cons hx _ ih => rw [List.map_cons, List.map_cons, hx.1, ih]

theorem merges_of_ofDocument {v : Json} {d : Document} (hd : Document.ofJson v = .ok d)
    (h : ofDocument d = .ok t) : ∃ declared carried, t = declared ++ carried ∧
      Merges (Document.enumMembers v) (allFields d.entities) declared carried := by
  obtain ⟨henums, hfields⟩ := Document.declares_and_itemized hd
  rw [ofDocument] at h
  obtain ⟨declared, hdeclared, h⟩ := bindExcept_eq_ok.mp h
  obtain ⟨carried, hcarried, h⟩ := bindExcept_eq_ok.mp h
  cases h
  obtain ⟨added, hadd, hadded⟩ := collected_of_collect hfields hcarried
  rw [List.nil_append] at hadd
  subst hadd
  have hmembers := declared_of_ofDeclared henums hdeclared
  refine ⟨declared, _, foldl_enter declared hadded.nodup, hmembers, ?_, ?_⟩
  · have hnames : carried.map Prod.fst =
        ((allFields d.entities).filterMap FieldDescriptor.carriedName?).eraseDups := by
      simpa using hadded.names
    rw [← map_fst_of_declared hmembers, ← hnames, List.filter_map]
    rfl
  · intro x hx
    exact hadded.first x (List.mem_filter.mp hx).1

/-- Every name under which a field carries values is in the table. -/
theorem Merges.mem_names {members : List (String × Json)} (h : Merges members fields declared carried)
    (hf : f ∈ fields) (hname : f.carriedName? = some name) :
    name ∈ (declared ++ carried).map Prod.fst := by
  rw [List.map_append, List.mem_append, map_fst_of_declared h.declared]
  by_cases hin : name ∈ members.map Prod.fst
  · exact Or.inl hin
  · right
    rw [h.names, List.mem_filter, List.mem_eraseDups, List.mem_filterMap]
    exact ⟨⟨f, hf, hname⟩, decide_eq_true hin⟩

end EnumTable

/-! ### The checks on what fields carry -/

theorem FieldType.parse_eq_enumeration {tag : String} (h : Text.trim tag = "enum") :
    parse tag = .enumeration := by
  have hchars : Text.trimmed tag.toList = ['e', 'n', 'u', 'm'] := by
    have := congrArg String.toList h
    rwa [Text.trim, String.toList_ofList] at this
  rw [parse, hchars]
  decide

section Carrying

variable {f : FieldDescriptor} {name : String}

theorem FieldDescriptor.eq_of_carriedName? (h : f.carriedName? = some name) :
    Text.trim f.type = "enum" ∧ Text.filled? f.enumName = some name := by
  unfold carriedName? at h
  split_ifs at h with hcond
  exact ⟨hcond.1, h⟩

/-- A field that carries values becomes a field of an enumeration type that refers to them by name. -/
theorem Field.type_and_enumName_of_carried {x : Field} (hname : f.carriedName? = some name)
    (h : Field.ofDescriptor f = .ok x) : x.type = .enumeration ∧ x.enumName = some name := by
  obtain ⟨htype, hfilled⟩ := FieldDescriptor.eq_of_carriedName? hname
  rw [ofDescriptor] at h
  obtain ⟨length, -, h⟩ := bindExcept_eq_ok.mp h
  cases h
  have hparse := FieldType.parse_eq_enumeration htype
  refine ⟨hparse, ?_⟩
  show enumReference (FieldType.parse f.type) f.enumName = some name
  rw [enumReference, if_pos (FieldType.isEnum_iff.mpr hparse), hfilled]

end Carrying

namespace Spec

variable {v : Json} {d : Document} {f : FieldDescriptor} {name : String}

theorem mem_table_of_carried {t : EnumTable} (hd : Document.ofJson v = .ok d)
    (hf : f ∈ EnumTable.allFields d.entities) (hname : f.carriedName? = some name)
    (ht : EnumTable.ofDocument d = .ok t) : name ∈ t.map Prod.fst := by
  obtain ⟨declared, carried, rfl, hmerges⟩ := EnumTable.merges_of_ofDocument hd ht
  exact hmerges.mem_names hf hname

theorem not_undeclared_of_carried (hd : Document.ofJson v = .ok d)
    (hf : f ∈ EnumTable.allFields d.entities) (hname : f.carriedName? = some name)
    (owner field : String) : ofJson v ≠ .error (.invalid (.enumUndeclared owner field name)) := by
  intro h
  rw [ofJson, hd] at h
  obtain ⟨fault, hfault, heq⟩ := mapError_eq_error.mp h
  cases heq
  obtain ⟨t, ht, hmissing⟩ := undeclared_not_in_table hfault
  have hhas : t.has name = true := EnumTable.has_iff.mpr (mem_table_of_carried hd hf hname ht)
  rw [hmissing] at hhas
  cases hhas

/-- The enumerations of an accepted document are the declared ones, in order, and behind them those
that fields carry under other names, the first field of a name deciding. A field that carries a value
list under a name passes the check on what it refers to, and no document is refused because such a
name is not declared. -/
theorem enums_merge_declared_first (v : Json) :
    (∀ s, ofJson v = .ok s → ∃ d declared carried, Document.ofJson v = .ok d ∧
      s.enums = declared ++ carried ∧
      EnumTable.Merges (Document.enumMembers v) (EnumTable.allFields d.entities) declared carried) ∧
    ∀ d, Document.ofJson v = .ok d → ∀ f ∈ EnumTable.allFields d.entities, ∀ name,
      f.carriedName? = some name →
      (∀ t x owner, EnumTable.ofDocument d = .ok t → Field.ofDescriptor f = .ok x →
        x.type = .enumeration ∧ x.enumName = some name ∧
        (EnumUse.mk owner x.name x.enumName).check t = .ok ()) ∧
      ∀ owner field, ofJson v ≠ .error (.invalid (.enumUndeclared owner field name)) := by
  constructor
  · intro s h
    obtain ⟨d, hd, h⟩ := bindExcept_eq_ok.mp h
    obtain ⟨henums, -, -⟩ := ofDocument_eq_ok (mapError_eq_ok.mp h)
    have hd := mapError_eq_ok.mp hd
    obtain ⟨declared, carried, hsplit, hmerges⟩ := EnumTable.merges_of_ofDocument hd henums
    exact ⟨d, declared, carried, hd, hsplit, hmerges⟩
  · intro d hd f hf name hname
    refine ⟨?_, not_undeclared_of_carried hd hf hname⟩
    intro t x owner ht hx
    obtain ⟨htype, hrefers⟩ := Field.type_and_enumName_of_carried hname hx
    refine ⟨htype, hrefers, ?_⟩
    apply EnumUse.check_eq_ok_iff.mpr
    exact ⟨name, hrefers, mem_table_of_carried hd hf hname ht⟩

def enumFieldJson (name enumName : String) (items : List Json) : Json :=
  .object [("name", .string name), ("type", .string " enum"), ("enumName", .string enumName),
    ("enumValues", .array items)]

/-- A document that declares two enumerations, one of them under a name with blanks around it. Three
fields carry lists under the names of both, and a fourth one under a new name. -/
def paintJson : Json :=
  .object [
    ("enums", .object [
      ("Shade", .array [.string "dark", .object [("value", .bool true), ("comment", .null),
        ("label", .string "bright")]]),
      (" Tone ", .array [])]),
    ("entities", .array [
      .object [("className", .string "Paint"), ("tableName", .string "paints"),
        ("fields", .array [enumFieldJson "tone" " Tone " [.string "warm", .string "cold"],
          enumFieldJson "shade" "Shade" [.string "faint"]])],
      .object [("className", .string "Pot"), ("tableName", .string "pots"),
        ("fields", .array [enumFieldJson "size" "Size" [.object [("value", .string "S"),
            ("comment", .string "small"), ("label", .string "s")]],
          enumFieldJson "tone" "Tone" [.string "neutral"]])]])]

def paintEnums : EnumTable :=
  [("Shade", ⟨"Shade", [⟨"dark", ""⟩, ⟨"true", "bright"⟩]⟩), (" Tone ", ⟨" Tone ", []⟩),
    ("Tone", ⟨"Tone", [⟨"warm", ""⟩, ⟨"cold", ""⟩]⟩), ("Size", ⟨"Size", [⟨"S", "small"⟩]⟩)]

theorem paint_merges_enums : ∃ s d declared carried, ofJson paintJson = .ok s ∧
    Document.ofJson paintJson = .ok d ∧ s.enums = paintEnums ∧ paintEnums = declared ++ carried ∧
    EnumTable.Merges (Document.enumMembers paintJson) (EnumTable.allFields d.entities)
      declared carried := by
  have haccepted : (ofJson paintJson).toOption.map Spec.enums = some paintEnums := by
    decide +kernel
  obtain ⟨s, hs, henums⟩ := Option.map_eq_some_iff.mp haccepted
  have hs := eq_ok_of_toOption hs
  obtain ⟨d, declared, carried, hd, hsplit, hmerges⟩ :=
    (enums_merge_declared_first paintJson).1 s hs
  exact ⟨s, d, declared, carried, hs, hd, henums, henums ▸ hsplit, hmerges⟩

end Spec

end CrudBackend
