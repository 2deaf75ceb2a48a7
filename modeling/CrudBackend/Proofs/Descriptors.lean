import CrudBackend.Proofs.Reading

/-!
What the descriptors of a document keep of the JSON they were read from. A record starts blank and
is filled field by field, so what holds of the blank record and survives every field that is put
holds of the record. Of enumerations the whole list is kept: a field that has values has one for each
item of a list, and so has a declared enumeration.
-/

namespace CrudBackend

open Json (RecordShape ShapeFault asList asRecord asString optional)

namespace Json

variable {α : Type} {v : Json}

/-! ### Places that call for a type -/

theorem optional_eq_ok {read : Json → Except ShapeFault α} {o : Option α}
    (h : optional read v = .ok o) : o = none ∨ ∃ a, o = some a ∧ read v = .ok a := by
  unfold optional at h
  split at h
  · cases h
    exact Or.inl rfl
  · cases hread : read v with
    | error fault =>
      rw [hread] at h
      cases h
    | ok a =>
      rw [hread] at h
      cases h
      exact Or.inr ⟨a, rfl, rfl⟩

theorem asList_eq_ok {read : Json → Except ShapeFault α} {as : List α}
    (h : asList read v = .ok as) : ∃ items, v = .array items ∧ items.mapM read = .ok as := by
  cases v with
  | array items => exact ⟨items, rfl, h⟩
  | _ => cases h

/-- What holds of the blank record and survives every field that is put holds of the record. -/
theorem asRecord_preserves {P : α → Prop} {shape : RecordShape} {blank r : α}
    {put : α → String → Json → Except ShapeFault α}
    (hput : ∀ r key v r', P r → put r key v = .ok r' → P r') (hblank : P blank)
    (h : asRecord shape blank put v = .ok r) : P r := by
  cases v with
  | object members =>
    rw [asRecord] at h
    obtain ⟨filled, hfold, h⟩ := bindExcept_eq_ok.mp h
    split at h
    · cases h
    · cases h
      exact foldlM_preserves (fun r entry r' => hput r entry.1 entry.2 r') hblank hfold
  | array items =>
    rw [asRecord] at h
    obtain ⟨filled, hfold, h⟩ := bindExcept_eq_ok.mp h
    split_ifs at h
    cases h
    exact foldlM_preserves (fun r entry r' => hput r entry.1 entry.2 r') hblank hfold
  | _ => cases h

end Json

/-! ### Values of enumerations -/

namespace ValueDescriptor

variable {v : Json} {values : List ValueDescriptor}

theorem listOfJson_eq_ok (h : listOfJson v = .ok values) :
    ∃ items, v = .array items ∧ values = items.map ofJson := by
  obtain ⟨items, rfl, hitems⟩ := Json.asList_eq_ok h
  refine ⟨items, rfl, ?_⟩
  have hall := mapM_eq_ok_iff.mp hitems
  clear h hitems
  induction hall with
  | nil => rfl
  | cons hd _ ih =>
    cases hd
    rw [List.map_cons, ← ih]

end ValueDescriptor

/-! ### Fields of entities -/

/-- The values of the field, if it has any, are the items of a list. -/
def FieldDescriptor.Itemized (f : FieldDescriptor) : Prop :=
  ∀ values, f.enumValues = some values → ∃ items : List Json, values = items.map ValueDescriptor.ofJson

namespace FieldDescriptor

variable {d d' : FieldDescriptor} {key : String} {v : Json}

theorem enumValues_put (h : d.put key v = .ok d') : d'.enumValues = d.enumValues ∨
    optional ValueDescriptor.listOfJson v = .ok d'.enumValues := by
  unfold put at h
  split at h
  case h_6 =>
    obtain ⟨values, hvalues, h⟩ := bindExcept_eq_ok.mp h
    cases h
    exact Or.inr hvalues
  case h_9 =>
    cases h
    exact Or.inl rfl
  all_goals
    obtain ⟨_, -, h⟩ := bindExcept_eq_ok.mp h
    cases h
    exact Or.inl rfl

theorem itemized_put (hd : d.Itemized) (h : d.put key v = .ok d') : d'.Itemized := by
  rcases enumValues_put h with hsame | hread
  · rwa [Itemized, hsame]
  · intro values hvalues
    rcases Json.optional_eq_ok hread with hnone | ⟨read, hsome, hlist⟩
    · rw [hvalues] at hnone
      cases hnone
    · obtain ⟨items, -, hitems⟩ := ValueDescriptor.listOfJson_eq_ok hlist
      rw [hvalues] at hsome
      cases hsome
      exact ⟨items, hitems⟩

theorem itemized_of_ofJson (h : ofJson v = .ok d) : d.Itemized := by
  have hblank : Itemized {} := by
    intro values hvalues
    cases hvalues
  exact Json.asRecord_preserves (fun _ _ _ _ hr hput => itemized_put hr hput) hblank h

end FieldDescriptor

namespace EntityDescriptor

variable {d d' : EntityDescriptor} {key : String} {v : Json}

theorem fields_put (h : d.put key v = .ok d') :
    d'.fields = d.fields ∨ optional (asList FieldDescriptor.ofJson) v = .ok d'.fields := by
  unfold put at h
  split at h
  case h_7 =>
    obtain ⟨fields, hfields, h⟩ := bindExcept_eq_ok.mp h
    cases h
    exact Or.inr hfields
  case h_12 =>
    cases h
    exact Or.inl rfl
  all_goals
    obtain ⟨_, -, h⟩ := bindExcept_eq_ok.mp h
    cases h
    exact Or.inl rfl

theorem itemized_put (hd : ∀ f ∈ d.fields.getD [], f.Itemized) (h : d.put key v = .ok d') :
    ∀ f ∈ d'.fields.getD [], f.Itemized := by
  rcases fields_put h with hsame | hread
  · rwa [hsame]
  · rcases Json.optional_eq_ok hread with hnone | ⟨fields, hsome, hlist⟩
    · rw [hnone]
      exact List.forall_mem_nil _
    · obtain ⟨items, -, hitems⟩ := Json.asList_eq_ok hlist
      rw [hsome, Option.getD_some]
      intro f hf
      obtain ⟨item, -, hitem⟩ := exists_of_mem_mapM hitems hf
      exact FieldDescriptor.itemized_of_ofJson hitem

theorem itemized_of_ofJson (h : ofJson v = .ok d) : ∀ f ∈ d.fields.getD [], f.Itemized := by
  refine Json.asRecord_preserves (P := fun d => ∀ f ∈ d.fields.getD [], f.Itemized) ?_ ?_ h
  · exact fun r key v r' hr hput => itemized_put hr hput
  · exact List.forall_mem_nil _

end EntityDescriptor

/-! ### Documents -/

namespace Document

def enumMembers : Json → List (String × Json)
  | .object members =>
    match Json.member? "enums" members with
    | some (.object enums) => enums
    | _ => []
  | _ => []

/-- The enumeration has the name of the member, and a value for each item of its list. -/
def Declares (member : String × Json) (x : String × List ValueDescriptor) : Prop :=
  x.1 = member.1 ∧ ∃ items, member.2 = .array items ∧ x.2 = items.map ValueDescriptor.ofJson

variable {v : Json} {d : Document}

theorem declares_of_enumOfMember {member : String × Json} {x : String × List ValueDescriptor}
    (h : enumOfMember member = .ok x) : Declares member x := by
  rw [enumOfMember] at h
  cases hread : ValueDescriptor.listOfJson member.2 with
  | error fault =>
    rw [hread] at h
    cases h
  | ok values =>
    rw [hread] at h
    cases h
    exact ⟨rfl, ValueDescriptor.listOfJson_eq_ok hread⟩

theorem declares_of_enumsOfJson {members : List (String × Json)}
    {enums : List (String × List ValueDescriptor)}
    (h : enumsOfJson (Json.member? "enums" members) = .ok enums) :
    List.Forall₂ Declares (enumMembers (.object members)) enums := by
  rw [enumMembers]
  unfold enumsOfJson at h
  split at h
  · next hmember =>
    cases h
    rw [hmember]
    exact .nil
  · next hmember =>
    cases h
    rw [hmember]
    exact .nil
  · next declared hmember =>
    rw [hmember]
    have hall := mapM_eq_ok_iff.mp (mapError_eq_ok.mp h)
    exact hall.imp fun _ _ hx => declares_of_enumOfMember hx
  · cases h

theorem itemized_of_entities {items : List Json} {entities : List EntityDescriptor}
    (h : items.mapM EntityDescriptor.ofJson = .ok entities) :
    ∀ f ∈ EnumTable.allFields entities, f.Itemized := by
  intro f hf
  obtain ⟨e, he, hf⟩ := List.mem_flatMap.mp hf
  obtain ⟨item, -, hitem⟩ := exists_of_mem_mapM h he
  exact EntityDescriptor.itemized_of_ofJson hitem f hf

/-- A document keeps its declared enumerations in order, and every value that a field has. -/
theorem declares_and_itemized (h : ofJson v = .ok d) :
    List.Forall₂ Declares (enumMembers v) d.enums ∧
      ∀ f ∈ EnumTable.allFields d.entities, f.Itemized := by
  cases v with
  | array items =>
    obtain ⟨entities, hentities, h⟩ := bindExcept_eq_ok.mp h
    cases h
    exact ⟨.nil, itemized_of_entities (mapError_eq_ok.mp hentities)⟩
  | object members =>
    obtain ⟨enums, henums, h⟩ := bindExcept_eq_ok.mp h
    obtain ⟨entities, hentities, h⟩ := bindExcept_eq_ok.mp h
    cases h
    refine ⟨declares_of_enumsOfJson henums, ?_⟩
    unfold entitiesOfJson at hentities
    split at hentities
    · exact itemized_of_entities (mapError_eq_ok.mp hentities)
    · cases hentities
  | _ => cases h

end Document

end CrudBackend
