import CrudBackend.Proofs.Reading

/-!
A document without enumerations of its own is its list of entities, in whichever form the list is
given: bare, or as a member of an object under one key or the other. All forms come to the same
document, so what is read from them is the same specification or the same fault. Only the message on
a list that does not have the right shape tells a bare list from a member.
-/

namespace CrudBackend

open Json (ShapeFault asList)

namespace Document

/-! ### Objects that list entities -/

def NoEnums (members : List (String × Json)) : Prop :=
  Json.member? "enums" members = none ∨ Json.member? "enums" members = some .null ∨
    Json.member? "enums" members = some (.object [])

def Silent (key : String) (members : List (String × Json)) : Prop :=
  Json.member? key members = none ∨ Json.member? key members = some .null ∨
    Json.member? key members = some (.array [])

/-- The object lists these entities. Under the first key a list that is not empty counts whatever
stands under the second one. -/
inductive Lists (items : List Json) (members : List (String × Json)) : Prop where
  | entities (hentities : Json.member? "entities" members = some (.array items))
      (hmodules : items ≠ [] ∨ Silent "modules" members)
  | modules (hentities : Silent "entities" members)
      (hmodules : Json.member? "modules" members = some (.array items))

variable {items : List Json} {members : List (String × Json)} {key : String}

theorem saysSomething_array (items : List Json) :
    saysSomething (.array items) = true ↔ items ≠ [] := by
  cases items <;> simp [saysSomething]

theorem filter_member?_of_silent (h : Silent key members) :
    (Json.member? key members).filter saysSomething = none := by
  rcases h with habsent | hnull | hempty
  · rw [habsent]
    rfl
  · rw [hnull]
    rfl
  · rw [hempty]
    rfl

theorem filter_member?_getD (h : Json.member? key members = some (.array items)) :
    ((Json.member? key members).filter saysSomething).getD (.array []) = .array items := by
  cases items with
  | nil => rw [filter_member?_of_silent (Or.inr (Or.inr h)), Option.getD_none]
  | cons item rest => rw [h, Option.filter_some, if_pos ((saysSomething_array _).mpr (by simp)),
      Option.getD_some]

theorem entitiesMember_of_lists (h : Lists items members) :
    entitiesMember members = .array items := by
  unfold entitiesMember
  cases h with
  | entities hentities hmodules =>
    by_cases hne : items = []
    · subst hne
      have hsilent : Silent "modules" members := hmodules.resolve_left (not_not_intro rfl)
      rw [filter_member?_of_silent (Or.inr (Or.inr hentities)), filter_member?_of_silent hsilent]
      rfl
    · rw [hentities, Option.filter_some, if_pos ((saysSomething_array items).mpr hne)]
  | modules hentities hmodules =>
    rw [filter_member?_of_silent hentities]
    exact filter_member?_getD hmodules

theorem enumsOfJson_of_noEnums (h : NoEnums members) :
    enumsOfJson (Json.member? "enums" members) = .ok [] := by
  rcases h with habsent | hnull | hempty
  · rw [habsent]
    rfl
  · rw [hnull]
    rfl
  · rw [hempty]
    rfl

def entityList (items : List Json) : Except ShapeFault (List EntityDescriptor) :=
  asList EntityDescriptor.ofJson (.array items)

theorem ofJson_array (items : List Json) :
    ofJson (.array items) = ((entityList items).mapError .entityList).map (Document.mk []) := by
  rw [ofJson, entityList]
  cases asList EntityDescriptor.ofJson (.array items) <;> rfl

theorem ofJson_object (henums : NoEnums members) (hlists : Lists items members) :
    ofJson (.object members) = ((entityList items).mapError .entities).map (Document.mk []) := by
  rw [ofJson, enumsOfJson_of_noEnums henums, entitiesMember_of_lists hlists, entitiesOfJson,
    entityList]
  cases asList EntityDescriptor.ofJson (.array items) <;> rfl

end Document

/-! ### Outcomes -/

/-- The outcome on a bare list and that on an object are the same specification, the same fault of a
document, or messages on its shape that differ in the words for the form. -/
inductive SameOutcome : Except SpecError Spec → Except SpecError Spec → Prop where
  | accepted (s : Spec) : SameOutcome (.ok s) (.ok s)
  | invalid (fault : SpecFault) : SameOutcome (.error (.invalid fault)) (.error (.invalid fault))
  | format {fault fault' : FormatFault} (text : String) (h : fault.message = "entity list: " ++ text)
      (h' : fault'.message = "entities: " ++ text) :
      SameOutcome (.error (.format fault)) (.error (.format fault'))

theorem sameOutcome_mapError (outcome : Except SpecFault Spec) :
    SameOutcome (outcome.mapError .invalid) (outcome.mapError .invalid) := by
  cases outcome with
  | ok s => exact .accepted s
  | error fault => exact .invalid fault

namespace Spec

open Document

variable {items : List Json} {members members' : List (String × Json)}

theorem sameOutcome_ofJson (henums : NoEnums members) (hlists : Lists items members) :
    SameOutcome (ofJson (.array items)) (ofJson (.object members)) := by
  rw [ofJson, ofJson, ofJson_array, ofJson_object henums hlists]
  cases entityList items with
  | error fault => exact .format fault.message rfl rfl
  | ok entities => exact sameOutcome_mapError (ofDocument ⟨[], entities⟩)

/-- Let an object have no enumerations of its own and list entities, under whichever key and beside
whatever else. What is read from it is what is read from the bare list, up to the words for the form
in a message, and just what is read from any other object that lists the same. -/
theorem forms_are_interchangeable (henums : NoEnums members) (hlists : Lists items members) :
    SameOutcome (ofJson (.array items)) (ofJson (.object members)) ∧
    ∀ members', NoEnums members' → Lists items members' →
      ofJson (.object members') = ofJson (.object members) := by
  refine ⟨sameOutcome_ofJson henums hlists, ?_⟩
  intro members' henums' hlists'
  rw [ofJson, ofJson, ofJson_object henums hlists, ofJson_object henums' hlists']

def namelessMembers : List (String × Json) :=
  [("version", .bool true), ("enums", .object []), ("modules", .array [.object []]),
    ("entities", .null)]

theorem nameless_entity_is_refused_alike :
    NoEnums namelessMembers ∧ Lists [.object []] namelessMembers ∧
    SameOutcome (ofJson (.array [.object []])) (ofJson (.object namelessMembers)) ∧
    ofJson (.object [("entities", .array [.object []]), ("modules", .bool false)]) =
      ofJson (.object namelessMembers) := by
  have henums : NoEnums namelessMembers := Or.inr (Or.inr rfl)
  have hlists : Lists [.object []] namelessMembers := .modules (Or.inr (Or.inl rfl)) rfl
  obtain ⟨hsame, hother⟩ := forms_are_interchangeable henums hlists
  refine ⟨henums, hlists, hsame, ?_⟩
  exact hother _ (Or.inl rfl) (.entities rfl (Or.inl (by simp)))

end Spec

end CrudBackend
