import CrudBackend.Spec.Reading
import Mathlib.Data.List.Nodup

/-!
What a text has gone through when it is accepted as a specification: it is JSON, the JSON has the
form of a document, and the entities of the document pass the checks, one after the other. Entities
pass together if and only if each passes on its own and no two of them share their files.
-/

namespace CrudBackend

/-! ### Steps that may fail -/

section Steps

variable {ε ε' α β : Type} {x : Except ε α} {f : α → Except ε β} {g : ε → ε'} {a : α} {b : β}

theorem bindExcept_eq_ok : (x >>= f) = .ok b ↔ ∃ a, x = .ok a ∧ f a = .ok b := by
  cases x <;> simp [bind, Except.bind]

theorem bindExcept_eq_error {e : ε} :
    (x >>= f) = .error e ↔ x = .error e ∨ ∃ a, x = .ok a ∧ f a = .error e := by
  cases x <;> simp [bind, Except.bind]

theorem mapError_eq_ok : x.mapError g = .ok a ↔ x = .ok a := by
  cases x <;> simp [Except.mapError]

theorem mapError_eq_error {e' : ε'} :
    x.mapError g = .error e' ↔ ∃ e, x = .error e ∧ g e = e' := by
  cases x <;> simp [Except.mapError]

theorem eq_ok_of_toOption (h : x.toOption = some a) : x = .ok a := by
  cases x with
  | error e => cases h
  | ok a' =>
    cases h
    rfl

theorem bindExcept_unit_eq_ok {x : Except ε Unit} {f : Unit → Except ε β} :
    (x >>= f) = .ok b ↔ x = .ok () ∧ f () = .ok b := by
  rw [bindExcept_eq_ok]
  exact ⟨fun ⟨_, hx, hf⟩ => ⟨hx, hf⟩, fun ⟨hx, hf⟩ => ⟨(), hx, hf⟩⟩

/-- A list of steps succeeds if and only if each of them does. -/
theorem mapM_eq_ok_iff {as : List α} {bs : List β} :
    as.mapM f = .ok bs ↔ List.Forall₂ (fun a b => f a = .ok b) as bs := by
  induction as generalizing bs with
  | nil => cases bs <;> simp [pure, Except.pure]
  | cons a as ih =>
    rw [List.mapM_cons, bindExcept_eq_ok]
    constructor
    · rintro ⟨b, hb, h⟩
      obtain ⟨more, hmore, h⟩ := bindExcept_eq_ok.mp h
      cases h
      exact .cons hb (ih.mp hmore)
    · rintro (_ | ⟨hb, hmore⟩)
      exact ⟨_, hb, bindExcept_eq_ok.mpr ⟨_, ih.mpr hmore, rfl⟩⟩

theorem exists_mapM {as : List α} (h : ∀ a ∈ as, ∃ b, f a = .ok b) : ∃ bs, as.mapM f = .ok bs := by
  induction as with
  | nil => exact ⟨[], rfl⟩
  | cons a as ih =>
    obtain ⟨b, hb⟩ := h a (List.mem_cons_self ..)
    obtain ⟨bs, hbs⟩ := ih fun a' ha' => h a' (List.mem_cons_of_mem _ ha')
    exact ⟨b :: bs, mapM_eq_ok_iff.mpr (.cons hb (mapM_eq_ok_iff.mp hbs))⟩

/-- What comes out of a list of steps has come out of one of them. -/
theorem exists_of_mem_mapM {as : List α} {bs : List β} (h : as.mapM f = .ok bs) (hb : b ∈ bs) :
    ∃ a ∈ as, f a = .ok b := by
  obtain ⟨n, hn, rfl⟩ := List.mem_iff_getElem.mp hb
  have hall := List.forall₂_iff_get.mp (mapM_eq_ok_iff.mp h)
  exact ⟨as[n], List.getElem_mem _, hall.2 n (hall.1 ▸ hn) hn⟩

/-- Checks on a list succeed if and only if each of them does. -/
theorem forM_eq_ok_iff {check : α → Except ε Unit} {as : List α} :
    as.forM check = .ok () ↔ ∀ a ∈ as, check a = .ok () := by
  induction as with
  | nil => simp [List.forM, pure, Except.pure]
  | cons a as ih =>
    rw [List.forM, bindExcept_unit_eq_ok, List.forall_mem_cons]
    exact and_congr_right fun _ => ih

/-- What every step keeps holds of what a list of steps leads to. -/
theorem foldlM_preserves {P : β → Prop} {step : β → α → Except ε β}
    (hstep : ∀ r a r', P r → step r a = .ok r' → P r') {as : List α} {r r' : β} (hr : P r)
    (h : as.foldlM step r = .ok r') : P r' := by
  induction as generalizing r with
  | nil =>
    cases h
    exact hr
  | cons a as ih =>
    rw [List.foldlM_cons] at h
    obtain ⟨next, hnext, h⟩ := bindExcept_eq_ok.mp h
    exact ih (hstep r a next hr hnext) h

end Steps

/-! ### Stages of reading -/

namespace Spec

variable {text : String} {d : Document} {s : Spec}

theorem ofDocument_eq_ok (h : ofDocument d = .ok s) :
    EnumTable.ofDocument d = .ok s.enums ∧
      d.entities.mapM Entity.ofDescriptor = .ok s.entities ∧ s.check = .ok () := by
  rw [ofDocument] at h
  obtain ⟨enums, henums, h⟩ := bindExcept_eq_ok.mp h
  obtain ⟨entities, hentities, h⟩ := bindExcept_eq_ok.mp h
  obtain ⟨u, hcheck, h⟩ := bindExcept_eq_ok.mp h
  cases h
  exact ⟨henums, hentities, hcheck⟩

/-- The stages that an accepted text has passed. -/
theorem parse_eq_ok (h : parse text = .ok s) :
    ∃ v d, Json.parse? text = some v ∧ Document.ofJson v = .ok d ∧ ofDocument d = .ok s := by
  rw [parse] at h
  cases hv : Json.parse? text with
  | none =>
    rw [hv] at h
    cases h
  | some v =>
    rw [hv] at h
    obtain ⟨d, hd, h⟩ := bindExcept_eq_ok.mp h
    exact ⟨v, d, rfl, mapError_eq_ok.mp hd, mapError_eq_ok.mp h⟩

theorem check_of_parse (h : parse text = .ok s) : s.check = .ok () := by
  obtain ⟨v, d, -, -, hd⟩ := parse_eq_ok h
  exact (ofDocument_eq_ok hd).2.2

end Spec

/-! ### Entities that pass the checks together -/

/-- The checks on an entity that do not depend on other ones. -/
structure Entity.Passes (enums : EnumTable) (e : Entity) : Prop where
  fields : ∀ u ∈ e.fieldUses, u.check enums = .ok ()
  params : ∀ u ∈ e.paramUses, u.check enums = .ok ()
  constraints : ∀ u ∈ e.uniqueConstraints, e.checkConstraint u = .ok ()

namespace Entity

variable {enums : EnumTable} {taken : List (String × String)} {e : Entity} {entities : List Entity}

theorem check_eq_ok_iff :
    e.check enums taken = .ok () ↔ e.fileKey ∉ taken ∧ e.Passes enums := by
  by_cases hin : e.fileKey ∈ taken
  · rw [check, if_pos (List.contains_iff_mem.mpr hin)]
    exact ⟨fun h => (nomatch h), fun h => absurd hin h.1⟩
  · rw [check, if_neg (mt List.contains_iff_mem.mp hin), bindExcept_unit_eq_ok,
      bindExcept_unit_eq_ok, forM_eq_ok_iff, forM_eq_ok_iff, forM_eq_ok_iff]
    exact ⟨fun ⟨hfields, hparams, h⟩ => ⟨hin, hfields, hparams, h⟩,
      fun ⟨_, h⟩ => ⟨h.fields, h.params, h.constraints⟩⟩

/-- Entities pass one after the other if each passes, and their files are neither taken before nor by
each other. -/
theorem checkAll_eq_ok_iff : checkAll enums taken entities = .ok () ↔
    (∀ e ∈ entities, e.Passes enums) ∧ (entities.map fileKey).Nodup ∧
      ∀ e ∈ entities, e.fileKey ∉ taken := by
  induction entities generalizing taken with
  | nil => simp [checkAll]
  | cons e rest ih =>
    rw [checkAll, bindExcept_unit_eq_ok]
    have hrest : (∀ e' ∈ rest, e'.fileKey ∉ e.fileKey :: taken) ↔
        e.fileKey ∉ rest.map fileKey ∧ ∀ e' ∈ rest, e'.fileKey ∉ taken := by
      simp only [List.mem_cons, not_or, List.mem_map, not_exists, not_and]
      exact ⟨fun h => ⟨fun e' he' => (h e' he').1, fun e' he' => (h e' he').2⟩,
        fun h e' he' => ⟨h.1 e' he', h.2 e' he'⟩⟩
    simp only [check_eq_ok_iff, ih, hrest, List.forall_mem_cons, List.map_cons, List.nodup_cons]
    tauto

end Entity

/-- No two entities of a specification share their files. -/
theorem Spec.nodup_fileKey_of_parse {text : String} {s : Spec} (h : parse text = .ok s) :
    (s.entities.map Entity.fileKey).Nodup :=
  (Entity.checkAll_eq_ok_iff.mp (check_of_parse h)).2.1

end CrudBackend
