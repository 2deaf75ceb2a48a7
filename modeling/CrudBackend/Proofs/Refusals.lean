import CrudBackend.Proofs.Reading

/-!
Where a document is refused. The table of enumerations is made first, then the entities get their
normal form, and the specification is checked as a whole at the end. Each stage has faults of its
own, so a fault tells how far the document came; in particular a document is refused for an
enumeration that is not declared only after its table was made, and the table does not have it.
-/

namespace CrudBackend

/-! ### Faults of steps -/

def FailsWith {ε α : Type} (P : ε → Prop) (x : Except ε α) : Prop := ∀ e, x = .error e → P e

namespace FailsWith

variable {ε ε' α β : Type} {P : ε → Prop} {Q : ε' → Prop} {x : Except ε α} {f : α → Except ε β}

theorem ok (a : α) : FailsWith P (.ok a : Except ε α) := by
  intro e h
  cases h

theorem error {e : ε} (he : P e) : FailsWith P (.error e : Except ε α) := by
  intro e' h
  cases h
  exact he

theorem bind (hx : FailsWith P x) (hf : ∀ a, FailsWith P (f a)) : FailsWith P (x >>= f) := by
  intro e h
  rcases bindExcept_eq_error.mp h with hfail | ⟨a, -, hfail⟩
  · exact hx e hfail
  · exact hf a e hfail

theorem mapError {g : ε → ε'} (hg : ∀ e, Q (g e)) : FailsWith Q (x.mapError g) := by
  intro e' h
  obtain ⟨e, -, heq⟩ := mapError_eq_error.mp h
  rw [← heq]
  exact hg e

theorem mapM (hf : ∀ a, FailsWith P (f a)) (as : List α) : FailsWith P (as.mapM f) := by
  induction as with
  | nil => exact ok []
  | cons a as ih =>
    rw [List.mapM_cons]
    exact (hf a).bind fun b => ih.bind fun bs => ok (b :: bs)

theorem forM {check : α → Except ε Unit} (hcheck : ∀ a, FailsWith P (check a)) (as : List α) :
    FailsWith P (as.forM check) := by
  induction as with
  | nil => exact ok ()
  | cons a as ih => exact (hcheck a).bind fun _ => ih

end FailsWith

/-! ### Stages -/

inductive Stage where
  | enums
  | entities
  | checks
  deriving DecidableEq, Repr

def SpecFault.stage : SpecFault → Stage
  | .enumEntryWithoutValue _ _ => .enums
  | .enumEntryNotScalar _ _ _ => .enums
  | .lengthNotInteger _ _ => .entities
  | .unknownMode _ _ _ => .entities
  | .filesCollide _ _ _ => .checks
  | .enumUndeclared _ _ _ => .checks
  | .enumNameMissing _ _ => .checks
  | .columnUndeclared _ _ _ => .checks

def FailsAt {α : Type} (stage : Stage) (x : Except SpecFault α) : Prop :=
  FailsWith (fun fault => fault.stage = stage) x

/-! ### The table of enumerations -/

theorem EnumValue.failsAt_ofDescriptor (name : String) (index : Nat) (d : ValueDescriptor) :
    FailsAt .enums (ofDescriptor name index d) := by
  unfold ofDescriptor
  split
  · split_ifs
    · exact .ok _
    · exact .error rfl
  · exact .error rfl
  · split_ifs
    · exact .ok _
    · exact .error rfl

theorem EnumValue.failsAt_listFrom (name : String) (index : Nat) (values : List ValueDescriptor) :
    FailsAt .enums (listFrom name index values) := by
  induction values generalizing index with
  | nil => exact .ok []
  | cons d rest ih =>
    rw [listFrom]
    exact (failsAt_ofDescriptor name index d).bind fun x =>
      FailsWith.bind (ih (index + 1)) fun xs => .ok (x :: xs)

theorem EnumDef.failsAt_ofDescriptors (name : String) (values : List ValueDescriptor) :
    FailsAt .enums (ofDescriptors name values) :=
  FailsWith.bind (EnumValue.failsAt_listFrom name 0 values) fun _ => .ok _

namespace EnumTable

theorem failsAt_ofDeclared (declared : List (String × List ValueDescriptor)) :
    FailsAt .enums (ofDeclared declared) := by
  induction declared with
  | nil => exact .ok []
  | cons x rest ih =>
    rw [ofDeclared]
    exact FailsWith.bind (EnumDef.failsAt_ofDescriptors x.1 x.2) fun e =>
      FailsWith.bind ih fun t => .ok ((x.1, e) :: t)

theorem failsAt_collect (t : EnumTable) (fields : List FieldDescriptor) :
    FailsAt .enums (collect t fields) := by
  induction fields generalizing t with
  | nil => exact .ok t
  | cons f rest ih =>
    rw [collect]
    split
    · exact ih t
    · next name values _ =>
      split_ifs
      · exact ih t
      · exact FailsWith.bind (EnumDef.failsAt_ofDescriptors name values) fun e => ih _

theorem failsAt_ofDocument (d : Document) : FailsAt .enums (ofDocument d) :=
  FailsWith.bind (failsAt_ofDeclared d.enums) fun declared =>
    FailsWith.bind (failsAt_collect [] (allFields d.entities)) fun carried =>
      .ok (carried.foldl enter declared)

end EnumTable

/-! ### The entities -/

theorem failsAt_readLength (field : String) (length : Option LengthDescriptor) :
    FailsAt .entities (readLength field length) := by
  unfold readLength
  split
  · exact .ok none
  · exact .ok _
  · split
    · exact .ok none
    · split
      · exact .ok _
      · exact .error rfl

theorem Field.failsAt_ofDescriptor (d : FieldDescriptor) : FailsAt .entities (ofDescriptor d) :=
  FailsWith.bind (failsAt_readLength d.name d.length) fun _ => .ok _

theorem Api.failsAt_ofDescriptor (className : String) (d : ApiDescriptor) :
    FailsAt .entities (ofDescriptor className d) :=
  FailsWith.bind (FailsWith.mapError fun _ => rfl) fun _ => .ok _

theorem Entity.failsAt_ofDescriptor (d : EntityDescriptor) : FailsAt .entities (ofDescriptor d) :=
  FailsWith.bind (FailsWith.mapM Field.failsAt_ofDescriptor (d.fields.getD [])) fun _ =>
    FailsWith.bind (FailsWith.mapM (Api.failsAt_ofDescriptor _) (d.apis.getD [])) fun _ => .ok _

/-! ### The checks -/

/-- If the fault is about an enumeration that is not declared, the table does not have it. -/
def Misses (enums : EnumTable) (fault : SpecFault) : Prop :=
  ∀ owner field name, fault = .enumUndeclared owner field name → enums.has name = false

variable (enums : EnumTable)

theorem EnumUse.misses_of_check (u : EnumUse) : FailsWith (Misses enums) (u.check enums) := by
  unfold check
  split
  · split_ifs with hhas
    · exact .ok ()
    · apply FailsWith.error
      intro owner field name h
      cases h
      exact eq_false_of_ne_true hhas
  · apply FailsWith.error
    intro owner field name h
    cases h

theorem Entity.misses_of_checkConstraint (e : Entity) (u : UniqueConstraint) :
    FailsWith (Misses enums) (e.checkConstraint u) := by
  unfold checkConstraint
  split
  · apply FailsWith.error
    intro owner field name h
    cases h
  · exact .ok ()

theorem Entity.misses_of_check (taken : List (String × String)) (e : Entity) :
    FailsWith (Misses enums) (e.check enums taken) := by
  unfold check
  split_ifs
  · apply FailsWith.error
    intro owner field name h
    cases h
  · refine FailsWith.bind (FailsWith.forM (EnumUse.misses_of_check enums) e.fieldUses) fun _ => ?_
    refine FailsWith.bind (FailsWith.forM (EnumUse.misses_of_check enums) e.paramUses) fun _ => ?_
    exact FailsWith.forM (e.misses_of_checkConstraint enums) e.uniqueConstraints

theorem Entity.misses_of_checkAll (taken : List (String × String)) (entities : List Entity) :
    FailsWith (Misses enums) (checkAll enums taken entities) := by
  induction entities generalizing taken with
  | nil => exact .ok ()
  | cons e rest ih =>
    rw [checkAll]
    exact FailsWith.bind (e.misses_of_check enums taken) fun _ => ih _

/-! ### Documents -/

namespace Spec

variable {d : Document} {fault : SpecFault} {owner field name : String}

/-- A document that is refused by the checks has a table and entities in their normal form. -/
theorem exists_check_of_stage (h : ofDocument d = .error fault) (hstage : fault.stage = .checks) :
    ∃ s : Spec, EnumTable.ofDocument d = .ok s.enums ∧
      d.entities.mapM Entity.ofDescriptor = .ok s.entities ∧ s.check = .error fault := by
  rw [ofDocument] at h
  rcases bindExcept_eq_error.mp h with hfail | ⟨enums, henums, h⟩
  · rw [EnumTable.failsAt_ofDocument d fault hfail] at hstage
    cases hstage
  · rcases bindExcept_eq_error.mp h with hfail | ⟨entities, hentities, h⟩
    · rw [FailsWith.mapM Entity.failsAt_ofDescriptor d.entities fault hfail] at hstage
      cases hstage
    · rcases bindExcept_eq_error.mp h with hcheck | ⟨_, -, h⟩
      · exact ⟨⟨enums, entities⟩, henums, hentities, hcheck⟩
      · cases h

/-- An enumeration that is reported as undeclared is not in the table of the document. -/
theorem undeclared_not_in_table (h : ofDocument d = .error (.enumUndeclared owner field name)) :
    ∃ t, EnumTable.ofDocument d = .ok t ∧ t.has name = false := by
  obtain ⟨s, henums, -, hcheck⟩ := exists_check_of_stage h rfl
  refine ⟨s.enums, henums, ?_⟩
  exact Entity.misses_of_checkAll s.enums [] s.entities _ hcheck owner field name rfl

end Spec

end CrudBackend
