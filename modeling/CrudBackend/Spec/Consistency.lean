import CrudBackend.Spec.EnumTable

/-!
The checks that a specification must pass as a whole: no two entities share their files, every
reference to an enumeration leads somewhere, and unique constraints name columns that exist.
-/

namespace CrudBackend

structure EnumUse where
  owner : String
  name : String
  enumName : Option String
  deriving DecidableEq, Repr

def EnumUse.check (enums : EnumTable) (u : EnumUse) : Except SpecFault Unit :=
  match u.enumName with
  | some name => if enums.has name then .ok () else .error (.enumUndeclared u.owner u.name name)
  | none => .error (.enumNameMissing u.owner u.name)

def Api.params (a : Api) : List Param :=
  match a.mode with
  | .custom _ params => params
  | _ => []

namespace Entity

def fieldUses (e : Entity) : List EnumUse :=
  (e.fields.filter fun f => f.type.isEnum).map fun f => ⟨e.className, f.name, f.enumName⟩

def paramUses (e : Entity) : List EnumUse :=
  e.apis.flatMap fun a => (a.params.filter fun p => p.type.isEnum).map fun p =>
    ⟨e.className ++ "." ++ a.name, p.name, p.enumName⟩

def fileKey (e : Entity) : String × String := (e.moduleName, e.fileStem)

def checkConstraint (e : Entity) (u : UniqueConstraint) : Except SpecFault Unit :=
  match u.columns.find? fun c => !e.columnNames.contains c with
  | some c => .error (.columnUndeclared e.className u.name c)
  | none => .ok ()

/-- The checks on one entity, given the files that the entities before it are written to. -/
def check (enums : EnumTable) (taken : List (String × String)) (e : Entity) :
    Except SpecFault Unit := do
  if taken.contains e.fileKey then
    throw (.filesCollide e.className e.moduleName e.fileStem)
  e.fieldUses.forM (EnumUse.check enums)
  e.paramUses.forM (EnumUse.check enums)
  e.uniqueConstraints.forM e.checkConstraint

def checkAll (enums : EnumTable) : List (String × String) → List Entity → Except SpecFault Unit
  | _, [] => .ok ()
  | taken, e :: rest => do
    e.check enums taken
    checkAll enums (e.fileKey :: taken) rest

end Entity

def Spec.check (s : Spec) : Except SpecFault Unit := Entity.checkAll s.enums [] s.entities

end CrudBackend
