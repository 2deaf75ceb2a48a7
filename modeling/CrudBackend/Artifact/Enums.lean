import CrudBackend.Artifact.Source
import CrudBackend.Naming.Reservation
import CrudBackend.Python.Identifier
import CrudBackend.Python.Literal
import CrudBackend.Spec.Basic

/-!
The module of enumerations: one class for each, one member for each value. Within a class the
symbols of the members differ even where the values lead to the same one.
-/

namespace CrudBackend.Artifact

structure EnumMember where
  symbol : String
  value : String
  /-- The comment on the member, on one line; it may be empty. -/
  remark : String
  deriving DecidableEq, Repr

def membersOf (d : EnumDef) : List EnumMember :=
  let symbols := Naming.reserveAll [] (d.values.map fun v => Python.symbol v.value)
  symbols.zipWith (fun symbol v => ⟨symbol, v.value, Python.flattened v.label⟩) d.values

def EnumMember.line (m : EnumMember) : String :=
  m.symbol ++ " = " ++ Python.quote m.value ++ (if m.remark = "" then "" else "  # " ++ m.remark)

def enumClass (d : EnumDef) : List String :=
  let body := match membersOf d with
    | [] => ["pass"]
    | members => members.map EnumMember.line
  ["", "", "class " ++ d.name ++ "(str, Enum):"] ++ body.map indented

def enums (s : Spec) : String :=
  generated ("from enum import Enum" :: s.enums.flatMap fun (_, d) => enumClass d)

end CrudBackend.Artifact
