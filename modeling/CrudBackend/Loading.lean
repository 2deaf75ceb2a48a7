import CrudBackend.Failure
import CrudBackend.Spec.Reading

/-!
Loading specifications and configurations from files. A fault in the form of a file is reported with
the path of the file.
-/

namespace CrudBackend

def FileTree.loadSpec (t : FileTree) (p : Path) : Except Failure Spec :=
  match t.readText p with
  | .ok text => (Spec.parse text).mapError (Failure.ofSpecError (some p))
  | .error fault => .error (.files p fault)

/-- The configuration in a file; without a file the built-in one. -/
def FileTree.loadConfig (t : FileTree) : Option Path → Except Failure Config
  | none => .ok {}
  | some p =>
    match t.readText p with
    | .ok text => (Config.parse text).mapError (.config (some p))
    | .error fault => .error (.files p fault)

end CrudBackend
