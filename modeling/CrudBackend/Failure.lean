import CrudBackend.Config.ImportTarget
import CrudBackend.Config.Overlay
import CrudBackend.Files.Tree
import CrudBackend.Spec.Fault

/-!
Everything that can go wrong in a run, and the messages that say so.
-/

namespace CrudBackend

/-- The causes of a failure. A fault of a text that was read from a file goes with its path. -/
inductive Failure where
  | specFormat (source : Option Path) (fault : FormatFault)
  | specInvalid (fault : SpecFault)
  | config (source : Option Path) (fault : ConfigFault)
  | importTarget (fault : ImportFault)
  | files (path : Path) (fault : FileFault)

def sourceLead : Option Path → String
  | some p => p.text ++ ": "
  | none => ""

namespace Failure

def message : Failure → String
  | specFormat source fault => "unsupported spec format: " ++ sourceLead source ++ fault.message
  | specInvalid fault => "invalid spec: " ++ fault.message
  | config source fault => "invalid config: " ++ sourceLead source ++ fault.message
  | importTarget fault => fault.message
  | files path fault => "filesystem error at " ++ path.text ++ ": " ++ fault.message

/-- The text was not JSON, and what is wrong with it is not told. -/
def isSyntax : Failure → Bool
  | specFormat _ .notJson => true
  | config _ .notJson => true
  | _ => false

/-- The messages of a failure and of what caused it, outermost first. A failure on files tells its
cause twice: it is part of the message and stands for itself. -/
def chain : Failure → List String
  | files path fault => [(files path fault).message, fault.message]
  | f => [f.message]

def ofSpecError (source : Option Path) : SpecError → Failure
  | .format fault => specFormat source fault
  | .invalid fault => specInvalid fault

end Failure

end CrudBackend
