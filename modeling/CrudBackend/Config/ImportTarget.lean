import CrudBackend.Config.Basic
import CrudBackend.Text.Quoted

/-!
Import targets: `module:Name` with one or more names. The module ends at the first colon, names are
separated by commas, blanks around either do not count, and blank names are dropped.
-/

namespace CrudBackend

structure ImportTarget where
  module : String
  names : List String
  deriving DecidableEq, Repr

inductive ImportReason where
  | noColon
  | emptyModule
  | noNames
  | notSingle (count : Nat)
  deriving DecidableEq, Repr

structure ImportFault where
  key : String
  value : String
  reason : ImportReason
  deriving DecidableEq, Repr

def ImportReason.message : ImportReason → String
  | .noColon => "expected module:Name"
  | .emptyModule => "empty module path"
  | .noNames => "no names to import"
  | .notSingle count => "must name exactly one symbol, got " ++ toString count

def ImportFault.message (f : ImportFault) : String :=
  "invalid import target imports." ++ f.key ++ " = " ++ Text.quoted f.value ++ ": " ++
    f.reason.message

def namesOf (cs : List Char) : List String :=
  (((cs.splitOn ',').map Text.trimmed).filter fun name => !name.isEmpty).map String.ofList

namespace ImportTarget

def parse (key value : String) : Except ImportFault ImportTarget :=
  let cs := value.toList
  match cs.dropWhile (· != ':') with
  | [] => .error ⟨key, value, .noColon⟩
  | _ :: rest =>
    let module := Text.trimmed (cs.takeWhile (· != ':'))
    let names := namesOf rest
    if module.isEmpty then .error ⟨key, value, .emptyModule⟩
    else if names.isEmpty then .error ⟨key, value, .noNames⟩
    else .ok ⟨String.ofList module, names⟩

def text (t : ImportTarget) : String := t.module ++ ":" ++ String.intercalate "," t.names

def has (t : ImportTarget) (name : String) : Bool := t.names.contains name

end ImportTarget

structure SingleImport where
  module : String
  name : String
  deriving DecidableEq, Repr

def ImportTarget.single (t : ImportTarget) (key : String) : Except ImportFault SingleImport :=
  match t.names with
  | [name] => .ok ⟨t.module, name⟩
  | names => .error ⟨key, t.text, .notSingle names.length⟩

/-- The foundation imports: the base class of stored records, the providers for endpoints, and the
wrapper of responses. -/
structure Imports where
  base : SingleImport
  deps : ImportTarget
  res : SingleImport
  deriving DecidableEq, Repr

/-- The foundation imports of a configuration. The first target that is refused is reported. -/
def Config.resolveImports (c : Config) : Except ImportFault Imports := do
  let base ← (← ImportTarget.parse "base" c.imports.base).single "base"
  let deps ← ImportTarget.parse "deps" c.imports.deps
  let res ← (← ImportTarget.parse "res" c.imports.res).single "res"
  return ⟨base, deps, res⟩

end CrudBackend
