import CrudBackend.Spec.Descriptor

/-!
What is wrong with a specification whose document has the right shape, and the messages that say
so.
-/

namespace CrudBackend

inductive SpecFault where
  /-- An object among the values of an enumeration has no scalar value. -/
  | enumEntryWithoutValue (enum : String) (index : Nat)
  /-- A value of an enumeration is neither a scalar nor an object. -/
  | enumEntryNotScalar (enum : String) (index : Nat) (found : Json)
  | lengthNotInteger (field length : String)
  | unknownMode (className api mode : String)
  /-- Two entities would be written to the same files. -/
  | filesCollide (className moduleName stem : String)
  | enumUndeclared (owner field enum : String)
  | enumNameMissing (owner field : String)
  | columnUndeclared (className constraint column : String)

def unknownModeText (mode : String) : String :=
  "unknown paramMode " ++ Text.quoted mode ++ " (expected ENTITY, QUERY, IDS or CUSTOM)"

def SpecFault.message : SpecFault → String
  | .enumEntryWithoutValue enum index =>
    "enum " ++ enum ++ ": entry #" ++ toString index ++ " needs a scalar \"value\""
  | .enumEntryNotScalar enum index found =>
    "enum " ++ enum ++ ": entry #" ++ toString index ++
      " must be a scalar or \x7bvalue, comment\x7d, got " ++ found.compact
  | .lengthNotInteger field length =>
    "field " ++ field ++ ": length " ++ Text.quoted length ++ " is not an integer"
  | .unknownMode className api mode => className ++ "." ++ api ++ ": " ++ unknownModeText mode
  | .filesCollide className moduleName stem =>
    "entity " ++ className ++ " collides with another entity in module " ++
      Text.quoted moduleName ++ " (file stem " ++ Text.quoted stem ++ ")"
  | .enumUndeclared owner field enum =>
    owner ++ "." ++ field ++ ": enum " ++ Text.quoted enum ++ " is not declared"
  | .enumNameMissing owner field => owner ++ "." ++ field ++ ": type enum requires enumName"
  | .columnUndeclared className constraint column =>
    className ++ ": unique constraint " ++ Text.quoted constraint ++
      " names undeclared column " ++ Text.quoted column

inductive SpecError where
  | format (fault : FormatFault)
  | invalid (fault : SpecFault)

end CrudBackend
