import CrudBackend.Config.Basic

/-!
Expanding route templates. The three placeholders are replaced one after the other, so a value that
spells a later placeholder is expanded as well.
-/

namespace CrudBackend

/-- Replaces each occurrence of a pattern, from left to right and without overlap. `skip` counts the
characters of an occurrence that are still to be passed over. -/
def replaceFrom (pattern replacement : List Char) (skip : Nat) : List Char → List Char
  | [] => []
  | c :: rest =>
    match skip with
    | skip + 1 => replaceFrom pattern replacement skip rest
    | 0 =>
      if pattern.isPrefixOf (c :: rest) then
        replacement ++ replaceFrom pattern replacement (pattern.length - 1) rest
      else c :: replaceFrom pattern replacement 0 rest

def replaceAll (pattern replacement text : String) : String :=
  String.ofList (replaceFrom pattern.toList replacement.toList 0 text.toList)

def expandTemplate (template moduleName entity className : String) : String :=
  replaceAll "\x7bclassName\x7d" className
    (replaceAll "\x7bentity\x7d" entity
      (replaceAll "\x7bmodule\x7d" moduleName template))

end CrudBackend
