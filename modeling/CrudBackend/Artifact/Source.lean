import CrudBackend.Ownership

/-!
Source text as a list of lines. A finished text ends with one line break and has no blanks before
it; a generated one begins with the marker.
-/

namespace CrudBackend.Artifact

def annotationsImport : String := "from __future__ import annotations"

def source (lines : List String) : String :=
  Text.trimEnd (String.intercalate "\n" lines) ++ "\n"

/-- The text of a generated file, given the lines behind its head. -/
def generated (lines : List String) : String :=
  source (Ownership.marker :: annotationsImport :: "" :: lines)

def indented (line : String) : String := "    " ++ line

def commaSeparated (items : List String) : String := String.intercalate ", " items

end CrudBackend.Artifact
