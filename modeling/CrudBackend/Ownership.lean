import CrudBackend.Files.Tree
import CrudBackend.Text.Blank

/-!
How output is recognized as the generator's own. A generated file begins with a marker line; blanks
before it are tolerated within a window of bytes. A generated module directory holds a hidden file
that names the specification it was generated from, its origin.
-/

namespace CrudBackend.Ownership

def marker : String := "# generated - DO NOT EDIT"

def windowBytes : Nat := 512

/-- The bytes are those of a generated file: the text they are read as begins with the marker behind
blanks. What follows the marker does not count. -/
def isMarked (bytes : List UInt8) : Bool :=
  marker.toList.isPrefixOf ((Text.decodeLossy (bytes.take windowBytes)).dropWhile Text.isBlank)

/-- The path leads to a generated file. Whatever cannot be read is taken for hand-written. -/
def isGenerated (t : FileTree) (p : Path) : Bool :=
  match t.readBytes p with
  | .ok bytes => isMarked bytes
  | .error _ => false

def stampName : String := ".codegen"

def stampLead : String := "generated from:"

/-- The origin that a specification at a path stands for: the text that the path is read as, with
forward slashes. Bytes that encode no character are replaced in it, so paths can share an origin. -/
def originOf (spec : RawPath) : String :=
  String.ofList ((Text.decodeLossy spec.bytes).map fun c => if c == '\\' then '/' else c)

def stampText (spec : RawPath) : String := stampLead ++ " " ++ originOf spec ++ "\n"

/-- The origin that the text of a mark names in its first line. The introduction may be missing. -/
def originInText? (text : String) : Option String :=
  if text = "" then none
  else
    let line := Text.trimmed (text.toList.takeWhile (· != '\n'))
    let lead := stampLead.toList
    some (String.ofList (Text.trimmed (if lead.isPrefixOf line then line.drop lead.length else line)))

def stampFile (dir : Path) : Path := dir.join stampName

/-- The origin that a directory is marked with. A mark that cannot be read is none. -/
def originOfDirectory? (t : FileTree) (dir : Path) : Option String :=
  match t.readText (stampFile dir) with
  | .ok text => originInText? text
  | .error _ => none

end CrudBackend.Ownership
