import CrudBackend.Files.Tree

/-!
The changes between two file trees, in an order in which they can be made one by one: what is in a
directory goes before the directory, and comes after it.
-/

namespace CrudBackend

inductive Change where
  | removeFile (l : Location)
  | removeDirectory (l : Location)
  | makeDirectory (l : Location)
  | writeFile (l : Location) (bytes : List UInt8)
  deriving DecidableEq, Repr

def Change.removing (l : Location) : Entry → Change
  | .directory => removeDirectory l
  | .file _ => removeFile l

def Change.bringing (l : Location) : Entry → Change
  | .directory => makeDirectory l
  | .file bytes => writeFile l bytes

namespace FileTree

/-- The entries of a tree whose locations are free in another one, contents first. -/
def missingFrom (t other : FileTree) : List (Location × Entry) :=
  (t.entries.filter fun (l, _) => (other.get? l).isNone).mergeSort fun x y =>
    contentsFirstLe x.1 y.1

/-- The entries of a tree that another one does not have, directories first. -/
def newTo (t other : FileTree) : List (Location × Entry) :=
  (t.entries.filter fun (l, e) => other.get? l != some e).mergeSort fun x y => wayLe x.1 y.1

def changes (old new : FileTree) : List Change :=
  (old.missingFrom new).map (fun (l, e) => .removing l e) ++
    (new.newTo old).map fun (l, e) => .bringing l e

end FileTree

end CrudBackend
