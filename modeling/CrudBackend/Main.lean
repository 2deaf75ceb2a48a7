import CrudBackend.CommandLine.Reach
import CrudBackend.Files.Change

/-!
The program at the shell. It copies the places that a run can reach into a file tree, runs, makes
the changes, and prints what the run says.
-/

namespace CrudBackend.CommandLine

def placeText (l : Location) : String := (FileTree.absolutePath l).text

/-- Copies what stands at a location into a tree, and of a directory as many levels below it as are
asked for. What cannot be read is left out. -/
def copyFrom (l : Location) (levels : Nat) (t : FileTree) : IO FileTree := do
  try
    let place ← IO.FS.realPath (placeText l)
    if ← place.isDir then
      let t := t.put l .directory
      match levels with
      | 0 => return t
      | below + 1 =>
        (← place.readDir).foldlM (fun t entry => copyFrom (l ++ [entry.fileName]) below t) t
    else return t.put l (.file (← IO.FS.readBinFile (placeText l)).toList)
  catch _ => return t

def copyPaths (levels : Nat) (ps : List Path) (t : FileTree) : IO FileTree :=
  ps.foldlM (fun t p => do
    let passed := t.passed p
    let t ← passed.foldlM (fun t l => copyFrom l 0 t) t
    copyFrom (passed.getLast?.getD []) levels t) t

/-- The tree of the places that a run can reach. Directories that carry the mark of the same
specification are copied whole. -/
def snapshot (a : Arguments) : IO FileTree := do
  let home := FileTree.steps ⟨(← IO.currentDir).toString⟩
  let t ← copyPaths 0 (FileTree.absolutePath home :: a.sources) ⟨[], home⟩
  match inputs t a with
  | .error _ => return t
  | .ok (specPath, c, s) =>
    let t ← copyPaths 0 (targets a specPath c s) t
    let t ← copyPaths 1 (a.listed c) t
    let dirs := modulesIn t (a.listed c)
    let t ← copyPaths 0 (dirs.map Ownership.stampFile) t
    let owned := dirs.filter fun dir =>
      Ownership.originOfDirectory? t dir == some (Ownership.originOf specPath)
    copyPaths FileTree.maxPathBytes owned t

def makeChange : Change → IO Unit
  | .removeFile l => IO.FS.removeFile (placeText l)
  | .removeDirectory l => IO.FS.removeDir (placeText l)
  | .makeDirectory l => IO.FS.createDir (placeText l)
  | .writeFile l bytes => IO.FS.writeBinFile (placeText l) bytes.toByteArray

def run (args : List String) : IO UInt32 := do
  let envConfig ← IO.getEnv "CRUDGEN_CONFIG"
  let before ← match parse args envConfig with
    | .ok a => snapshot a
    | .error _ => pure ⟨[], []⟩
  let (done, after) := program args envConfig before
  (before.changes after).forM makeChange
  IO.print done.out
  IO.eprint done.err
  return UInt32.ofNat done.code

end CrudBackend.CommandLine

def main (args : List String) : IO UInt32 := CrudBackend.CommandLine.run args
