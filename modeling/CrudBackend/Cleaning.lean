import CrudBackend.Failure
import CrudBackend.Layout
import CrudBackend.Ownership

/-!
Removing the output of earlier runs. What is removed is settled first, from the marks alone:
generated files in shared places, and below each module directory that is marked with this very
origin the generated files and the marks. Directories go only if nothing is left in them.
-/

namespace CrudBackend

/-- A computation on a file tree that may fail. What was done before a failure stays done. -/
abbrev Disk := EStateM Failure FileTree

/-- What a cleaning removes: files, directories if they end up empty, those within others first.
Directories that are marked with another origin are listed and left alone. -/
structure CleanPlan where
  files : List Path
  dirs : List Path
  foreign : List Path
  deriving DecidableEq, Repr

namespace CleanPlan

def empty : CleanPlan := ⟨[], [], []⟩

def append (p q : CleanPlan) : CleanPlan :=
  ⟨p.files ++ q.files, p.dirs ++ q.dirs, p.foreign ++ q.foreign⟩

instance : Append CleanPlan := ⟨append⟩

end CleanPlan

namespace Cleaning

open Ownership

def down (dir : Path) (way : List String) : Path := way.foldl Path.join dir

/-- What lies some way down an owned directory goes as a file: a mark, or a generated file. -/
def goes (t : FileTree) (dir : Path) (way : List String) : Bool :=
  !t.isDirectory (down dir way) &&
    (way.getLast? == some stampName || isGenerated t (down dir way))

/-- What goes below a directory with this origin, as far as paths lead there: its files in the order
of their paths, then each directory after everything in it. -/
def ownedPlan (t : FileTree) (dir : Path) (l : Location) : CleanPlan :=
  let ways := (t.below l).map (·.1)
  let files := ways.filter fun way => t.isDirectory (down dir way.dropLast) && goes t dir way
  let dirs := [] :: ways.filter fun way => t.isDirectory (down dir way)
  { files := (files.mergeSort wayLe).map (down dir)
    dirs := (dirs.mergeSort contentsFirstLe).map (down dir)
    foreign := [] }

def modulePlan (t : FileTree) (origin : String) (dir : Path) : CleanPlan :=
  match originOfDirectory? t dir with
  | none => .empty
  | some found =>
    if found = origin then
      match t.find dir with
      | .ok (l, _) => ownedPlan t dir l
      | .error _ => .empty
    else { CleanPlan.empty with foreign := [dir] }

/-- The module directories below a root, in the order of their names. A root that does not exist has
none. -/
def moduleDirsOf (t : FileTree) (root : Path) : Except Failure (List Path) :=
  match t.list root with
  | .ok names => .ok (((names.mergeSort textLe).map root.join).filter t.isDirectory)
  | .error .notFound => .ok []
  | .error fault => .error (.files root fault)

def rootsPlan (t : FileTree) (origin : String) : List Path → Except Failure CleanPlan
  | [] => .ok .empty
  | root :: rest => do
    let dirs ← moduleDirsOf t root
    let plan := (dirs.map (modulePlan t origin)).foldl (· ++ ·) .empty
    return plan ++ (← rootsPlan t origin rest)

def plan (t : FileTree) (l : Layout) (spec : RawPath) : Except Failure CleanPlan := do
  let shared := l.sharedFiles.filter (isGenerated t)
  return (⟨shared, [], []⟩ : CleanPlan) ++ (← rootsPlan t (originOf spec) l.moduleRoots)

/-- Removes a file. One that is gone already is passed over. -/
def removeFile (p : Path) : Disk (List Path) := fun t =>
  match t.removeFile p with
  | .ok t => .ok [p] t
  | .error .notFound => .ok [] t
  | .error fault => .error (.files p fault) t

def removeIfEmpty (p : Path) : Disk (List Path) := fun t =>
  if t.isEmptyDirectory p then
    match t.removeDirectory p with
    | .ok t => .ok [p] t
    | .error fault => .error (.files p fault) t
  else .ok [] t

def removeEach (remove : Path → Disk (List Path)) : List Path → Disk (List Path)
  | [] => pure []
  | p :: rest => do
    let removed ← remove p
    return removed ++ (← removeEach remove rest)

/-- Carries out a plan and lists what was removed. A dry run lists the files and removes nothing. -/
def apply (plan : CleanPlan) (dryRun : Bool) : Disk (List Path) :=
  if dryRun then pure plan.files
  else do
    let files ← removeEach removeFile plan.files
    let dirs ← removeEach removeIfEmpty plan.dirs
    return files ++ dirs

end Cleaning

end CrudBackend
