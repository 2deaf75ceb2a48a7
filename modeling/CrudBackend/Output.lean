import CrudBackend.Cleaning

/-!
Writing output without touching what is hand-written. A generated text replaces only files that are
generated themselves, a draft is written only where nothing stands, and a directory keeps the
origin that it is marked with. A dry run takes the same decisions and writes nothing.
-/

namespace CrudBackend

open Ownership

inductive Outcome where
  | written (p : Path)
  | skipped (p : Path)
  | drafted (p : Path)
  | kept (p : Path)
  deriving DecidableEq, Repr

def Outcome.path : Outcome → Path
  | written p => p
  | skipped p => p
  | drafted p => p
  | kept p => p

/-- A piece of output: a generated file, a draft, a directory that is to be a package, or the mark of
a directory. -/
inductive Piece where
  | generated (p : Path) (text : String)
  | draft (p : Path) (text : String)
  | package (dir : Path)
  | mark (dir : Path) (spec : RawPath)
  deriving DecidableEq, Repr

def Output.initFile (dir : Path) : Path := dir.join "__init__.py"

def Piece.target : Piece → Path
  | generated p _ => p
  | draft p _ => p
  | package dir => Output.initFile dir
  | mark dir _ => stampFile dir

namespace Output

def makeParent (p : Path) : Disk Unit := fun t =>
  match p.parent? with
  | none => .ok () t
  | some dir =>
    if t.pathExists dir then .ok () t
    else
      match t.makeDirectories dir with
      | (t, none) => .ok () t
      | (t, some fault) => .error (.files dir fault) t

def put (dryRun : Bool) (p : Path) (text : String) : Disk Unit :=
  if dryRun then pure ()
  else do
    makeParent p
    fun t =>
      match t.writeBytes p (Text.encode text) with
      | .ok t => .ok () t
      | .error fault => .error (.files p fault) t

/-- Writes a generated file, unless a hand-written one stands there. -/
def writeGenerated (dryRun : Bool) (p : Path) (text : String) : Disk (Option Outcome) := do
  let t ← get
  if t.pathExists p && !isGenerated t p then return some (.skipped p)
  put dryRun p text
  return some (.written p)

def writeDraft (dryRun : Bool) (p : Path) (text : String) : Disk (Option Outcome) := do
  if (← get).pathExists p then return some (.kept p)
  put dryRun p text
  return some (.drafted p)

def initText : String := marker ++ "\n"

def makePackage (dryRun : Bool) (dir : Path) : Disk (Option Outcome) := do
  if (← get).pathExists (initFile dir) then return none
  writeGenerated dryRun (initFile dir) initText

/-- Marks a directory with the origin of a specification, unless it is marked with another one. -/
def markDirectory (dryRun : Bool) (dir : Path) (spec : RawPath) : Disk (Option Outcome) := do
  match originOfDirectory? (← get) dir with
  | some owner => if owner ≠ originOf spec then return none
  | none => pure ()
  put dryRun (stampFile dir) (stampText spec)
  return some (.written (stampFile dir))

def perform (dryRun : Bool) : Piece → Disk (Option Outcome)
  | .generated p text => writeGenerated dryRun p text
  | .draft p text => writeDraft dryRun p text
  | .package dir => makePackage dryRun dir
  | .mark dir spec => markDirectory dryRun dir spec

def performAll (dryRun : Bool) : List Piece → Disk (List Outcome)
  | [] => pure []
  | piece :: rest => do
    let outcome ← perform dryRun piece
    return outcome.toList ++ (← performAll dryRun rest)

end Output

end CrudBackend
