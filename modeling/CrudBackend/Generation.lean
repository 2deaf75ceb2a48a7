import CrudBackend.Artifact.Enums
import CrudBackend.Artifact.Model
import CrudBackend.Artifact.Router
import CrudBackend.Artifact.Schema
import CrudBackend.Artifact.Service
import CrudBackend.Artifact.Shared
import CrudBackend.Output

/-!
A run of the generator. What is written, and in which order, follows from the specification and the
configuration alone; the file tree decides only what becomes of each piece.
-/

namespace CrudBackend

structure RunOptions where
  /-- The root of the project. -/
  root : Path
  /-- The path that the specification came from, as marks record it. -/
  specPath : RawPath
  clean : Bool
  dryRun : Bool
  deriving DecidableEq, Repr

structure Report where
  written : List Path
  skipped : List Path
  scaffolded : List Path
  removed : List Path
  /-- The line that mounts the generated router in the application. -/
  mountImport : String
  deriving DecidableEq, Repr

namespace Generation

def sharedPieces (s : Spec) (l : Layout) : List Piece :=
  [.generated l.enumsFile (Artifact.enums s),
   .generated l.mixinsFile Artifact.mixins,
   .generated l.commonFile Artifact.common,
   .generated l.serviceBaseFile Artifact.serviceBase,
   .generated l.permFile Artifact.perm]

/-- The pieces that prepare the directories of a module: each is made a package, and marked unless
the run has marked it before. -/
def directoryPieces (spec : RawPath) :
    List (List Path.Component) → List Path → List Piece × List (List Path.Component)
  | marked, [] => ([], marked)
  | marked, dir :: rest =>
    if marked.contains dir.components then
      let (pieces, marked) := directoryPieces spec marked rest
      (.package dir :: pieces, marked)
    else
      let (pieces, marked) := directoryPieces spec (dir.components :: marked) rest
      (.package dir :: .mark dir spec :: pieces, marked)

def filePieces (c : Config) (l : Layout) (i : Imports) (e : Entity) : List Piece :=
  let files := l.entityFiles e
  [.generated files.model (Artifact.model e l i),
   .generated files.schema (Artifact.schema e l),
   .generated files.service (Artifact.service e l (c.hasExtension e))] ++
  (if c.hasExtension e then [.draft files.serviceImpl (Artifact.serviceImpl e l)] else []) ++
  [.generated files.api (Artifact.api e l i c.routes)]

def entityPieces (c : Config) (l : Layout) (i : Imports) (spec : RawPath) :
    List (List Path.Component) → List Entity → List Piece
  | _, [] => []
  | marked, e :: rest =>
    let (pieces, marked) := directoryPieces spec marked (l.moduleDirs e)
    pieces ++ filePieces c l i e ++ entityPieces c l i spec marked rest

def mounts (s : Spec) (l : Layout) : List Artifact.Mount := s.entities.map (Artifact.mountOf l)

def pieces (s : Spec) (c : Config) (l : Layout) (i : Imports) (spec : RawPath) : List Piece :=
  l.packageDirs.map .package ++ sharedPieces s l ++ entityPieces c l i spec [] s.entities ++
    [.generated l.routerFile (Artifact.router (mounts s l))]

def mountImport (l : Layout) : String := "from " ++ l.routerModule ++ " import api_router"

def report (l : Layout) (outcomes : List Outcome) (removed : List Path) : Report where
  written := outcomes.filterMap fun | .written p => some p | _ => none
  skipped := outcomes.filterMap fun | .skipped p => some p | _ => none
  scaffolded := outcomes.filterMap fun | .drafted p => some p | _ => none
  removed
  mountImport := mountImport l

def clean (l : Layout) (o : RunOptions) : Disk (List Path) := do
  match Cleaning.plan (← get) l o.specPath with
  | .ok plan => Cleaning.apply plan o.dryRun
  | .error failure => throw failure

/-- A run of the generator. Imports are resolved before anything is touched. -/
def run (s : Spec) (c : Config) (o : RunOptions) : Disk Report := do
  let imports ← match c.resolveImports with
    | .ok imports => pure imports
    | .error fault => throw (.importTarget fault)
  let layout := Layout.of o.root c
  let removed ← if o.clean then clean layout o else pure []
  let outcomes ← Output.performAll o.dryRun (pieces s c layout imports o.specPath)
  return report layout outcomes removed

end Generation

end CrudBackend
