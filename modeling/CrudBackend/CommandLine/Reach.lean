import CrudBackend.CommandLine.Program

/-!
How far a run reaches into the file system: what it reads before anything else, what it may write,
and which directories it searches for earlier output. A tree that holds these places gives the same
run as the whole file system.
-/

namespace CrudBackend

/-- The locations that a path leads through, up to the one that it leads to. -/
def FileTree.passed (t : FileTree) (p : Path) : List Location :=
  (FileTree.steps p).foldl
    (fun found piece =>
      let l := found.getLast?.getD []
      if piece = "." then found
      else if piece = ".." then found ++ [l.dropLast]
      else found ++ [l ++ [piece]])
    [t.start p]

namespace CommandLine

def Arguments.sources (a : Arguments) : List Path := ⟨a.spec⟩ :: (a.config.map Path.mk).toList

def targets (a : Arguments) (specPath : Path) (c : Config) (s : Spec) : List Path :=
  match c.resolveImports with
  | .ok imports =>
    (Generation.pieces s c (Layout.of ⟨a.root⟩ c) imports specPath).map Piece.target
  | .error _ => []

def Arguments.listed (a : Arguments) (c : Config) : List Path :=
  if a.clean then (Layout.of ⟨a.root⟩ c).moduleRoots else []

def modulesIn (t : FileTree) (roots : List Path) : List Path :=
  roots.flatMap fun root =>
    match Cleaning.moduleDirsOf t root with
    | .ok dirs => dirs
    | .error _ => []

end CommandLine

end CrudBackend
