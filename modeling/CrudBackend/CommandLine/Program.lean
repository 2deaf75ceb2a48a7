import CrudBackend.CommandLine.Arguments
import CrudBackend.Generation
import CrudBackend.Loading

/-!
The program as a function: from arguments, environment and file tree to an exit code, what is
printed, and the tree that is left.
-/

namespace CrudBackend.CommandLine

inductive RunError where
  | openSpec (spec : Path) (fault : FileFault)
  | loadConfig (failure : Failure)
  | loadSpec (spec : Path) (failure : Failure)
  | generation (failure : Failure)

def RunError.message : RunError → String
  | openSpec spec fault => "cannot open spec " ++ spec.text ++ ": " ++ fault.message
  | loadConfig failure => String.intercalate ": " ("failed to load config" :: failure.chain)
  | loadSpec spec failure =>
    String.intercalate ": " (("failed to load spec " ++ spec.text) :: failure.chain)
  | generation failure => String.intercalate ": " ("generation failed" :: failure.chain)

/-- What a run reads before it generates: the specification with the path from the root to it, and
the configuration. -/
def inputs (t : FileTree) (a : Arguments) : Except RunError (Path × Config × Spec) := do
  let specPath ← (t.canonical ⟨a.spec⟩).mapError (.openSpec ⟨a.spec⟩)
  let config ← (t.loadConfig (a.config.map Path.mk)).mapError .loadConfig
  let spec ← (t.loadSpec specPath).mapError (.loadSpec specPath)
  return (specPath, config, spec)

def execute (a : Arguments) : EStateM RunError FileTree Report := fun t =>
  match inputs t a with
  | .error e => .error e t
  | .ok (specPath, config, spec) =>
    match Generation.run spec config ⟨⟨a.root⟩, specPath, a.clean, a.dryRun⟩ t with
    | .ok report t => .ok report t
    | .error failure t => .error (.generation failure) t

def summary (dryRun : Bool) (r : Report) : List String :=
  (if dryRun then
    (r.removed.map fun p => "would remove " ++ p.text) ++
      (r.written ++ r.scaffolded).map fun p => "would write " ++ p.text
  else if r.removed.isEmpty then []
  else ["🧹 Removed " ++ toString r.removed.length ++ " generated paths"]) ++
  (r.skipped.map fun p => "⚠️  Kept hand-written " ++ p.text) ++
  (if dryRun then []
  else ("✅ Generated " ++ toString r.written.length ++ " files") ::
    r.scaffolded.map fun p => "✅ Scaffolded " ++ p.text) ++
  ["Codegen done.", r.mountImport]

def versionLine : String := "crudgen 0.1.0"

def helpLines (envConfig : Option String) : List String :=
  ["Generate a FastAPI/SQLAlchemy CRUD backend from an entity spec",
   "",
   "Usage: crudgen [OPTIONS] --spec <SPEC>",
   "",
   "Options:",
   "  -s, --spec <SPEC>      Path to the entity spec (JSON)",
   "  -c, --config <CONFIG>  Path to the generator config overlay (JSON) [env: CRUDGEN_CONFIG=" ++
     envConfig.getD "" ++ "]",
   "      --root <ROOT>      Project root the app directory is resolved against [default: .]",
   "      --clean            Remove previously generated output of this spec before generating",
   "      --dry-run          Render everything and report the would-be file list without writing",
   "  -h, --help             Print help",
   "  -V, --version          Print version"]

def UsageError.message : UsageError → String
  | displayHelp => "help requested"
  | displayVersion => "version requested"
  | unknownArgument => "unexpected argument found"
  | invalidValue => "a value is required and was not supplied"
  | tooManyValues => "unexpected value for a flag"
  | argumentConflict => "an argument cannot be used multiple times"
  | missingRequired => "the required argument --spec <SPEC> was not provided"

structure Completion where
  code : Nat
  out : String
  err : String
  deriving DecidableEq, Repr

def unlines (lines : List String) : String := String.join (lines.map (· ++ "\n"))

def UsageError.completion (envConfig : Option String) : UsageError → Completion
  | displayHelp => ⟨0, unlines (helpLines envConfig), ""⟩
  | displayVersion => ⟨0, unlines [versionLine], ""⟩
  | e => ⟨2, "", unlines ["error: " ++ e.message]⟩

def program (args : List String) (envConfig : Option String) (t : FileTree) :
    Completion × FileTree :=
  match parse args envConfig with
  | .error e => (e.completion envConfig, t)
  | .ok a =>
    match execute a t with
    | .ok report t => (⟨0, unlines (summary a.dryRun report), ""⟩, t)
    | .error e t => (⟨1, "", unlines ["error: " ++ e.message]⟩, t)

end CrudBackend.CommandLine
