/-!
The arguments of the program. They are read from left to right; an option keeps its value back until
the next option or the end shows that nothing else is wrong with it, so of two mistakes the one that
is met first is reported.
-/

namespace CrudBackend.CommandLine

structure Arguments where
  spec : String
  config : Option String
  root : String
  clean : Bool
  dryRun : Bool
  deriving DecidableEq, Repr

inductive UsageError where
  | displayHelp
  | displayVersion
  | unknownArgument
  | invalidValue
  | tooManyValues
  | argumentConflict
  | missingRequired
  deriving DecidableEq, Repr

inductive Valued where
  | spec
  | config
  | root
  deriving DecidableEq, Repr

inductive Switch where
  | clean
  | dryRun
  | help
  | version
  deriving DecidableEq, Repr

def long? (name : List Char) : Option (Valued ⊕ Switch) :=
  if name = "spec".toList then some (.inl .spec)
  else if name = "config".toList then some (.inl .config)
  else if name = "root".toList then some (.inl .root)
  else if name = "clean".toList then some (.inr .clean)
  else if name = "dry-run".toList then some (.inr .dryRun)
  else if name = "help".toList then some (.inr .help)
  else if name = "version".toList then some (.inr .version)
  else none

def short? (c : Char) : Option (Valued ⊕ Switch) :=
  if c = 's' then some (.inl .spec)
  else if c = 'c' then some (.inl .config)
  else if c = 'h' then some (.inr .help)
  else if c = 'V' then some (.inr .version)
  else none

/-- What has been given so far, the option whose value is not settled yet, with the value if it has
come, and whether only operands may follow. -/
structure Progress where
  spec : Option String := none
  config : Option String := none
  root : Option String := none
  clean : Bool := false
  dryRun : Bool := false
  pending : Option (Valued × Option String) := none
  onlyOperands : Bool := false
  deriving DecidableEq, Repr

namespace Progress

def value (p : Progress) : Valued → Option String
  | .spec => p.spec
  | .config => p.config
  | .root => p.root

/-- Gives an option its value, which it may have only once and which may not be empty. -/
def store (p : Progress) (o : Valued) (v : String) : Except UsageError Progress :=
  if (p.value o).isSome then .error .argumentConflict
  else if v = "" then .error .invalidValue
  else match o with
    | .spec => .ok { p with spec := some v }
    | .config => .ok { p with config := some v }
    | .root => .ok { p with root := some v }

def settle (p : Progress) : Except UsageError Progress :=
  match p.pending with
  | none => .ok p
  | some (_, none) => .error .invalidValue
  | some (o, some v) => { p with pending := none }.store o v

/-- Sets an option without a value. Help and version put an end to everything else. -/
def set (p : Progress) : Switch → Except UsageError Progress
  | .clean => if p.clean then .error .argumentConflict else .ok { p with clean := true }
  | .dryRun => if p.dryRun then .error .argumentConflict else .ok { p with dryRun := true }
  | .help => .error .displayHelp
  | .version => .error .displayVersion

def valued (p : Progress) (o : Valued) (attached : Option String) : Except UsageError Progress := do
  let p ← p.settle
  match attached with
  | some v => p.store o v
  | none => return { p with pending := some (o, none) }

def long (p : Progress) (cs : List Char) : Except UsageError Progress :=
  let attached := match cs.dropWhile (· != '=') with
    | _ :: v => some (String.ofList v)
    | [] => none
  match long? (cs.takeWhile (· != '=')), attached with
  | some (.inl o), attached => p.valued o attached
  | some (.inr _), some _ => .error .tooManyValues
  | some (.inr s), none => do (← p.settle).set s
  | none, _ => .error .unknownArgument

/-- An argument that begins with one hyphen: a letter, and for an option with a value the value. -/
def short (p : Progress) (c : Char) (rest : List Char) : Except UsageError Progress :=
  match short? c with
  | some (.inl o) =>
    p.valued o (match rest with
      | [] => none
      | '=' :: v => some (String.ofList v)
      | v => some (String.ofList v))
  | some (.inr s) => do (← p.settle).set s
  | none => .error .unknownArgument

/-- An argument that is no option: the value that an option waits for. There are no operands. -/
def operand (p : Progress) (arg : String) : Except UsageError Progress :=
  match p.pending with
  | some (o, none) => .ok { p with pending := some (o, some arg) }
  | _ => .error .unknownArgument

def take (p : Progress) (arg : String) : Except UsageError Progress :=
  if p.onlyOperands then .error .unknownArgument
  else match arg.toList with
    | ['-', '-'] => .ok { p with onlyOperands := true }
    | '-' :: '-' :: cs => p.long cs
    | '-' :: c :: cs => p.short c cs
    | _ => p.operand arg

/-- The arguments when all have been read. A configuration that is not given comes from the
environment. -/
def finish (p : Progress) (envConfig : Option String) : Except UsageError Arguments := do
  let p ← p.settle
  let p ← match p.config, envConfig with
    | none, some v => p.store .config v
    | _, _ => pure p
  match p.spec with
  | some spec => return ⟨spec, p.config, p.root.getD ".", p.clean, p.dryRun⟩
  | none => throw .missingRequired

end Progress

def parse (args : List String) (envConfig : Option String) : Except UsageError Arguments := do
  (← args.foldlM Progress.take {}).finish envConfig

end CrudBackend.CommandLine
