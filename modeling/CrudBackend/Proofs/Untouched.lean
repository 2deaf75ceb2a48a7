import CrudBackend.CommandLine.Program
import CrudBackend.Proofs.Cleaning.Plan
import CrudBackend.Proofs.History
import CrudBackend.Proofs.ImportTargets
import CrudBackend.Proofs.Reading

/-!
Runs that must not touch anything. A run is barred by an import target that it cannot use, by a root
of modules that it is to clean and cannot list, and on the command line also by inputs that cannot be
read. A barred run fails and leaves the tree as it is, whatever else it was asked for. A dry run that
is not barred succeeds and leaves the tree as well. Any other failure is one of a real run, on a path
that it was busy with.
-/

namespace CrudBackend

open Ownership

/-! ### Reasons -/

def Config.Refuses (c : Config) (fault : ImportFault) : Prop :=
  ImportTarget.Refused "base" c.imports.base true fault ∨
    ImportTarget.Refused "deps" c.imports.deps false fault ∨
    ImportTarget.Refused "res" c.imports.res true fault

inductive Generation.Job.Barred (j : Job) (t : FileTree) : Failure → Prop
  | imports {fault : ImportFault} (h : j.config.Refuses fault) : Barred j t (.importTarget fault)
  | listing {root : Path} {fault : FileFault} (hclean : j.options.clean = true)
      (hroot : root ∈ j.layout.moduleRoots) (hlist : t.list root = .error fault)
      (hfault : fault ≠ .notFound) : Barred j t (.files root fault)

namespace CommandLine

def Arguments.job (a : Arguments) (specPath : Path) (config : Config) (spec : Spec) :
    Generation.Job :=
  ⟨spec, config, ⟨⟨a.root⟩, specPath, a.clean, a.dryRun⟩⟩

inductive Arguments.Barred (a : Arguments) (t : FileTree) : RunError → Prop
  | spec {fault : FileFault} (h : t.canonical ⟨a.spec⟩ = .error fault) :
      Barred a t (.openSpec ⟨a.spec⟩ fault)
  | config {failure : Failure} (h : t.loadConfig (a.config.map Path.mk) = .error failure) :
      Barred a t (.loadConfig failure)
  | load {specPath : Path} {failure : Failure} (hspec : t.canonical ⟨a.spec⟩ = .ok specPath)
      (h : t.loadSpec specPath = .error failure) : Barred a t (.loadSpec specPath failure)
  | generation {specPath : Path} {config : Config} {spec : Spec} {failure : Failure}
      (h : inputs t a = .ok (specPath, config, spec))
      (hjob : (a.job specPath config spec).Barred t failure) : Barred a t (.generation failure)

end CommandLine

/-- A computation on a tree that knows when it must not touch it. -/
structure Careful {ε α : Type} (m : EStateM ε FileTree α) (dryRun : Bool) (Barred OnFiles : ε → Prop)
    (t : FileTree) : Prop where
  barred : ∀ e, Barred e → ∃ e', Barred e' ∧ m t = .error e' t
  dry : dryRun = true → (∃ e, Barred e ∧ m t = .error e t) ∨ ∃ a, m t = .ok a t
  failed : ∀ e t', m t = .error e t' → Barred e ∧ t' = t ∨ dryRun = false ∧ OnFiles e

/-! ### Import targets -/

namespace Config

variable {c : Config} {fault : ImportFault}

/-- The target that is reported is refused. -/
theorem refuses_of_resolveImports (h : c.resolveImports = .error fault) : c.Refuses fault := by
  rcases bindExcept_eq_error.mp h with hparse | ⟨target, hparse, h⟩
  · exact Or.inl (.malformed hparse)
  rcases bindExcept_eq_error.mp h with hsingle | ⟨base, -, h⟩
  · obtain ⟨hnames, rfl⟩ := ImportTarget.single_eq_error hsingle
    exact Or.inl (.notSingle hparse rfl hnames)
  rcases bindExcept_eq_error.mp h with hparse | ⟨deps, -, h⟩
  · exact Or.inr (Or.inl (.malformed hparse))
  rcases bindExcept_eq_error.mp h with hparse | ⟨target, hparse, h⟩
  · exact Or.inr (Or.inr (.malformed hparse))
  rcases bindExcept_eq_error.mp h with hsingle | ⟨res, -, h⟩
  · obtain ⟨hnames, rfl⟩ := ImportTarget.single_eq_error hsingle
    exact Or.inr (Or.inr (.notSingle hparse rfl hnames))
  · cases h

/-- A configuration with a target that is refused does not provide the imports. -/
theorem not_refuses_of_resolveImports {imports : Imports} (h : c.resolveImports = .ok imports) :
    ¬ c.Refuses fault := by
  obtain ⟨base, hbase, h⟩ := bindExcept_eq_ok.mp h
  obtain ⟨_, hbaseOne, h⟩ := bindExcept_eq_ok.mp h
  obtain ⟨deps, hdeps, h⟩ := bindExcept_eq_ok.mp h
  obtain ⟨res, hres, h⟩ := bindExcept_eq_ok.mp h
  obtain ⟨_, hresOne, -⟩ := bindExcept_eq_ok.mp h
  rintro (hrefused | hrefused | hrefused)
  · exact ImportTarget.not_refused hbase (fun _ => ImportTarget.length_of_single hbaseOne) hrefused
  · exact ImportTarget.not_refused hdeps (fun hsingle => by cases hsingle) hrefused
  · exact ImportTarget.not_refused hres (fun _ => ImportTarget.length_of_single hresOne) hrefused

end Config

/-! ### Plans of a cleaning -/

namespace Cleaning

variable {t : FileTree} {l : Layout} {root : Path} {spec : RawPath} {origin : String}
  {roots : List Path} {failure : Failure} {fault : FileFault}

theorem moduleDirsOf_eq_error (h : moduleDirsOf t root = .error failure) :
    ∃ fault, t.list root = .error fault ∧ fault ≠ .notFound ∧ failure = .files root fault := by
  unfold moduleDirsOf at h
  split at h
  · cases h
  · cases h
  · rename_i fault hfault hlist
    cases h
    exact ⟨fault, hlist, hfault, rfl⟩

theorem rootsPlan_eq_error (h : rootsPlan t origin roots = .error failure) : ∃ root ∈ roots,
    ∃ fault, t.list root = .error fault ∧ fault ≠ .notFound ∧ failure = .files root fault := by
  induction roots with
  | nil => cases h
  | cons root rest ih =>
    rcases bindExcept_eq_error.mp h with hdirs | ⟨dirs, -, h⟩
    · exact ⟨root, List.mem_cons_self .., moduleDirsOf_eq_error hdirs⟩
    rcases bindExcept_eq_error.mp h with hrest | ⟨more, -, h⟩
    · obtain ⟨root, hroot, hfault⟩ := ih hrest
      exact ⟨root, List.mem_cons_of_mem _ hroot, hfault⟩
    · cases h

/-- A plan fails on a root of modules that cannot be listed. -/
theorem plan_eq_error (h : Cleaning.plan t l spec = .error failure) : ∃ root ∈ l.moduleRoots,
    ∃ fault, t.list root = .error fault ∧ fault ≠ .notFound ∧ failure = .files root fault := by
  rcases bindExcept_eq_error.mp h with hroots | ⟨more, -, h⟩
  · exact rootsPlan_eq_error hroots
  · cases h

theorem rootsPlan_of_unlisted {plan : CleanPlan} (hroot : root ∈ roots)
    (hlist : t.list root = .error fault) (hfault : fault ≠ .notFound) :
    rootsPlan t origin roots ≠ .ok plan := by
  induction roots generalizing plan with
  | nil => cases hroot
  | cons first rest ih =>
    intro h
    obtain ⟨dirs, hdirs, h⟩ := bindExcept_eq_ok.mp h
    obtain ⟨more, hmore, -⟩ := bindExcept_eq_ok.mp h
    rcases List.mem_cons.mp hroot with rfl | hroot
    · unfold moduleDirsOf at hdirs
      rw [hlist] at hdirs
      cases fault <;> first | exact hfault rfl | cases hdirs
    · exact ih hroot hmore

/-- No plan is made while a root of modules cannot be listed. -/
theorem plan_of_unlisted {plan : CleanPlan} (hroot : root ∈ l.moduleRoots)
    (hlist : t.list root = .error fault) (hfault : fault ≠ .notFound) :
    Cleaning.plan t l spec ≠ .ok plan := by
  intro h
  obtain ⟨more, hmore, -⟩ := plan_eq_ok_iff.mp h
  exact rootsPlan_of_unlisted hroot hlist hfault hmore

end Cleaning

/-! ### Failures on files -/

def Failure.OnFiles (e : Failure) : Prop := ∃ p fault, e = .files p fault

namespace Disk

def FailsOnFiles {α : Type} (m : Disk α) : Prop := ∀ t e t', m t = .error e t' → e.OnFiles

namespace FailsOnFiles

variable {α β : Type} {m : Disk α} {f : α → Disk β}

theorem pure (a : α) : FailsOnFiles (Pure.pure a) := by
  intro t e t' h
  cases h

theorem bind (hm : FailsOnFiles m) (hf : ∀ a, FailsOnFiles (f a)) : FailsOnFiles (m >>= f) := by
  intro t e t' h
  cases hstep : m t with
  | ok a s =>
    rw [bind_ok hstep] at h
    exact hf a s e t' h
  | error e' s =>
    rw [bind_error hstep] at h
    cases h
    exact hm t e t' hstep

theorem removeFile (p : Path) : FailsOnFiles (Cleaning.removeFile p) := by
  intro t e t' h
  unfold Cleaning.removeFile at h
  split at h
  · cases h
  · cases h
  · cases h
    exact ⟨p, _, rfl⟩

theorem removeIfEmpty (p : Path) : FailsOnFiles (Cleaning.removeIfEmpty p) := by
  intro t e t' h
  unfold Cleaning.removeIfEmpty at h
  split at h
  · split at h
    · cases h
    · cases h
      exact ⟨p, _, rfl⟩
  · cases h

theorem removeEach {remove : Path → Disk (List Path)} (hremove : ∀ p, FailsOnFiles (remove p))
    (paths : List Path) : FailsOnFiles (Cleaning.removeEach remove paths) := by
  induction paths with
  | nil => exact pure []
  | cons p rest ih => exact bind (hremove p) fun removed => bind ih fun more => pure _

theorem apply (plan : CleanPlan) (dryRun : Bool) : FailsOnFiles (Cleaning.apply plan dryRun) := by
  unfold Cleaning.apply
  split_ifs
  · exact pure _
  · exact bind (removeEach removeFile _) fun files =>
      bind (removeEach removeIfEmpty _) fun dirs => pure _

theorem makeParent (p : Path) : FailsOnFiles (Output.makeParent p) := by
  intro t e t' h
  unfold Output.makeParent at h
  split at h
  · cases h
  · rename_i dir hdir
    split_ifs at h
    cases hmake : t.makeDirectories dir with
    | mk s fault =>
      rw [hmake] at h
      cases fault with
      | none => cases h
      | some fault =>
        cases h
        exact ⟨dir, fault, rfl⟩

theorem put (dryRun : Bool) (p : Path) (text : String) :
    FailsOnFiles (Output.put dryRun p text) := by
  unfold Output.put
  split_ifs
  · exact pure ()
  · refine bind (makeParent p) fun _ t e t' h => ?_
    split at h
    · cases h
    · cases h
      exact ⟨p, _, rfl⟩

theorem perform (dryRun : Bool) (piece : Piece) : FailsOnFiles (Output.perform dryRun piece) := by
  intro t e t' h
  rw [Output.perform_eq] at h
  split_ifs at h
  exact bind (put _ _ _) (fun _ => pure _) t e t' h

theorem performAll (dryRun : Bool) (pieces : List Piece) :
    FailsOnFiles (Output.performAll dryRun pieces) := by
  induction pieces with
  | nil => exact pure []
  | cons piece rest ih => exact bind (perform dryRun piece) fun outcome => bind ih fun more => pure _

end FailsOnFiles

end Disk

/-! ### Runs -/

namespace Generation

variable {j : Job} {t : FileTree} {failure : Failure}

/-- The reason of a plan that cannot be made. -/
theorem Job.barred_of_plan (h : j.plan t = .error failure) : j.Barred t failure := by
  unfold Job.plan at h
  split_ifs at h with hclean
  obtain ⟨root, hroot, fault, hlist, hfault, rfl⟩ := Cleaning.plan_eq_error h
  exact .listing hclean hroot hlist hfault

/-- A run that resolves its imports and makes its plan is not barred. -/
theorem Job.not_barred {imports : Imports} {plan : CleanPlan}
    (himports : j.config.resolveImports = .ok imports) (hplan : j.plan t = .ok plan) :
    ¬ j.Barred t failure := by
  rintro (hrefuses | ⟨hclean, hroot, hlist, hfault⟩)
  · exact Config.not_refuses_of_resolveImports himports hrefuses
  · unfold Job.plan at hplan
    rw [if_pos hclean] at hplan
    exact Cleaning.plan_of_unlisted hroot hlist hfault hplan

/-- A run either stops for a reason that bars it, or it is not barred and gets to its plan. -/
theorem Job.stops_or_plans (j : Job) (t : FileTree) :
    (∃ failure, j.Barred t failure ∧ run j.spec j.config j.options t = .error failure t) ∨
      ∃ imports plan, j.config.resolveImports = .ok imports ∧ j.plan t = .ok plan := by
  cases himports : j.config.resolveImports with
  | error fault =>
    refine Or.inl ⟨_, .imports (Config.refuses_of_resolveImports himports), ?_⟩
    rw [run, himports]
    rfl
  | ok imports =>
    cases hplan : j.plan t with
    | error failure =>
      refine Or.inl ⟨failure, Job.barred_of_plan hplan, ?_⟩
      have hremovals := removals_eq j t
      rw [hplan] at hremovals
      rw [run_eq himports, Disk.bind_error hremovals]
    | ok plan => exact Or.inr ⟨imports, plan, rfl, rfl⟩

/-- A dry run that gets to its plan succeeds and leaves the tree. -/
theorem run_dry_of_plan {imports : Imports} {plan : CleanPlan}
    (himports : j.config.resolveImports = .ok imports) (hplan : j.plan t = .ok plan)
    (hdry : j.options.dryRun = true) :
    ∃ report, run j.spec j.config j.options t = .ok report t := by
  have hremovals : j.removals t = .ok plan.files t := by
    rw [removals_eq, hplan, hdry]
    rfl
  rw [run_eq himports, Disk.bind_ok hremovals, hdry, Disk.bind_ok (Output.performAll_dry _ t)]
  exact ⟨_, rfl⟩

/-- A run that gets to its plan fails on files only. -/
theorem onFiles_of_plan {imports : Imports} {plan : CleanPlan}
    (himports : j.config.resolveImports = .ok imports) (hplan : j.plan t = .ok plan)
    {t' : FileTree} (h : run j.spec j.config j.options t = .error failure t') :
    failure.OnFiles := by
  rw [run_eq himports] at h
  have hremovals := removals_eq j t
  rw [hplan] at hremovals
  rw [Disk.bind_congr_left hremovals] at h
  exact Disk.FailsOnFiles.bind (.apply plan _) (fun removed => .bind (.performAll _ _)
    fun outcomes => .pure _) t failure t' h

theorem careful_run (j : Job) (t : FileTree) :
    Careful (run j.spec j.config j.options) j.options.dryRun (j.Barred t) Failure.OnFiles t := by
  rcases j.stops_or_plans t with ⟨failure, hbarred, hrun⟩ | ⟨imports, plan, himports, hplan⟩
  · refine ⟨fun e _ => ⟨failure, hbarred, hrun⟩, fun _ => Or.inl ⟨failure, hbarred, hrun⟩, ?_⟩
    intro e t' h
    rw [hrun] at h
    cases h
    exact Or.inl ⟨hbarred, rfl⟩
  · refine ⟨fun e he => absurd he (Job.not_barred himports hplan),
      fun hdry => Or.inr (run_dry_of_plan himports hplan hdry), fun e t' h => Or.inr ⟨?_, ?_⟩⟩
    · refine eq_false_of_ne_true fun hdry => ?_
      obtain ⟨report, hrun⟩ := run_dry_of_plan himports hplan hdry
      rw [hrun] at h
      cases h
    · exact onFiles_of_plan himports hplan h

end Generation

/-! ### The command line -/

namespace CommandLine

variable {a : Arguments} {t : FileTree} {e : RunError}

def RunError.OnFiles (e : RunError) : Prop :=
  ∃ failure : Failure, failure.OnFiles ∧ e = .generation failure

theorem barred_of_inputs (h : inputs t a = .error e) : a.Barred t e := by
  rcases bindExcept_eq_error.mp h with h | ⟨specPath, hspec, h⟩
  · obtain ⟨fault, hfault, rfl⟩ := mapError_eq_error.mp h
    exact .spec hfault
  rcases bindExcept_eq_error.mp h with h | ⟨config, -, h⟩
  · obtain ⟨failure, hfailure, rfl⟩ := mapError_eq_error.mp h
    exact .config hfailure
  rcases bindExcept_eq_error.mp h with h | ⟨spec, -, h⟩
  · obtain ⟨failure, hfailure, rfl⟩ := mapError_eq_error.mp h
    exact .load (mapError_eq_ok.mp hspec) hfailure
  · cases h

/-- A run whose inputs can be read is barred if and only if the run of the generator is. -/
theorem barred_iff {specPath : Path} {config : Config} {spec : Spec}
    (h : inputs t a = .ok (specPath, config, spec)) : a.Barred t e ↔
      ∃ failure, (a.job specPath config spec).Barred t failure ∧ e = .generation failure := by
  constructor
  · intro hbarred
    obtain ⟨path, hpath, hrest⟩ := bindExcept_eq_ok.mp h
    obtain ⟨c, hc, hrest⟩ := bindExcept_eq_ok.mp hrest
    obtain ⟨s, hs, hrest⟩ := bindExcept_eq_ok.mp hrest
    cases hrest
    rw [mapError_eq_ok] at hpath hc hs
    cases hbarred with
    | spec hspec => rw [hspec] at hpath; cases hpath
    | config hconfig => rw [hconfig] at hc; cases hc
    | load hspec hload =>
      rw [hspec] at hpath
      cases hpath
      rw [hload] at hs
      cases hs
    | generation hinputs hjob =>
      rw [h] at hinputs
      cases hinputs
      exact ⟨_, hjob, rfl⟩
  · rintro ⟨failure, hjob, rfl⟩
    exact .generation h hjob

/-- What a run of the program comes to once its inputs are read. -/
theorem execute_eq {specPath : Path} {config : Config} {spec : Spec}
    {j : Generation.Job} (h : inputs t a = .ok (specPath, config, spec))
    (hj : j = a.job specPath config spec) : execute a t =
      match Generation.run j.spec j.config j.options t with
      | .ok report t => .ok report t
      | .error failure t => .error (.generation failure) t := by
  subst hj
  rw [execute, h]
  rfl

theorem careful_execute (a : Arguments) (t : FileTree) :
    Careful (execute a) a.dryRun (a.Barred t) RunError.OnFiles t := by
  cases h : inputs t a with
  | error e =>
    have hrun : execute a t = .error e t := by rw [execute, h]
    have hbarred := barred_of_inputs h
    refine ⟨fun _ _ => ⟨e, hbarred, hrun⟩, fun _ => Or.inl ⟨e, hbarred, hrun⟩, fun e' t' h' => ?_⟩
    rw [hrun] at h'
    cases h'
    exact Or.inl ⟨hbarred, rfl⟩
  | ok read =>
    obtain ⟨specPath, config, spec⟩ := read
    obtain ⟨j, hj⟩ : ∃ j, j = a.job specPath config spec := ⟨_, rfl⟩
    have hcareful := Generation.careful_run j t
    have hexecute := execute_eq h hj
    refine ⟨fun e he => ?_, fun hdry => ?_, fun e t' hrun => ?_⟩
    · obtain ⟨failure, hjob, -⟩ := (barred_iff h).mp he
      obtain ⟨failure', hjob', hrun⟩ := hcareful.barred failure (hj ▸ hjob)
      exact ⟨_, .generation h (hj ▸ hjob'), by rw [hexecute, hrun]⟩
    · rcases hcareful.dry (hj ▸ hdry) with ⟨failure, hjob, hrun⟩ | ⟨report, hrun⟩
      · exact Or.inl ⟨_, .generation h (hj ▸ hjob), by rw [hexecute, hrun]⟩
      · exact Or.inr ⟨report, by rw [hexecute, hrun]⟩
    · rw [hexecute] at hrun
      cases hgeneration : Generation.run j.spec j.config j.options t with
      | ok report s =>
        rw [hgeneration] at hrun
        cases hrun
      | error failure s =>
        rw [hgeneration] at hrun
        cases hrun
        rcases hcareful.failed failure t' hgeneration with ⟨hjob, rfl⟩ | ⟨hdry, hfiles⟩
        · exact Or.inl ⟨.generation h (hj ▸ hjob), rfl⟩
        · exact Or.inr ⟨by rwa [hj] at hdry, failure, hfiles, rfl⟩

/-- Whatever it was asked for, a run that is barred fails and leaves the tree as it is, and so does a
dry run, which fails only if it is barred. This holds of the generator and of the program. A failure
for any other reason is one of a real run, in its work on some path. -/
theorem barred_and_dry_runs_touch_nothing (t : FileTree) :
    (∀ j : Generation.Job, Careful (Generation.run j.spec j.config j.options) j.options.dryRun
      (j.Barred t) Failure.OnFiles t) ∧
    ∀ a : Arguments, Careful (execute a) a.dryRun (a.Barred t) RunError.OnFiles t :=
  ⟨fun j => Generation.careful_run j t, fun a => careful_execute a t⟩

/-- A run that is to clean first, with an import target that lacks its colon. -/
def malformedJob : Generation.Job :=
  { Generation.itemJob with
    config := { imports := { base := "app.db:Base", deps := "app.deps", res := "app.res:Res" } } }

theorem malformed_import_touches_nothing :
    malformedJob.config.Refuses ⟨"deps", "app.deps", .noColon⟩ ∧
      malformedJob.options.clean = true ∧
      ∃ e, Generation.run malformedJob.spec malformedJob.config malformedJob.options
        Generation.handWrittenService = .error e Generation.handWrittenService := by
  have hrefused : malformedJob.config.Refuses ⟨"deps", "app.deps", .noColon⟩ :=
    Or.inr (Or.inl (.malformed rfl))
  have hcareful := (barred_and_dry_runs_touch_nothing Generation.handWrittenService).1 malformedJob
  obtain ⟨e, -, hrun⟩ := hcareful.barred _ (.imports hrefused)
  exact ⟨hrefused, rfl, e, hrun⟩

end CommandLine

end CrudBackend
