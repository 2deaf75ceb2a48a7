import CrudBackend.Proofs.Drafts

/-!
Histories of runs. A run takes a plan of removals and then brings out its pieces; it may fail at any
of them, and it may be given up between two of them. Whatever it was asked for, the tree that it
leaves spares the hand-written files of the tree that it found, and so does a history of runs.
-/

namespace CrudBackend

open FileTree Ownership

namespace Generation

structure Job where
  spec : Spec
  config : Config
  options : RunOptions

namespace Job

def layout (j : Job) : Layout := .of j.options.root j.config

/-- The paths that a run puts together from its root, its configuration and its entities. -/
def paths (j : Job) : List Path :=
  j.layout.packageDirs ++ j.layout.sharedFiles ++ j.spec.entities.flatMap fun e =>
    let files := j.layout.entityFiles e
    j.layout.moduleDirs e ++
      [files.model, files.schema, files.service, files.serviceImpl, files.api]

/-- No path of the run has a step up. -/
def Straight (j : Job) : Prop := ∀ p ∈ j.paths, p.Straight

instance (j : Job) : Decidable j.Straight :=
  inferInstanceAs (Decidable (∀ p ∈ j.paths, p.Straight))

end Job

def Job.plan (j : Job) (t : FileTree) : Except Failure CleanPlan :=
  if j.options.clean then Cleaning.plan t j.layout j.options.specPath else .ok .empty

/-- The removals of a run, whether it was asked for them or not. -/
def Job.removals (j : Job) : Disk (List Path) :=
  if j.options.clean then clean j.layout j.options else pure []

/-- The steps that carry out a plan; a dry run takes none. -/
def removalSteps (plan : CleanPlan) (dryRun : Bool) : List (Disk Unit) :=
  if dryRun then []
  else plan.files.map (fun p => Disk.quiet (Cleaning.removeFile p)) ++
    plan.dirs.map fun p => Disk.quiet (Cleaning.removeIfEmpty p)

def steps (j : Job) (imports : Imports) (plan : CleanPlan) : List (Disk Unit) :=
  removalSteps plan j.options.dryRun ++
    (pieces j.spec j.config j.layout imports j.options.specPath).map fun piece =>
      Disk.quiet (Output.perform j.options.dryRun piece)

/-- A run that is given up after so many steps, if it gets that far. -/
def giveUpAfter (n : Nat) (j : Job) : Disk Unit := fun t =>
  match j.config.resolveImports, j.plan t with
  | .error fault, _ => .error (.importTarget fault) t
  | .ok _, .error failure => .error failure t
  | .ok imports, .ok plan => Disk.inTurn ((steps j imports plan).take n) t

/-- A run that is carried out as far as it gets, or given up after so many steps. -/
structure Attempt where
  job : Job
  stop : Option Nat

def Attempt.after (a : Attempt) (t : FileTree) : FileTree :=
  match a.stop with
  | none => (run a.job.spec a.job.config a.job.options).after t
  | some n => (giveUpAfter n a.job).after t

def afterAll (attempts : List Attempt) (t : FileTree) : FileTree :=
  attempts.foldl (fun t a => a.after t) t

variable {t t' : FileTree} {j : Job} {l : Layout} {spec : RawPath} {piece : Piece}

/-! ### Where the pieces of a run go -/

theorem mem_directoryPieces {marked : List (List Path.Component)} {dirs : List Path}
    (h : piece ∈ (directoryPieces spec marked dirs).1) :
    ∃ dir ∈ dirs, piece = .package dir ∨ piece = .mark dir spec := by
  induction dirs generalizing marked with
  | nil => cases h
  | cons dir rest ih =>
    rw [directoryPieces] at h
    split_ifs at h
    · rcases List.mem_cons.mp h with rfl | h
      · exact ⟨dir, List.mem_cons_self .., Or.inl rfl⟩
      · obtain ⟨d, hd, hpiece⟩ := ih h
        exact ⟨d, List.mem_cons_of_mem _ hd, hpiece⟩
    · rcases List.mem_cons.mp h with rfl | h
      · exact ⟨dir, List.mem_cons_self .., Or.inl rfl⟩
      · rcases List.mem_cons.mp h with rfl | h
        · exact ⟨dir, List.mem_cons_self .., Or.inr rfl⟩
        · obtain ⟨d, hd, hpiece⟩ := ih h
          exact ⟨d, List.mem_cons_of_mem _ hd, hpiece⟩

theorem mem_entityPieces {c : Config} {i : Imports} {marked : List (List Path.Component)}
    {entities : List Entity} (h : piece ∈ entityPieces c l i spec marked entities) :
    ∃ e ∈ entities, (∃ dir ∈ l.moduleDirs e, piece = .package dir ∨ piece = .mark dir spec) ∨
      piece ∈ filePieces c l i e := by
  induction entities generalizing marked with
  | nil => cases h
  | cons e rest ih =>
    rw [entityPieces] at h
    rcases List.mem_append.mp h with h | h
    · rcases List.mem_append.mp h with h | h
      · exact ⟨e, List.mem_cons_self .., Or.inl (mem_directoryPieces h)⟩
      · exact ⟨e, List.mem_cons_self .., Or.inr h⟩
    · obtain ⟨e', he', hpiece⟩ := ih h
      exact ⟨e', List.mem_cons_of_mem _ he', hpiece⟩

/-- A draft is the draft of the extension of an entity. -/
theorem eq_of_draft_mem_pieces {s : Spec} {c : Config} {i : Imports} {p : Path} {text : String}
    (h : .draft p text ∈ pieces s c l i spec) :
    ∃ e ∈ s.entities, p = (l.entityFiles e).serviceImpl ∧ text = Artifact.serviceImpl e l := by
  simp only [pieces, sharedPieces, List.mem_append, List.mem_map, List.mem_cons, reduceCtorEq,
    and_false, exists_false, List.not_mem_nil, or_false, false_or] at h
  obtain ⟨e, he, ⟨dir, -, hpiece | hpiece⟩ | hpiece⟩ := mem_entityPieces h
  · cases hpiece
  · cases hpiece
  · refine ⟨e, he, ?_⟩
    simp only [filePieces, List.mem_append, List.mem_cons, reduceCtorEq, List.not_mem_nil,
      or_false, false_or] at hpiece
    split_ifs at hpiece
    · simpa using hpiece
    · cases hpiece

theorem isName_initFile : IsName "__init__.py" := by decide

theorem straight_target (hj : j.Straight) {i : Imports}
    (h : piece ∈ pieces j.spec j.config j.layout i j.options.specPath) :
    piece.target.Straight := by
  have hdir : ∀ dir, dir.Straight → (Output.initFile dir).Straight ∧ (stampFile dir).Straight :=
    fun dir hd => ⟨(straight_join_name isName_initFile).mpr hd,
      (straight_join_name Output.isName_stampName).mpr hd⟩
  have hpackage : ∀ dir ∈ j.layout.packageDirs, dir.Straight := fun dir hd =>
    hj dir (List.mem_append_left _ (List.mem_append_left _ hd))
  have hshared : ∀ p ∈ j.layout.sharedFiles, p.Straight := fun p hp =>
    hj p (List.mem_append_left _ (List.mem_append_right _ hp))
  have hentity : ∀ e ∈ j.spec.entities, ∀ p ∈ j.layout.moduleDirs e ++
      [(j.layout.entityFiles e).model, (j.layout.entityFiles e).schema,
        (j.layout.entityFiles e).service, (j.layout.entityFiles e).serviceImpl,
        (j.layout.entityFiles e).api], p.Straight := fun e he p hp =>
    hj p (List.mem_append_right _ (List.mem_flatMap.mpr ⟨e, he, hp⟩))
  rw [pieces, List.mem_append, List.mem_append, List.mem_append] at h
  rcases h with ((h | h) | h) | h
  · obtain ⟨dir, hd, rfl⟩ := List.mem_map.mp h
    exact (hdir dir (hpackage dir hd)).1
  · refine hshared _ ?_
    simp only [sharedPieces, List.mem_cons, List.not_mem_nil, or_false] at h
    rcases h with rfl | rfl | rfl | rfl | rfl <;> simp [Piece.target, Layout.sharedFiles]
  · obtain ⟨e, he, ⟨dir, hd, rfl | rfl⟩ | h⟩ := mem_entityPieces h
    · exact (hdir dir (hentity e he dir (List.mem_append_left _ hd))).1
    · exact (hdir dir (hentity e he dir (List.mem_append_left _ hd))).2
    · refine hentity e he _ (List.mem_append_right _ ?_)
      simp only [filePieces, List.mem_append, List.mem_cons, List.not_mem_nil, or_false] at h
      rcases h with ((rfl | rfl | rfl) | h) | rfl
      · simp [Piece.target]
      · simp [Piece.target]
      · simp [Piece.target]
      · split_ifs at h
        · cases List.mem_singleton.mp h
          simp [Piece.target]
        · cases h
      · simp [Piece.target]
  · cases List.mem_singleton.mp h
    refine hshared _ ?_
    simp [Piece.target, Layout.sharedFiles]

/-! ### Runs -/

theorem Job.Straight.layout (hj : j.Straight) : j.layout.Straight := fun dir hd =>
  hj dir (List.mem_append_left _ (List.mem_append_left _ hd))

theorem disposable_of_mem_plan (hw : t.WellFormed) (hj : j.Straight) {plan : CleanPlan}
    (hplan : j.plan t = .ok plan) : ∀ p ∈ plan.files, Cleaning.Disposable t p := by
  intro p hp
  unfold Job.plan at hplan
  split_ifs at hplan
  · exact Cleaning.disposable_of_mem_files hw hj.layout hplan hp
  · cases hplan
    cases hp

theorem sparing_removalSteps (hw : t.WellFormed) (hj : j.Straight) {plan : CleanPlan}
    (hplan : j.plan t = .ok plan) : Sparing t (removalSteps plan j.options.dryRun) := by
  unfold removalSteps
  split_ifs
  · exact hw
  · have hfiles := Cleaning.sparing_removeFiles hw plan.files (disposable_of_mem_plan hw hj hplan)
    exact hfiles.append fun s hs => Cleaning.sparing_removeDirectories hs plan.dirs

theorem sparing_steps (hw : t.WellFormed) (hj : j.Straight) (imports : Imports) {plan : CleanPlan}
    (hplan : j.plan t = .ok plan) : Sparing t (steps j imports plan) :=
  (sparing_removalSteps hw hj hplan).append fun _ hs =>
    Output.sparing_perform hs _ fun _ hpiece => straight_target hj hpiece

/-- What is hand-written at a point of a run is spared by what the run does after it. -/
theorem spares_giveUpAfter (hw : t.WellFormed) (hj : j.Straight) {n m : Nat} (hnm : n ≤ m) :
    ((giveUpAfter n j).after t).Spares ((giveUpAfter m j).after t) := by
  unfold Disk.after giveUpAfter
  cases j.config.resolveImports with
  | error fault => exact .refl hw
  | ok imports =>
    cases hplan : j.plan t with
    | error failure => exact .refl hw
    | ok plan =>
      have hsparing := sparing_steps hw hj imports hplan
      have hm : (steps j imports plan).take m = (steps j imports plan).take n ++
          ((steps j imports plan).drop n).take (m - n) := by
        rw [← List.take_add, Nat.add_sub_cancel' hnm]
      rw [← List.take_append_drop m (steps j imports plan), hm] at hsparing
      dsimp only
      rw [hm]
      exact hsparing.left.between

theorem giveUpAfter_zero (j : Job) (t : FileTree) : (giveUpAfter 0 j).after t = t := by
  unfold Disk.after giveUpAfter
  cases j.config.resolveImports with
  | error fault => rfl
  | ok imports => cases j.plan t <;> rfl

theorem removals_eq (j : Job) (t : FileTree) :
    j.removals t = match j.plan t with
      | .ok plan => Cleaning.apply plan j.options.dryRun t
      | .error failure => .error failure t := by
  unfold Job.removals Job.plan
  by_cases hclean : j.options.clean = true
  · rw [if_pos hclean, if_pos hclean]
    refine (Disk.bind_ok rfl).trans ?_
    cases Cleaning.plan t j.layout j.options.specPath <;> rfl
  · rw [if_neg hclean, if_neg hclean]
    cases j.options.dryRun <;> rfl

/-- Removals that succeed carry out a plan. -/
theorem apply_of_removals {u : FileTree} {removed : List Path}
    (h : j.removals t = .ok removed u) :
    ∃ plan, j.plan t = .ok plan ∧ Cleaning.apply plan j.options.dryRun t = .ok removed u := by
  rw [removals_eq] at h
  cases hplan : j.plan t with
  | error failure =>
    rw [hplan] at h
    cases h
  | ok plan =>
    rw [hplan] at h
    exact ⟨plan, rfl, h⟩

theorem run_eq {imports : Imports} (himports : j.config.resolveImports = .ok imports) :
    run j.spec j.config j.options = (do
      let removed ← j.removals
      let outcomes ← Output.performAll j.options.dryRun
        (pieces j.spec j.config j.layout imports j.options.specPath)
      return report j.layout outcomes removed) := by
  unfold run Job.removals Job.layout
  simp only [himports, pure_bind]
  by_cases hclean : j.options.clean = true
  · simp only [if_pos hclean]
  · simp only [if_neg hclean, pure_bind]

theorem quiet_apply (plan : CleanPlan) (dryRun : Bool) :
    Disk.quiet (Cleaning.apply plan dryRun) = Disk.inTurn (removalSteps plan dryRun) := by
  cases dryRun with
  | true => rfl
  | false =>
    simp only [removalSteps, Bool.false_eq_true, if_false]
    rw [Disk.inTurn_append, ← Disk.quiet_removeEach, ← Disk.quiet_removeEach]
    simp only [Disk.quiet, Cleaning.apply, bind_assoc, pure_bind, Bool.false_eq_true, if_false]

theorem spares_removals (hw : t.WellFormed) (hj : j.Straight) :
    t.Spares (j.removals.after t) := by
  rw [Disk.after, removals_eq]
  cases hplan : j.plan t with
  | error failure => exact .refl hw
  | ok plan =>
    rw [← Disk.after, ← Disk.after_quiet, quiet_apply]
    exact (sparing_removalSteps hw hj hplan).spares

/-- A run that is given up late enough is carried out. -/
theorem exists_giveUpAfter (j : Job) (t : FileTree) :
    ∃ n, ∀ m ≥ n, (giveUpAfter m j).after t = (run j.spec j.config j.options).after t := by
  cases himports : j.config.resolveImports with
  | error fault =>
    refine ⟨0, fun m _ => ?_⟩
    simp only [Disk.after, giveUpAfter, run, himports]
    rfl
  | ok imports =>
    have hremovals := removals_eq j t
    have hrun : Disk.quiet (run j.spec j.config j.options) = (do
        Disk.quiet j.removals
        Disk.quiet (Output.performAll j.options.dryRun
          (pieces j.spec j.config j.layout imports j.options.specPath))) := by
      rw [run_eq himports]
      simp only [Disk.quiet, bind_assoc, pure_bind]
    cases hplan : j.plan t with
    | error failure =>
      rw [hplan] at hremovals
      refine ⟨0, fun m _ => ?_⟩
      rw [run_eq himports, Disk.after, Disk.after, Disk.bind_error hremovals, giveUpAfter, himports,
        hplan]
    | ok plan =>
      rw [hplan] at hremovals
      refine ⟨(steps j imports plan).length, fun m hm => ?_⟩
      have hsteps : giveUpAfter m j t = Disk.quiet (run j.spec j.config j.options) t := by
        rw [hrun, giveUpAfter, himports, hplan]
        dsimp only
        rw [List.take_of_length_le hm, steps, Disk.inTurn_append, ← quiet_apply,
          ← Disk.quiet_performAll]
        exact Disk.bind_congr_left (Disk.bind_congr_left hremovals.symm)
      rw [← Disk.after_quiet (run j.spec j.config j.options), Disk.after, Disk.after, hsteps]

/-- What is hand-written at a point that an attempt gets to is spared by what it does after it. -/
theorem spares_attempt (hw : t.WellFormed) (a : Attempt) (hj : a.job.Straight) {n : Nat}
    (hn : ∀ k, a.stop = some k → n ≤ k) :
    ((giveUpAfter n a.job).after t).Spares (a.after t) := by
  unfold Attempt.after
  cases hstop : a.stop with
  | some k => exact spares_giveUpAfter hw hj (hn k hstop)
  | none =>
    obtain ⟨m, hm⟩ := exists_giveUpAfter a.job t
    have hspares := spares_giveUpAfter hw hj (Nat.le_max_left n m)
    rwa [hm _ (Nat.le_max_right n m)] at hspares

theorem spares_run (hw : t.WellFormed) (hj : j.Straight) :
    t.Spares ((run j.spec j.config j.options).after t) := by
  have hspares := spares_attempt hw ⟨j, none⟩ hj fun k _ => Nat.zero_le k
  rwa [giveUpAfter_zero] at hspares

theorem spares_afterAll (hw : t.WellFormed) (attempts : List Attempt)
    (hstraight : ∀ a ∈ attempts, a.job.Straight) : t.Spares (afterAll attempts t) := by
  induction attempts generalizing t with
  | nil => exact .refl hw
  | cons a rest ih =>
    have hfirst := spares_attempt hw a (hstraight a (List.mem_cons_self ..)) fun k _ => Nat.zero_le k
    rw [giveUpAfter_zero] at hfirst
    exact hfirst.trans (ih hfirst.wellFormed fun b hb => hstraight b (List.mem_cons_of_mem _ hb))

/-- What a run that succeeds lists as drafted is hand-written from then on. -/
theorem handWritten_of_scaffolded (hw : t.WellFormed) (hj : j.Straight) {report : Report}
    (hrun : run j.spec j.config j.options t = .ok report t') (hdry : j.options.dryRun = false)
    {p : Path} (hp : p ∈ report.scaffolded) :
    ∃ e ∈ j.spec.entities, p = (j.layout.entityFiles e).serviceImpl ∧
      t'.HandWritten (t'.place p) (Text.encode (Artifact.serviceImpl e j.layout)) := by
  cases himports : j.config.resolveImports with
  | error fault =>
    rw [run, himports] at hrun
    cases hrun
  | ok imports =>
    rw [run_eq himports] at hrun
    obtain ⟨removed, s, hremovals, hrest⟩ := Disk.bind_eq_ok hrun
    obtain ⟨outcomes, s', hall, hreport⟩ := Disk.bind_eq_ok hrest
    cases hreport
    have hs : s.WellFormed := (Disk.after_ok hremovals ▸ spares_removals hw hj).wellFormed
    have hdrafted : .drafted p ∈ outcomes := by
      obtain ⟨outcome, hin, heq⟩ := List.mem_filterMap.mp hp
      cases outcome <;> cases heq
      exact hin
    rw [hdry] at hall
    obtain ⟨text, hin, hhand⟩ := Output.handWritten_of_drafted hs
      (fun piece hpiece => straight_target hj hpiece) hall hdrafted
    obtain ⟨e, he, rfl, rfl⟩ := eq_of_draft_mem_pieces hin
    exact ⟨e, he, rfl, hhand (Artifact.isMarked_serviceImpl e _)
      (Layout.getLast?_place_serviceImpl _ _ e)⟩

/-- Take any history of runs, and any point within one of them. What is hand-written at that point is
there, byte for byte, when that run ends and after all later ones; and the drafts that the run lists
stay as they were written. -/
theorem hand_written_files_survive (hw : t.WellFormed) (before later : List Attempt) (a : Attempt)
    (hbefore : ∀ b ∈ before, b.job.Straight) (ha : a.job.Straight)
    (hlater : ∀ b ∈ later, b.job.Straight) (n : Nat) (hn : ∀ k, a.stop = some k → n ≤ k) :
    (∀ k bytes, ((giveUpAfter n a.job).after (afterAll before t)).HandWritten k bytes →
      (afterAll (before ++ a :: later) t).get? k = some (.file bytes)) ∧
    (∀ report t', run a.job.spec a.job.config a.job.options (afterAll before t) = .ok report t' →
      a.job.options.dryRun = false → ∀ p ∈ report.scaffolded, ∃ e ∈ a.job.spec.entities,
        p = (a.job.layout.entityFiles e).serviceImpl ∧
        (afterAll later t').get? (t'.place p) =
          some (.file (Text.encode (Artifact.serviceImpl e a.job.layout)))) := by
  have hs := (spares_afterAll hw before hbefore).wellFormed
  constructor
  · intro k bytes hand
    have hspares := spares_attempt hs a ha hn
    have hrest := spares_afterAll hspares.wellFormed later hlater
    rw [afterAll, List.foldl_append, List.foldl_cons]
    exact hrest.kept k bytes (hspares.handWritten hand)
  · intro report t' hrun hdry p hp
    obtain ⟨e, he, hpath, hand⟩ := handWritten_of_scaffolded hs ha hrun hdry hp
    have hw' : t'.WellFormed := (Disk.after_ok hrun ▸ spares_run hs ha).wellFormed
    exact ⟨e, he, hpath, (spares_afterAll hw' later hlater).kept _ _ hand⟩

def itemJob : Job where
  spec := ⟨[], [⟨"Item", "item", "shop", "", "Item", [], [], [], false, false⟩]⟩
  config := { extensions := ["Item"] }
  options := ⟨⟨"."⟩, .ofText "/shop.json", true, false⟩

def handWrittenService : FileTree where
  entries := [(["app"], .directory), (["app", "services"], .directory),
    (["app", "services", "shop"], .directory),
    (["app", "services", "shop", "item_service.py"], .file [112, 97, 115, 115])]
  home := []

theorem hand_written_service_survives :
    handWrittenService.WellFormed ∧ itemJob.Straight ∧
      (afterAll [⟨itemJob, none⟩, ⟨itemJob, some 7⟩] handWrittenService).get?
        ["app", "services", "shop", "item_service.py"] = some (.file [112, 97, 115, 115]) := by
  have hw : handWrittenService.WellFormed := by decide +kernel
  have hj : itemJob.Straight := by decide +kernel
  have hlater : ∀ b ∈ [(⟨itemJob, some 7⟩ : Attempt)], b.job.Straight := by
    intro b hb
    cases List.mem_singleton.mp hb
    exact hj
  refine ⟨hw, hj, (hand_written_files_survive hw [] [⟨itemJob, some 7⟩] ⟨itemJob, none⟩ (by simp) hj
    hlater 0 (by simp)).1 _ _ ?_⟩
  rw [giveUpAfter_zero]
  exact ⟨by decide, by decide +kernel, by decide⟩

end Generation

end CrudBackend
