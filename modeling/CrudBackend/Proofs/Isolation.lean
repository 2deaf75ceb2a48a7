import CrudBackend.Proofs.Cleaning.Success
import CrudBackend.Proofs.Leftovers
import CrudBackend.Proofs.Output.Growth

/-!
Specifications that share a tree. A run reads a directory that carries the mark of another
specification and leaves it alone, wherever the directory lies, except below a directory that the
specification owns: a cleaning goes all the way down such a directory and reads no mark on the way.
-/

namespace CrudBackend

open FileTree Ownership

/-- The directory carries the mark of another specification. -/
def FileTree.Foreign (t : FileTree) (spec : RawPath) (dir : Location) : Prop :=
  ∃ bytes owner, t.get? (dir ++ [stampName]) = some (.file bytes) ∧
    originInBytes? bytes = some owner ∧ owner ≠ originOf spec

variable {s t t' : FileTree} {p dir : Path} {spec : RawPath} {l : Layout} {k d : Location}
  {n : String} {bytes : List UInt8} {plan : CleanPlan} {origin : String}

/-! ### What a cleaning may remove -/

namespace Cleaning

/-- The directories that the specification owns do not carry the mark of another one. -/
theorem Owned.not_foreign (ho : Owned t l spec dir) (hfind : t.find dir = .ok (k, .directory)) :
    ¬ t.Foreign spec k := by
  rintro ⟨bytes, owner, hget, howner, hne⟩
  have hmarked := ho.marked
  unfold originOfDirectory? readText readBytes at hmarked
  cases hread : t.find (stampFile dir) with
  | error fault =>
    rw [hread] at hmarked
    cases hmarked
  | ok found =>
    obtain ⟨k', e⟩ := found
    rw [hread] at hmarked
    cases e with
    | directory => cases hmarked
    | file bytes' =>
      obtain ⟨hgoal, hstands⟩ := eq_goal_of_find hread
      rw [stampFile, goal_join_name Output.isName_stampName, ← (eq_goal_of_find hfind).1] at hgoal
      rw [hgoal, hget] at hstands
      obtain rfl : bytes = bytes' := by simpa using hstands
      have hown : originInBytes? bytes = some (originOf spec) := by
        rw [← hmarked, originInBytes?]
        dsimp only
        cases Text.decode? bytes <;> rfl
      rw [howner] at hown
      cases hown
      exact hne rfl

/-- A file directly in a directory of another specification is among those that go only if it is
shared, or if an owned directory lies above. -/
theorem goal_ne_of_mem_files (hw : t.WellFormed) (h : Cleaning.plan t l spec = .ok plan)
    (hforeign : t.Foreign spec d)
    (habove : ∀ dir k, Owned t l spec dir → t.find dir = .ok (k, .directory) → k <+: d → k = d)
    (hshared : ∀ p ∈ l.sharedFiles, ∀ e, t.find p ≠ .ok (d ++ [n], e)) (hp : p ∈ plan.files) :
    t.goal p ≠ d ++ [n] := by
  intro hgoal
  rcases mem_files_plan hw h hp with ⟨hin, hgen⟩ | ⟨dir, k, way, ho, hfind, hne, hget, rfl, -⟩
  · obtain ⟨k, bytes, hfind, -⟩ := isGenerated_eq_true_iff.mp hgen
    rw [(eq_goal_of_find hfind).1, hgoal] at hfind
    exact hshared p hin _ hfind
  · obtain ⟨e, hget⟩ := Option.ne_none_iff_exists'.mp hget
    rw [goal_down (hw.isName_below hget), ← (eq_goal_of_find hfind).1] at hgoal
    obtain ⟨before, last, rfl⟩ := (List.eq_nil_or_concat way).resolve_left hne
    rw [List.concat_eq_append, ← List.append_assoc] at hgoal
    have hd := (List.append_inj' hgoal rfl).1
    have hk := habove dir k ho hfind ⟨before, hd⟩
    exact ho.not_foreign hfind (hk ▸ hforeign)

end Cleaning

/-- Files of the first tree to which none of the paths leads stand in the second one as they were. -/
structure FileTree.KeptBut (t s : FileTree) (paths : List Path) : Prop where
  wellFormed : s.WellFormed
  home : s.home = t.home
  file : ∀ k bytes, t.get? k = some (.file bytes) → (∀ p ∈ paths, t.goal p ≠ k) →
    s.get? k = some (.file bytes)

namespace FileTree.KeptBut

variable {paths : List Path}

theorem refl (hw : t.WellFormed) : t.KeptBut t paths := ⟨hw, rfl, fun _ _ h _ => h⟩

theorem removeFile (h : t.KeptBut s paths) (hp : p ∈ paths) :
    t.KeptBut ((Cleaning.removeFile p).after s) paths := by
  rcases Cleaning.after_removeFile p s with heq | ⟨s', hremove, heq⟩
  · rw [heq]
    exact h
  · rw [heq]
    have hw' := h.wellFormed.removeFile hremove
    obtain ⟨-, rfl⟩ := removeFile_eq_erase hremove
    refine ⟨hw', h.home, ?_⟩
    intro k bytes hk hother
    have hstands := h.file k bytes hk hother
    rw [get?_erase]
    split_ifs with hroot hgoal
    · rw [hroot] at hk
      cases hk
    · rw [goal_congr h.home] at hgoal
      exact absurd hgoal.symm (hother p hp)
    · exact hstands

theorem removeIfEmpty (h : t.KeptBut s paths) :
    t.KeptBut ((Cleaning.removeIfEmpty p).after s) paths := by
  unfold Disk.after Cleaning.removeIfEmpty
  by_cases hempty : s.isEmptyDirectory p = true
  · rw [if_pos hempty]
    cases hremove : s.removeDirectory p with
    | error fault => exact h
    | ok s' =>
      have hw' := h.wellFormed.removeDirectory hempty hremove
      obtain ⟨dir, name, -, hdir, -, rfl⟩ := removeDirectory_eq_ok hremove
      refine ⟨hw', h.home, ?_⟩
      intro k bytes hk hother
      have hstands := h.file k bytes hk hother
      rw [get?_erase]
      split_ifs with hroot hgone
      · rw [hroot] at hk
        cases hk
      · rw [hgone, hdir] at hstands
        cases hstands
      · exact hstands
  · rw [if_neg hempty]
    exact h

end FileTree.KeptBut

namespace Generation

variable {j : Job}

theorem keptBut_after_removals (hw : t.WellFormed) (plan : CleanPlan) (dryRun : Bool) (n : Nat) :
    t.KeptBut ((Disk.inTurn ((removalSteps plan dryRun).take n)).after t) plan.files := by
  refine Disk.inv_inTurn (I := fun s => t.KeptBut s plan.files) ?_ (.refl hw)
  intro step hstep s hs
  have hstep := List.mem_of_mem_take hstep
  unfold removalSteps at hstep
  split_ifs at hstep
  · cases hstep
  · rcases List.mem_append.mp hstep with hstep | hstep
    · obtain ⟨p, hp, rfl⟩ := List.mem_map.mp hstep
      rw [Disk.after_quiet]
      exact hs.removeFile hp
    · obtain ⟨p, -, rfl⟩ := List.mem_map.mp hstep
      rw [Disk.after_quiet]
      exact hs.removeIfEmpty

/-- None of the shared files is named like a mark. -/
theorem find_shared_ne_mark (j : Job) (imports : Imports) (t : FileTree) (d : Location) :
    ∀ p ∈ j.layout.sharedFiles, ∀ e, t.find p ≠ .ok (d ++ [stampName], e) := by
  intro p hp e hfind
  rw [← paths_sharedTexts j.spec] at hp
  obtain ⟨⟨dir, name, text⟩, hin, rfl⟩ := List.mem_map.mp hp
  have hg : Goes j.spec j.config j.layout imports j.options.specPath dir [name]
      (.generated (dir.join name) text) := .shared hin
  obtain ⟨last, hlast, hsuffix⟩ := hg.getLast?_goal t
  rw [Piece.target, ← (eq_goal_of_find hfind).1, List.getLast?_concat] at hlast
  cases hlast
  revert hsuffix
  change ¬ ".py".toList <:+ stampName.toList
  decide

/-- An attempt does what a run that is given up does. -/
theorem exists_after_eq (a : Attempt) (t : FileTree) :
    ∃ n, a.after t = (giveUpAfter n a.job).after t := by
  unfold Attempt.after
  cases a.stop with
  | some n => exact ⟨n, rfl⟩
  | none =>
    obtain ⟨n, hn⟩ := exists_giveUpAfter a.job t
    exact ⟨n, (hn n (Nat.le_refl n)).symm⟩

theorem after_steps_of_dryRun (hdry : j.options.dryRun = true) (imports : Imports)
    (plan : CleanPlan) (n : Nat) :
    (Disk.inTurn ((steps j imports plan).take n)).after t = t := by
  refine Disk.inv_inTurn (I := fun s => s = t) ?_ rfl
  rintro step hstep s rfl
  have hstep := List.mem_of_mem_take hstep
  rw [steps, removalSteps, if_pos hdry, List.nil_append] at hstep
  obtain ⟨piece, -, rfl⟩ := List.mem_map.mp hstep
  rw [Disk.after_quiet, hdry, Disk.after, Output.perform_dry]

/-- No file goes directly from a directory of another specification, unless it is shared. -/
theorem goal_ne_of_mem_plan (hw : t.WellFormed) (hplan : j.plan t = .ok plan)
    (hforeign : t.Foreign j.options.specPath d)
    (habove : ∀ dir k, Cleaning.Owned t j.layout j.options.specPath dir →
      t.find dir = .ok (k, .directory) → k <+: d → k = d)
    (hshared : ∀ p ∈ j.layout.sharedFiles, ∀ e, t.find p ≠ .ok (d ++ [n], e)) :
    ∀ p ∈ plan.files, t.goal p ≠ d ++ [n] := by
  intro p hp
  unfold Job.plan at hplan
  split_ifs at hplan
  · exact Cleaning.goal_ne_of_mem_files hw hplan hforeign habove hshared hp
  · cases hplan
    cases hp

/-- However far the steps of a run get, they leave a mark of another specification alone that none of
its removals leads to, and delete no file that none of them leads to. -/
theorem stays_after_steps (hw : t.WellFormed) (hdry : j.options.dryRun = false) (imports : Imports)
    (hforeign : t.Foreign j.options.specPath d)
    (hmark : ∀ p ∈ plan.files, t.goal p ≠ d ++ [stampName]) (m : Nat)
    (h : (Disk.inTurn ((steps j imports plan).take m)).after t = t') :
    t'.get? (d ++ [stampName]) = t.get? (d ++ [stampName]) ∧
      ∀ k bytes, t.get? k = some (.file bytes) → (∀ p ∈ plan.files, t.goal p ≠ k) →
        ∃ bytes', t'.get? k = some (.file bytes') := by
  have hkept := keptBut_after_removals hw plan j.options.dryRun m
  obtain ⟨bytes, owner, hget, howner, hne⟩ := hforeign
  have hget' := hkept.file _ _ hget hmark
  rw [steps, List.take_append, Disk.inTurn_append, ← List.map_take, hdry] at h
  rw [hdry] at hkept hget'
  rcases Disk.after_bind (Disk.inTurn ((removalSteps plan false).take m))
    (Disk.inTurn (((pieces j.spec j.config j.layout imports j.options.specPath).take
      (m - (removalSteps plan false).length)).map fun piece =>
        Disk.quiet (Output.perform false piece))) t with heq | ⟨-, heq⟩
  · rw [heq] at h
    subst h
    exact ⟨hget'.trans hget.symm, fun k old hold hother => ⟨old, hkept.file k old hold hother⟩⟩
  · rw [heq] at h
    obtain ⟨hstays, hfiles⟩ := stays_after_pieces hkept.wellFormed
      (fun piece hin => goes_of_mem_pieces (List.mem_of_mem_take hin))
      ((prepared_pieces _ _ _ _ _ []).take _) (by simp) hget' howner hne h
    exact ⟨hstays.trans hget.symm, fun k old hold hother =>
      hfiles k old (hkept.file k old hold hother)⟩

/-- Take any directory that carries the mark of another specification and does not lie below one that
the specification of the run owns. However far the run gets, the mark is as it was afterwards, and no
file has been deleted from the directory, unless it was shared. -/
theorem foreign_directories_are_left_alone (hw : t.WellFormed) (a : Attempt)
    (hforeign : t.Foreign a.job.options.specPath d)
    (habove : ∀ dir k, Cleaning.Owned t a.job.layout a.job.options.specPath dir →
      t.find dir = .ok (k, .directory) → k <+: d → k = d) :
    (a.after t).get? (d ++ [stampName]) = t.get? (d ++ [stampName]) ∧
      ∀ n bytes, t.get? (d ++ [n]) = some (.file bytes) →
        (∀ p ∈ a.job.layout.sharedFiles, ∀ e, t.find p ≠ .ok (d ++ [n], e)) →
        ∃ bytes', (a.after t).get? (d ++ [n]) = some (.file bytes') := by
  obtain ⟨m, hm⟩ := exists_after_eq a t
  rw [hm]
  have hsame : ∀ t', t' = t → t'.get? (d ++ [stampName]) = t.get? (d ++ [stampName]) ∧
      ∀ n bytes, t.get? (d ++ [n]) = some (.file bytes) →
        (∀ p ∈ a.job.layout.sharedFiles, ∀ e, t.find p ≠ .ok (d ++ [n], e)) →
        ∃ bytes', t'.get? (d ++ [n]) = some (.file bytes') := by
    rintro t' rfl
    exact ⟨rfl, fun n bytes hget _ => ⟨bytes, hget⟩⟩
  cases himports : a.job.config.resolveImports with
  | error fault => exact hsame _ (by rw [Disk.after, giveUpAfter, himports])
  | ok imports =>
    cases hplan : a.job.plan t with
    | error failure => exact hsame _ (by rw [Disk.after, giveUpAfter, himports, hplan])
    | ok plan =>
      have hrun : (giveUpAfter m a.job).after t =
          (Disk.inTurn ((steps a.job imports plan).take m)).after t := by
        rw [Disk.after, giveUpAfter, himports, hplan, Disk.after]
      by_cases hdry : a.job.options.dryRun = true
      · exact hsame _ (hrun.trans (after_steps_of_dryRun hdry imports plan m))
      · have hgoal := fun n => goal_ne_of_mem_plan (n := n) hw hplan hforeign habove
        obtain ⟨hmark, hfiles⟩ := stays_after_steps hw (Bool.not_eq_true _ ▸ hdry) imports hforeign
          (hgoal stampName (find_shared_ne_mark a.job imports t d)) m hrun.symm
        exact ⟨hmark, fun n bytes hget hshared => hfiles _ bytes hget (hgoal n hshared)⟩

/-- Where the directories are apart, what lies directly in a root lies below nothing that is owned. -/
theorem owned_above_eq {root : Path} {m : String} (hw : t.WellFormed) (hl : l.Straight)
    (ha : l.Apart t) (hr : root ∈ l.moduleRoots) (ho : Cleaning.Owned t l spec dir)
    (hfind : t.find dir = .ok (k, .directory)) (hpre : k <+: t.place root ++ [m]) :
    k = t.place root ++ [m] := by
  have hk := (find_eq_ok (ho.straight hw hl) hfind).2.1
  obtain ⟨root', hr', r, n, -, hn, rfl⟩ := ho.listed
  rw [place_join_name (hw.isName_of_mem_namesIn hn)] at hk
  rw [hk] at hpre ⊢
  obtain rfl := ha.eq_of_prefix_append (List.mem_cons_of_mem _ hr') (List.mem_cons_of_mem _ hr)
    hpre
  exact hpre.eq_of_length (by simp)

def billingTree : FileTree where
  entries := [(["app"], .directory), (["app", "models"], .directory),
    (["app", "models", "billing"], .directory),
    (["app", "models", "billing", ".codegen"], .file (Text.encode "generated from: /billing.json\n")),
    (["app", "models", "billing", "invoice.py"], .file (Text.encode marker))]
  home := []

theorem billing_is_left_alone :
    (Attempt.after ⟨itemJob, none⟩ billingTree).get? ["app", "models", "billing", ".codegen"] =
        billingTree.get? ["app", "models", "billing", ".codegen"] ∧
      ∃ bytes, (Attempt.after ⟨itemJob, none⟩ billingTree).get?
        ["app", "models", "billing", "invoice.py"] = some (.file bytes) := by
  have hw : billingTree.WellFormed := by decide
  have hl : itemJob.layout.Straight := by decide +kernel
  have ha : itemJob.layout.Apart billingTree := by decide +kernel
  have hplace : billingTree.place itemJob.layout.modelsDir = ["app", "models"] := by decide
  have hmodels : itemJob.layout.modelsDir ∈ itemJob.layout.moduleRoots := by
    simp [Layout.moduleRoots]
  have hforeign : billingTree.Foreign itemJob.options.specPath ["app", "models", "billing"] :=
    ⟨Text.encode "generated from: /billing.json\n", "/billing.json", by decide, by decide +kernel,
      by decide +kernel⟩
  obtain ⟨hmark, hfiles⟩ := foreign_directories_are_left_alone hw ⟨itemJob, none⟩ hforeign
    fun dir k ho hfind hpre => by
      have hk := owned_above_eq (m := "billing") hw hl ha hmodels ho hfind (by rwa [hplace])
      rwa [hplace] at hk
  refine ⟨hmark, hfiles "invoice.py" (Text.encode marker) (by decide) ?_⟩
  intro p hp e hfind
  have hnone : ∀ p ∈ itemJob.layout.sharedFiles, (billingTree.find p).toOption = none := by
    decide +kernel
  have hp := hnone p hp
  rw [hfind] at hp
  cases hp

/-! ### Below an owned directory -/

/-- A cleaning takes the marks of other specifications below an owned directory with it. -/
theorem mark_goes_below_owned {way : List String} {report : Report} (hw : t.WellFormed)
    (hj : j.Straight) (hclean : j.options.clean = true) (hdry : j.options.dryRun = false)
    (hrun : run j.spec j.config j.options t = .ok report t')
    (hb : Cleaning.Below t j.layout j.options.specPath dir way (d ++ [stampName]))
    (hget : t.get? (d ++ [stampName]) = some (.file bytes))
    (hout : ∀ imports dir way piece,
      Goes j.spec j.config j.layout imports j.options.specPath dir way piece →
        ¬ d ++ [stampName] <+: t.place piece.target) :
    t'.get? (d ++ [stampName]) = none := by
  obtain ⟨imports, removed, u, outcomes, -, hremovals, hall, -⟩ := exists_of_run hdry hrun
  obtain ⟨plan, hplan, happly⟩ := apply_of_removals hremovals
  rw [hdry] at happly
  rw [Job.plan, if_pos hclean] at hplan
  obtain ⟨v, files, dirs, hc, -⟩ := Cleaning.carriedOut_of_apply hw hj.layout hplan happly
  have hstale : Cleaning.Stale t j.layout j.options.specPath (d ++ [stampName]) bytes :=
    Or.inr ⟨⟨dir, way, hb⟩, Or.inl (by simp)⟩
  have hgone := (hc.gone_iff_stale hw hj.layout hplan hget).mpr hstale
  have hleft := Output.allLeft_performAll hc.taken.wellFormed (fun piece hin => by
    obtain ⟨dir, way, hg⟩ := goes_of_mem_pieces hin
    exact hg.ofFile (straight_target hj hin)) hall
  rw [get?_of_no_target hleft, hgone]
  intro piece hin hpre
  obtain ⟨dir, way, hg⟩ := goes_of_mem_pieces hin
  rw [place_congr hc.taken.home] at hpre
  exact hout imports dir way piece hg hpre

def nestedTree : FileTree where
  entries := [(["app"], .directory), (["app", "models"], .directory),
    (["app", "models", "shop"], .directory),
    (["app", "models", "shop", ".codegen"], .file (Text.encode "generated from: /shop.json\n")),
    (["app", "models", "shop", "legacy"], .directory),
    (["app", "models", "shop", "legacy", ".codegen"],
      .file (Text.encode "generated from: /legacy.json\n"))]
  home := []

theorem wellFormed_nestedTree : nestedTree.WellFormed := by decide

theorem itemJob_straight : itemJob.Straight ∧ itemJob.spec.Plain ∧ itemJob.layout.Straight ∧
    itemJob.layout.Apart nestedTree := by
  have hs : itemJob.spec.Plain := by decide +kernel
  have hl : itemJob.layout.Straight := by decide +kernel
  exact ⟨Job.straight_of_plain hs hl, hs, hl, by decide +kernel⟩

theorem nestedTree_roomy : itemJob.layout.Roomy nestedTree ∧ itemJob.spec.Nameable ∧
    itemJob.config.resolveImports.toOption.isSome = true := by decide +kernel

theorem owned_shop : Cleaning.Owned nestedTree itemJob.layout itemJob.options.specPath
    (itemJob.layout.modelsDir.join "shop") := by
  refine ⟨⟨itemJob.layout.modelsDir, by simp [Layout.moduleRoots], ["app", "models"], "shop",
    by decide +kernel, by decide +kernel, rfl⟩, by decide +kernel, by decide +kernel⟩

theorem exists_removals_nestedTree : ∃ plan removed u,
    Cleaning.plan nestedTree itemJob.layout itemJob.options.specPath = .ok plan ∧
    Cleaning.apply plan false nestedTree = .ok removed u := by
  have hw := wellFormed_nestedTree
  obtain ⟨-, -, hl, -⟩ := itemJob_straight
  have hlist : ∀ root ∈ itemJob.layout.moduleRoots, (nestedTree.list root).toOption.isSome = true ∨
      nestedTree.list root = .error .notFound := by decide +kernel
  have hroots : ∀ root ∈ itemJob.layout.moduleRoots, (∃ names, nestedTree.list root = .ok names) ∨
      nestedTree.list root = .error .notFound := by
    intro root hr
    refine (hlist root hr).imp_left fun hsome => ?_
    obtain ⟨names, hnames⟩ := Option.isSome_iff_exists.mp hsome
    exact ⟨names, eq_ok_of_toOption hnames⟩
  obtain ⟨plan, hplan⟩ := Cleaning.exists_plan itemJob.options.specPath hroots
  obtain ⟨removed, u, happly⟩ := Cleaning.exists_apply hw hl hplan
    (Cleaning.accepted_of_entries hw hl hplan (by decide +kernel))
  exact ⟨plan, removed, u, hplan, happly⟩

/-- What was open is open after removals, if it can still be started from. -/
theorem open_of_taken {u : FileTree} {gone : List Location} (h : t.Taken u gone) (ho : t.Open p)
    (hstart : u.get? (t.start p) = some .directory) : u.Open p := by
  refine ⟨ho.accepted, ho.short, ?_, ?_⟩
  · rwa [start, h.home]
  · rw [place_congr h.home]
    intro k hk hne bytes hget
    exact ho.no_file k hk hne bytes (h.get?_of_some hget)

theorem exists_run_nestedTree : ∃ report t',
    run itemJob.spec itemJob.config itemJob.options nestedTree = .ok report t' := by
  obtain ⟨-, hs, hl, ha⟩ := itemJob_straight
  obtain ⟨hroomy, hnameable, hresolve⟩ := nestedTree_roomy
  obtain ⟨plan, removed, u, hplan, happly⟩ := exists_removals_nestedTree
  obtain ⟨v, files, dirs, hc, -⟩ :=
    Cleaning.carriedOut_of_apply wellFormed_nestedTree hl hplan happly
  refine exists_run_of_removals hc.taken.wellFormed hs hl (ha.congr hc.taken.home) rfl hresolve
    (removals_of_apply rfl rfl hplan happly) ?_ ?_
  · intro imports dir way piece hg
    have hbefore := hg.open_target hs hnameable hroomy
    have hhome : nestedTree.start piece.target = [] := by simp [start, nestedTree]
    exact open_of_taken hc.taken hbefore (by rw [hhome, get?_root])
  · intro dir hdir
    rw [place_congr hc.taken.home] at hdir
    exact get?_stampFile_ne hroomy dir (hc.taken.get?_of_some hdir)

/-- A run with a cleaning deletes the mark of another specification. -/
theorem nested_mark_is_deleted :
    nestedTree.Foreign itemJob.options.specPath ["app", "models", "shop", "legacy"] ∧
      ∃ report t', run itemJob.spec itemJob.config itemJob.options nestedTree = .ok report t' ∧
        t'.get? ["app", "models", "shop", "legacy", ".codegen"] = none := by
  obtain ⟨hj, hs, -, -⟩ := itemJob_straight
  obtain ⟨report, t', hrun⟩ := exists_run_nestedTree
  have hget : nestedTree.get? ["app", "models", "shop", "legacy", ".codegen"] =
      some (.file (Text.encode "generated from: /legacy.json\n")) := by decide
  have hbelow : Cleaning.Below nestedTree itemJob.layout itemJob.options.specPath
      (itemJob.layout.modelsDir.join "shop") ["legacy", ".codegen"]
      (["app", "models", "shop", "legacy"] ++ [stampName]) :=
    ⟨owned_shop, by decide, by decide +kernel⟩
  refine ⟨⟨_, "/legacy.json", hget, by decide +kernel, by decide +kernel⟩, report, t', hrun, ?_⟩
  refine mark_goes_below_owned wellFormed_nestedTree hj rfl rfl hrun hbelow hget ?_
  -- What lies two names below one of the five directories is not that deep.
  intro imports dir way piece hg hpre
  have hplaces : ∀ dir ∈ itemJob.layout.packageDirs, (nestedTree.place dir).length = 2 := by
    decide +kernel
  have hdir := hplaces dir hg.mem_packageDirs
  have hlen := hpre.length_le
  have hway := hg.length_le
  rw [hg.place_eq hs] at hlen
  simp only [List.length_append, List.length_cons, List.length_nil, hdir] at hlen
  omega

end Generation

end CrudBackend
