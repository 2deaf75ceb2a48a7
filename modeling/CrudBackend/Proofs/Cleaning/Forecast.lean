import CrudBackend.Proofs.Isolation

/-!
What a dry run can tell of a cleaning. It lists the files of the plan. A real run lists the same if
no two of their paths lead to one file, since the second one would be found gone, and if no directory
ends up empty, since the directories that go are listed too.
-/

namespace CrudBackend.Cleaning

open FileTree Ownership

variable {s s' t u : FileTree} {p dir : Path} {spec : RawPath} {l : Layout} {plan : CleanPlan}
  {paths files removed : List Path} {gone : List Location} {k : Location}

/-- What a plan lists as a directory is one. -/
theorem isDirectory_of_mem_plan (hplan : Cleaning.plan t l spec = .ok plan)
    (hd : dir ∈ plan.dirs) : t.isDirectory dir = true := by
  obtain ⟨more, hroots, rfl⟩ := plan_eq_ok_iff.mp hplan
  obtain ⟨listed, hlisted, -, hdirs, -⟩ := rootsPlan_eq_ok hroots
  rw [append_dirs, hdirs, List.nil_append, List.mem_flatMap] at hd
  obtain ⟨part, hpart, hd⟩ := hd
  obtain ⟨owned, howned, rfl⟩ := List.mem_map.mp hpart
  have hisdir := ((hlisted owned).mp howned).directory
  by_cases horigin : originOfDirectory? t owned = some (originOf spec)
  · obtain ⟨k, hk⟩ := isDirectory_eq_true_iff.mp hisdir
    rw [modulePlan_eq_ownedPlan horigin hk] at hd
    simp only [ownedPlan, List.mem_map, List.mem_mergeSort, List.mem_cons, List.mem_filter] at hd
    obtain ⟨way, rfl | ⟨-, hway⟩, rfl⟩ := hd
    · exact hisdir
    · exact hway
  · rw [(modulePlan_of_not_owned horigin).2] at hd
    cases hd

/-! ### Removing the files -/

/-- A file is not removed, nor found to be gone, by a path that the system does not accept. -/
theorem accepted_of_removeFile {here : List Path} (hn : p.Named)
    (h : removeFile p s = .ok here s') : p.Accepted := by
  unfold removeFile at h
  cases happ : s.approach p with
  | ok found => exact accepted_of_approach happ
  | error fault =>
    rw [FileTree.removeFile, happ] at h
    cases fault with
    | notFound => exact accepted_of_approach_notFound hn happ
    | _ => cases h

theorem accepted_of_removeFiles (hn : ∀ p ∈ paths, p.Named)
    (h : removeEach removeFile paths s = .ok files s') : ∀ p ∈ paths, p.Accepted := by
  induction paths generalizing s files with
  | nil => simp
  | cons p rest ih =>
    obtain ⟨here, v, hfirst, hrest⟩ := Disk.bind_eq_ok h
    obtain ⟨more, w, hmore, hreturn⟩ := Disk.bind_eq_ok hrest
    cases hreturn
    intro q hq
    rcases List.mem_cons.mp hq with rfl | hq
    · exact accepted_of_removeFile (hn q (List.mem_cons_self ..)) hfirst
    · exact ih (fun q hq => hn q (List.mem_cons_of_mem _ hq)) hmore q hq

structure FilesGone (t s' : FileTree) (gone : List Location) (paths files : List Path) : Prop where
  taken : ∃ gone', t.Taken s' gone' ∧ ∀ k, k ∈ gone' ↔ k ∈ gone ∨ k ∈ paths.map t.goal
  sublist : files.Sublist paths
  all_iff : files = paths ↔ (paths.map t.goal).Nodup ∧ ∀ p ∈ paths, t.goal p ∉ gone

/-- Where some files are gone already, paths to files remove those that are still there. -/
theorem filesGone_of_removeFiles (htaken : t.Taken s gone)
    (hgone : ∀ k ∈ gone, t.get? k ≠ some .directory)
    (hpaths : ∀ p ∈ paths, ∃ bytes, t.find p = .ok (t.goal p, .file bytes))
    (h : removeEach removeFile paths s = .ok files s') : FilesGone t s' gone paths files := by
  induction paths generalizing s gone files with
  | nil =>
    cases h
    exact ⟨⟨gone, htaken, by simp⟩, .refl _, by simp⟩
  | cons p rest ih =>
    obtain ⟨here, v, hfirst, hrest⟩ := Disk.bind_eq_ok h
    obtain ⟨more, w, hmore, hreturn⟩ := Disk.bind_eq_ok hrest
    cases hreturn
    obtain ⟨bytes, hfind⟩ := hpaths p (List.mem_cons_self ..)
    have hpaths' := fun q hq => hpaths q (List.mem_cons_of_mem p hq)
    have hstands : t.get? (t.goal p) = some (.file bytes) :=
      (eq_goal_of_find hfind).2.resolve_right (by simp)
    have hdirs : ∀ k, t.get? k = some .directory → s.get? k = some .directory := by
      intro k hk
      rw [htaken.get?_eq, if_neg fun hin => hgone k hin hk, hk]
    obtain ⟨hnone, hsome⟩ := removeFile_of_find hfind htaken.home hdirs
    rw [htaken.get?_eq, hstands] at hnone hsome
    unfold removeFile at hfirst
    by_cases hin : t.goal p ∈ gone
    · -- the file is gone already, and the path is not listed
      rw [hnone (if_pos hin)] at hfirst
      cases hfirst
      obtain ⟨⟨gone', htaken', hmem⟩, hsub, -⟩ := ih htaken hgone hpaths' hmore
      refine ⟨⟨gone', htaken', fun k => ?_⟩, hsub.cons p, ?_⟩
      · rw [hmem, List.map_cons, List.mem_cons]
        constructor
        · exact Or.imp_right Or.inr
        · rintro (hk | rfl | hk)
          · exact Or.inl hk
          · exact Or.inl hin
          · exact Or.inr hk
      · refine iff_of_false (fun heq => ?_) fun hall => hall.2 p (List.mem_cons_self ..) hin
        have hlen := hsub.length_le
        rw [List.nil_append] at heq
        rw [heq, List.length_cons] at hlen
        omega
    · have hv : s.removeFile p = .ok (s.erase (t.goal p)) := hsome (if_neg hin)
      rw [hv] at hfirst
      cases hfirst
      have hget : s.get? (t.goal p) = some (.file bytes) := by
        rw [htaken.get?_eq, if_neg hin, hstands]
      have hne : t.goal p ≠ [] := by
        intro hnil
        rw [hnil] at hstands
        cases hstands
      have htaken' := htaken.trans (.erase (htaken.wellFormed.removeFile hv) hne hget)
      have hgone' : ∀ k ∈ gone ++ [t.goal p], t.get? k ≠ some .directory := by
        intro k hk
        rcases List.mem_append.mp hk with hk | hk
        · exact hgone k hk
        · rw [List.mem_singleton.mp hk, hstands]
          simp
      obtain ⟨⟨gone', htaken'', hmem⟩, hsub, hall⟩ := ih htaken' hgone' hpaths' hmore
      refine ⟨⟨gone', htaken'', fun k => ?_⟩, hsub.cons_cons p, ?_⟩
      · rw [hmem, List.map_cons, List.mem_cons, List.mem_append, List.mem_singleton, or_assoc]
      · rw [List.singleton_append, List.cons_inj_right, hall, List.map_cons, List.nodup_cons]
        constructor
        · rintro ⟨hnodup, hapart⟩
          refine ⟨⟨fun hp => ?_, hnodup⟩, fun q hq => ?_⟩
          · obtain ⟨q, hq, heq⟩ := List.mem_map.mp hp
            exact hapart q hq (heq ▸ List.mem_append_right _ (List.mem_singleton_self _))
          · rcases List.mem_cons.mp hq with rfl | hq
            · exact hin
            · exact fun hk => hapart q hq (List.mem_append_left _ hk)
        · rintro ⟨⟨hp, hnodup⟩, hapart⟩
          refine ⟨hnodup, fun q hq hk => ?_⟩
          rcases List.mem_append.mp hk with hk | hk
          · exact hapart q (List.mem_cons_of_mem _ hq) hk
          · exact hp (List.mem_map.mpr ⟨q, hq, List.mem_singleton.mp hk⟩)

/-! ### Removing the directories -/

theorem mem_of_removeIfEmpty {dirs : List Path}
    (h : removeEach removeIfEmpty paths s = .ok dirs u) : ∀ d ∈ dirs, d ∈ paths := by
  induction paths generalizing s dirs with
  | nil =>
    cases h
    simp
  | cons p rest ih =>
    obtain ⟨here, v, hfirst, hrest⟩ := Disk.bind_eq_ok h
    obtain ⟨more, w, hmore, hreturn⟩ := Disk.bind_eq_ok hrest
    cases hreturn
    intro d hd
    rcases List.mem_append.mp hd with hd | hd
    · unfold removeIfEmpty at hfirst
      split_ifs at hfirst
      · split at hfirst
        · cases hfirst
          rw [List.mem_singleton.mp hd]
          exact List.mem_cons_self ..
        · cases hfirst
      · cases hfirst
        cases hd
    · exact List.mem_cons_of_mem _ (ih hmore d hd)

/-- No directory goes if and only if none of them is empty. -/
theorem removeIfEmpty_eq_nil_iff {dirs : List Path}
    (h : removeEach removeIfEmpty paths s = .ok dirs u) :
    dirs = [] ↔ ∀ d ∈ paths, s.isEmptyDirectory d = false := by
  induction paths generalizing s dirs with
  | nil =>
    cases h
    simp
  | cons p rest ih =>
    obtain ⟨here, v, hfirst, hrest⟩ := Disk.bind_eq_ok h
    obtain ⟨more, w, hmore, hreturn⟩ := Disk.bind_eq_ok hrest
    cases hreturn
    unfold removeIfEmpty at hfirst
    split_ifs at hfirst with hempty
    · split at hfirst
      · cases hfirst
        simp [hempty]
      · cases hfirst
    · cases hfirst
      rw [List.nil_append, ih hmore]
      simp [hempty]

/-- A directory that a path leads to is empty if and only if no name is in it. -/
theorem isEmptyDirectory_eq_false_iff (hw : s.WellFormed)
    (hfind : s.find p = .ok (k, .directory)) :
    s.isEmptyDirectory p = false ↔ ∃ n, s.get? (k ++ [n]) ≠ none := by
  rw [isEmptyDirectory, FileTree.list, hfind]
  dsimp only
  rw [List.isEmpty_eq_false_iff_exists_mem]
  exact exists_congr fun n => by rw [mem_namesIn_iff hw, Option.ne_none_iff_exists']

/-! ### The list of a real run -/

/-- A real run lists the files of the plan, and nothing else. -/
structure Forecast (t : FileTree) (plan : CleanPlan) : Prop where
  /-- No two paths lead to one file. -/
  files_apart : (plan.files.map t.goal).Nodup
  /-- Every directory holds something that is no file of the plan. -/
  dirs_held : ∀ dir ∈ plan.dirs, ∃ n, t.get? (t.goal dir ++ [n]) ≠ none ∧
    t.goal dir ++ [n] ∉ plan.files.map t.goal

theorem forecast_empty (t : FileTree) : Forecast t .empty :=
  ⟨List.nodup_nil, by simp [CleanPlan.empty]⟩

theorem removed_eq_files_iff (hw : t.WellFormed) (hplan : Cleaning.plan t l spec = .ok plan)
    (happly : apply plan false t = .ok removed u) : removed = plan.files ↔ Forecast t plan := by
  obtain ⟨files, s, hfiles, hrest⟩ := Disk.bind_eq_ok happly
  obtain ⟨dirs, v, hdirs, hreturn⟩ := Disk.bind_eq_ok hrest
  cases hreturn
  have ha := accepted_of_removeFiles (fun p hp => named_of_mem_plan hw hplan hp) hfiles
  have hpaths := fun p hp => exists_file_of_mem_plan hw hplan hp (ha p hp)
  obtain ⟨⟨gone, htaken, hgone⟩, -, hall⟩ :=
    filesGone_of_removeFiles (.refl hw) (by simp) hpaths hfiles
  have hfiles_iff : files = plan.files ↔ (plan.files.map t.goal).Nodup := by simpa using hall
  have hgone' : ∀ k, k ∈ gone ↔ k ∈ plan.files.map t.goal := by simpa using hgone
  -- the directories of the plan are still found once the files are gone
  have hfound : ∀ d ∈ plan.dirs, s.find d = .ok (t.goal d, .directory) := by
    intro d hd
    obtain ⟨k, hk⟩ := isDirectory_eq_true_iff.mp (isDirectory_of_mem_plan hplan hd)
    obtain ⟨rfl, -⟩ := eq_goal_of_find hk
    refine find_directory_mono htaken.home (fun k hk => ?_) hk
    rw [htaken.get?_eq, if_neg, hk]
    intro hin
    obtain ⟨p, hp, rfl⟩ := List.mem_map.mp ((hgone' k).mp hin)
    obtain ⟨bytes, hfind⟩ := hpaths p hp
    rw [(eq_goal_of_find hfind).2.resolve_right (by simp)] at hk
    cases hk
  have hheld : dirs = [] ↔ ∀ d ∈ plan.dirs, ∃ n, t.get? (t.goal d ++ [n]) ≠ none ∧
      t.goal d ++ [n] ∉ plan.files.map t.goal := by
    rw [removeIfEmpty_eq_nil_iff hdirs]
    refine forall₂_congr fun d hd => ?_
    rw [isEmptyDirectory_eq_false_iff htaken.wellFormed (hfound d hd)]
    refine exists_congr fun n => ?_
    rw [htaken.get?_eq, ← hgone']
    split_ifs with hin <;> simp [hin]
  have happart : files ++ dirs = plan.files → dirs = [] := by
    intro heq
    by_contra hne
    obtain ⟨d, hd⟩ := List.exists_mem_of_ne_nil dirs hne
    -- a directory that went would be a file of the plan as well
    obtain ⟨bytes, hfile⟩ := hpaths d (heq ▸ List.mem_append_right _ hd)
    have hisdir := isDirectory_of_mem_plan hplan (mem_of_removeIfEmpty hdirs d hd)
    rw [FileTree.isDirectory, hfile] at hisdir
    cases hisdir
  constructor
  · intro heq
    have hnone := happart heq
    rw [hnone, List.append_nil] at heq
    exact ⟨hfiles_iff.mp heq, hheld.mp hnone⟩
  · rintro ⟨hapart, hdirs⟩
    rw [hheld.mpr hdirs, List.append_nil, hfiles_iff.mpr hapart]

end CrudBackend.Cleaning
