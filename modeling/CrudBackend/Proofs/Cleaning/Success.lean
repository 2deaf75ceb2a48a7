import CrudBackend.Proofs.Cleaning.Exactness
import CrudBackend.Proofs.Files.Goal

/-!
When a cleaning succeeds. A plan can be made if every root can be listed or is not found. It can be
carried out if the system accepts all of its paths: files are removed while all directories are still
there, and a directory that is found empty can always be removed.
-/

namespace CrudBackend

open FileTree Ownership

variable {s t t' : FileTree} {p dir : Path} {spec : RawPath} {l : Layout} {k : Location} {e : Entry}
  {plan : CleanPlan} {paths : List Path} {origin : String}

namespace FileTree

/-- A directory is found by any path that has its place there. -/
theorem find_of_directory (hw : t.WellFormed) (hp : p.Straight) (ha : p.Accepted)
    (hget : t.get? (t.place p) = some .directory) : t.find p = .ok (t.place p, .directory) := by
  rcases List.eq_nil_or_concat (steps p) with hnil | ⟨before, last, hs⟩
  · rw [find, approach_of_no_steps ha hnil, place, hnil, names_nil, List.append_nil]
  · rw [List.concat_eq_append] at hs
    by_cases hhere : last = "."
    · subst hhere
      rw [Path.Straight, hs, List.mem_append, not_or] at hp
      have hplace : t.place p = t.start p ++ names before := by
        rw [place, hs, names_append, names_here_cons, names_nil, List.append_nil]
      have hfold := foldlM_enter_of_directory hw hp.1 (hplace ▸ hget)
      rw [find, (approach_eq_ok_iff ha hs).mpr ⟨rfl, hfold⟩, hplace]
      rfl
    · exact (find_eq_ok_iff hw hp ⟨before, last, hs, hhere⟩).mpr ⟨ha, rfl, hget, by simp⟩

/-- A file is removed while the directories on the way to it are still there, or found to be gone. -/
theorem removeFile_of_find {bytes : List UInt8} (hfind : t.find p = .ok (k, .file bytes))
    (hhome : s.home = t.home)
    (hdirs : ∀ k, t.get? k = some .directory → s.get? k = some .directory) :
    (s.get? k = none → s.removeFile p = .error .notFound) ∧
      (s.get? k = some (.file bytes) → s.removeFile p = .ok (s.erase k)) := by
  obtain ⟨d, last, happ, hhere, hup⟩ := approach_of_find_file hfind
  obtain ⟨hchild, hclosed⟩ := child_of_find happ hhere hup hfind
  obtain ⟨hshort, rfl, -⟩ := child_eq_ok_iff.mp hchild
  have happ' : s.approach p = .ok (d, some last) := by
    have ha := accepted_of_approach happ
    rcases List.eq_nil_or_concat (steps p) with hnil | ⟨before, x, hs⟩
    · rw [approach_of_no_steps ha hnil] at happ
      cases happ
    · rw [List.concat_eq_append] at hs
      obtain ⟨hlast, hfold⟩ := (approach_eq_ok_iff ha hs).mp happ
      refine (approach_eq_ok_iff ha hs).mpr ⟨hlast, ?_⟩
      rw [start, hhome, ← start]
      exact foldlM_enter_mono hdirs hfold
  unfold removeFile
  rw [happ']
  simp only [hhere, hup, or_self, if_false]
  constructor
  · intro hnone
    rw [child_eq_notFound_iff.mpr ⟨hshort, hnone⟩]
  · intro hsame
    rw [child_eq_ok_iff.mpr ⟨hshort, rfl, hsame⟩, hclosed (by simp)]
    rfl

end FileTree

namespace Cleaning

/-! ### Plans -/

theorem exists_rootsPlan (origin : String) {roots : List Path} (hroots : ∀ root ∈ roots,
      (∃ names, t.list root = .ok names) ∨ t.list root = .error .notFound) :
    ∃ plan, rootsPlan t origin roots = .ok plan := by
  induction roots with
  | nil => exact ⟨_, rfl⟩
  | cons root rest ih =>
    obtain ⟨more, hmore⟩ := ih fun r hr => hroots r (List.mem_cons_of_mem _ hr)
    have hdirs : ∃ dirs, moduleDirsOf t root = .ok dirs := by
      unfold moduleDirsOf
      rcases hroots root (List.mem_cons_self ..) with ⟨names, hlist⟩ | hlist
      · rw [hlist]
        exact ⟨_, rfl⟩
      · rw [hlist]
        exact ⟨_, rfl⟩
    obtain ⟨dirs, hdirs⟩ := hdirs
    rw [rootsPlan, hdirs, hmore]
    exact ⟨_, rfl⟩

theorem exists_plan (spec : RawPath) (hroots : ∀ root ∈ l.moduleRoots,
      (∃ names, t.list root = .ok names) ∨ t.list root = .error .notFound) :
    ∃ plan, Cleaning.plan t l spec = .ok plan := by
  obtain ⟨more, hmore⟩ := exists_rootsPlan (originOf spec) hroots
  unfold Cleaning.plan
  rw [hmore]
  exact ⟨_, rfl⟩

/-! ### The files of a plan -/

/-- Whatever kind of path it is, a file that goes is shared and generated, or it lies some way down a
directory that the specification owns. -/
theorem mem_files_plan (hw : t.WellFormed) (h : Cleaning.plan t l spec = .ok plan)
    (hp : p ∈ plan.files) : (p ∈ l.sharedFiles ∧ isGenerated t p = true) ∨
      ∃ dir k way, Owned t l spec dir ∧ t.find dir = .ok (k, .directory) ∧ way ≠ [] ∧
        t.get? (k ++ way) ≠ none ∧ p = down dir way ∧
        t.isDirectory (down dir way.dropLast) = true ∧ goes t dir way = true := by
  obtain ⟨more, hroots, rfl⟩ := plan_eq_ok_iff.mp h
  obtain ⟨listed, hlisted, hfiles, -, -⟩ := rootsPlan_eq_ok hroots
  rw [append_files, List.mem_append, List.mem_filter] at hp
  refine hp.imp_right fun hp => ?_
  rw [hfiles, List.mem_flatMap] at hp
  obtain ⟨part, hpart, hp⟩ := hp
  obtain ⟨dir, hdir, rfl⟩ := List.mem_map.mp hpart
  obtain ⟨hroot, hisdir⟩ := (hlisted dir).mp hdir
  by_cases horigin : originOfDirectory? t dir = some (originOf spec)
  · obtain ⟨k, hk⟩ := isDirectory_eq_true_iff.mp hisdir
    rw [modulePlan_eq_ownedPlan horigin hk] at hp
    simp only [ownedPlan, List.mem_map, List.mem_mergeSort, List.mem_filter] at hp
    obtain ⟨way, ⟨⟨⟨w, e⟩, hbelow, rfl⟩, hgoes⟩, rfl⟩ := hp
    obtain ⟨hne, hget⟩ := (mem_below_iff hw).mp hbelow
    rw [Bool.and_eq_true] at hgoes
    exact ⟨dir, k, w, ⟨hroot, hisdir, horigin⟩, hk, hne, by simp [hget], rfl, hgoes⟩
  · rw [(modulePlan_of_not_owned horigin).1] at hp
    cases hp

theorem goal_down {way : List String} (hway : ∀ s ∈ way, IsName s) :
    t.goal (down dir way) = t.goal dir ++ way := by
  induction way using List.reverseRecOn with
  | nil => simp [down]
  | append_singleton way s ih =>
    rw [down_concat, goal_join_name (hway s (by simp)),
      ih fun n hn => hway n (List.mem_append_left _ hn), List.append_assoc]

theorem named_of_mem_plan (hw : t.WellFormed) (hplan : Cleaning.plan t l spec = .ok plan)
    (hp : p ∈ plan.files) : p.Named := by
  rcases mem_files_plan hw hplan hp with ⟨hin, -⟩ | ⟨dir, k, way, -, -, hne, hget, rfl, -⟩
  · obtain ⟨dir, -, n, hn, rfl⟩ := Layout.eq_join_of_mem_sharedFiles hin
    exact named_join_name hn
  · obtain ⟨e, he⟩ := Option.ne_none_iff_exists'.mp hget
    rcases List.eq_nil_or_concat way with rfl | ⟨before, n, rfl⟩
    · exact absurd rfl hne
    · rw [List.concat_eq_append] at he ⊢
      rw [down_concat]
      exact named_join_name (hw.isName_below he n (by simp))

/-- What a plan lists as a file is one, if the system accepts its path. -/
theorem exists_file_of_mem_plan (hw : t.WellFormed) (hplan : Cleaning.plan t l spec = .ok plan)
    (hp : p ∈ plan.files) (ha : p.Accepted) : ∃ bytes, t.find p = .ok (t.goal p, .file bytes) := by
  rcases mem_files_plan hw hplan hp with
    ⟨-, hgen⟩ | ⟨dir, k, way, -, hdir, hne, hget, rfl, habove, hgoes⟩
  · obtain ⟨k, bytes, hfind, -⟩ := isGenerated_eq_true_iff.mp hgen
    obtain ⟨rfl, -⟩ := eq_goal_of_find hfind
    exact ⟨bytes, hfind⟩
  · obtain ⟨e, he⟩ := Option.ne_none_iff_exists'.mp hget
    have hnames := hw.isName_below he
    obtain ⟨rfl, -⟩ := eq_goal_of_find hdir
    rcases List.eq_nil_or_concat way with rfl | ⟨before, n, rfl⟩
    · exact absurd rfl hne
    · rw [List.concat_eq_append] at *
      rw [List.dropLast_concat] at habove
      obtain ⟨k, hk⟩ := isDirectory_eq_true_iff.mp habove
      have hbefore : k = t.goal dir ++ before := by
        rw [(eq_goal_of_find hk).1, goal_down fun m hm => hnames m (List.mem_append_left _ hm)]
      subst hbefore
      rw [← List.append_assoc] at he
      have hfind : t.find (down dir (before ++ [n])) = .ok (t.goal dir ++ before ++ [n], e) := by
        rw [down_concat] at ha ⊢
        exact find_join_name (hnames n (by simp)) ha hk he
      cases e with
      | directory =>
        have hisdir : t.isDirectory (down dir (before ++ [n])) = true :=
          isDirectory_eq_true_iff.mpr ⟨_, hfind⟩
        rw [goes, hisdir] at hgoes
        cases hgoes
      | file bytes => exact ⟨bytes, (eq_goal_of_find hfind).1 ▸ hfind⟩

/-- It stands at its place, unless the layout has steps up. -/
theorem find_of_mem_files (hw : t.WellFormed) (hl : l.Straight)
    (hplan : Cleaning.plan t l spec = .ok plan) (hp : p ∈ plan.files) (ha : p.Accepted) :
    ∃ bytes, t.find p = .ok (t.place p, .file bytes) := by
  obtain ⟨bytes, hfind⟩ := exists_file_of_mem_plan hw hplan hp ha
  have hplace := (find_eq_ok (straight_of_mem_files hw hl hplan hp).1 hfind).2.1
  exact ⟨bytes, hplace ▸ hfind⟩

/-! ### Carrying out a plan -/

/-- Files of a tree are removed, as far as they are there. Directories are not touched. -/
theorem exists_removeFiles {gone : List Location} (htaken : t.Taken s gone)
    (hgone : ∀ k ∈ gone, t.get? k ≠ some .directory)
    (hpaths : ∀ p ∈ paths, p.Straight ∧ ∃ bytes, t.find p = .ok (t.place p, .file bytes)) :
    ∃ removed s', removeEach removeFile paths s = .ok removed s' := by
  induction paths generalizing s gone with
  | nil => exact ⟨[], s, rfl⟩
  | cons p rest ih =>
    obtain ⟨hp, bytes, hfind⟩ := hpaths p (List.mem_cons_self ..)
    have hstands : t.get? (t.place p) = some (.file bytes) := by
      obtain ⟨-, -, hget | ⟨hdir, -⟩⟩ := find_eq_ok hp hfind
      · exact hget
      · cases hdir
    have hdirs : ∀ k, t.get? k = some .directory → s.get? k = some .directory := by
      intro k hk
      rw [htaken.get?_eq, if_neg fun hin => hgone k hin hk, hk]
    have hfirst : ∃ here s', removeFile p s = .ok here s' := by
      obtain ⟨hnone, hsome⟩ := removeFile_of_find hfind htaken.home hdirs
      rw [htaken.get?_eq, hstands] at hnone hsome
      unfold removeFile
      by_cases hin : t.place p ∈ gone
      · rw [hnone (if_pos hin)]
        exact ⟨_, _, rfl⟩
      · rw [hsome (if_neg hin)]
        exact ⟨_, _, rfl⟩
    obtain ⟨here, s', hfirst⟩ := hfirst
    obtain ⟨htaken', hlisted⟩ := takesAt_removeFile hp s s' here htaken.wellFormed hfirst
    have hgone' : ∀ k ∈ gone ++ here.map s.place, t.get? k ≠ some .directory := by
      intro k hk hdir
      rcases List.mem_append.mp hk with hk | hk
      · exact hgone k hk hdir
      · obtain ⟨-, -, e, hget, bytes', rfl⟩ := hlisted k hk
        rw [htaken.get?_of_some hget] at hdir
        cases hdir
    obtain ⟨more, s'', hrest⟩ := ih (htaken.trans htaken') hgone'
      fun q hq => hpaths q (List.mem_cons_of_mem _ hq)
    exact ⟨_, s'', removeEach_cons_ok hfirst hrest⟩

theorem exists_removeIfEmpty (hp : p.Straight) (hn : p.Named) :
    ∃ removed s', removeIfEmpty p s = .ok removed s' := by
  unfold removeIfEmpty
  by_cases hempty : s.isEmptyDirectory p = true
  · rw [if_pos hempty]
    have hfound : ∃ d, s.find p = .ok (d, .directory) := by
      unfold isEmptyDirectory list at hempty
      split at hempty
      · next names hlist =>
        split at hlist
        · next d hfind => exact ⟨d, hfind⟩
        · cases hlist
        · cases hlist
      · cases hempty
    obtain ⟨d, hfind⟩ := hfound
    have hremove : ∃ s', s.removeDirectory p = .ok s' := by
      obtain ⟨before, last, hs, hhere⟩ := hn
      rw [Path.Straight, hs, List.mem_append, List.mem_singleton, not_or] at hp
      cases happ : s.approach p with
      | error fault =>
        rw [find, happ] at hfind
        cases hfind
      | ok found =>
        obtain ⟨d', x⟩ := found
        obtain ⟨rfl, -⟩ := (approach_eq_ok_iff (accepted_of_approach happ) hs).mp happ
        have hchild := (child_of_find happ hhere (Ne.symm hp.2) hfind).1
        unfold removeDirectory
        rw [happ]
        simp only [hhere, Ne.symm hp.2, or_self, if_false, hchild]
        exact ⟨_, rfl⟩
    obtain ⟨s', hremove⟩ := hremove
    rw [hremove]
    exact ⟨_, _, rfl⟩
  · rw [if_neg hempty]
    exact ⟨_, _, rfl⟩

theorem exists_removeDirectories (hpaths : ∀ p ∈ paths, p.Straight ∧ p.Named) :
    ∃ removed s', removeEach removeIfEmpty paths s = .ok removed s' := by
  induction paths generalizing s with
  | nil => exact ⟨[], s, rfl⟩
  | cons p rest ih =>
    obtain ⟨hp, hn⟩ := hpaths p (List.mem_cons_self ..)
    obtain ⟨here, s', hfirst⟩ := exists_removeIfEmpty (s := s) hp hn
    obtain ⟨more, s'', hrest⟩ := ih (s := s') fun q hq => hpaths q (List.mem_cons_of_mem _ hq)
    exact ⟨_, s'', removeEach_cons_ok hfirst hrest⟩

/-- A plan can be carried out if the system accepts the paths of its files. -/
theorem exists_apply (hw : t.WellFormed) (hl : l.Straight)
    (hplan : Cleaning.plan t l spec = .ok plan) (ha : ∀ p ∈ plan.files, p.Accepted) :
    ∃ removed t', apply plan false t = .ok removed t' := by
  have hpaths : ∀ p ∈ plan.files,
      p.Straight ∧ ∃ bytes, t.find p = .ok (t.place p, .file bytes) := fun p hp =>
    ⟨(straight_of_mem_files hw hl hplan hp).1, find_of_mem_files hw hl hplan hp (ha p hp)⟩
  obtain ⟨files, s, hfiles⟩ := exists_removeFiles (.refl hw) (by simp) hpaths
  obtain ⟨owned, hmem, -, hdirs⟩ := plan_eq_ok hw hl hplan
  have hnamed : ∀ p ∈ plan.dirs, p.Straight ∧ p.Named := by
    intro p hp
    rw [hdirs, List.mem_flatMap] at hp
    obtain ⟨dir, hdir, hp⟩ := hp
    rw [dirs_partOf] at hp
    obtain ⟨way, hway, rfl⟩ := List.mem_map.mp hp
    obtain ⟨hb, hget⟩ := (mem_dirWays_iff hw hl ((hmem dir).mp hdir)).mp hway
    exact ⟨hb.straight hw hl hget, hb.named hw hget⟩
  obtain ⟨dirs, s', hdirs⟩ := exists_removeDirectories (s := s) hnamed
  exact ⟨_, s', (Disk.bind_ok hfiles).trans (Disk.bind_ok hdirs)⟩

/-- The paths of the files of a plan lead from a root down to what stands there. -/
theorem accepted_of_entries (hw : t.WellFormed) (hl : l.Straight)
    (hplan : Cleaning.plan t l spec = .ok plan)
    (h : ∀ root ∈ l.moduleRoots, ∀ x ∈ t.entries, t.place root <+: x.1 →
      (down root (x.1.drop (t.place root).length)).Accepted) :
    ∀ p ∈ plan.files, p.Accepted := by
  intro p hp
  obtain ⟨owned, hmem, hfiles, -⟩ := plan_eq_ok hw hl hplan
  rw [hfiles, List.mem_append, List.mem_filter, List.mem_flatMap] at hp
  rcases hp with ⟨hin, hgen⟩ | ⟨dir, hdir, hp⟩
  · obtain ⟨k, bytes, hfind, -⟩ := isGenerated_eq_true_iff.mp hgen
    exact (find_eq_ok (hl.shared hin) hfind).1
  · obtain ⟨way, hne, ⟨e, hget⟩, -, -, rfl⟩ := (mem_files_partOf hw).mp hp
    obtain ⟨root, hr, r, n, -, hn, rfl⟩ := ((hmem dir).mp hdir).listed
    rw [place_join_name (hw.isName_of_mem_namesIn hn), List.append_assoc] at hget
    have haccepted := h root hr _ (mem_entries_of_get? (by simp) hget) (List.prefix_append _ _)
    rwa [List.drop_left] at haccepted

end Cleaning

end CrudBackend
