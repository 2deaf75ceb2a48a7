import CrudBackend.Proofs.Files.Following
import CrudBackend.Proofs.Recognition

/-!
What a plan consists of. It is settled by the directories that the specification owns: those which
lie directly in one of the roots and carry a mark with its origin. Everything that goes is named by
a path from such a directory down, so its place is known even where the path does not lead there.
-/

namespace CrudBackend

open FileTree Ownership

/-- None of the directories of the layout is reached by a step up. -/
def Layout.Straight (l : Layout) : Prop := ∀ dir ∈ l.packageDirs, dir.Straight

instance (l : Layout) : Decidable l.Straight :=
  inferInstanceAs (Decidable (∀ dir ∈ l.packageDirs, dir.Straight))

theorem Layout.Straight.root {l : Layout} (h : l.Straight) {root : Path}
    (hr : root ∈ l.moduleRoots) : root.Straight :=
  h root (List.mem_cons_of_mem _ hr)

theorem Layout.eq_join_of_mem_sharedFiles {l : Layout} {p : Path} (hp : p ∈ l.sharedFiles) :
    ∃ dir ∈ l.packageDirs, ∃ s, IsName s ∧ p = dir.join s := by
  have hmem : ∀ dir ∈ l.packageDirs, ∀ s, IsName s → p = dir.join s →
      ∃ dir ∈ l.packageDirs, ∃ s, IsName s ∧ p = dir.join s := fun dir hd s hs h =>
    ⟨dir, hd, s, hs, h⟩
  simp only [sharedFiles, List.mem_cons, List.not_mem_nil, or_false] at hp
  rcases hp with h | h | h | h | h | h
  · exact hmem l.enumsDir (by simp [packageDirs]) _ (by decide) h
  · exact hmem l.modelsDir (by simp [packageDirs]) _ (by decide) h
  · exact hmem l.schemasDir (by simp [packageDirs]) _ (by decide) h
  · exact hmem l.servicesDir (by simp [packageDirs]) _ (by decide) h
  · exact hmem l.apiDir (by simp [packageDirs]) _ (by decide) h
  · exact hmem l.apiDir (by simp [packageDirs]) _ (by decide) h

theorem Layout.Straight.shared {l : Layout} (h : l.Straight) {p : Path} (hp : p ∈ l.sharedFiles) :
    p.Straight := by
  obtain ⟨dir, hdir, s, hs, rfl⟩ := Layout.eq_join_of_mem_sharedFiles hp
  exact (straight_join_name hs).mpr (h dir hdir)

namespace Cleaning

variable {t : FileTree} {l : Layout} {dir root p : Path} {spec : RawPath} {way : List String}
  {s : String} {e : Entry} {plan : CleanPlan} {dirs : List Path} {origin : String}

/-! ### Paths down a directory -/

theorem down_concat (dir : Path) (way : List String) (s : String) :
    down dir (way ++ [s]) = (down dir way).join s := by
  simp [down]

theorem steps_down (hway : ∀ s ∈ way, IsName s) : steps (down dir way) = steps dir ++ way := by
  induction way using List.reverseRecOn with
  | nil => simp [down]
  | append_singleton way s ih =>
    rw [down_concat, steps_join_name (hway s (by simp)),
      ih fun n hn => hway n (List.mem_append_left _ hn), List.append_assoc]

theorem place_down (hway : ∀ s ∈ way, IsName s) :
    t.place (down dir way) = t.place dir ++ way := by
  induction way using List.reverseRecOn with
  | nil => simp [down]
  | append_singleton way s ih =>
    rw [down_concat, place_join_name (hway s (by simp)),
      ih fun n hn => hway n (List.mem_append_left _ hn), List.append_assoc]

theorem straight_down (hdir : dir.Straight) (hway : ∀ s ∈ way, IsName s) :
    (down dir way).Straight := by
  rw [Path.Straight, steps_down hway, List.mem_append, not_or]
  exact ⟨hdir, fun hup => (hway ".." hup).not_up rfl⟩

theorem named_join_name (hs : IsName s) : (dir.join s).Named :=
  ⟨steps dir, s, steps_join_name hs, hs.not_here⟩

theorem named_down (hdir : dir.Named) (hway : ∀ s ∈ way, IsName s) : (down dir way).Named := by
  rcases List.eq_nil_or_concat way with rfl | ⟨before, s, rfl⟩
  · exact hdir
  · rw [List.concat_eq_append] at hway ⊢
    rw [down_concat]
    exact named_join_name (hway s (by simp))

theorem textFault?_down (hdir : textFault? dir = none) (hway : ∀ s ∈ way, IsName s) :
    textFault? (down dir way) = none := by
  induction way using List.reverseRecOn with
  | nil => exact hdir
  | append_singleton way s ih =>
    rw [down_concat]
    exact textFault?_join (ih fun m hm => hway m (List.mem_append_left _ hm)) (hway s (by simp))

theorem short_dropLast (hway : ∀ s ∈ way, IsName s)
    (h : (down dir way).text.utf8ByteSize ≤ maxPathBytes) :
    (down dir way.dropLast).text.utf8ByteSize ≤ maxPathBytes := by
  rcases List.eq_nil_or_concat way with rfl | ⟨before, s, rfl⟩
  · exact h
  · rw [List.concat_eq_append] at hway h ⊢
    rw [down_concat] at h
    rw [List.dropLast_concat]
    exact Nat.le_trans (utf8ByteSize_le_join (hway s (by simp))) h

/-! ### Owned directories -/

/-- A directory in one of the roots that carries the mark of the specification. -/
structure Owned (t : FileTree) (l : Layout) (spec : RawPath) (dir : Path) : Prop where
  listed : ∃ root ∈ l.moduleRoots, ∃ r name, t.find root = .ok (r, .directory) ∧
    name ∈ t.namesIn r ∧ dir = root.join name
  directory : t.isDirectory dir = true
  marked : originOfDirectory? t dir = some (originOf spec)

namespace Owned

theorem straight (hw : t.WellFormed) (hl : l.Straight) (ho : Owned t l spec dir) :
    dir.Straight := by
  obtain ⟨root, hroot, r, name, -, hname, rfl⟩ := ho.listed
  exact (straight_join_name (hw.isName_of_mem_namesIn hname)).mpr (hl.root hroot)

theorem named (hw : t.WellFormed) (ho : Owned t l spec dir) : dir.Named := by
  obtain ⟨root, -, r, name, -, hname, rfl⟩ := ho.listed
  exact named_join_name (hw.isName_of_mem_namesIn hname)

theorem get? (hw : t.WellFormed) (hl : l.Straight) (ho : Owned t l spec dir) :
    t.get? (t.place dir) = some .directory :=
  ((isDirectory_iff hw (ho.straight hw hl) (ho.named hw)).mp ho.directory).2

/-! What stands below an owned directory has the path from there down for its own. -/

theorem place_down (hw : t.WellFormed) (hget : t.get? (t.place dir ++ way) = some e) :
    t.place (down dir way) = t.place dir ++ way :=
  Cleaning.place_down (hw.isName_below hget)

theorem straight_down (hw : t.WellFormed) (hl : l.Straight) (ho : Owned t l spec dir)
    (hget : t.get? (t.place dir ++ way) = some e) : (down dir way).Straight :=
  Cleaning.straight_down (ho.straight hw hl) (hw.isName_below hget)

theorem named_down (hw : t.WellFormed) (ho : Owned t l spec dir)
    (hget : t.get? (t.place dir ++ way) = some e) : (down dir way).Named :=
  Cleaning.named_down (ho.named hw) (hw.isName_below hget)

end Owned

def partOf (t : FileTree) (dir : Path) : CleanPlan := ownedPlan t dir (t.place dir)

theorem mem_moduleDirsOf (h : moduleDirsOf t root = .ok dirs) :
    dir ∈ dirs ↔ (∃ r name, t.find root = .ok (r, .directory) ∧ name ∈ t.namesIn r ∧
      dir = root.join name) ∧ t.isDirectory dir = true := by
  unfold moduleDirsOf FileTree.list at h
  cases hfind : t.find root with
  | error fault =>
    rw [hfind] at h
    split at h
    · next heq => cases heq
    · cases h
      simp
    · cases h
  | ok found =>
    obtain ⟨r, e⟩ := found
    rw [hfind] at h
    cases e with
    | file bytes => cases h
    | directory =>
      cases h
      rw [List.mem_filter, List.mem_map]
      refine and_congr_left fun _ => ⟨?_, ?_⟩
      · rintro ⟨name, hname, rfl⟩
        exact ⟨r, name, rfl, List.mem_mergeSort.mp hname, rfl⟩
      · rintro ⟨r', name, hr, hname, rfl⟩
        cases hr
        exact ⟨name, List.mem_mergeSort.mpr hname, rfl⟩

theorem modulePlan_eq_ownedPlan {k : Location} (ho : originOfDirectory? t dir = some origin)
    (hfind : t.find dir = .ok (k, .directory)) : modulePlan t origin dir = ownedPlan t dir k := by
  unfold modulePlan
  rw [ho]
  dsimp only
  rw [if_pos rfl, hfind]

theorem modulePlan_of_owned (hdir : dir.Straight) (hd : t.isDirectory dir = true)
    (ho : originOfDirectory? t dir = some origin) : modulePlan t origin dir = partOf t dir := by
  obtain ⟨r, hfind⟩ := isDirectory_eq_true_iff.mp hd
  have hr : r = t.place dir := (find_eq_ok hdir hfind).2.1
  rw [modulePlan_eq_ownedPlan ho hfind, hr, partOf]

theorem modulePlan_of_not_owned (ho : originOfDirectory? t dir ≠ some origin) :
    (modulePlan t origin dir).files = [] ∧ (modulePlan t origin dir).dirs = [] := by
  unfold modulePlan
  split
  · exact ⟨rfl, rfl⟩
  · next found heq =>
    have hne : found ≠ origin := fun h => ho (h ▸ heq)
    rw [if_neg hne]
    exact ⟨rfl, rfl⟩

theorem append_files (p q : CleanPlan) : (p ++ q).files = p.files ++ q.files := rfl

theorem append_dirs (p q : CleanPlan) : (p ++ q).dirs = p.dirs ++ q.dirs := rfl

theorem append_foreign (p q : CleanPlan) : (p ++ q).foreign = p.foreign ++ q.foreign := rfl

theorem files_foldl (plans : List CleanPlan) (p : CleanPlan) :
    (plans.foldl (· ++ ·) p).files = p.files ++ plans.flatMap CleanPlan.files := by
  induction plans generalizing p with
  | nil => simp
  | cons q rest ih => simp [ih, append_files]

theorem dirs_foldl (plans : List CleanPlan) (p : CleanPlan) :
    (plans.foldl (· ++ ·) p).dirs = p.dirs ++ plans.flatMap CleanPlan.dirs := by
  induction plans generalizing p with
  | nil => simp
  | cons q rest ih => simp [ih, append_dirs]

theorem foreign_foldl (plans : List CleanPlan) (p : CleanPlan) :
    (plans.foldl (· ++ ·) p).foreign = p.foreign ++ plans.flatMap CleanPlan.foreign := by
  induction plans generalizing p with
  | nil => simp
  | cons q rest ih => simp [ih, append_foreign]

/-- Of the directories in a root only the owned ones have a part in the plan. -/
theorem parts_of_owned (origin : String) (dirs : List Path)
    (hdirs : ∀ dir ∈ dirs, dir.Straight ∧ t.isDirectory dir = true) :
    ∃ owned : List Path,
      (∀ dir, dir ∈ owned ↔ dir ∈ dirs ∧ originOfDirectory? t dir = some origin) ∧
      (dirs.map (modulePlan t origin)).flatMap CleanPlan.files =
        owned.flatMap (fun dir => (partOf t dir).files) ∧
      (dirs.map (modulePlan t origin)).flatMap CleanPlan.dirs =
        owned.flatMap (fun dir => (partOf t dir).dirs) := by
  induction dirs with
  | nil => exact ⟨[], by simp, rfl, rfl⟩
  | cons dir rest ih =>
    obtain ⟨owned, hmem, hfiles, hds⟩ := ih fun d hd => hdirs d (List.mem_cons_of_mem _ hd)
    obtain ⟨hstraight, hisdir⟩ := hdirs dir (List.mem_cons_self ..)
    by_cases ho : originOfDirectory? t dir = some origin
    · refine ⟨dir :: owned, ?_, ?_, ?_⟩
      · intro d
        rw [List.mem_cons, List.mem_cons, hmem, or_and_right]
        exact or_congr_left ⟨fun h => ⟨h, h ▸ ho⟩, fun h => h.1⟩
      · rw [List.map_cons, List.flatMap_cons, List.flatMap_cons, hfiles,
          modulePlan_of_owned hstraight hisdir ho]
      · rw [List.map_cons, List.flatMap_cons, List.flatMap_cons, hds,
          modulePlan_of_owned hstraight hisdir ho]
    · obtain ⟨hnofiles, hnodirs⟩ := modulePlan_of_not_owned ho
      refine ⟨owned, ?_, ?_, ?_⟩
      · intro d
        rw [List.mem_cons, hmem, or_and_right]
        exact ⟨Or.inr, fun h => h.resolve_left fun ⟨heq, hd⟩ => ho (heq ▸ hd)⟩
      · rw [List.map_cons, List.flatMap_cons, hnofiles, hfiles, List.nil_append]
      · rw [List.map_cons, List.flatMap_cons, hnodirs, hds, List.nil_append]

structure Listed (t : FileTree) (roots : List Path) (dir : Path) : Prop where
  listed : ∃ root ∈ roots, ∃ r name, t.find root = .ok (r, .directory) ∧ name ∈ t.namesIn r ∧
    dir = root.join name
  directory : t.isDirectory dir = true

/-- The plan for the roots consists of the parts of the directories in them. -/
theorem rootsPlan_eq_ok {roots : List Path} (h : rootsPlan t origin roots = .ok plan) :
    ∃ listed : List Path, (∀ dir, dir ∈ listed ↔ Listed t roots dir) ∧
      plan.files = (listed.map (modulePlan t origin)).flatMap CleanPlan.files ∧
      plan.dirs = (listed.map (modulePlan t origin)).flatMap CleanPlan.dirs ∧
      plan.foreign = (listed.map (modulePlan t origin)).flatMap CleanPlan.foreign := by
  induction roots generalizing plan with
  | nil =>
    cases h
    refine ⟨[], fun dir => iff_of_false List.not_mem_nil ?_, rfl, rfl, rfl⟩
    rintro ⟨⟨root, hroot, -⟩, -⟩
    cases hroot
  | cons root rest ih =>
    rw [rootsPlan] at h
    cases hdirs : moduleDirsOf t root with
    | error failure =>
      rw [hdirs] at h
      cases h
    | ok dirs =>
      rw [hdirs] at h
      cases hrest : rootsPlan t origin rest with
      | error failure =>
        rw [hrest] at h
        cases h
      | ok more =>
        rw [hrest] at h
        cases h
        obtain ⟨listed, hmem, hfiles, hds, hforeign⟩ := ih hrest
        refine ⟨dirs ++ listed, fun dir => ?_, ?_, ?_, ?_⟩
        · rw [List.mem_append, hmem, mem_moduleDirsOf hdirs]
          constructor
          · rintro (⟨found, hdir⟩ | ⟨⟨r, hr, found⟩, hdir⟩)
            · exact ⟨⟨root, List.mem_cons_self .., found⟩, hdir⟩
            · exact ⟨⟨r, List.mem_cons_of_mem _ hr, found⟩, hdir⟩
          · rintro ⟨⟨r, hr, found⟩, hdir⟩
            rcases List.mem_cons.mp hr with rfl | hr
            · exact Or.inl ⟨found, hdir⟩
            · exact Or.inr ⟨⟨r, hr, found⟩, hdir⟩
        · rw [append_files, files_foldl, hfiles, List.map_append, List.flatMap_append]
          rfl
        · rw [append_dirs, dirs_foldl, hds, List.map_append, List.flatMap_append]
          rfl
        · rw [append_foreign, foreign_foldl, hforeign, List.map_append, List.flatMap_append]
          rfl

theorem plan_eq_ok_iff : Cleaning.plan t l spec = .ok plan ↔
    ∃ more, rootsPlan t (originOf spec) l.moduleRoots = .ok more ∧
      plan = (⟨l.sharedFiles.filter (isGenerated t), [], []⟩ : CleanPlan) ++ more := by
  unfold Cleaning.plan
  cases rootsPlan t (originOf spec) l.moduleRoots with
  | error failure =>
    refine iff_of_false (fun h => by cases h) ?_
    rintro ⟨more, h, -⟩
    cases h
  | ok more =>
    constructor
    · intro h
      cases h
      exact ⟨more, rfl, rfl⟩
    · rintro ⟨_, h, rfl⟩
      cases h
      rfl

/-- A plan consists of the generated files in shared places and of the parts of the owned
directories. -/
theorem plan_eq_ok (hw : t.WellFormed) (hl : l.Straight) (h : Cleaning.plan t l spec = .ok plan) :
    ∃ owned : List Path, (∀ dir, dir ∈ owned ↔ Owned t l spec dir) ∧
      plan.files = l.sharedFiles.filter (isGenerated t) ++
        owned.flatMap (fun dir => (partOf t dir).files) ∧
      plan.dirs = owned.flatMap (fun dir => (partOf t dir).dirs) := by
  obtain ⟨more, hroots, rfl⟩ := plan_eq_ok_iff.mp h
  obtain ⟨listed, hlisted, hfiles, hdirs, -⟩ := rootsPlan_eq_ok hroots
  have hstraight : ∀ dir ∈ listed, dir.Straight ∧ t.isDirectory dir = true := by
    intro dir hdir
    obtain ⟨⟨root, hroot, r, name, -, hname, rfl⟩, hisdir⟩ := (hlisted dir).mp hdir
    exact ⟨(straight_join_name (hw.isName_of_mem_namesIn hname)).mpr (hl.root hroot), hisdir⟩
  obtain ⟨owned, hmem, hfiles', hdirs'⟩ := parts_of_owned (originOf spec) listed hstraight
  refine ⟨owned, fun dir => ?_, ?_, ?_⟩
  · rw [hmem, hlisted]
    exact ⟨fun ⟨⟨h1, h2⟩, h3⟩ => ⟨h1, h2, h3⟩, fun ⟨h1, h2, h3⟩ => ⟨⟨h1, h2⟩, h3⟩⟩
  · rw [append_files, hfiles, hfiles']
  · rw [append_dirs, hdirs, hdirs']
    rfl

/-! ### The part of a directory -/

theorem mem_files_partOf (hw : t.WellFormed) : p ∈ (partOf t dir).files ↔
    ∃ way, way ≠ [] ∧ (∃ e, t.get? (t.place dir ++ way) = some e) ∧
      t.isDirectory (down dir way.dropLast) = true ∧ goes t dir way = true ∧ p = down dir way := by
  simp only [partOf, ownedPlan, List.mem_map, List.mem_mergeSort, List.mem_filter, Bool.and_eq_true]
  constructor
  · rintro ⟨way, ⟨⟨⟨w, e⟩, hbelow, rfl⟩, hparent, hgoes⟩, rfl⟩
    obtain ⟨hne, hget⟩ := (mem_below_iff hw).mp hbelow
    exact ⟨w, hne, ⟨e, hget⟩, hparent, hgoes, rfl⟩
  · rintro ⟨way, hne, ⟨e, hget⟩, hparent, hgoes, rfl⟩
    exact ⟨way, ⟨⟨(way, e), (mem_below_iff hw).mpr ⟨hne, hget⟩, rfl⟩, hparent, hgoes⟩, rfl⟩

/-- The ways down to the directories that go with an owned one, itself among them. -/
def dirWays (t : FileTree) (dir : Path) : List (List String) :=
  ([] :: ((t.below (t.place dir)).map (·.1)).filter fun way =>
    t.isDirectory (down dir way)).mergeSort contentsFirstLe

theorem dirs_partOf (t : FileTree) (dir : Path) :
    (partOf t dir).dirs = (dirWays t dir).map (down dir) := rfl

theorem mem_dirWays (hw : t.WellFormed) : way ∈ dirWays t dir ↔ way = [] ∨
    (way ≠ [] ∧ (∃ e, t.get? (t.place dir ++ way) = some e) ∧
      t.isDirectory (down dir way) = true) := by
  simp only [dirWays, List.mem_mergeSort, List.mem_cons, List.mem_filter, List.mem_map]
  refine or_congr_right ?_
  constructor
  · rintro ⟨⟨⟨w, e⟩, hbelow, rfl⟩, hdir⟩
    obtain ⟨hne, hget⟩ := (mem_below_iff hw).mp hbelow
    exact ⟨hne, ⟨e, hget⟩, hdir⟩
  · rintro ⟨hne, ⟨e, hget⟩, hdir⟩
    exact ⟨⟨(way, e), (mem_below_iff hw).mpr ⟨hne, hget⟩, rfl⟩, hdir⟩

end Cleaning

end CrudBackend
