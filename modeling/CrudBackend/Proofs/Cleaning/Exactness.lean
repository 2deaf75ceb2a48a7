import CrudBackend.Proofs.Cleaning.Removal

/-!
A cleaning removes exactly what is stale. Files go if they are generated and shared, or generated or
marks below a directory that the specification owns; directories go with the last thing in them.
The system does not follow paths beyond a certain length, so what lies too deep for the path that
leads there stays, and with it the directories around it.
-/

namespace CrudBackend

open FileTree Ownership

namespace Cleaning

/-- The location lies some way down a directory that the specification owns, and the path down that
way is not too long. -/
structure Below (t : FileTree) (l : Layout) (spec : RawPath) (dir : Path) (way : List String)
    (k : Location) : Prop where
  owned : Owned t l spec dir
  lies : k = t.place dir ++ way
  short : (down dir way).text.utf8ByteSize ≤ maxPathBytes

/-- The file at the location is output of an earlier run: it is shared and generated, or it lies
below an owned directory and is generated or a mark. -/
def Stale (t : FileTree) (l : Layout) (spec : RawPath) (k : Location) (bytes : List UInt8) : Prop :=
  (∃ p ∈ l.sharedFiles, t.find p = .ok (k, .file bytes) ∧ isMarked bytes = true) ∨
    ((∃ dir way, Below t l spec dir way k) ∧
      (k.getLast? = some stampName ∨ isMarked bytes = true))

/-- One tree is what a cleaning of the other one leaves, and the paths are what it removed. -/
structure Exact (t : FileTree) (l : Layout) (spec : RawPath) (removed : List Path) (t' : FileTree) :
    Prop where
  /-- A file is gone if and only if it was stale. -/
  files : ∀ k bytes, t.get? k = some (.file bytes) → (t'.get? k = none ↔ Stale t l spec k bytes)
  /-- A directory that is gone was owned or below an owned one, with only stale files in it. -/
  directories_only : ∀ k, t.get? k = some .directory → t'.get? k = none →
    (∃ dir way, Below t l spec dir way k) ∧
      ∀ w bytes, t.get? (k ++ w) = some (.file bytes) → Stale t l spec (k ++ w) bytes
  /-- Such a directory is gone, if the paths to the directories in it are not too long either. -/
  directories_all : ∀ dir way k, Below t l spec dir way k → t.get? k = some .directory →
    (∀ w, t.get? (k ++ w) = some .directory →
      (down dir (way ++ w)).text.utf8ByteSize ≤ maxPathBytes) →
    (∀ w bytes, t.get? (k ++ w) = some (.file bytes) → Stale t l spec (k ++ w) bytes) →
    t'.get? k = none
  /-- Everything that is not gone is as it was. -/
  kept : ∀ k, t'.get? k ≠ none → t'.get? k = t.get? k
  home : t'.home = t.home
  listed_once : (removed.map t.place).Nodup
  listed : ∀ k, k ∈ removed.map t.place ↔ t.get? k ≠ none ∧ t'.get? k = none

variable {s t t' : FileTree} {l : Layout} {dir p : Path} {spec : RawPath} {way : List String}
  {k : Location} {n : String} {e : Entry} {bytes : List UInt8} {plan : CleanPlan}
  {removed : List Path}

/-! ### Below an owned directory -/

theorem Owned.accepted (hw : t.WellFormed) (hl : l.Straight) (ho : Owned t l spec dir) :
    dir.Accepted :=
  ((isDirectory_iff hw (ho.straight hw hl) (ho.named hw)).mp ho.directory).1

namespace Below

theorem isName (hw : t.WellFormed) (h : Below t l spec dir way k) (hget : t.get? k = some e) :
    ∀ n ∈ way, IsName n :=
  hw.isName_below (h.lies ▸ hget)

theorem place_eq (hw : t.WellFormed) (h : Below t l spec dir way k) (hget : t.get? k = some e) :
    t.place (down dir way) = k := by
  rw [place_down (h.isName hw hget), h.lies]

theorem accepted (hw : t.WellFormed) (hl : l.Straight) (h : Below t l spec dir way k)
    (hget : t.get? k = some e) : (down dir way).Accepted :=
  ⟨textFault?_down (h.owned.accepted hw hl).text_ok (h.isName hw hget), h.short⟩

theorem straight (hw : t.WellFormed) (hl : l.Straight) (h : Below t l spec dir way k)
    (hget : t.get? k = some e) : (down dir way).Straight :=
  h.owned.straight_down hw hl (h.lies ▸ hget)

theorem named (hw : t.WellFormed) (h : Below t l spec dir way k) (hget : t.get? k = some e) :
    (down dir way).Named :=
  h.owned.named_down hw (h.lies ▸ hget)

/-- The path leads to what lies there. -/
theorem find (hw : t.WellFormed) (hl : l.Straight) (h : Below t l spec dir way k)
    (hget : t.get? k = some e) (hopen : e ≠ .directory → endsOpen (down dir way) = false) :
    t.find (down dir way) = .ok (k, e) :=
  (find_eq_ok_iff hw (h.straight hw hl hget) (h.named hw hget)).mpr
    ⟨h.accepted hw hl hget, (h.place_eq hw hget).symm, hget, hopen⟩

theorem isDirectory (hw : t.WellFormed) (hl : l.Straight) (h : Below t l spec dir way k)
    (hget : t.get? k = some .directory) : t.isDirectory (down dir way) = true :=
  isDirectory_eq_true_iff.mpr ⟨k, h.find hw hl hget (by simp)⟩

end Below

/-! ### What a plan lists -/

theorem straight_of_mem_files (hw : t.WellFormed) (hl : l.Straight)
    (hplan : Cleaning.plan t l spec = .ok plan) (hp : p ∈ plan.files) :
    p.Straight ∧ p.Named := by
  obtain ⟨owned, hmem, hfiles, -⟩ := plan_eq_ok hw hl hplan
  rw [hfiles, List.mem_append, List.mem_filter, List.mem_flatMap] at hp
  rcases hp with ⟨hin, -⟩ | ⟨dir, hdir, hp⟩
  · obtain ⟨dir, -, n, hn, rfl⟩ := Layout.eq_join_of_mem_sharedFiles hin
    exact ⟨hl.shared hin, named_join_name hn⟩
  · obtain ⟨way, -, ⟨e, hget⟩, -, -, rfl⟩ := (mem_files_partOf hw).mp hp
    have ho := (hmem dir).mp hdir
    exact ⟨ho.straight_down hw hl hget, ho.named_down hw hget⟩

theorem mem_files_of_stale (hw : t.WellFormed) (hl : l.Straight)
    (hplan : Cleaning.plan t l spec = .ok plan) (hget : t.get? k = some (.file bytes))
    (h : Stale t l spec k bytes) : k ∈ plan.files.map t.place := by
  obtain ⟨owned, hmem, hfiles, -⟩ := plan_eq_ok hw hl hplan
  rw [hfiles, List.map_append]
  rcases h with ⟨p, hp, hfind, hmark⟩ | ⟨⟨dir, way, hb⟩, hkind⟩
  · have hgen := isGenerated_eq_true_iff.mpr ⟨k, bytes, hfind, hmark⟩
    have hplace := (find_eq_ok (hl.shared hp) hfind).2.1
    exact List.mem_append_left _
      (List.mem_map.mpr ⟨p, List.mem_filter.mpr ⟨hp, hgen⟩, hplace.symm⟩)
  · have hne : way ≠ [] := by
      rintro rfl
      have hdir := hb.owned.get? hw hl
      rw [hb.lies, List.append_nil, hdir] at hget
      cases hget
    obtain ⟨before, n, rfl⟩ := (List.eq_nil_or_concat way).resolve_left hne
    rw [List.concat_eq_append] at hb hne
    have hname := hb.isName hw hget
    have hopen : endsOpen (down dir (before ++ [n])) = false := by
      rw [down_concat]
      exact endsOpen_join_name (hname n (by simp))
    have hfind := hb.find hw hl hget fun _ => hopen
    have hparent : t.isDirectory (down dir before) = true := by
      have hshort := short_dropLast hname hb.short
      rw [List.dropLast_concat] at hshort
      have hup : Below t l spec dir before (t.place dir ++ before) := ⟨hb.owned, rfl, hshort⟩
      have hchild : t.get? (t.place dir ++ before ++ [n]) = some (.file bytes) := by
        rw [List.append_assoc, ← hb.lies]
        exact hget
      exact hup.isDirectory hw hl (hw.parent_of_get? hchild)
    have hgoes : goes t dir (before ++ [n]) = true := by
      have hnot : t.isDirectory (down dir (before ++ [n])) = false := by
        rw [FileTree.isDirectory, hfind]
      rw [goes, hnot, Bool.not_false, Bool.true_and, Bool.or_eq_true, beq_iff_eq]
      rcases hkind with hstamp | hmark
      · rw [hb.lies, ← List.append_assoc, List.getLast?_concat] at hstamp
        exact Or.inl (by rw [List.getLast?_concat, hstamp])
      · exact Or.inr (isGenerated_eq_true_iff.mpr ⟨k, bytes, hfind, hmark⟩)
    refine List.mem_append_right _ (List.mem_map.mpr ⟨down dir (before ++ [n]), ?_, ?_⟩)
    · refine List.mem_flatMap.mpr ⟨dir, (hmem dir).mpr hb.owned, (mem_files_partOf hw).mpr ?_⟩
      refine ⟨before ++ [n], hne, ⟨_, hb.lies ▸ hget⟩, ?_, hgoes, rfl⟩
      rw [List.dropLast_concat]
      exact hparent
    · exact hb.place_eq hw hget

theorem stale_of_mem_files (hw : t.WellFormed) (hl : l.Straight)
    (hplan : Cleaning.plan t l spec = .ok plan) (hp : p ∈ plan.files) (ha : p.Accepted)
    (hget : t.get? (t.place p) = some (.file bytes)) : Stale t l spec (t.place p) bytes := by
  have hread : ∀ q, q.Straight → isGenerated t q = true → t.place q = t.place p →
      t.find q = .ok (t.place p, .file bytes) ∧ isMarked bytes = true := by
    intro q hq hgen hplace
    obtain ⟨k, found, hfind, hmark⟩ := isGenerated_eq_true_iff.mp hgen
    obtain ⟨-, rfl, hstands | ⟨hdir, -⟩⟩ := find_eq_ok hq hfind
    · rw [hplace, hget] at hstands
      cases hstands
      exact ⟨hplace ▸ hfind, hmark⟩
    · cases hdir
  obtain ⟨owned, hmem, hfiles, -⟩ := plan_eq_ok hw hl hplan
  rw [hfiles, List.mem_append, List.mem_filter, List.mem_flatMap] at hp
  rcases hp with ⟨hin, hgen⟩ | ⟨dir, hdir, hp⟩
  · exact Or.inl ⟨p, hin, hread p (hl.shared hin) hgen rfl⟩
  · obtain ⟨way, hne, ⟨e, hsome⟩, -, hgoes, rfl⟩ := (mem_files_partOf hw).mp hp
    have ho := (hmem dir).mp hdir
    have hplace := Owned.place_down hw hsome
    refine Or.inr ⟨⟨dir, way, ho, hplace, ha.short⟩, ?_⟩
    rw [goes, Bool.and_eq_true, Bool.or_eq_true, beq_iff_eq] at hgoes
    rcases hgoes.2 with hstamp | hgen
    · rw [hplace, List.getLast?_append, hstamp]
      exact Or.inl rfl
    · exact Or.inr (hread _ (ho.straight_down hw hl hsome) hgen rfl).2

theorem mem_dirWays_iff (hw : t.WellFormed) (hl : l.Straight) (ho : Owned t l spec dir) :
    way ∈ dirWays t dir ↔ Below t l spec dir way (t.place dir ++ way) ∧
      t.get? (t.place dir ++ way) = some .directory := by
  rw [mem_dirWays hw]
  constructor
  · rintro (rfl | ⟨-, ⟨e, hget⟩, hdir⟩)
    · rw [List.append_nil]
      exact ⟨⟨ho, (List.append_nil _).symm, (ho.accepted hw hl).short⟩, ho.get? hw hl⟩
    · obtain ⟨ha, hstands⟩ := (isDirectory_iff hw (ho.straight_down hw hl hget)
        (ho.named_down hw hget)).mp hdir
      rw [Owned.place_down hw hget] at hstands
      exact ⟨⟨ho, rfl, ha.short⟩, hstands⟩
  · rintro ⟨hb, hget⟩
    by_cases hnil : way = []
    · exact Or.inl hnil
    · exact Or.inr ⟨hnil, ⟨_, hget⟩, hb.isDirectory hw hl hget⟩

/-- The directories of a plan lie below owned ones. -/
theorem below_of_mem_dirs (hw : t.WellFormed) (hl : l.Straight)
    (hplan : Cleaning.plan t l spec = .ok plan) (hp : p ∈ plan.dirs) :
    p.Straight ∧ ∃ dir way, Below t l spec dir way (t.place p) := by
  obtain ⟨owned, hmem, -, hdirs⟩ := plan_eq_ok hw hl hplan
  rw [hdirs, List.mem_flatMap] at hp
  obtain ⟨dir, hdir, hp⟩ := hp
  rw [dirs_partOf] at hp
  obtain ⟨way, hway, rfl⟩ := List.mem_map.mp hp
  obtain ⟨hb, hget⟩ := (mem_dirWays_iff hw hl ((hmem dir).mp hdir)).mp hway
  have hplace := hb.place_eq hw hget
  exact ⟨hb.straight hw hl hget, dir, way, hplace ▸ hb⟩

/-! ### What a cleaning leaves -/

/-- A plan has been carried out: its files have been taken away first, then its directories, as far
as they were empty. -/
structure CarriedOut (t s t' : FileTree) (plan : CleanPlan) (files dirs : List Path) : Prop where
  files_taken : t.Taken s (files.map t.place)
  files_gone : ∀ p ∈ plan.files, s.get? (t.place p) = none
  files_listed : ∀ k ∈ files.map t.place, ∃ p ∈ plan.files, k = t.place p ∧ p.Accepted ∧
    ∃ e, t.get? k = some e ∧ ∃ bytes, e = .file bytes
  dirs_run : removeEach removeIfEmpty plan.dirs s = .ok dirs t'
  dirs_taken : s.Taken t' (dirs.map t.place)
  dirs_listed : ∀ k ∈ dirs.map t.place, ∃ p ∈ plan.dirs, k = t.place p ∧ p.Accepted ∧
    ∃ e, s.get? k = some e ∧ e = .directory

theorem carriedOut_of_apply (hw : t.WellFormed) (hl : l.Straight)
    (hplan : Cleaning.plan t l spec = .ok plan) (h : apply plan false t = .ok removed t') :
    ∃ s files dirs, CarriedOut t s t' plan files dirs ∧ removed = files ++ dirs := by
  unfold apply at h
  rw [if_neg (by simp)] at h
  obtain ⟨files, s, hfiles, hrest⟩ := Disk.bind_eq_ok h
  obtain ⟨dirs, s', hdirs, hlast⟩ := Disk.bind_eq_ok hrest
  cases hlast
  have hpaths : ∀ p ∈ plan.files, p.Straight ∧ p.Named := fun p hp =>
    straight_of_mem_files hw hl hplan hp
  obtain ⟨htaken, hlisted⟩ :=
    taken_removeEach hw (fun p hp => takesAt_removeFile (hpaths p hp).1) hfiles
  obtain ⟨htaken', hlisted'⟩ := taken_removeEach htaken.wellFormed
    (fun p hp => takesAt_removeIfEmpty (below_of_mem_dirs hw hl hplan hp).1) hdirs
  have hplace : s.place = t.place := funext fun q => place_congr htaken.home
  rw [hplace] at htaken' hlisted'
  exact ⟨s, files, dirs, ⟨htaken, fun p hp => get?_none_of_removeFiles hw hpaths hfiles hp, hlisted,
    hdirs, htaken', hlisted'⟩, rfl⟩

namespace CarriedOut

variable {files dirs : List Path}

theorem taken (h : CarriedOut t s t' plan files dirs) :
    t.Taken t' ((files ++ dirs).map t.place) := by
  rw [List.map_append]
  exact h.files_taken.trans h.dirs_taken

theorem mem_or_mem_of_gone (h : CarriedOut t s t' plan files dirs) (hget : t.get? k = some e)
    (hgone : t'.get? k = none) : k ∈ files.map t.place ∨ k ∈ dirs.map t.place := by
  have hk := h.taken.mem_iff.mpr ⟨by simp [hget], hgone⟩
  rwa [List.map_append, List.mem_append] at hk

/-- A file can only go by a path among the files of the plan. -/
theorem file_of_gone (h : CarriedOut t s t' plan files dirs)
    (hget : t.get? k = some (.file bytes)) (hgone : t'.get? k = none) :
    ∃ p ∈ plan.files, k = t.place p ∧ p.Accepted := by
  rcases h.mem_or_mem_of_gone hget hgone with hk | hk
  · obtain ⟨p, hp, hkp, ha, -⟩ := h.files_listed k hk
    exact ⟨p, hp, hkp, ha⟩
  · obtain ⟨-, -, -, -, e, hdir, rfl⟩ := h.dirs_listed k hk
    rw [h.files_taken.get?_of_some hdir] at hget
    cases hget

/-- A directory can only go by a path among the directories of the plan. -/
theorem directory_of_gone (h : CarriedOut t s t' plan files dirs)
    (hget : t.get? k = some .directory) (hgone : t'.get? k = none) :
    ∃ p ∈ plan.dirs, k = t.place p := by
  rcases h.mem_or_mem_of_gone hget hgone with hk | hk
  · obtain ⟨-, -, -, -, e, hfile, bytes, rfl⟩ := h.files_listed k hk
    rw [hget] at hfile
    cases hfile
  · obtain ⟨p, hp, hkp, -⟩ := h.dirs_listed k hk
    exact ⟨p, hp, hkp⟩

theorem gone_of_stale (hw : t.WellFormed) (hl : l.Straight)
    (hplan : Cleaning.plan t l spec = .ok plan) (h : CarriedOut t s t' plan files dirs)
    (hget : t.get? k = some (.file bytes)) (hstale : Stale t l spec k bytes) : s.get? k = none := by
  obtain ⟨p, hp, rfl⟩ := List.mem_map.mp (mem_files_of_stale hw hl hplan hget hstale)
  exact h.files_gone p hp

theorem gone_iff_stale (hw : t.WellFormed) (hl : l.Straight)
    (hplan : Cleaning.plan t l spec = .ok plan) (h : CarriedOut t s t' plan files dirs)
    (hget : t.get? k = some (.file bytes)) : t'.get? k = none ↔ Stale t l spec k bytes := by
  constructor
  · intro hgone
    obtain ⟨p, hp, rfl, ha⟩ := h.file_of_gone hget hgone
    exact stale_of_mem_files hw hl hplan hp ha hget
  · intro hstale
    exact h.dirs_taken.get?_none (h.gone_of_stale hw hl hplan hget hstale)

end CarriedOut

/-- With the stale files gone, a directory that holds no more than directories goes. -/
theorem get?_none_of_removeDirectories {dirs : List Path} (hw : t.WellFormed) (hl : l.Straight)
    (hplan : Cleaning.plan t l spec = .ok plan) {gone : List Location} (htaken : t.Taken s gone)
    (hrun : removeEach removeIfEmpty plan.dirs s = .ok dirs t') (hb : Below t l spec dir way k)
    (hget : t.get? k = some .directory)
    (hshort : ∀ w, t.get? (k ++ w) = some .directory →
      (down dir (way ++ w)).text.utf8ByteSize ≤ maxPathBytes)
    (hfiles : ∀ w bytes, s.get? (k ++ w) ≠ some (.file bytes)) : t'.get? k = none := by
  obtain ⟨owned, hmem, -, hdirs⟩ := plan_eq_ok hw hl hplan
  have ho := hb.owned
  obtain ⟨before, after, howned⟩ := List.append_of_mem ((hmem dir).mpr ho)
  have htakes : ∀ p ∈ plan.dirs, TakesAt removeIfEmpty (· = .directory) p := fun p hp =>
    takesAt_removeIfEmpty (below_of_mem_dirs hw hl hplan hp).1
  rw [hdirs, howned, List.flatMap_append, List.flatMap_cons] at hrun htakes
  obtain ⟨_, u, _, hbefore, hrest, -⟩ := removeEach_append hrun
  obtain ⟨_, v, _, hpart, hafter, -⟩ := removeEach_append hrest
  have htaken₁ := (taken_removeEach htaken.wellFormed
    (fun p hp => htakes p (by simp [hp])) hbefore).1
  have hv : v.get? k = none := by
    rw [dirs_partOf] at hpart
    have hplace : u.place dir = t.place dir := place_congr (htaken₁.home.trans htaken.home)
    rw [hb.lies, ← hplace]
    have hnames : ∀ w ∈ dirWays t dir, (∀ n ∈ w, IsName n) ∧ (down dir w).Accepted := by
      intro w hwin
      obtain ⟨hbw, hgetw⟩ := (mem_dirWays_iff hw hl ho).mp hwin
      exact ⟨hbw.isName hw hgetw, hbw.accepted hw hl hgetw⟩
    have hway : way ∈ dirWays t dir := (mem_dirWays_iff hw hl ho).mpr ⟨hb.lies ▸ hb, hb.lies ▸ hget⟩
    refine get?_none_of_contentsFirst htaken₁.wellFormed (ho.straight hw hl) (ho.named hw) hnames
      (List.pairwise_mergeSort contentsFirstLe_trans contentsFirstLe_total _) hpart hway ?_
    intro w e hsome
    rw [hplace, ← hb.lies] at hsome
    have hs := htaken₁.get?_of_some hsome
    have ht := htaken.get?_of_some hs
    cases e with
    | file bytes => exact absurd hs (hfiles w bytes)
    | directory =>
      have hk : k ++ w = t.place dir ++ (way ++ w) := by rw [hb.lies, List.append_assoc]
      exact ⟨rfl, (mem_dirWays_iff hw hl ho).mpr ⟨⟨ho, rfl, hshort w ht⟩, hk ▸ ht⟩⟩
  have hv' : v.WellFormed := (taken_removeEach htaken₁.wellFormed
    (fun p hp => htakes p (by simp [hp])) hpart).1.wellFormed
  exact (taken_removeEach hv' (fun p hp => htakes p (by simp [hp])) hafter).1.get?_none hv

/-- A cleaning that succeeds removes exactly what is stale and lists it. -/
theorem clean_is_exact (hw : t.WellFormed) (hl : l.Straight)
    (hplan : Cleaning.plan t l spec = .ok plan) (happly : apply plan false t = .ok removed t') :
    Exact t l spec removed t' := by
  obtain ⟨s, files, dirs, h, rfl⟩ := carriedOut_of_apply hw hl hplan happly
  refine ⟨fun k bytes => h.gone_iff_stale hw hl hplan, ?_, ?_, ?_, h.taken.home, h.taken.nodup,
    fun k => h.taken.mem_iff⟩
  · intro k hget hgone
    constructor
    · obtain ⟨p, hp, rfl⟩ := h.directory_of_gone hget hgone
      exact (below_of_mem_dirs hw hl hplan hp).2
    · intro w bytes hfile
      have hne : w ≠ [] := by
        rintro rfl
        rw [List.append_nil, hget] at hfile
        cases hfile
      refine (h.gone_iff_stale hw hl hplan hfile).mp ?_
      exact h.taken.wellFormed.get?_below_none (by simp [hgone]) hne
  · intro dir way k hb hget hshort hbelow
    refine get?_none_of_removeDirectories hw hl hplan h.files_taken h.dirs_run hb hget hshort ?_
    intro w bytes hfile
    have hfile' := h.files_taken.get?_of_some hfile
    rw [h.gone_of_stale hw hl hplan hfile' (hbelow w bytes hfile')] at hfile
    cases hfile
  · intro k hsome
    obtain ⟨e, he⟩ := Option.ne_none_iff_exists'.mp hsome
    rw [he, h.taken.get?_of_some he]

/-- A shared file that is generated, and a module directory with nothing left in it but its mark. -/
def abandonedTree : FileTree where
  entries := [(["app"], .directory), (["app", "enums"], .directory),
    (["app", "enums", "enums.py"], .file (Text.encode marker)),
    (["app", "models"], .directory), (["app", "models", "shop"], .directory),
    (["app", "models", "shop", ".codegen"], .file (Text.encode "generated from: shop.json\n"))]
  home := []

theorem clean_of_abandonedTree_is_exact : ∃ plan removed t',
    Cleaning.plan abandonedTree (Layout.of ⟨"."⟩ {}) (.ofText "shop.json") = .ok plan ∧
    apply plan false abandonedTree = .ok removed t' ∧
    Exact abandonedTree (Layout.of ⟨"."⟩ {}) (.ofText "shop.json") removed t' := by
  have hw : abandonedTree.WellFormed := by decide +kernel
  have hl : (Layout.of ⟨"."⟩ {}).Straight := by decide +kernel
  have hsucceeds : ((Cleaning.plan abandonedTree (Layout.of ⟨"."⟩ {})
      (.ofText "shop.json")).toOption.bind fun plan =>
        EStateM.run' (apply plan false) abandonedTree).isSome = true := by decide +kernel
  cases hplan : Cleaning.plan abandonedTree (Layout.of ⟨"."⟩ {}) (.ofText "shop.json") with
  | error failure =>
    rw [hplan] at hsucceeds
    cases hsucceeds
  | ok plan =>
    rw [hplan] at hsucceeds
    obtain ⟨removed, hrun⟩ := Option.isSome_iff_exists.mp hsucceeds
    obtain ⟨t', happly⟩ := Disk.exists_eq_ok hrun
    exact ⟨plan, removed, t', rfl, happly, clean_is_exact hw hl hplan happly⟩

/-! ### Paths that are too long -/

/-- A directory, spelled with that many separators behind its name. -/
def spelled (n : Nat) : Path := ⟨"out" ++ String.ofList (List.replicate n '/')⟩

theorem toList_spelled (n : Nat) :
    (spelled n).text.toList = "out".toList ++ List.replicate n '/' := by
  simp [spelled]

theorem utf8ByteSize_spelled (n : Nat) : (spelled n).text.utf8ByteSize = n + 3 := by
  have hsize : ∀ m, (String.ofList (List.replicate m '/')).utf8ByteSize = m := by
    intro m
    induction m with
    | zero => rfl
    | succ m ih =>
      rw [List.replicate_succ, String.ofList_cons, String.utf8ByteSize_append, ih]
      have hone : (String.singleton '/').utf8ByteSize = 1 := by decide
      omega
  have hout : "out".utf8ByteSize = 3 := by decide
  rw [spelled, String.utf8ByteSize_append, hsize, hout]
  omega

theorem steps_spelled (n : Nat) : steps (spelled n) = ["out"] := by
  have hnone : ∀ m, steps ⟨String.ofList (List.replicate m '/')⟩ = [] := by
    intro m
    induction m with
    | zero => exact steps_empty rfl
    | succ m ih =>
      have hcut : (Path.mk (String.ofList (List.replicate (m + 1) '/'))).text.toList =
          [] ++ '/' :: List.replicate m '/' := by
        rw [String.toList_ofList, List.replicate_succ, List.nil_append]
      rw [steps_of_append_separator hcut, ih, steps_empty rfl, List.append_nil]
  have hout : steps ⟨"out"⟩ = ["out"] := steps_of_isName (by decide)
  cases n with
  | zero =>
    have htext : spelled 0 = ⟨"out"⟩ := by decide
    rw [htext, hout]
  | succ n =>
    have hcut : (spelled (n + 1)).text.toList = "out".toList ++ '/' :: List.replicate n '/' := by
      rw [toList_spelled, List.replicate_succ]
    rw [steps_of_append_separator hcut, String.ofList_toList, hout, hnone, List.append_nil]

theorem spelled_join (n : Nat) {s : String} (hs : (Path.mk s).isAbsolute = false) :
    (spelled (n + 1)).join s = ⟨(spelled (n + 1)).text ++ s⟩ := by
  have hlast : (spelled (n + 1)).text.toList.getLast? = some '/' := by
    rw [toList_spelled, List.replicate_succ', ← List.append_assoc, List.getLast?_concat]
  unfold Path.join
  rw [if_neg (by simp [hs]), hlast, if_neg (by decide)]

/-- The layout of a root that is spelled so, with all generated directories in the root itself. -/
def spelledLayout (n : Nat) : Layout :=
  Layout.of (spelled n) { appDir := "", genPaths := ⟨"", "", "", "", ""⟩ }

theorem packageDirs_spelledLayout (n : Nat) :
    (spelledLayout (n + 1)).packageDirs = List.replicate 5 (spelled (n + 1)) := by
  have hroot : (spelled (n + 1)).join "" = spelled (n + 1) := by
    rw [spelled_join n (by decide), String.append_empty]
  simp [spelledLayout, Layout.of, Layout.packageDirs, hroot, List.replicate]

theorem moduleRoots_spelledLayout (n : Nat) :
    (spelledLayout (n + 1)).moduleRoots = List.replicate 4 (spelled (n + 1)) :=
  congrArg List.tail (packageDirs_spelledLayout n)

def shopTree : FileTree where
  entries := [(["out"], .directory), (["out", "shop"], .directory),
    (["out", "shop", ".codegen"], .file (Text.encode "generated from: shop.json\n")),
    (["out", "shop", "warehouses"], .directory)]
  home := []

theorem wellFormed_shopTree : shopTree.WellFormed := by decide

theorem place_spelled (n : Nat) : shopTree.place (spelled n) = ["out"] := by
  have hrel : (spelled n).isAbsolute = false := by
    rw [Path.isAbsolute, toList_spelled]
    rfl
  rw [place, start, hrel, steps_spelled]
  decide

def shopDir (n : Nat) : Path := (spelled (n + 1)).join "shop"

theorem place_shopDir (n : Nat) : shopTree.place (shopDir n) = ["out", "shop"] := by
  rw [shopDir, place_join_name (by decide), place_spelled]
  rfl

theorem utf8ByteSize_shopDir_join (n : Nat) {s : String} (hs : IsName s) :
    ((shopDir n).join s).text.utf8ByteSize = n + 9 + s.utf8ByteSize := by
  have hclosed : endsOpen (shopDir n) = false := endsOpen_join_name (by decide)
  have hslash : "/".utf8ByteSize = 1 := by decide
  have hshop : "shop".utf8ByteSize = 4 := by decide
  have hdir : (shopDir n).text = (spelled (n + 1)).text ++ "shop" := by
    rw [shopDir, spelled_join n (by decide)]
  have hlast : (shopDir n).text.toList.getLast?.any (· != '/') = true := by
    have hp : "shop".toList.getLast? = some 'p' := by decide
    rw [hdir, String.toList_append, List.getLast?_append, hp]
    rfl
  unfold Path.join
  rw [if_neg (by simp [isAbsolute_of_isName hs]), if_pos hlast]
  simp only [String.utf8ByteSize_append, hdir, utf8ByteSize_spelled, hslash, hshop]

theorem straight_spelled (n : Nat) : (spelled n).Straight := by
  rw [Path.Straight, steps_spelled]
  decide

theorem straight_shopDir (n : Nat) : (shopDir n).Straight :=
  (straight_join_name (by decide)).mpr (straight_spelled _)

theorem named_spelled (n : Nat) : (spelled n).Named := ⟨[], "out", steps_spelled n, by decide⟩

theorem text_ok_spelled (n : Nat) : textFault? (spelled n) = none := by
  rw [textFault?_eq_none_iff, toList_spelled]
  constructor
  · intro hempty
    have hsize := utf8ByteSize_spelled n
    rw [hempty] at hsize
    simp at hsize
  · intro c hc
    have hout : ("out".toList.all fun c => c.toNat ≠ 0) = true := by decide
    rcases List.mem_append.mp hc with hc | hc
    · exact of_decide_eq_true (List.all_eq_true.mp hout c hc)
    · cases List.eq_of_mem_replicate hc
      decide

theorem find_spelled {n : Nat} (hn : n + 3 ≤ maxPathBytes) :
    shopTree.find (spelled n) = .ok (["out"], .directory) := by
  refine (find_eq_ok_iff wellFormed_shopTree (straight_spelled _) (named_spelled _)).mpr
    ⟨⟨text_ok_spelled _, ?_⟩, (place_spelled _).symm, by decide, by simp⟩
  rw [utf8ByteSize_spelled]
  exact hn

theorem accepted_stamp {n : Nat} (hn : n + 17 ≤ maxPathBytes) :
    (stampFile (shopDir n)).Accepted := by
  have hs : IsName stampName := by decide
  refine ⟨textFault?_join (textFault?_join (text_ok_spelled _) (by decide)) hs, ?_⟩
  have hsize : stampName.utf8ByteSize = 8 := by decide
  rw [stampFile, utf8ByteSize_shopDir_join n hs]
  omega

theorem owned_shopDir {n : Nat} (hn : n + 17 ≤ maxPathBytes) :
    Owned shopTree (spelledLayout (n + 1)) (.ofText "shop.json") (shopDir n) := by
  have hs : IsName "shop" := by decide
  have hstamp : IsName stampName := by decide
  have hnamed : (shopDir n).Named := named_join_name hs
  have haccepted : (shopDir n).Accepted := by
    refine ⟨textFault?_join (text_ok_spelled _) hs, ?_⟩
    exact Nat.le_trans (utf8ByteSize_le_join hstamp) (accepted_stamp hn).short
  refine ⟨⟨spelled (n + 1), ?_, ["out"], "shop", find_spelled (by omega), by decide, rfl⟩, ?_, ?_⟩
  · rw [moduleRoots_spelledLayout]
    exact List.mem_replicate.mpr ⟨by decide, rfl⟩
  · refine (isDirectory_iff wellFormed_shopTree (straight_shopDir n) hnamed).mpr ⟨haccepted, ?_⟩
    rw [place_shopDir]
    decide
  · have hread : shopTree.readBytes ((shopDir n).join stampName) =
        .ok (Text.encode "generated from: shop.json\n") := by
      refine (readBytes_eq_ok_iff wellFormed_shopTree
        ((straight_join_name hstamp).mpr (straight_shopDir n))).mpr
        ⟨accepted_stamp hn, named_join_name hstamp, endsOpen_join_name hstamp, ?_⟩
      rw [place_join_name hstamp, place_shopDir]
      decide
    have horigin : originInText? "generated from: shop.json\n" =
        some (originOf (.ofText "shop.json")) := by
      decide +kernel
    have hdecode : Text.decode? (Text.encode "generated from: shop.json\n") =
        some "generated from: shop.json\n" := by
      decide +kernel
    unfold originOfDirectory? readText stampFile
    rw [hread]
    dsimp only
    rw [hdecode]
    dsimp only
    exact horigin

/-- Only the mark goes, for no path leads to the directory beside it. -/
theorem partOf_shopDir {n : Nat} (hn : n + 17 ≤ maxPathBytes) (hlong : maxPathBytes < n + 19) :
    partOf shopTree (shopDir n) = ⟨[stampFile (shopDir n)], [shopDir n], []⟩ := by
  have hw := wellFormed_shopTree
  have ho := owned_shopDir hn
  have hways : (shopTree.below ["out", "shop"]).map (·.1) = [[stampName], ["warehouses"]] := by
    decide
  have hfar : ¬ ((shopDir n).join "warehouses").Accepted := by
    intro ha
    have hshort := ha.short
    rw [utf8ByteSize_shopDir_join n (by decide)] at hshort
    have hsize : "warehouses".utf8ByteSize = 10 := by decide
    omega
  have hstraight : ∀ s, IsName s → ((shopDir n).join s).Straight := fun s hs =>
    (straight_join_name hs).mpr (straight_shopDir n)
  have hmark : shopTree.isDirectory ((shopDir n).join stampName) = false := by
    rw [← Bool.not_eq_true, isDirectory_iff hw (hstraight _ (by decide))
      (named_join_name (by decide)), place_join_name (by decide), place_shopDir]
    rintro ⟨-, hget⟩
    revert hget
    decide
  have hdirectory : shopTree.isDirectory ((shopDir n).join "warehouses") = false := by
    rw [← Bool.not_eq_true, isDirectory_iff hw (hstraight _ (by decide))
      (named_join_name (by decide))]
    exact fun h => hfar h.1
  have hgenerated : isGenerated shopTree ((shopDir n).join "warehouses") = false := by
    rw [← Bool.not_eq_true, isGenerated_eq_true_iff]
    rintro ⟨k, bytes, hfind, -⟩
    exact hfar (find_eq_ok (hstraight _ (by decide)) hfind).1
  have hgoes : goes shopTree (shopDir n) [stampName] = true := by
    simp [goes, down, hmark]
  have hstays : goes shopTree (shopDir n) ["warehouses"] = false := by
    have hne : ("warehouses" == stampName) = false := by decide
    simp [goes, down, hdirectory, hgenerated, hne]
  rw [partOf, ownedPlan, place_shopDir, hways]
  simp [down, ho.directory, hgoes, hstays, hmark, hdirectory, stampFile]

theorem plan_spelled {n : Nat} (hn : n + 17 ≤ maxPathBytes) (hlong : maxPathBytes < n + 19) :
    Cleaning.plan shopTree (spelledLayout (n + 1)) (.ofText "shop.json") =
      .ok ⟨List.replicate 4 (stampFile (shopDir n)), List.replicate 4 (shopDir n), []⟩ := by
  have hw := wellFormed_shopTree
  have ho := owned_shopDir hn
  have hdirs : moduleDirsOf shopTree (spelled (n + 1)) = .ok [shopDir n] := by
    have hnames : shopTree.namesIn ["out"] = ["shop"] := by decide
    have hdirectory : shopTree.isDirectory ((spelled (n + 1)).join "shop") = true := ho.directory
    rw [moduleDirsOf, list, find_spelled (by omega)]
    simp [hnames, hdirectory, shopDir]
  have hshared : (spelledLayout (n + 1)).sharedFiles.filter (isGenerated shopTree) = [] := by
    rw [List.filter_eq_nil_iff]
    intro p hp hgenerated
    obtain ⟨dir, hdir, s, hs, rfl⟩ := Layout.eq_join_of_mem_sharedFiles hp
    rw [packageDirs_spelledLayout] at hdir
    cases List.eq_of_mem_replicate hdir
    obtain ⟨k, bytes, hfind, -⟩ := isGenerated_eq_true_iff.mp hgenerated
    obtain ⟨-, rfl, hget | ⟨hnot, -⟩⟩ :=
      find_eq_ok ((straight_join_name hs).mpr (straight_spelled _)) hfind
    · rw [place_join_name hs, place_spelled] at hget
      have hmem := mem_entries_of_get? (by simp) hget
      simp [shopTree] at hmem
    · cases hnot
  have hplan := modulePlan_of_owned (straight_shopDir n) ho.directory ho.marked
  rw [partOf_shopDir hn hlong] at hplan
  unfold Cleaning.plan
  rw [moduleRoots_spelledLayout, hshared]
  simp only [List.replicate, rootsPlan, hdirs, bind, Except.bind, List.map_cons, List.map_nil,
    hplan]
  rfl

theorem apply_spelled {n : Nat} (hn : n + 17 ≤ maxPathBytes) :
    apply ⟨List.replicate 4 (stampFile (shopDir n)), List.replicate 4 (shopDir n), []⟩ false
      shopTree = .ok [stampFile (shopDir n)] (shopTree.erase ["out", "shop", stampName]) := by
  have hs : IsName stampName := by decide
  have hw : (shopTree.erase ["out", "shop", stampName]).WellFormed := by decide
  have ha : ((shopDir n).join stampName).Accepted := accepted_stamp hn
  have hplace : (shopTree.erase ["out", "shop", stampName]).place (shopDir n) = ["out", "shop"] :=
    place_shopDir n
  have hfirst : removeFile (stampFile (shopDir n)) shopTree =
      .ok [stampFile (shopDir n)] (shopTree.erase ["out", "shop", stampName]) := by
    have happ := approach_join_name wellFormed_shopTree (straight_shopDir n) hs ha
      (by rw [place_shopDir]; decide)
    have hchild : shopTree.child ["out", "shop"] stampName = .ok (["out", "shop", stampName],
        .file (Text.encode "generated from: shop.json\n")) := by decide
    rw [place_shopDir] at happ
    rw [removeFile, FileTree.removeFile, stampFile, happ]
    simp [hs.not_here, hs.not_up, hchild, endsOpen_join_name hs]
  have hagain : removeFile (stampFile (shopDir n)) (shopTree.erase ["out", "shop", stampName]) =
      .ok [] (shopTree.erase ["out", "shop", stampName]) := by
    have happ := approach_join_name hw (straight_shopDir n) hs ha (by rw [hplace]; decide)
    have hchild : (shopTree.erase ["out", "shop", stampName]).child ["out", "shop"] stampName =
        .error .notFound := by decide
    rw [hplace] at happ
    rw [removeFile, FileTree.removeFile, stampFile, happ]
    simp [hs.not_here, hs.not_up, hchild]
  have hkeep : removeIfEmpty (shopDir n) (shopTree.erase ["out", "shop", stampName]) =
      .ok [] (shopTree.erase ["out", "shop", stampName]) := by
    have hfull : ¬ (shopTree.erase ["out", "shop", stampName]).isEmptyDirectory (shopDir n) =
        true := by
      intro hempty
      have hlisted := hempty
      unfold isEmptyDirectory list at hlisted
      split at hlisted
      · next names heq =>
        split at heq
        · next l hfind =>
          have hnone := get?_none_of_isEmptyDirectory hw hempty hfind "warehouses"
          rw [(find_eq_ok (straight_shopDir n) hfind).2.1, hplace] at hnone
          revert hnone
          decide
        · cases heq
        · cases heq
      · cases hlisted
    rw [removeIfEmpty, if_neg hfull]
  have hnil : ∀ remove, removeEach remove [] (shopTree.erase ["out", "shop", stampName]) =
      .ok [] (shopTree.erase ["out", "shop", stampName]) := fun _ => rfl
  have hfiles := removeEach_cons_ok hfirst (removeEach_cons_ok hagain
    (removeEach_cons_ok hagain (removeEach_cons_ok hagain (hnil _))))
  have hdirs := removeEach_cons_ok hkeep (removeEach_cons_ok hkeep
    (removeEach_cons_ok hkeep (removeEach_cons_ok hkeep (hnil _))))
  exact (Disk.bind_ok hfiles).trans (Disk.bind_ok hdirs)

/-- An empty directory in an owned one stays if the path to it is too long. -/
theorem deep_directory_stays : ∃ plan removed t',
    Cleaning.plan shopTree (spelledLayout 4079) (.ofText "shop.json") = .ok plan ∧
    apply plan false shopTree = .ok removed t' ∧
    Owned shopTree (spelledLayout 4079) (.ofText "shop.json") (shopDir 4078) ∧
    shopTree.place (shopDir 4078) = ["out", "shop"] ∧
    shopTree.get? ["out", "shop", "warehouses"] = some .directory ∧
    (∀ w bytes, shopTree.get? (["out", "shop", "warehouses"] ++ w) ≠ some (.file bytes)) ∧
    t'.get? ["out", "shop", "warehouses"] = some .directory := by
  have hn : 4078 + 17 ≤ maxPathBytes := by decide
  have hlong : maxPathBytes < 4078 + 19 := by decide
  refine ⟨_, _, _, plan_spelled hn hlong, apply_spelled hn, owned_shopDir hn, place_shopDir _,
    by decide, ?_, by decide⟩
  intro w bytes hget
  have hmem := mem_entries_of_get? (by simp) hget
  simp [shopTree] at hmem

end Cleaning

end CrudBackend
