import CrudBackend.Proofs.Cleaning.Success
import CrudBackend.Proofs.FirstRun

/-!
What a cleaning leaves of a run. The run has marked the directories of its modules, so the cleaning
goes down all of them and takes every file that the run has generated. What is left are the drafts,
the files that make the five directories packages, and the directories above these files. A root
that is spelled as the empty path cannot be listed, and a cleaning passes over it.
-/

namespace CrudBackend

open FileTree Ownership Piece

theorem Path.Accepted.of_join {dir : Path} {n : String} (h : (dir.join n).Accepted)
    (hn : IsName n) (hne : dir.text ≠ "") : dir.Accepted := by
  refine ⟨textFault?_eq_none_iff.mpr ⟨hne, ?_⟩, Nat.le_trans (utf8ByteSize_le_join hn) h.short⟩
  intro c hc
  refine (textFault?_eq_none_iff.mp h.text_ok).2 c ?_
  rcases join_cases (p := dir) (isAbsolute_of_isName hn) with ⟨hempty, -⟩ | ⟨cs, hcs, hj⟩ | ⟨-, hj⟩
  · exact absurd hempty hne
  · rw [hcs] at hc
    rw [hj]
    rcases List.mem_append.mp hc with hc | hc
    · exact List.mem_append_left _ hc
    · rw [List.mem_singleton.mp hc]
      exact List.mem_append_right _ (List.mem_cons_self ..)
  · rw [hj]
    exact List.mem_append_left _ hc

theorem Path.text_join_ne {dir : Path} {n : String} (hn : IsName n) : (dir.join n).text ≠ "" := by
  intro hempty
  have hsteps := steps_join_name (p := dir) hn
  rw [steps_empty hempty] at hsteps
  simp at hsteps

namespace Generation

variable {s : Spec} {c : Config} {l : Layout} {i : Imports} {dir root p : Path} {spec : RawPath}
  {way w : List String} {piece : Piece} {e : Entity} {n : String} {t t' u v : FileTree}
  {k : Location} {plan : CleanPlan} {bytes : List UInt8} {files dirs : List Path}

/-- The pieces of a run that a cleaning does not take back. -/
def residue (s : Spec) (c : Config) (l : Layout) : List Piece :=
  l.packageDirs.map .package ++ (s.entities.filter c.hasExtension).map fun e =>
    .draft (l.entityFiles e).serviceImpl (Artifact.serviceImpl e l)

theorem package_mem_residue (hd : dir ∈ l.packageDirs) : .package dir ∈ residue s c l :=
  List.mem_append_left _ (List.mem_map_of_mem hd)

theorem draft_mem_residue (he : e ∈ s.entities) (hx : c.hasExtension e = true) :
    .draft (l.entityFiles e).serviceImpl (Artifact.serviceImpl e l) ∈ residue s c l :=
  List.mem_append_right _ (List.mem_map.mpr ⟨e, List.mem_filter.mpr ⟨he, hx⟩, rfl⟩)

theorem mem_residue (h : piece ∈ residue s c l) : (∃ dir ∈ l.packageDirs, piece = .package dir) ∨
    ∃ e ∈ s.entities, c.hasExtension e = true ∧
      piece = .draft (l.entityFiles e).serviceImpl (Artifact.serviceImpl e l) := by
  rcases List.mem_append.mp h with h | h
  · obtain ⟨dir, hd, rfl⟩ := List.mem_map.mp h
    exact Or.inl ⟨dir, hd, rfl⟩
  · obtain ⟨e, he, rfl⟩ := List.mem_map.mp h
    obtain ⟨he, hx⟩ := List.mem_filter.mp he
    exact Or.inr ⟨e, he, hx, rfl⟩

namespace FirstRun

/-- No other piece of the run goes the way of a piece of the residue. -/
theorem goes_of_mem_residue (h : FirstRun t t' s c l i spec)
    (hnodup : (s.entities.map Entity.fileKey).Nodup) (hin : piece ∈ residue s c l) :
    ∃ dir way, Goes s c l i spec dir way piece ∧
      ∀ other, Goes s c l i spec dir way other → other = piece := by
  rcases mem_residue hin with ⟨dir, hd, rfl⟩ | ⟨e, he, hx, rfl⟩
  · exact ⟨dir, _, .package hd, fun other hother => hother.package_of_way⟩
  · refine ⟨l.servicesDir, _, .draft he hx, ?_⟩
    intro other hother
    obtain ⟨e', he', -, hmodule, hstem, rfl⟩ := hother.draft_of_way h.apart.nodup rfl rfl
    obtain rfl : e' = e := by
      refine List.inj_on_of_nodup_map hnodup he' he ?_
      rw [Entity.fileKey, Entity.fileKey, hmodule, hstem]
    rfl

theorem mem_pieces_of_mem_residue (h : FirstRun t t' s c l i spec)
    (hnodup : (s.entities.map Entity.fileKey).Nodup) (hin : piece ∈ residue s c l) :
    piece ∈ pieces s c l i spec := by
  obtain ⟨dir, way, hg, -⟩ := h.goes_of_mem_residue hnodup hin
  exact hg.mem_pieces h.plain h.straight h.apart

/-! ### What the cleaning finds -/

theorem accepted (h : FirstRun t t' s c l i spec) (hg : Goes s c l i spec dir way piece) :
    piece.target.Accepted :=
  h.left.accepted _ (hg.mem_pieces h.plain h.straight h.apart)

theorem get?_package (h : FirstRun t t' s c l i spec) (hd : dir ∈ l.packageDirs) :
    t'.get? (t.place (Output.initFile dir)) = some (.file (Text.encode Output.initText)) := by
  have hg : Goes s c l i spec dir ["__init__.py"] (.package dir) := .package hd
  have hpackage := h.get?_target_of_same hg fun _ hother => hother.package_of_way
  exact hpackage

theorem get?_dir (h : FirstRun t t' s c l i spec) (hd : dir ∈ l.packageDirs) :
    t'.get? (t.place dir) = some .directory := by
  have hget := h.get?_package hd
  rw [Output.initFile, place_join_name isName_initFile] at hget
  exact h.left.wellFormed.parent_of_get? hget

theorem find_dir (h : FirstRun t t' s c l i spec) (hd : dir ∈ l.packageDirs) (hne : dir.text ≠ "") :
    t'.find dir = .ok (t.place dir, .directory) := by
  have hg : Goes s c l i spec dir ["__init__.py"] (.package dir) := .package hd
  have ha : (Output.initFile dir).Accepted := h.accepted hg
  have hfind := find_of_directory h.left.wellFormed (h.straight dir hd)
    (ha.of_join isName_initFile hne) (by rw [h.place_eq]; exact h.get?_dir hd)
  rwa [h.place_eq] at hfind

/-- The directory of a module is there, and it can be marked. -/
theorem module_facts (h : FirstRun t t' s c l i spec) (hr : root ∈ l.moduleRoots)
    (he : e ∈ s.entities) : IsName e.moduleName ∧ (root.join e.moduleName).Accepted ∧
      t'.get? (t.place root ++ [e.moduleName]) = some .directory := by
  have hg : Goes s c l i spec root [e.moduleName, stampName] (.mark (root.join e.moduleName) spec) :=
    .mark hr he
  obtain ⟨bytes, hget⟩ := h.exists_file hg
  have ha : (stampFile (root.join e.moduleName)).Accepted := h.accepted hg
  rw [hg.place_eq h.plain] at hget
  have hname : IsName e.moduleName := h.left.wellFormed.isName_of_get? hget _ (by simp)
  refine ⟨hname, ha.of_join Output.isName_stampName (Path.text_join_ne hname), ?_⟩
  exact h.left.wellFormed.parent_of_get? (s := stampName) (by simpa using hget)

theorem owned (h : FirstRun t t' s c l i spec)
    (hreads : originInText? (stampText spec) = some (originOf spec)) (hr : root ∈ l.moduleRoots)
    (hne : root.text ≠ "") (he : e ∈ s.entities) :
    Cleaning.Owned t' l spec (root.join e.moduleName) := by
  obtain ⟨hname, ha, hdir⟩ := h.module_facts hr he
  have hw := h.left.wellFormed
  have hplace : t'.place (root.join e.moduleName) = t.place root ++ [e.moduleName] := by
    rw [place_join_name hname, h.place_eq]
  have hstraight := (straight_join_name hname).mpr (h.straight.root hr)
  refine ⟨⟨root, hr, t.place root, e.moduleName,
    h.find_dir (List.mem_cons_of_mem _ hr) hne, ?_, rfl⟩, ?_, ?_⟩
  · exact (mem_namesIn_iff hw).mpr ⟨_, hdir⟩
  · exact isDirectory_eq_true_iff.mpr
      ⟨_, find_of_directory hw hstraight ha (by rw [hplace]; exact hdir)⟩
  · have hg : Goes s c l i spec root [e.moduleName, stampName]
        (.mark (root.join e.moduleName) spec) := .mark hr he
    have hp : (stampFile (root.join e.moduleName)).OfFile :=
      hg.ofFile (hg.straight h.plain h.straight)
    have ha' : (stampFile (root.join e.moduleName)).Accepted := h.accepted hg
    rw [Output.originOfDirectory?_eq hw hp ha', h.place_eq, h.get?_mark hr he]
    dsimp only
    rw [originInBytes?, Text.decode?_encode]
    exact hreads

/-- What lies directly in the directory of a module lies below an owned directory. -/
theorem below (h : FirstRun t t' s c l i spec)
    (hreads : originInText? (stampText spec) = some (originOf spec)) (hr : root ∈ l.moduleRoots)
    (hne : root.text ≠ "") (he : e ∈ s.entities)
    (hg : Goes s c l i spec root [e.moduleName, n] piece) :
    Cleaning.Below t' l spec (root.join e.moduleName) [n] (t.place piece.target) := by
  refine ⟨h.owned hreads hr hne he, ?_, ?_⟩
  · rw [hg.place_eq h.plain, h.place_eq, place_join_name (h.module_facts hr he).1]
    simp
  · have ha := h.accepted hg
    rw [hg.target_eq] at ha
    exact ha.short

/-! ### What is stale -/

/-- The target of a piece is stale, or it is the target of a piece of the residue. -/
theorem stale_or (h : FirstRun t t' s c l i spec)
    (hreads : originInText? (stampText spec) = some (originOf spec))
    (hroots : ∀ root ∈ l.moduleRoots, root.text ≠ "") (hg : Goes s c l i spec dir way piece)
    (hget : t'.get? (t.place piece.target) = some (.file bytes)) :
    Cleaning.Stale t' l spec (t.place piece.target) bytes ∨
      ∃ other ∈ residue s c l, other.target = piece.target := by
  have hmarked : piece.Generating → isMarked bytes = true := by
    intro hpiece
    obtain ⟨bytes', hget', hmark⟩ := h.isMarked_of_generating hg hpiece
    rw [hget] at hget'
    cases hget'
    exact hmark
  rcases hg.target_cases with ⟨-, hin, hpiece⟩ | rfl | ⟨hr, e, he, n, rfl, hkind⟩
  · have hp : piece.target.OfFile := hg.ofFile (hg.straight h.plain h.straight)
    refine Or.inl (Or.inl ⟨_, hin, ?_, hmarked hpiece⟩)
    refine (find_eq_ok_iff h.left.wellFormed hp.straight hp.named).mpr
      ⟨h.accepted hg, ?_, hget, fun _ => hp.closed⟩
    rw [h.place_eq]
  · rw [hg.package_of_way]
    exact Or.inr ⟨_, package_mem_residue hg.mem_packageDirs, rfl⟩
  · have hb := h.below hreads hr (hroots _ hr) he hg
    rcases hkind with hpiece | rfl | ⟨hx, hdraft⟩
    · exact Or.inl (Or.inr ⟨⟨_, _, hb⟩, Or.inr (hmarked hpiece)⟩)
    · refine Or.inl (Or.inr ⟨⟨_, _, hb⟩, Or.inl ?_⟩)
      rw [hg.place_eq h.plain]
      simp
    · exact Or.inr ⟨_, draft_mem_residue he hx, hdraft.symm⟩

/-- What lies below an owned directory lies below a root, and the root can be listed. -/
theorem exists_root_of_below (h : FirstRun t t' s c l i spec)
    (hb : Cleaning.Below t' l spec p way k) :
    ∃ root ∈ l.moduleRoots, ∃ n, root.text ≠ "" ∧ k = t.place root ++ n :: way := by
  obtain ⟨root, hr, r, n, hfind, hn, hp⟩ := hb.owned.listed
  have ha := (find_eq_ok (h.straight.root hr) hfind).1
  refine ⟨root, hr, n, (textFault?_eq_none_iff.mp ha.text_ok).1, ?_⟩
  rw [hb.lies, hp, h.place_eq,
    place_join_name (h.left.wellFormed.isName_of_mem_namesIn hn), List.append_assoc]
  rfl

theorem place_shared (h : FirstRun t t' s c l i spec) (hp : p ∈ l.sharedFiles) :
    ∃ dir ∈ l.packageDirs, ∃ n, n ≠ "__init__.py" ∧ t.place p = t.place dir ++ [n] := by
  rw [← paths_sharedTexts s] at hp
  obtain ⟨⟨dir, n, text⟩, hs, rfl⟩ := List.mem_map.mp hp
  have hg : Goes s c l i spec dir [n] (.generated (dir.join n) text) := .shared hs
  have hplace := hg.place_eq (t := t) h.plain
  exact ⟨dir, hg.mem_packageDirs, n, name_ne_initFile_of_mem_sharedTexts hs, hplace⟩

/-- What stood before is not stale. -/
theorem not_stale_of_stood (h : FirstRun t t' s c l i spec) (hk : t.get? k ≠ none) :
    ¬ Cleaning.Stale t' l spec k bytes := by
  rintro (⟨p, hp, hfind, -⟩ | ⟨⟨p, way, hb⟩, -⟩)
  · obtain ⟨dir, hd, n, -, hplace⟩ := h.place_shared hp
    have hkp := (find_eq_ok (h.straight.shared hp) hfind).2.1
    rw [h.place_eq, hplace] at hkp
    rw [hkp] at hk
    exact hk (h.bare dir hd _ (by simp))
  · obtain ⟨root, hr, n, -, rfl⟩ := h.exists_root_of_below hb
    exact hk (h.bare root (List.mem_cons_of_mem _ hr) _ (by simp))

/-- A cleaning spares the files that make the five directories packages. -/
theorem not_stale_package (h : FirstRun t t' s c l i spec) (hd : dir ∈ l.packageDirs) :
    ¬ Cleaning.Stale t' l spec (t.place (Output.initFile dir)) bytes := by
  have hinit : t.place (Output.initFile dir) = t.place dir ++ ["__init__.py"] :=
    place_join_name isName_initFile
  rw [hinit]
  rintro (⟨p, hp, hfind, -⟩ | ⟨⟨p, way, hb⟩, -⟩)
  · obtain ⟨dir', hd', n, hn, hplace⟩ := h.place_shared hp
    have heq := (find_eq_ok (h.straight.shared hp) hfind).2.1
    rw [h.place_eq, hplace] at heq
    have hname := (List.append_inj' heq rfl).2
    exact hn (List.singleton_inj.mp hname).symm
  · obtain ⟨root, hr, n, -, heq⟩ := h.exists_root_of_below hb
    obtain rfl := h.apart.eq_of_prefix_append hd (List.mem_cons_of_mem _ hr)
      ⟨[], by rw [List.append_nil, heq]⟩
    obtain rfl : way = [] := (List.cons.inj (List.append_cancel_left heq)).2.symm
    have hdir := hb.owned.get? h.left.wellFormed h.straight
    rw [← List.append_nil (t'.place p), ← hb.lies, ← hinit, h.get?_package hd] at hdir
    cases hdir

/-- A cleaning spares drafts. -/
theorem not_stale_draft (t t' : FileTree) (e : Entity) :
    ¬ Cleaning.Stale t' l spec (t.place (l.entityFiles e).serviceImpl)
      (Text.encode (Artifact.serviceImpl e l)) := by
  rintro (⟨p, -, -, hmark⟩ | ⟨-, hstamp | hmark⟩)
  · rw [Artifact.isMarked_serviceImpl] at hmark
    cases hmark
  · exact Layout.getLast?_place_serviceImpl t l e hstamp
  · rw [Artifact.isMarked_serviceImpl] at hmark
    cases hmark

/-- What a piece of the residue has left is there, and a cleaning spares it. -/
theorem get?_residue (h : FirstRun t t' s c l i spec)
    (hnodup : (s.entities.map Entity.fileKey).Nodup) (hin : piece ∈ residue s c l) :
    ∃ bytes, piece.onto none = some (.file bytes) ∧
      t'.get? (t.place piece.target) = some (.file bytes) ∧
      ¬ Cleaning.Stale t' l spec (t.place piece.target) bytes := by
  obtain ⟨dir, way, hg, hsame⟩ := h.goes_of_mem_residue hnodup hin
  have hget := h.get?_target_of_same hg hsame
  rcases mem_residue hin with ⟨dir, hd, rfl⟩ | ⟨e, -, -, rfl⟩
  · exact ⟨_, rfl, hget, h.not_stale_package hd⟩
  · exact ⟨_, rfl, hget, not_stale_draft t t' e⟩

/-! ### What the cleaning leaves -/

theorem stays_of_stood (h : FirstRun t t' s c l i spec)
    (hplan : Cleaning.plan t' l spec = .ok plan)
    (hc : Cleaning.CarriedOut t' v u plan files dirs) (hk : t.get? k ≠ none) :
    u.get? k = t.get? k := by
  have hw := h.left.wellFormed
  obtain ⟨e, he⟩ := Option.ne_none_iff_exists'.mp hk
  have hget : t'.get? k = some e := by
    cases e with
    | directory =>
      by_cases habove : IsAbove t (pieces s c l i spec) k
      · exact h.left.above k habove
      · rw [h.left.get?_eq k habove, ontoAll_eq_directory_iff, he]
    | file bytes =>
      rw [get?_of_no_target h.left, he]
      intro piece hin hpre
      obtain ⟨dir, way, hg⟩ := goes_of_mem_pieces hin
      by_cases heq : k = t.place piece.target
      · rw [heq, h.get?_bare h.plain hg] at he
        cases he
      · exact h.left.no_file k ⟨piece, hin, hpre, heq⟩ bytes he
  rw [he]
  by_contra hne
  have hgone : u.get? k = none := by
    by_contra hsome
    obtain ⟨e', he'⟩ := Option.ne_none_iff_exists'.mp hsome
    rw [hc.taken.get?_of_some he'] at hget
    exact hne (he'.trans hget)
  cases e with
  | file bytes =>
    exact h.not_stale_of_stood hk ((hc.gone_iff_stale hw h.straight hplan hget).mp hgone)
  | directory =>
    obtain ⟨p, hp, rfl⟩ := hc.directory_of_gone hget hgone
    obtain ⟨-, dir, way, hb⟩ := Cleaning.below_of_mem_dirs hw h.straight hplan hp
    obtain ⟨root, hr, n, -, heq⟩ := h.exists_root_of_below hb
    rw [heq] at hk
    exact hk (h.bare root (List.mem_cons_of_mem _ hr) _ (by simp))

/-- What stands below the directory of a module is a target. -/
theorem goes_of_below_module (h : FirstRun t t' s c l i spec) (hr : root ∈ l.moduleRoots)
    (hne : w ≠ []) (hget : t'.get? (t.place root ++ n :: w) ≠ none) :
    ∃ piece, Goes s c l i spec root (n :: w) piece := by
  obtain ⟨way, piece, hg, hpre⟩ := h.exists_goes (List.mem_cons_of_mem _ hr) (by simp) hget
  obtain rfl := (hg.shape h.plain).eq_of_prefix_cons hne hpre
  exact ⟨piece, hg⟩

/-- The directory of a module goes unless something of the residue lies in it. -/
theorem module_gone (h : FirstRun t t' s c l i spec)
    (hreads : originInText? (stampText spec) = some (originOf spec))
    (hroots : ∀ root ∈ l.moduleRoots, root.text ≠ "")
    (hplan : Cleaning.plan t' l spec = .ok plan)
    (hc : Cleaning.CarriedOut t' v u plan files dirs) (hr : root ∈ l.moduleRoots)
    (he : e ∈ s.entities)
    (hnone : ∀ q ∈ residue s c l, ¬ t.place root ++ [e.moduleName] <+: t.place q.target) :
    u.get? (t.place root ++ [e.moduleName]) = none := by
  have hw := h.left.wellFormed
  obtain ⟨hname, ha, hdir⟩ := h.module_facts hr he
  have hplace : t'.place (root.join e.moduleName) = t.place root ++ [e.moduleName] := by
    rw [place_join_name hname, h.place_eq]
  have hb : Cleaning.Below t' l spec (root.join e.moduleName) [] (t.place root ++ [e.moduleName]) :=
    ⟨h.owned hreads hr (hroots root hr) he, by rw [hplace, List.append_nil], ha.short⟩
  refine Cleaning.get?_none_of_removeDirectories hw h.straight hplan hc.files_taken hc.dirs_run hb
    hdir ?_ ?_
  · intro w hdirw
    by_cases hnil : w = []
    · rw [hnil]
      exact ha.short
    · rw [List.append_assoc, List.singleton_append] at hdirw
      obtain ⟨piece, hg⟩ := h.goes_of_below_module (n := e.moduleName) hr hnil
        (by simp [hdirw])
      obtain ⟨bytes, hfile⟩ := h.exists_file hg
      rw [hg.place_eq h.plain, hdirw] at hfile
      cases hfile
  · intro w bytes hfile
    have hget := hc.files_taken.get?_of_some hfile
    have hnil : w ≠ [] := by
      rintro rfl
      rw [List.append_nil, hdir] at hget
      cases hget
    rw [List.append_assoc, List.singleton_append] at hget hfile
    obtain ⟨piece, hg⟩ := h.goes_of_below_module (n := e.moduleName) hr hnil
      (by simp [hget])
    rw [← hg.place_eq h.plain] at hget hfile
    rcases h.stale_or hreads hroots hg hget with hstale | ⟨q, hq, htarget⟩
    · rw [hc.gone_of_stale hw h.straight hplan hget hstale] at hfile
      cases hfile
    · refine hnone q hq ?_
      rw [htarget, hg.place_eq h.plain]
      exact ⟨w, by simp⟩

/-- Whatever the run has brought goes, unless something of the residue stands there or below. -/
theorem gone_of_new (h : FirstRun t t' s c l i spec)
    (hreads : originInText? (stampText spec) = some (originOf spec))
    (hroots : ∀ root ∈ l.moduleRoots, root.text ≠ "")
    (hplan : Cleaning.plan t' l spec = .ok plan)
    (hc : Cleaning.CarriedOut t' v u plan files dirs) (hk : t.get? k = none)
    (hnone : ∀ q ∈ residue s c l, ¬ k <+: t.place q.target) : u.get? k = none := by
  by_contra hsome
  obtain ⟨e, hu⟩ := Option.ne_none_iff_exists'.mp hsome
  have hget := hc.taken.get?_of_some hu
  obtain ⟨piece, hin, hpre⟩ : ∃ piece ∈ pieces s c l i spec, k <+: t.place piece.target := by
    by_contra hno
    rw [get?_of_no_target h.left fun piece hin hp => hno ⟨piece, hin, hp⟩, hk] at hget
    cases hget
  obtain ⟨dir, way, hg⟩ := goes_of_mem_pieces hin
  rw [hg.place_eq h.plain] at hpre
  have hdir : ¬ k <+: t.place dir := by
    intro habove
    refine hnone _ (package_mem_residue hg.mem_packageDirs) ?_
    rw [Piece.target, Output.initFile, place_join_name isName_initFile]
    exact habove.trans (List.prefix_append _ _)
  have hcompare := List.prefix_or_prefix_of_prefix hpre (List.prefix_append _ way)
  obtain ⟨w, rfl⟩ := hcompare.resolve_left hdir
  have hnil : w ≠ [] := by
    rintro rfl
    rw [List.append_nil] at hdir
    exact hdir (List.prefix_refl _)
  have hway := (List.prefix_append_right_inj _).mp hpre
  by_cases heq : w = way
  · subst heq
    rw [← hg.place_eq h.plain] at hget hu
    obtain ⟨bytes, hfile⟩ := h.exists_file hg
    rcases h.stale_or hreads hroots hg hfile with hstale | ⟨q, hq, htarget⟩
    · rw [(hc.gone_iff_stale h.left.wellFormed h.straight hplan hfile).mpr hstale] at hu
      cases hu
    · exact hnone q hq (htarget ▸ hg.place_eq h.plain ▸ List.prefix_refl _)
  · obtain ⟨m, n, rfl, rfl⟩ := (hg.shape h.plain).eq_of_prefix_ne hnil heq hway
    rcases hg.target_cases with ⟨⟨n, hway⟩, -⟩ | hway | ⟨hr, e, he, n, hway, -⟩
    · simp at hway
    · simp at hway
    · obtain ⟨rfl, -⟩ := List.cons.inj hway
      rw [h.module_gone hreads hroots hplan hc hr he hnone] at hu
      cases hu

theorem ontoAll_residue (h : FirstRun t t' s c l i spec)
    (hnodup : (s.entities.map Entity.fileKey).Nodup) (hin : piece ∈ residue s c l) :
    ontoAll (aimedAt t (residue s c l) (t.place piece.target)) none = piece.onto none := by
  obtain ⟨dir, way, hg, hsame⟩ := h.goes_of_mem_residue hnodup hin
  refine ontoAll_of_same ?_ ?_ hg.onto_onto none
  · intro other hother
    obtain ⟨hother, hplace⟩ := List.mem_filter.mp hother
    exact hsame other (h.goes_of_mem_aimedAt h.plain hg
      (List.mem_filter.mpr ⟨h.mem_pieces_of_mem_residue hnodup hother, hplace⟩))
  · exact List.ne_nil_of_mem (List.mem_filter.mpr ⟨hin, decide_eq_true rfl⟩)

/-- What a cleaning leaves of a run is what the pieces of its residue alone would have left. -/
theorem allLeft_residue (h : FirstRun t t' s c l i spec)
    (hnodup : (s.entities.map Entity.fileKey).Nodup)
    (hreads : originInText? (stampText spec) = some (originOf spec))
    (hroots : ∀ root ∈ l.moduleRoots, root.text ≠ "")
    (hplan : Cleaning.plan t' l spec = .ok plan)
    (hc : Cleaning.CarriedOut t' v u plan files dirs) : Output.AllLeft t u (residue s c l) := by
  have hw := h.left.wellFormed
  have hin : ∀ q ∈ residue s c l, q ∈ pieces s c l i spec := fun q hq =>
    h.mem_pieces_of_mem_residue hnodup hq
  have hstays : ∀ q ∈ residue s c l, ∃ bytes, q.onto none = some (.file bytes) ∧
      u.get? (t.place q.target) = some (.file bytes) := by
    intro q hq
    obtain ⟨bytes, hover, hget, hstale⟩ := h.get?_residue hnodup hq
    have hsome : u.get? (t.place q.target) ≠ none := fun hgone =>
      hstale ((hc.gone_iff_stale hw h.straight hplan hget).mp hgone)
    obtain ⟨e, he⟩ := Option.ne_none_iff_exists'.mp hsome
    rw [hc.taken.get?_of_some he] at hget
    exact ⟨bytes, hover, he.trans hget⟩
  have habove : ∀ k, IsAbove t (residue s c l) k → IsAbove t (pieces s c l i spec) k :=
    fun k ⟨q, hq, hk⟩ => ⟨q, hin q hq, hk⟩
  refine ⟨hc.taken.wellFormed, hc.taken.home.trans h.left.home,
    fun q hq => h.left.accepted q (hin q hq), ?_, fun k hk => h.left.no_file k (habove k hk), ?_, ?_⟩
  · rintro k ⟨q, hq, hpre, hne⟩
    obtain ⟨bytes, -, hget⟩ := hstays q hq
    exact hc.taken.wellFormed.directory_above hget hpre hne
  · intro k hnot
    by_cases htarget : ∃ q ∈ residue s c l, k = t.place q.target
    · obtain ⟨q, hq, rfl⟩ := htarget
      obtain ⟨dir, way, hg, -⟩ := h.goes_of_mem_residue hnodup hq
      obtain ⟨bytes, hover, hget⟩ := hstays q hq
      rw [hget, h.get?_bare h.plain hg, h.ontoAll_residue hnodup hq, hover]
    · have hnone : ∀ q ∈ residue s c l, ¬ k <+: t.place q.target := fun q hq hpre =>
        hnot ⟨q, hq, hpre, fun heq => htarget ⟨q, hq, heq⟩⟩
      have haim : aimedAt t (residue s c l) k = [] := by
        refine List.filter_eq_nil_iff.mpr fun q hq heq => htarget ⟨q, hq, ?_⟩
        exact (of_decide_eq_true heq).symm
      rw [haim, ontoAll_nil]
      by_cases hk : t.get? k = none
      · rw [h.gone_of_new hreads hroots hplan hc hk hnone, hk]
      · exact h.stays_of_stood hplan hc hk
  · intro dir origin hmark
    rcases mem_residue hmark with ⟨d, hd, hpiece⟩ | ⟨e, he, hx, hpiece⟩ <;> cases hpiece

end FirstRun

end Generation

end CrudBackend
