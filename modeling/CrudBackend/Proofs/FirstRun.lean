import CrudBackend.Proofs.Leftovers

/-!
A run whose five directories are bare. All that stands below them afterwards are its targets, and the
directories of its modules. What stands at a target tells what kind of piece aims at it: generated
files begin with the marker, marks name the origin of the run, and drafts have their own text.
-/

namespace CrudBackend

open FileTree Ownership Piece

/-- Nothing stands below the five directories. -/
def Layout.Bare (t : FileTree) (l : Layout) : Prop :=
  ∀ dir ∈ l.packageDirs, ∀ w ≠ [], t.get? (t.place dir ++ w) = none

theorem Layout.bare_of_entries {t : FileTree} {l : Layout}
    (h : ∀ x ∈ t.entries, ∀ dir ∈ l.packageDirs, t.place dir <+: x.1 → t.place dir = x.1) :
    l.Bare t := by
  intro dir hd w hw
  by_contra hsome
  obtain ⟨e, he⟩ := Option.ne_none_iff_exists'.mp hsome
  have heq := h _ (mem_entries_of_get? (by simp [hw]) he) dir hd (List.prefix_append _ _)
  exact hw (List.append_cancel_left ((List.append_nil _).trans heq)).symm

theorem Text.decode?_encode (s : String) : decode? (encode s) = some s := by
  have hbytes : (encode s).toByteArray = s.toByteArray := String.utf8Encode_toList
  rw [decode?, hbytes, String.fromUTF8?, dif_pos s.isValidUTF8]
  rfl

namespace Piece

def Generating : Piece → Prop
  | generated _ text => isMarked (Text.encode text) = true
  | package _ => True
  | _ => False

variable {piece : Piece} {ps : List Piece} {e : Entry}

theorem Generating.regular (h : piece.Generating) : piece.Regular := by
  cases piece with
  | generated p text => exact h
  | package dir => trivial
  | draft p text => trivial
  | mark dir spec => exact h.elim

/-- Generating pieces leave a generated file where nothing stood. -/
theorem ontoAll_of_generating (h : ∀ q ∈ ps, q.Generating) (hne : ps ≠ []) :
    ∃ bytes, ontoAll ps none = some (.file bytes) ∧ isMarked bytes = true := by
  obtain ⟨piece, rest, rfl⟩ := List.exists_cons_of_ne_nil hne
  have hfirst : ∃ bytes, piece.onto none = some (.file bytes) ∧ isMarked bytes = true := by
    have hpiece := h piece (List.mem_cons_self ..)
    cases piece with
    | generated p text => exact ⟨_, rfl, hpiece⟩
    | package dir => exact ⟨_, rfl, Output.isMarked_initText⟩
    | draft p text => exact hpiece.elim
    | mark dir spec => exact hpiece.elim
  obtain ⟨bytes, hover, hmark⟩ := hfirst
  rw [ontoAll_cons, hover]
  exact ontoAll_of_marked (fun q hq => (h q (List.mem_cons_of_mem _ hq)).regular) hmark

end Piece

namespace Generation

variable {s s' : Spec} {c : Config} {l : Layout} {i : Imports} {dir root : Path} {spec : RawPath}
  {way : List String} {piece other : Piece} {e : Entity} {m n : String}

/-! ### Pieces by their ways -/

theorem Goes.package_of_way (h : Goes s c l i spec dir ["__init__.py"] piece) :
    piece = .package dir := by
  generalize hway : ["__init__.py"] = way at h
  cases h with
  | package hd => rfl
  | shared hs => exact absurd (List.singleton_inj.mp hway).symm (name_ne_initFile_of_mem_sharedTexts hs)
  | _ => simp at hway

theorem Goes.mark_of_way (h : Goes s c l i spec dir [m, stampName] piece) :
    piece = .mark (dir.join m) spec := by
  have hfile : ∀ (stem ending : String), ¬ ending.toList <:+ stampName.toList →
      stampName ≠ stem ++ ending := fun stem ending hend => (append_ne_of_not_suffix hend).symm
  generalize hway : [m, stampName] = way at h
  cases h with
  | mark hr he =>
    rw [(List.cons.inj hway).1]
  | modulePackage hr he => exact absurd (List.cons.inj hway).2 (by decide)
  | file he hf =>
    have hname := List.singleton_inj.mp (List.cons.inj hway).2
    rcases ending_of_mem_entityTexts hf with rfl | rfl
    · exact absurd hname (hfile _ ".py" (by decide))
    · exact absurd hname (hfile _ "_service.py" (by decide))
  | draft he hx =>
    exact absurd (List.singleton_inj.mp (List.cons.inj hway).2) (hfile _ draftEnding (by decide))
  | _ => simp at hway

/-- Only drafts go where drafts go. -/
theorem Goes.draft_of_way (hdirs : l.packageDirs.Nodup) (h : Goes s c l i spec dir way piece)
    (hdir : dir = l.servicesDir) (hway : way = [m, n ++ draftEnding]) :
    ∃ e ∈ s.entities, c.hasExtension e = true ∧ e.moduleName = m ∧ e.fileStem = n ∧
      piece = .draft (l.entityFiles e).serviceImpl (Artifact.serviceImpl e l) := by
  cases h with
  | draft he hx =>
    obtain ⟨hmodule, hname⟩ := List.cons.inj hway
    exact ⟨_, he, hx, hmodule, append_right_cancel (List.singleton_inj.mp hname), rfl⟩
  | modulePackage hr he =>
    have hname := List.singleton_inj.mp (List.cons.inj hway).2
    exact absurd hname.symm (append_ne_of_not_suffix (by decide))
  | mark hr he =>
    have hname := List.singleton_inj.mp (List.cons.inj hway).2
    exact absurd hname.symm (append_ne_of_not_suffix (by decide))
  | file he hf =>
    have hname := List.singleton_inj.mp (List.cons.inj hway).2
    rw [ending_of_root hdirs hf, if_pos hdir] at hname
    exact absurd hname (append_ne_append (by decide) (by decide))
  | _ => simp at hway

/-- A piece generates a file unless it goes where marks or drafts go. -/
theorem Goes.generating_or (h : Goes s c l i spec dir way piece) : piece.Generating ∨
    (∃ m, way = [m, stampName]) ∨ dir = l.servicesDir ∧ ∃ m n, way = [m, n ++ draftEnding] := by
  have hmarked : ∀ p text, piece = .generated p text → isMarked (Text.encode text) = true := by
    rintro p text rfl
    exact isMarked_of_goes h
  cases h with
  | package hd => exact Or.inl trivial
  | modulePackage hr he => exact Or.inl trivial
  | shared hs => exact Or.inl (hmarked _ _ rfl)
  | file he hf => exact Or.inl (hmarked _ _ rfl)
  | mark hr he => exact Or.inr (Or.inl ⟨_, rfl⟩)
  | draft he hx => exact Or.inr (Or.inr ⟨rfl, _, _, rfl⟩)

/-- A target is shared, makes one of the five directories a package, or lies in the directory of a
module, as a generated file, a mark or a draft. -/
theorem Goes.target_cases (h : Goes s c l i spec dir way piece) :
    ((∃ n, way = [n]) ∧ piece.target ∈ l.sharedFiles ∧ piece.Generating) ∨ way = ["__init__.py"] ∨
      dir ∈ l.moduleRoots ∧ ∃ e ∈ s.entities, ∃ n, way = [e.moduleName, n] ∧
        (piece.Generating ∨ n = stampName ∨
          c.hasExtension e = true ∧ piece.target = (l.entityFiles e).serviceImpl) := by
  have hmarked : ∀ p text, piece = .generated p text → isMarked (Text.encode text) = true := by
    rintro p text rfl
    exact isMarked_of_goes h
  cases h with
  | package hd => exact Or.inr (Or.inl rfl)
  | shared hs =>
    have hin := List.mem_map_of_mem (f := fun x => x.1.join x.2.1) hs
    rw [paths_sharedTexts] at hin
    exact Or.inl ⟨⟨_, rfl⟩, hin, hmarked _ _ rfl⟩
  | modulePackage hr he => exact Or.inr (Or.inr ⟨hr, _, he, _, rfl, Or.inl trivial⟩)
  | mark hr he => exact Or.inr (Or.inr ⟨hr, _, he, _, rfl, Or.inr (Or.inl rfl)⟩)
  | file he hf =>
    refine Or.inr (Or.inr ⟨?_, _, he, _, rfl, Or.inl (hmarked _ _ rfl)⟩)
    simp only [entityTexts, List.mem_cons, Prod.mk.injEq, List.not_mem_nil, or_false] at hf
    rcases hf with ⟨rfl, -⟩ | ⟨rfl, -⟩ | ⟨rfl, -⟩ | ⟨rfl, -⟩ <;> simp [Layout.moduleRoots]
  | draft he hx =>
    exact Or.inr (Or.inr ⟨by simp [Layout.moduleRoots], _, he, _, rfl, Or.inr (Or.inr ⟨hx, rfl⟩)⟩)

/-! ### Runs into bare directories -/

/-- One tree is what a run leaves of the other one, in which nothing stood below its directories. -/
structure FirstRun (t t' : FileTree) (s : Spec) (c : Config) (l : Layout) (i : Imports)
    (spec : RawPath) : Prop where
  wellFormed : t.WellFormed
  bare : l.Bare t
  plain : s.Plain
  straight : l.Straight
  apart : l.Apart t
  left : Output.AllLeft t t' (pieces s c l i spec)

namespace FirstRun

variable {t t' : FileTree} {k : Location} {w : List String}

theorem place_eq (h : FirstRun t t' s c l i spec) : t'.place = t.place :=
  funext fun _ => place_congr h.left.home

theorem get?_bare (h : FirstRun t t' s c l i spec) (hs : s'.Plain)
    (hg : Goes s' c l i spec dir way piece) : t.get? (t.place piece.target) = none := by
  rw [hg.place_eq hs]
  refine h.bare dir hg.mem_packageDirs way ?_
  rintro rfl
  cases hg.shape hs

/-- All pieces that aim at the target of a piece go the same way. -/
theorem goes_of_mem_aimedAt (h : FirstRun t t' s c l i spec) (hs : s'.Plain)
    {c' : Config} {i' : Imports} {spec' : RawPath} (hg : Goes s' c' l i' spec' dir way piece)
    (hin : other ∈ aimedAt t (pieces s c l i spec) (t.place piece.target)) :
    Goes s c l i spec dir way other := by
  obtain ⟨hmem, hplace⟩ := List.mem_filter.mp hin
  obtain ⟨dir', way', hg'⟩ := goes_of_mem_pieces hmem
  obtain ⟨rfl, rfl⟩ := hg'.eq_of_isPrefix h.plain hs h.apart hg
    (of_decide_eq_true hplace ▸ List.prefix_refl _)
  exact hg'

theorem get?_target (h : FirstRun t t' s c l i spec) (hg : Goes s c l i spec dir way piece) :
    t'.get? (t.place piece.target) =
      ontoAll (aimedAt t (pieces s c l i spec) (t.place piece.target)) none := by
  rw [h.left.get?_eq _ (hg.not_isAbove h.plain h.plain h.apart), h.get?_bare h.plain hg]

theorem mem_aimedAt (h : FirstRun t t' s c l i spec) (hg : Goes s c l i spec dir way piece) :
    piece ∈ aimedAt t (pieces s c l i spec) (t.place piece.target) :=
  List.mem_filter.mpr ⟨hg.mem_pieces h.plain h.straight h.apart, decide_eq_true rfl⟩

theorem exists_file (h : FirstRun t t' s c l i spec) (hg : Goes s c l i spec dir way piece) :
    ∃ bytes, t'.get? (t.place piece.target) = some (.file bytes) := by
  have hstands := h.left.stands (hg.mem_pieces h.plain h.straight h.apart)
  obtain ⟨e, he⟩ := Option.ne_none_iff_exists'.mp hstands
  cases e with
  | file bytes => exact ⟨bytes, he⟩
  | directory =>
    rw [h.get?_target hg, ontoAll_eq_directory_iff] at he
    cases he

/-- What the pieces at a target leave if they are all the same. -/
theorem get?_target_of_same (h : FirstRun t t' s c l i spec)
    (hg : Goes s c l i spec dir way piece)
    (hsame : ∀ other, Goes s c l i spec dir way other → other = piece) :
    t'.get? (t.place piece.target) = piece.onto none := by
  rw [h.get?_target hg]
  exact ontoAll_of_same (fun other hin => hsame other (h.goes_of_mem_aimedAt h.plain hg hin))
    (List.ne_nil_of_mem (h.mem_aimedAt hg)) hg.onto_onto none

theorem get?_mark (h : FirstRun t t' s c l i spec) (hr : root ∈ l.moduleRoots)
    (he : e ∈ s.entities) : t'.get? (t.place (stampFile (root.join e.moduleName))) =
      some (.file (Text.encode (stampText spec))) := by
  have hg : Goes s c l i spec root [e.moduleName, stampName] (.mark (root.join e.moduleName) spec) :=
    .mark hr he
  have hmark := h.get?_target_of_same hg fun _ hother => hother.mark_of_way
  exact hmark

/-- Generated files begin with the marker. -/
theorem isMarked_of_generating (h : FirstRun t t' s c l i spec)
    (hg : Goes s c l i spec dir way piece) (hpiece : piece.Generating) :
    ∃ bytes, t'.get? (t.place piece.target) = some (.file bytes) ∧ isMarked bytes = true := by
  rw [h.get?_target hg]
  refine ontoAll_of_generating ?_ (List.ne_nil_of_mem (h.mem_aimedAt hg))
  intro other hin
  have hg' := h.goes_of_mem_aimedAt h.plain hg hin
  rcases hg'.generating_or with hgen | ⟨m, rfl⟩ | ⟨hdir, m, n, hway⟩
  · exact hgen
  · rw [hg.mark_of_way] at hpiece
    exact hpiece.elim
  · obtain ⟨e, -, -, -, -, rfl⟩ := hg.draft_of_way h.apart.nodup hdir hway
    exact hpiece.elim

/-- What stands below one of the directories is a target or lies above one. -/
theorem exists_goes (h : FirstRun t t' s c l i spec) (hd : dir ∈ l.packageDirs) (hw : w ≠ [])
    (hget : t'.get? (t.place dir ++ w) ≠ none) :
    ∃ way piece, Goes s c l i spec dir way piece ∧ w <+: way := by
  have htarget : ∃ piece ∈ pieces s c l i spec, t.place dir ++ w <+: t.place piece.target := by
    by_contra hnone
    rw [get?_of_no_target h.left fun piece hin hpre => hnone ⟨piece, hin, hpre⟩,
      h.bare dir hd w hw] at hget
    exact hget rfl
  obtain ⟨piece, hin, hpre⟩ := htarget
  obtain ⟨dir', way, hg⟩ := goes_of_mem_pieces hin
  rw [hg.place_eq h.plain] at hpre
  obtain rfl := h.apart.eq_of_prefix_append hd hg.mem_packageDirs hpre
  exact ⟨way, piece, hg, (List.prefix_append_right_inj _).mp hpre⟩

end FirstRun

/-- There is nothing to remove where nothing stands below the directories. -/
theorem plan_of_bare {t : FileTree} {plan : CleanPlan} (hw : t.WellFormed) (hl : l.Straight)
    (hbare : l.Bare t) (hplan : Cleaning.plan t l spec = .ok plan) :
    plan.files = [] ∧ plan.dirs = [] := by
  obtain ⟨owned, hmem, hfiles, hdirs⟩ := Cleaning.plan_eq_ok hw hl hplan
  have howned : owned = [] := by
    refine List.eq_nil_iff_forall_not_mem.mpr fun dir hdir => ?_
    obtain ⟨root, hr, r, n, hfind, hn, rfl⟩ := ((hmem dir).mp hdir).listed
    obtain ⟨e, hget⟩ := (mem_namesIn_iff hw).mp hn
    rw [(find_eq_ok (hl.root hr) hfind).2.1,
      hbare root (List.mem_cons_of_mem _ hr) _ (by simp)] at hget
    cases hget
  have hshared : l.sharedFiles.filter (isGenerated t) = [] := by
    refine List.filter_eq_nil_iff.mpr fun p hp hgen => ?_
    obtain ⟨k, bytes, hfind, -⟩ := isGenerated_eq_true_iff.mp hgen
    have hstands := find_eq_ok (hl.shared hp) hfind
    obtain ⟨dir, hd, n, hn, rfl⟩ := Layout.eq_join_of_mem_sharedFiles hp
    obtain ⟨-, rfl, hget | ⟨hnot, -⟩⟩ := hstands
    · rw [place_join_name hn, hbare dir hd _ (by simp)] at hget
      cases hget
    · cases hnot
  rw [hfiles, hdirs, howned, hshared]
  exact ⟨rfl, rfl⟩

theorem eq_of_removals {j : Job} {t u : FileTree} {removed : List Path} (hw : t.WellFormed)
    (hl : j.layout.Straight) (hbare : j.layout.Bare t) (h : j.removals t = .ok removed u) :
    u = t := by
  obtain ⟨plan, hplan, happly⟩ := apply_of_removals h
  have hnone : plan.files = [] ∧ plan.dirs = [] := by
    unfold Job.plan at hplan
    split_ifs at hplan
    · exact plan_of_bare hw hl hbare hplan
    · cases hplan
      exact ⟨rfl, rfl⟩
  unfold Cleaning.apply at happly
  rw [hnone.1, hnone.2] at happly
  split_ifs at happly <;> cases happly <;> rfl

/-- Whether it is asked for a cleaning or not, a run into bare directories is a first run. -/
theorem firstRun_of_run {t t' : FileTree} {clean : Bool} {report : Report} (hw : t.WellFormed)
    (hbare : (Layout.of root c).Bare t) (hs : s.Plain) (hl : (Layout.of root c).Straight)
    (ha : (Layout.of root c).Apart t)
    (hrun : run s c ⟨root, spec, clean, false⟩ t = .ok report t') :
    ∃ imports, c.resolveImports = .ok imports ∧
      FirstRun t t' s c (Layout.of root c) imports spec := by
  let j : Job := ⟨s, c, root, spec, clean, false⟩
  obtain ⟨imports, removed, u, outcomes, himports, hremovals, hall, -⟩ :=
    exists_of_run (j := j) rfl hrun
  obtain rfl := eq_of_removals (j := j) hw hl hbare hremovals
  exact ⟨imports, himports, hw, hbare, hs, hl, ha,
    Output.allLeft_performAll hw (fun piece => ofFile_of_mem_pieces hs hl) hall⟩

end Generation

end CrudBackend
