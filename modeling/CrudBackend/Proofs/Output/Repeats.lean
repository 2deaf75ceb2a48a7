import CrudBackend.Proofs.Output.Again
import CrudBackend.Proofs.Output.Apart

/-!
What a run brings out more than once. Each draft and each mark comes once; the package of a module
comes once for each entity of the module.
-/

namespace CrudBackend

open FileTree Ownership

namespace Piece

def packageDir? : Piece → Option Path
  | package dir => some dir
  | _ => none

def draftPath? : Piece → Option Path
  | draft p _ => some p
  | _ => none

/-- The directory that is marked, as a run tells directories apart. -/
def markedKey? : Piece → Option (List Path.Component)
  | mark dir _ => some dir.components
  | _ => none

theorem packageDir?_eq_some_iff {piece : Piece} {dir : Path} :
    piece.packageDir? = some dir ↔ piece = .package dir := by
  cases piece <;> simp [packageDir?]

end Piece

open Piece

namespace Generation

variable {α : Type} {f : Piece → Option α} {s : Spec} {c : Config} {l : Layout} {i : Imports}
  {dir : Path} {spec : RawPath} {t : FileTree} {piece : Piece} {e e' : Entity} {root root' : Path}
  {marked : List (List Path.Component)}

def draftPieces (c : Config) (l : Layout) (e : Entity) : List Piece :=
  if c.hasExtension e then
    [.draft (l.entityFiles e).serviceImpl (Artifact.serviceImpl e l)]
  else []

section Generated

variable (hgenerated : ∀ p text, f (.generated p text) = none)

include hgenerated

theorem filterMap_filePieces (e : Entity) :
    (filePieces c l i e).filterMap f = (draftPieces c l e).filterMap f := by
  unfold filePieces draftPieces
  split_ifs <;> simp [hgenerated, List.filterMap_cons]

theorem filterMap_pieces : (pieces s c l i spec).filterMap f =
    (l.packageDirs.map Piece.package).filterMap f ++
      (entityPieces c l i spec [] s.entities).filterMap f := by
  have hshared : (sharedPieces s l).filterMap f = [] := by
    simp [sharedPieces, hgenerated]
  rw [pieces, List.filterMap_append, List.filterMap_append, List.filterMap_append, hshared,
    List.append_nil]
  simp [hgenerated]

/-! ### Packages and drafts -/

section Unmarked

variable (hmark : ∀ dir spec, f (.mark dir spec) = none)

include hmark

omit hgenerated in
theorem filterMap_directoryPieces (marked : List (List Path.Component)) (dirs : List Path) :
    (directoryPieces spec marked dirs).1.filterMap f = (dirs.map Piece.package).filterMap f := by
  induction dirs generalizing marked with
  | nil => rfl
  | cons d rest ih =>
    rw [directoryPieces, List.map_cons, List.filterMap_cons]
    split_ifs
    · rw [List.filterMap_cons, ih]
    · rw [List.filterMap_cons, List.filterMap_cons, hmark, ih]

theorem filterMap_entityPieces (marked : List (List Path.Component)) (entities : List Entity) :
    (entityPieces c l i spec marked entities).filterMap f = entities.flatMap fun e =>
      ((l.moduleDirs e).map Piece.package ++ draftPieces c l e).filterMap f := by
  induction entities generalizing marked with
  | nil => rfl
  | cons e rest ih =>
    rw [entityPieces, List.filterMap_append, List.filterMap_append,
      filterMap_directoryPieces hmark, filterMap_filePieces hgenerated, ih, List.flatMap_cons,
      List.filterMap_append]

end Unmarked

end Generated

/-- The directories that a run makes packages, as often as it does. -/
theorem packageDir?_pieces (s : Spec) (c : Config) (l : Layout) (i : Imports) (spec : RawPath) :
    (pieces s c l i spec).filterMap packageDir? =
      l.packageDirs ++ s.entities.flatMap l.moduleDirs := by
  have hpackages : ∀ dirs : List Path, (dirs.map Piece.package).filterMap packageDir? = dirs := by
    intro dirs
    rw [List.filterMap_map]
    exact List.filterMap_some
  have hdraft : ∀ e, (draftPieces c l e).filterMap packageDir? = [] := by
    intro e
    unfold draftPieces
    split_ifs <;> rfl
  rw [filterMap_pieces fun _ _ => rfl, hpackages,
    filterMap_entityPieces (fun _ _ => rfl) fun _ _ => rfl]
  simp only [List.filterMap_append, hpackages, hdraft, List.append_nil]

/-- The files that a run drafts, one for each registered extension. -/
theorem draftPath?_pieces (s : Spec) (c : Config) (l : Layout) (i : Imports) (spec : RawPath) :
    (pieces s c l i spec).filterMap draftPath? = s.entities.flatMap fun e =>
      if c.hasExtension e then [(l.entityFiles e).serviceImpl] else [] := by
  have hpackages : ∀ dirs : List Path, (dirs.map Piece.package).filterMap draftPath? = [] := by
    intro dirs
    rw [List.filterMap_map]
    exact List.filterMap_eq_nil_iff.mpr fun _ _ => rfl
  have hdraft : ∀ e, (draftPieces c l e).filterMap draftPath? =
      if c.hasExtension e then [(l.entityFiles e).serviceImpl] else [] := by
    intro e
    unfold draftPieces
    split_ifs <;> rfl
  rw [filterMap_pieces fun _ _ => rfl, hpackages,
    filterMap_entityPieces (fun _ _ => rfl) fun _ _ => rfl]
  simp only [List.filterMap_append, hpackages, hdraft, List.nil_append]

/-! ### Marks -/

/-- A run keeps account of the directories that it marks. -/
theorem markedKey?_directoryPieces (spec : RawPath) (marked : List (List Path.Component))
    (dirs : List Path) : (directoryPieces spec marked dirs).2 =
      ((directoryPieces spec marked dirs).1.filterMap markedKey?).reverse ++ marked := by
  induction dirs generalizing marked with
  | nil => rfl
  | cons d rest ih =>
    rw [directoryPieces]
    split_ifs
    · exact ih _
    · refine (ih _).trans ?_
      simp [List.filterMap_cons, markedKey?]

theorem nodup_directoryPieces (hmarked : marked.Nodup) (dirs : List Path) :
    (directoryPieces spec marked dirs).2.Nodup := by
  induction dirs generalizing marked with
  | nil => exact hmarked
  | cons d rest ih =>
    rw [directoryPieces]
    split_ifs with hin
    · exact ih hmarked
    · exact ih (List.nodup_cons.mpr ⟨fun h => hin (List.contains_iff_mem.mpr h), hmarked⟩)

theorem nodup_entityPieces (hmarked : marked.Nodup) (entities : List Entity) :
    (((entityPieces c l i spec marked entities).filterMap markedKey?).reverse ++ marked).Nodup := by
  induction entities generalizing marked with
  | nil => exact hmarked
  | cons e rest ih =>
    have hdraft : (draftPieces c l e).filterMap markedKey? = [] := by
      unfold draftPieces
      split_ifs <;> rfl
    rw [entityPieces, List.filterMap_append, List.filterMap_append,
      filterMap_filePieces fun _ _ => rfl, hdraft, List.append_nil, List.reverse_append,
      List.append_assoc, ← markedKey?_directoryPieces]
    exact ih (nodup_directoryPieces hmarked _)

/-- A run marks no directory twice. -/
theorem nodup_markedKey?_pieces (s : Spec) (c : Config) (l : Layout) (i : Imports) (spec : RawPath) :
    ((pieces s c l i spec).filterMap markedKey?).Nodup := by
  have hpackages : (l.packageDirs.map Piece.package).filterMap markedKey? = [] := rfl
  have hnodup : (((entityPieces c l i spec [] s.entities).filterMap markedKey?).reverse ++
      []).Nodup := nodup_entityPieces List.nodup_nil s.entities
  rw [List.append_nil, List.nodup_reverse] at hnodup
  rwa [filterMap_pieces fun _ _ => rfl, hpackages, List.nil_append]

/-! ### Pieces that come again -/

/-- No draft comes again. -/
theorem nodup_draftPath?_pieces (hs : s.Plain) (hnodup : (s.entities.map Entity.fileKey).Nodup)
    (c : Config) (l : Layout) (i : Imports) (spec : RawPath) :
    ((pieces s c l i spec).filterMap draftPath?).Nodup := by
  obtain ⟨t⟩ : Nonempty FileTree := ⟨⟨[], []⟩⟩
  have hmem : ∀ {p e}, p ∈ (if c.hasExtension e then [(l.entityFiles e).serviceImpl] else []) →
      p = (l.entityFiles e).serviceImpl := by
    intro p e hp
    split_ifs at hp
    · exact List.mem_singleton.mp hp
    · cases hp
  rw [draftPath?_pieces]
  refine List.pairwise_flatMap.mpr ⟨fun e _ => ?_, ?_⟩
  · split_ifs
    · exact List.pairwise_singleton _ _
    · exact .nil
  · refine (List.pairwise_map.mp hnodup).imp_of_mem ?_
    intro e e' he he' hne p hp q hq heq
    obtain rfl : p = (l.entityFiles e).serviceImpl := hmem hp
    obtain rfl : q = (l.entityFiles e').serviceImpl := hmem hq
    have hway := place_serviceImpl (t := t) (l := l) hs he
    rw [heq, place_serviceImpl hs he', List.append_cancel_left_eq] at hway
    obtain ⟨hmodule, hfile⟩ := List.cons.inj hway
    exact hne (congrArg Entity.fileKey
      (entity_eq_of_file hnodup he he' hmodule.symm (List.cons.inj hfile).1.symm))

theorem mem_packageDirs_of_mem_moduleRoots (hr : root ∈ l.moduleRoots) : root ∈ l.packageDirs :=
  List.mem_cons_of_mem _ hr

/-- The directories of different modules are different. -/
theorem join_eq_join_iff (ha : l.Apart t) (hr : root ∈ l.moduleRoots) (hr' : root' ∈ l.moduleRoots)
    (hm : IsPlain e.moduleName) (hm' : IsPlain e'.moduleName) :
    root.join e.moduleName = root'.join e'.moduleName ↔
      root = root' ∧ e.moduleName = e'.moduleName := by
  refine ⟨fun h => ?_, fun h => by rw [h.1, h.2]⟩
  have hplace := congrArg t.place h
  rw [place_join_segment hm.isSegment, place_join_segment hm'.isSegment] at hplace
  obtain rfl := ha.eq_of_prefix_append (mem_packageDirs_of_mem_moduleRoots hr)
    (mem_packageDirs_of_mem_moduleRoots hr') ⟨[], by rw [List.append_nil, hplace]⟩
  exact ⟨rfl, by simpa using hplace⟩

/-- The packages that come again are those of modules that several entities share. -/
theorem pairwise_packages_iff (hs : s.Plain) (ha : l.Apart t) {P : Path → Prop} :
    (l.packageDirs ++ s.entities.flatMap l.moduleDirs).Pairwise (fun d d' => d = d' → P d) ↔
      s.entities.Pairwise fun e e' => e.moduleName = e'.moduleName →
        ∀ root ∈ l.moduleRoots, P (root.join e.moduleName) := by
  have hdirs : l.packageDirs.Pairwise fun d d' => d = d' → P d :=
    ha.nodup.imp fun hne heq => absurd heq hne
  have hmodule : ∀ e ∈ s.entities, (l.moduleDirs e).Pairwise fun d d' => d = d' → P d := by
    intro e he
    refine List.pairwise_map.mpr ((List.pairwise_cons.mp ha.nodup).2.imp_of_mem ?_)
    intro root root' hr hr' hne heq
    exact absurd ((join_eq_join_iff ha hr hr' (hs e he).2 (hs e he).2).mp heq).1 hne
  have hcross : ∀ d ∈ l.packageDirs, ∀ d' ∈ s.entities.flatMap l.moduleDirs, d = d' → P d := by
    rintro d hd _ hd' rfl
    obtain ⟨e, he, hd'⟩ := List.mem_flatMap.mp hd'
    obtain ⟨root, hr, rfl⟩ := List.mem_map.mp hd'
    have hplace := place_join_segment (t := t) (p := root) (hs e he).2.isSegment
    have heq := ha.eq_of_isPrefix (mem_packageDirs_of_mem_moduleRoots hr) hd
      (hplace ▸ List.prefix_append _ _)
    rw [← heq] at hplace
    simp at hplace
  rw [List.pairwise_append, List.pairwise_flatMap, and_iff_right hdirs, and_iff_left hcross,
    and_iff_right hmodule]
  refine List.Pairwise.iff_of_mem ?_
  intro e e' he he'
  have hjoin : ∀ {root root'}, root ∈ l.moduleRoots → root' ∈ l.moduleRoots →
      (root.join e.moduleName = root'.join e'.moduleName ↔
        root = root' ∧ e.moduleName = e'.moduleName) := fun hr hr' =>
    join_eq_join_iff ha hr hr' (hs e he).2 (hs e' he').2
  constructor
  · intro h hm root hr
    exact h _ (List.mem_map_of_mem hr) _ (List.mem_map_of_mem hr) ((hjoin hr hr).mpr ⟨rfl, hm⟩)
  · intro h d hd d' hd' heq
    obtain ⟨root, hr, rfl⟩ := List.mem_map.mp hd
    obtain ⟨root', hr', rfl⟩ := List.mem_map.mp hd'
    exact h ((hjoin hr hr').mp heq).2 root hr

end Generation

end CrudBackend
