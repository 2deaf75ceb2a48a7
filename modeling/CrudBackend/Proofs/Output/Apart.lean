import CrudBackend.Proofs.Output.Targets
import CrudBackend.Proofs.Reading
import CrudBackend.Proofs.Stems
import Mathlib.Data.List.Pairwise

/-!
Targets do not get in each other's way. With plain names, a target lies exactly one or two names
below one of the five directories, and only the last name has a dot in it. So if these directories
are apart, no target lies above another one, not even of another run with the same layout, and two
pieces of a run that share a target are the same.
-/

namespace CrudBackend

open FileTree Ownership

structure IsSegment (s : String) : Prop where
  not_empty : s ≠ ""
  not_here : s ≠ "."
  not_up : s ≠ ".."
  no_separator : '/' ∉ s.toList

def Spec.Plain (s : Spec) : Prop :=
  ∀ e ∈ s.entities, IsPlain e.className ∧ IsPlain e.moduleName

instance (s : Spec) : Decidable s.Plain :=
  inferInstanceAs (Decidable (∀ e ∈ s.entities, IsPlain e.className ∧ IsPlain e.moduleName))

/-- The places of the paths are different, and neither lies in the other one. -/
def FileTree.Apart (t : FileTree) (p q : Path) : Prop :=
  ¬ t.place p <+: t.place q ∧ ¬ t.place q <+: t.place p

instance (t : FileTree) (p q : Path) : Decidable (t.Apart p q) :=
  inferInstanceAs (Decidable (¬ t.place p <+: t.place q ∧ ¬ t.place q <+: t.place p))

instance (t : FileTree) : Std.Symm t.Apart := ⟨fun _ _ h => h.symm⟩

/-- None of the five directories is or lies in another one. -/
def Layout.Apart (t : FileTree) (l : Layout) : Prop := l.packageDirs.Pairwise t.Apart

instance (t : FileTree) (l : Layout) : Decidable (l.Apart t) :=
  inferInstanceAs (Decidable (l.packageDirs.Pairwise t.Apart))

variable {t : FileTree} {p dir dir' : Path} {s : String} {way way' w w' : List String} {l : Layout}

/-! ### Segments -/

theorem IsPlain.isSegment (h : IsPlain s) : IsSegment s := by
  refine ⟨h.not_empty, ?_, ?_, h.no_separator⟩
  · rintro rfl
    exact h.no_dot (by decide)
  · rintro rfl
    exact h.no_dot (by decide)

theorem isSegment_append {ending : String} (hs : '/' ∉ s.toList) (hsep : '/' ∉ ending.toList)
    (hlong : 2 < ending.length) : IsSegment (s ++ ending) := by
  have hne : ∀ u : String, u.length ≤ 2 → s ++ ending ≠ u := by
    rintro u hu rfl
    rw [String.length_append] at hu
    omega
  refine ⟨hne _ (by decide), hne _ (by decide), hne _ (by decide), ?_⟩
  rw [String.toList_append, List.mem_append, not_or]
  exact ⟨hs, hsep⟩

namespace FileTree

theorem isAbsolute_of_isSegment (hs : IsSegment s) : (Path.mk s).isAbsolute = false := by
  rw [Path.isAbsolute, beq_eq_false_iff_ne]
  intro hhead
  exact hs.no_separator (List.mem_of_head? hhead)

theorem steps_join_segment (hs : IsSegment s) : steps (p.join s) = steps p ++ [s] := by
  have hne : s.toList ≠ [] := fun h => hs.not_empty (String.toList_eq_nil_iff.mp h)
  rw [steps_join (isAbsolute_of_isSegment hs)]
  simp [steps, Path.pieces, List.splitOn_eq_singleton hs.no_separator, hne]

theorem straight_join_segment (hs : IsSegment s) : (p.join s).Straight ↔ p.Straight := by
  simp [Path.Straight, steps_join_segment hs, hs.not_up.symm]

theorem place_join_segment (hs : IsSegment s) : t.place (p.join s) = t.place p ++ [s] := by
  rw [place, place, start, isAbsolute_join (isAbsolute_of_isSegment hs), steps_join_segment hs,
    names_append, names_cons hs.not_here, names_nil, List.append_assoc]
  rfl

/-- The components of a path without a step up are its names, behind a component for its lead. -/
theorem filterMap_component? {ps : List (List Char)}
    (h : ".." ∉ (ps.filter fun piece => !piece.isEmpty).map String.ofList) :
    ps.filterMap Path.component? =
      (names ((ps.filter fun piece => !piece.isEmpty).map String.ofList)).map .name := by
  induction ps with
  | nil => rfl
  | cons piece rest ih =>
    by_cases hnil : piece = []
    · subst hnil
      exact ih h
    · have hkeep : (piece :: rest).filter (fun piece => !piece.isEmpty) =
          piece :: rest.filter fun piece => !piece.isEmpty := by
        simp [hnil]
      rw [hkeep, List.map_cons, List.mem_cons, not_or] at h
      rw [hkeep, List.map_cons, List.filterMap_cons]
      by_cases hdot : piece = ['.']
      · subst hdot
        exact ih h.2
      · have hup : piece ≠ ['.', '.'] := by
          rintro rfl
          exact h.1 rfl
        have hhere : String.ofList piece ≠ "." := by
          intro heq
          exact hdot (by simpa using congrArg String.toList heq)
        rw [Path.component?, if_neg (by simp [hnil, hdot]), if_neg hup, names_cons hhere, ih h.2]
        rfl

def nameOf? : Path.Component → Option String
  | .name s => some s
  | _ => none

theorem isAbsolute_iff_components (hp : p.Straight) :
    p.isAbsolute = true ↔ .root ∈ p.components := by
  have hbody : Path.Component.root ∉ p.pieces.filterMap Path.component? := by
    rw [filterMap_component? hp, List.mem_map]
    rintro ⟨n, -, hn⟩
    cases hn
  rw [Path.components, List.mem_append, or_iff_left hbody]
  cases p.isAbsolute with
  | true => simp
  | false => simp

theorem names_eq_components (hp : p.Straight) :
    names (steps p) = p.components.filterMap nameOf? := by
  have hlead : ∀ lead : List Path.Component, lead = [.root] ∨ lead = [.here] ∨ lead = [] →
      lead.filterMap nameOf? = [] := by
    rintro lead (rfl | rfl | rfl) <;> rfl
  have hnames : ∀ ns : List String, (ns.map Path.Component.name).filterMap nameOf? = ns := by
    intro ns
    rw [List.filterMap_map]
    exact List.filterMap_some
  rw [Path.components, List.filterMap_append, filterMap_component? hp, hnames, hlead]
  · rfl
  · split_ifs <;> simp

/-- Paths that count as the same have the same place. -/
theorem place_eq_of_components {q : Path} (hp : p.Straight) (hq : q.Straight)
    (h : p.components = q.components) : t.place p = t.place q := by
  have habs : p.isAbsolute = q.isAbsolute := by
    rw [Bool.eq_iff_iff, isAbsolute_iff_components hp, isAbsolute_iff_components hq, h]
  rw [place, place, start, start, habs, names_eq_components hp, names_eq_components hq, h]

end FileTree

theorem Cleaning.place_down_segments (hway : ∀ n ∈ way, IsSegment n) :
    t.place (down dir way) = t.place dir ++ way := by
  induction way using List.reverseRecOn with
  | nil => simp [down]
  | append_singleton way n ih =>
    rw [down_concat, place_join_segment (hway n (by simp)),
      ih fun m hm => hway m (List.mem_append_left _ hm), List.append_assoc]

theorem Cleaning.straight_down_segments (hdir : dir.Straight) (hway : ∀ n ∈ way, IsSegment n) :
    (down dir way).Straight := by
  induction way using List.reverseRecOn with
  | nil => exact hdir
  | append_singleton way n ih =>
    rw [down_concat, straight_join_segment (hway n (by simp))]
    exact ih fun m hm => hway m (List.mem_append_left _ hm)

/-! ### Directories that are apart -/

theorem Layout.Apart.eq_of_isPrefix (ha : l.Apart t) (hd : dir ∈ l.packageDirs)
    (hd' : dir' ∈ l.packageDirs) (h : t.place dir <+: t.place dir') : dir = dir' := by
  by_contra hne
  exact (List.Pairwise.forall ha hd hd' hne).1 h

/-- What lies below one of the directories lies below that one only. -/
theorem Layout.Apart.eq_of_prefix_append (ha : l.Apart t) (hd : dir ∈ l.packageDirs)
    (hd' : dir' ∈ l.packageDirs) (h : t.place dir ++ w <+: t.place dir' ++ w') : dir = dir' := by
  have hin : t.place dir <+: t.place dir' ++ w' := (List.prefix_append _ _).trans h
  rcases List.prefix_or_prefix_of_prefix hin (List.prefix_append _ w') with hpre | hpre
  · exact ha.eq_of_isPrefix hd hd' hpre
  · exact (ha.eq_of_isPrefix hd' hd hpre).symm

theorem Layout.Apart.congr {t' : FileTree} (ha : l.Apart t) (h : t'.home = t.home) :
    l.Apart t' := by
  unfold Layout.Apart FileTree.Apart
  simp only [place_congr h]
  exact ha

theorem Layout.Apart.nodup (ha : l.Apart t) : l.packageDirs.Nodup := by
  refine List.Pairwise.imp ?_ ha
  rintro p q h rfl
  exact h.1 (List.prefix_refl _)

namespace Generation

variable {s s' : Spec} {c c' : Config} {i i' : Imports} {spec spec' : RawPath}
  {piece other : Piece} {e : Entity}

/-! ### The way down to a target -/

/-- The way down to a target: only its last name has a dot in it. -/
inductive Shape : List String → Prop where
  | direct {n : String} (hn : '.' ∈ n.toList) : Shape [n]
  | inModule {m n : String} (hm : '.' ∉ m.toList) (hn : '.' ∈ n.toList) : Shape [m, n]

theorem Shape.eq_of_isPrefix (h : Shape way) (h' : Shape way') (hp : way <+: way') : way = way' := by
  cases h with
  | direct hn =>
    cases h' with
    | direct hn' => exact hp.eq_of_length rfl
    | inModule hm' hn' =>
      rw [List.cons_prefix_cons] at hp
      exact absurd (hp.1 ▸ hn) hm'
  | inModule hm hn =>
    cases h' with
    | direct hn' => simpa using hp.length_le
    | inModule hm' hn' => exact hp.eq_of_length rfl

theorem Shape.eq_of_prefix_cons {n : String} {w : List String} (h : Shape way) (hne : w ≠ [])
    (hp : n :: w <+: way) : n :: w = way := by
  obtain ⟨m, w, rfl⟩ := List.exists_cons_of_ne_nil hne
  have hlen := hp.length_le
  cases h with
  | direct hn => simp at hlen
  | inModule hm hn => exact hp.eq_of_length_le (by simp)

/-- What lies on the way to a target is a module. -/
theorem Shape.eq_of_prefix_ne {w : List String} (h : Shape way) (hne : w ≠ []) (hw : w ≠ way)
    (hp : w <+: way) : ∃ m n, w = [m] ∧ way = [m, n] := by
  obtain ⟨m, w, rfl⟩ := List.exists_cons_of_ne_nil hne
  by_cases hnil : w = []
  · cases h with
    | direct hn =>
      rw [hnil] at hp hw
      exact absurd (hp.eq_of_length rfl) hw
    | @inModule m' n hm hn =>
      rw [List.cons_prefix_cons] at hp
      exact ⟨m, n, by rw [hnil], by rw [hp.1]⟩
  · exact absurd (h.eq_of_prefix_cons hnil hp) hw

theorem Goes.mem_packageDirs (h : Goes s c l i spec dir way piece) : dir ∈ l.packageDirs := by
  have hroot : ∀ root ∈ l.moduleRoots, root ∈ l.packageDirs := fun root hr =>
    List.mem_cons_of_mem _ hr
  cases h with
  | package hd => exact hd
  | modulePackage hr he => exact hroot _ hr
  | mark hr he => exact hroot _ hr
  | draft he hx => exact hroot _ (by simp [Layout.moduleRoots])
  | shared hs =>
    simp only [sharedTexts, List.mem_cons, Prod.mk.injEq, List.not_mem_nil, or_false] at hs
    rcases hs with ⟨rfl, -⟩ | ⟨rfl, -⟩ | ⟨rfl, -⟩ | ⟨rfl, -⟩ | ⟨rfl, -⟩ | ⟨rfl, -⟩ <;>
      simp [Layout.packageDirs]
  | file he hf =>
    refine hroot _ ?_
    simp only [entityTexts, List.mem_cons, Prod.mk.injEq, List.not_mem_nil, or_false] at hf
    rcases hf with ⟨rfl, -⟩ | ⟨rfl, -⟩ | ⟨rfl, -⟩ | ⟨rfl, -⟩ <;> simp [Layout.moduleRoots]

theorem ending_of_mem_entityTexts {root : Path} {ending text : String}
    (h : (root, ending, text) ∈ entityTexts c l i e) : ending = ".py" ∨ ending = "_service.py" := by
  simp only [entityTexts, List.mem_cons, Prod.mk.injEq, List.not_mem_nil, or_false] at h
  rcases h with ⟨-, rfl, -⟩ | ⟨-, rfl, -⟩ | ⟨-, rfl, -⟩ | ⟨-, rfl, -⟩ <;> simp

theorem shape_of_ending {ending : String} (hm : IsPlain e.moduleName) (hdot : '.' ∈ ending.toList) :
    Shape [e.moduleName, e.fileStem ++ ending] := by
  refine .inModule hm.no_dot ?_
  rw [String.toList_append]
  exact List.mem_append_right _ hdot

theorem Goes.shape (hs : s.Plain) (h : Goes s c l i spec dir way piece) : Shape way := by
  cases h with
  | package hd => exact .direct (by decide)
  | modulePackage hr he => exact .inModule (hs _ he).2.no_dot (by decide)
  | mark hr he => exact .inModule (hs _ he).2.no_dot (by decide)
  | draft he hx => exact shape_of_ending (hs _ he).2 (by decide)
  | shared hs =>
    refine .direct ?_
    simp only [sharedTexts, List.mem_cons, Prod.mk.injEq, List.not_mem_nil, or_false] at hs
    rcases hs with ⟨-, rfl, -⟩ | ⟨-, rfl, -⟩ | ⟨-, rfl, -⟩ | ⟨-, rfl, -⟩ | ⟨-, rfl, -⟩ | ⟨-, rfl, -⟩ <;>
      decide
  | file he hf =>
    refine shape_of_ending (hs _ he).2 ?_
    rcases ending_of_mem_entityTexts hf with rfl | rfl <;> decide

theorem Goes.isSegment (hs : s.Plain) (h : Goes s c l i spec dir way piece) :
    ∀ n ∈ way, IsSegment n := by
  have hmodule : ∀ e ∈ s.entities, IsSegment e.moduleName := fun e he => (hs e he).2.isSegment
  have hstem : ∀ e ∈ s.entities, ∀ ending : String, '/' ∉ ending.toList → 2 < ending.length →
      IsSegment (e.fileStem ++ ending) := fun e he ending hsep hlong =>
    isSegment_append (Entity.separator_not_mem_fileStem (hs e he).1.no_separator) hsep hlong
  have hname : ∀ n : String, n ≠ "" ∧ n ≠ "." ∧ n ≠ ".." ∧ '/' ∉ n.toList → IsSegment n :=
    fun n h => ⟨h.1, h.2.1, h.2.2.1, h.2.2.2⟩
  cases h with
  | package hd => simpa using hname "__init__.py" (by decide)
  | modulePackage hr he => simpa using ⟨hmodule _ he, hname "__init__.py" (by decide)⟩
  | mark hr he => simpa using ⟨hmodule _ he, hname stampName (by decide)⟩
  | draft he hx => simpa using ⟨hmodule _ he, hstem _ he draftEnding (by decide) (by decide)⟩
  | shared hs =>
    simp only [sharedTexts, List.mem_cons, Prod.mk.injEq, List.not_mem_nil, or_false] at hs
    simp only [List.mem_singleton, forall_eq]
    refine hname _ ?_
    rcases hs with ⟨-, rfl, -⟩ | ⟨-, rfl, -⟩ | ⟨-, rfl, -⟩ | ⟨-, rfl, -⟩ | ⟨-, rfl, -⟩ | ⟨-, rfl, -⟩ <;>
      decide
  | file he hf =>
    rcases ending_of_mem_entityTexts hf with rfl | rfl
    · simpa using ⟨hmodule _ he, hstem _ he ".py" (by decide) (by decide)⟩
    · simpa using ⟨hmodule _ he, hstem _ he "_service.py" (by decide) (by decide)⟩

theorem Goes.place_eq (hs : s.Plain) (h : Goes s c l i spec dir way piece) :
    t.place piece.target = t.place dir ++ way := by
  rw [h.target_eq, Cleaning.place_down_segments (h.isSegment hs)]

theorem Goes.straight (hs : s.Plain) (hl : l.Straight) (h : Goes s c l i spec dir way piece) :
    piece.target.Straight := by
  rw [h.target_eq]
  exact Cleaning.straight_down_segments (hl dir h.mem_packageDirs) (h.isSegment hs)

/-- The draft of an entity has its place in the directory of its module, registered or not. -/
theorem place_serviceImpl (hs : s.Plain) (he : e ∈ s.entities) :
    t.place (l.entityFiles e).serviceImpl =
      t.place l.servicesDir ++ [e.moduleName, e.fileStem ++ draftEnding] := by
  obtain ⟨hclass, hmodule⟩ := hs e he
  have hsegments : ∀ n ∈ [e.moduleName, e.fileStem ++ draftEnding], IsSegment n := by
    have hfile : IsSegment (e.fileStem ++ draftEnding) := isSegment_append
      (Entity.separator_not_mem_fileStem hclass.no_separator) (by decide) (by decide)
    simpa using ⟨hmodule.isSegment, hfile⟩
  have hdown : (l.entityFiles e).serviceImpl =
      Cleaning.down l.servicesDir [e.moduleName, e.fileStem ++ draftEnding] := rfl
  rw [hdown, Cleaning.place_down_segments hsegments]

/-- Below directories that are apart, no way of this shape leads above another one. -/
theorem eq_of_shape (ha : l.Apart t) (hd : dir ∈ l.packageDirs) (hd' : dir' ∈ l.packageDirs)
    (h : Shape way) (h' : Shape way') (hp : t.place dir ++ way <+: t.place dir' ++ way') :
    dir = dir' ∧ way = way' := by
  obtain rfl := ha.eq_of_prefix_append hd hd' hp
  exact ⟨rfl, h.eq_of_isPrefix h' ((List.prefix_append_right_inj _).mp hp)⟩

theorem Goes.eq_of_isPrefix (hs : s.Plain) (hs' : s'.Plain) (ha : l.Apart t)
    (h : Goes s c l i spec dir way piece) (h' : Goes s' c' l i' spec' dir' way' other)
    (hp : t.place piece.target <+: t.place other.target) : dir = dir' ∧ way = way' := by
  rw [h.place_eq hs, h'.place_eq hs'] at hp
  exact eq_of_shape ha h.mem_packageDirs h'.mem_packageDirs (h.shape hs) (h'.shape hs') hp

/-- A run brings out all its pieces, each directory being marked once. -/
theorem Goes.mem_pieces (hs : s.Plain) (hl : l.Straight) (ha : l.Apart t)
    (h : Goes s c l i spec dir way piece) : piece ∈ pieces s c l i spec := by
  by_cases hmark : ∀ d, piece ≠ .mark d spec
  · exact mem_pieces_of_goes h hmark
  · cases h with
    | @mark _ e hr he =>
      obtain ⟨root', hr', e', he', hmem, hkey⟩ :=
        exists_mark_mem_pieces c i spec hr he
      have hstraight : ∀ root ∈ l.moduleRoots, ∀ e ∈ s.entities,
          (root.join e.moduleName).Straight := fun root hr e he =>
        (straight_join_segment (hs e he).2.isSegment).mpr (hl.root hr)
      have hplace := place_eq_of_components (t := t) (hstraight _ hr' _ he') (hstraight _ hr _ he) hkey
      have hg : Goes s c l i spec dir [e.moduleName, stampName]
          (.mark (dir.join e.moduleName) spec) := .mark hr he
      have hg' : Goes s c l i spec root' [e'.moduleName, stampName]
          (.mark (root'.join e'.moduleName) spec) := .mark hr' he'
      have hstamp : t.place (Piece.mark (root'.join e'.moduleName) spec).target =
          t.place (Piece.mark (dir.join e.moduleName) spec).target := by
        rw [Piece.target, Piece.target, Output.place_stampFile, Output.place_stampFile, hplace]
      obtain ⟨rfl, hway⟩ := hg'.eq_of_isPrefix hs hs ha hg
        ⟨[], (List.append_nil _).trans hstamp⟩
      rwa [(List.cons.inj hway).1] at hmem
    | _ => exact absurd (fun d => by simp) hmark

/-! ### Pieces that share a target -/

theorem text_eq_of_mem_sharedTexts {n text text' : String}
    (h : (dir, n, text) ∈ sharedTexts s l) (h' : (dir', n, text') ∈ sharedTexts s l) :
    text = text' := by
  have hnodup : ((sharedTexts s l).map fun x => x.2.1).Nodup := by
    change ["enums.py", "_gen_mixins.py", "_gen_common.py", "_gen_base.py", "_gen_perm.py",
      "router.py"].Nodup
    decide
  exact congrArg (fun x => x.2.2) (List.inj_on_of_nodup_map hnodup h h' rfl)

theorem name_ne_initFile_of_mem_sharedTexts {n text : String}
    (h : (dir, n, text) ∈ sharedTexts s l) : n ≠ "__init__.py" := by
  simp only [sharedTexts, List.mem_cons, Prod.mk.injEq, List.not_mem_nil, or_false] at h
  rcases h with ⟨-, rfl, -⟩ | ⟨-, rfl, -⟩ | ⟨-, rfl, -⟩ | ⟨-, rfl, -⟩ | ⟨-, rfl, -⟩ | ⟨-, rfl, -⟩ <;>
    decide

theorem entityTexts_eq {root : Path} {ending ending' text text' : String}
    (hnodup : l.packageDirs.Nodup) (h : (root, ending, text) ∈ entityTexts c l i e)
    (h' : (root, ending', text') ∈ entityTexts c l i e) : ending = ending' ∧ text = text' := by
  have hroots : ((entityTexts c l i e).map Prod.fst).Nodup := (List.nodup_cons.mp hnodup).2
  have heq := List.inj_on_of_nodup_map hroots h h' rfl
  simpa using heq

theorem ending_of_root {root : Path} {ending text : String} (hnodup : l.packageDirs.Nodup)
    (h : (root, ending, text) ∈ entityTexts c l i e) :
    ending = if root = l.servicesDir then "_service.py" else ".py" := by
  by_cases hroot : root = l.servicesDir
  · subst hroot
    have hservice : (l.servicesDir, "_service.py", Artifact.service e l (c.hasExtension e)) ∈
        entityTexts c l i e := by simp [entityTexts]
    rw [if_pos rfl]
    exact (entityTexts_eq hnodup h hservice).1
  · rw [if_neg hroot]
    simp only [entityTexts, List.mem_cons, Prod.mk.injEq, List.not_mem_nil, or_false] at h
    rcases h with ⟨-, rfl, -⟩ | ⟨-, rfl, -⟩ | ⟨rfl, -⟩ | ⟨-, rfl, -⟩
    · rfl
    · rfl
    · exact absurd rfl hroot
    · rfl

/-- Endings of which none ends like the other one keep texts apart. -/
theorem append_ne_append {u v ending ending' : String} (h : ¬ ending.toList <:+ ending'.toList)
    (h' : ¬ ending'.toList <:+ ending.toList) : u ++ ending ≠ v ++ ending' := by
  intro heq
  have hu : ending.toList <:+ (u ++ ending).toList := ⟨u.toList, String.toList_append.symm⟩
  have hv : ending'.toList <:+ (u ++ ending).toList := heq ▸ ⟨v.toList, String.toList_append.symm⟩
  exact (List.suffix_or_suffix_of_suffix hu hv).elim h h'

theorem append_right_cancel {u v ending : String} (h : u ++ ending = v ++ ending) : u = v := by
  rw [← String.toList_inj, String.toList_append, String.toList_append] at h
  exact String.toList_inj.mp (List.append_cancel_right h)

theorem append_ne_of_not_suffix {u n ending : String} (h : ¬ ending.toList <:+ n.toList) :
    u ++ ending ≠ n := by
  rintro rfl
  exact h ⟨u.toList, String.toList_append.symm⟩

/-- A file of an entity is the one of a package only if the entity is called like it. -/
theorem fileStem_of_append_eq {ending : String}
    (hend : ending = ".py" ∨ ending = "_service.py" ∨ ending = draftEnding)
    (h : e.fileStem ++ ending = "__init__.py") : e.fileStem = "__init__" := by
  rcases hend with rfl | rfl | rfl
  · have heq : e.fileStem ++ ".py" = "__init__" ++ ".py" := h
    exact append_right_cancel heq
  · exact absurd h (append_ne_of_not_suffix (by decide))
  · exact absurd h (append_ne_of_not_suffix (by decide))

theorem fileStem_append_ne_stampName {ending : String}
    (hend : ending = ".py" ∨ ending = "_service.py" ∨ ending = draftEnding) :
    e.fileStem ++ ending ≠ stampName := by
  rcases hend with rfl | rfl | rfl <;> exact append_ne_of_not_suffix (by decide)

/-- The drafts of entities are named like no other files of their modules. -/
theorem fileStem_append_draftEnding_ne (e : Entity) :
    e.fileStem ++ draftEnding ≠ "__init__.py" ∧ e.fileStem ++ draftEnding ≠ stampName :=
  ⟨append_ne_of_not_suffix (by decide), append_ne_of_not_suffix (by decide)⟩

/-- Entities that share a file are the same. -/
theorem entity_eq_of_file {e' : Entity} {ending : String}
    (hnodup : (s.entities.map Entity.fileKey).Nodup) (he : e ∈ s.entities) (he' : e' ∈ s.entities)
    (hmodule : e.moduleName = e'.moduleName)
    (hfile : e.fileStem ++ ending = e'.fileStem ++ ending) : e = e' := by
  refine List.inj_on_of_nodup_map hnodup he he' ?_
  rw [Entity.fileKey, Entity.fileKey, hmodule, append_right_cancel hfile]

/-- Two pieces of a run that share a target are the same, unless an entity is called like the file of
a package. Then one of them makes the package, and the other one generates the file. -/
theorem Goes.piece_eq_or (hnodup : (s.entities.map Entity.fileKey).Nodup)
    (hdirs : l.packageDirs.Nodup) (h : Goes s c l i spec dir way piece)
    (h' : Goes s c l i spec dir' way' other) (hdir : dir = dir') (hway : way = way') :
    piece = other ∨ (∃ e ∈ s.entities, e.fileStem = "__init__") ∧
      ∃ d p text, piece = .package d ∧ other = .generated p text ∨
        piece = .generated p text ∧ other = .package d := by
  have hstem : ∀ {e root ending text}, (root, ending, text) ∈ entityTexts c l i e →
      e.fileStem ++ ending = "__init__.py" → e.fileStem = "__init__" :=
    fun hf => fileStem_of_append_eq ((ending_of_mem_entityTexts hf).imp_right fun h => Or.inl h)
  have hfile : ∀ {e root ending text}, (root, ending, text) ∈ entityTexts c l i e →
      e.fileStem ++ ending ≠ stampName := fun hf =>
    fileStem_append_ne_stampName ((ending_of_mem_entityTexts hf).imp_right fun h => Or.inl h)
  have hinit : "__init__.py" ≠ stampName := by decide
  have hkinds : ∀ {e e' : Entity} {root ending text}, (root, ending, text) ∈ entityTexts c l i e →
      root = l.servicesDir → e'.fileStem ++ draftEnding ≠ e.fileStem ++ ending := by
    intro e e' root ending text hf hroot
    rw [ending_of_root hdirs hf, if_pos hroot]
    exact append_ne_append (by decide) (by decide)
  -- The way tells direct targets from those in a module, and the last name tells the kinds apart.
  cases h with
  | package hd =>
    cases h' with
    | package hd' => exact Or.inl (by rw [hdir])
    | shared hs' => simp [(name_ne_initFile_of_mem_sharedTexts hs').symm] at hway
    | _ => simp at hway
  | shared hs =>
    cases h' with
    | package hd' => simp [name_ne_initFile_of_mem_sharedTexts hs] at hway
    | shared hs' =>
      obtain rfl : _ = _ := List.singleton_inj.mp hway
      exact Or.inl (by rw [hdir, text_eq_of_mem_sharedTexts hs hs'])
    | _ => simp at hway
  | modulePackage hr he =>
    cases h' with
    | modulePackage hr' he' =>
      have hmodule := (List.cons.inj hway).1
      exact Or.inl (by rw [hdir, hmodule])
    | mark hr' he' => simp [hinit] at hway
    | file he' hf' =>
      have hname := List.singleton_inj.mp (List.cons.inj hway).2
      exact Or.inr ⟨⟨_, he', hstem hf' hname.symm⟩, _, _, _, Or.inl ⟨rfl, rfl⟩⟩
    | draft he' hx' => simp [(fileStem_append_draftEnding_ne _).1.symm] at hway
    | _ => simp at hway
  | mark hr he =>
    cases h' with
    | modulePackage hr' he' => simp [hinit.symm] at hway
    | mark hr' he' =>
      have hmodule := (List.cons.inj hway).1
      exact Or.inl (by rw [hdir, hmodule])
    | file he' hf' => simp [(hfile hf').symm] at hway
    | draft he' hx' => simp [(fileStem_append_draftEnding_ne _).2.symm] at hway
    | _ => simp at hway
  | file he hf =>
    cases h' with
    | modulePackage hr' he' =>
      have hname := List.singleton_inj.mp (List.cons.inj hway).2
      exact Or.inr ⟨⟨_, he, hstem hf hname⟩, _, _, _, Or.inr ⟨rfl, rfl⟩⟩
    | mark hr' he' => simp [hfile hf] at hway
    | file he' hf' =>
      subst hdir
      obtain ⟨hmodule, hname⟩ := List.cons.inj hway
      have hending := (ending_of_root hdirs hf).trans (ending_of_root hdirs hf').symm
      subst hending
      obtain rfl := entity_eq_of_file hnodup he he' hmodule (List.singleton_inj.mp hname)
      exact Or.inl (by rw [(entityTexts_eq hdirs hf hf').2])
    | draft he' hx' => simp [(hkinds hf hdir).symm] at hway
    | _ => simp at hway
  | draft he hx =>
    cases h' with
    | modulePackage hr' he' => simp [(fileStem_append_draftEnding_ne _).1] at hway
    | mark hr' he' => simp [(fileStem_append_draftEnding_ne _).2] at hway
    | file he' hf' => simp [hkinds hf' hdir.symm] at hway
    | draft he' hx' =>
      obtain ⟨hmodule, hname⟩ := List.cons.inj hway
      obtain rfl := entity_eq_of_file hnodup he he' hmodule (List.singleton_inj.mp hname)
      exact Or.inl rfl
    | _ => simp at hway

theorem Goes.piece_eq (hnodup : (s.entities.map Entity.fileKey).Nodup)
    (hstems : ∀ e ∈ s.entities, e.fileStem ≠ "__init__") (hdirs : l.packageDirs.Nodup)
    (h : Goes s c l i spec dir way piece) (h' : Goes s c l i spec dir' way' other)
    (hdir : dir = dir') (hway : way = way') : piece = other := by
  refine (h.piece_eq_or hnodup hdirs h' hdir hway).resolve_right ?_
  rintro ⟨⟨e, he, hstem⟩, -⟩
  exact hstems e he hstem

/-- Only the draft of an extension goes where drafts go. -/
theorem Goes.hasExtension (hnodup : (s.entities.map Entity.fileKey).Nodup)
    (hdirs : l.packageDirs.Nodup) (he : e ∈ s.entities) (h : Goes s c l i spec dir way piece)
    (hdir : dir = l.servicesDir)
    (hway : way = [e.moduleName, e.fileStem ++ draftEnding]) : c.hasExtension e = true := by
  have hdraft := fileStem_append_draftEnding_ne e
  cases h with
  | modulePackage hr he' => simp [hdraft.1.symm] at hway
  | mark hr he' => simp [hdraft.2.symm] at hway
  | file he' hf =>
    obtain ⟨-, hname⟩ := List.cons.inj hway
    rw [ending_of_root hdirs hf, if_pos hdir, List.singleton_inj] at hname
    exact absurd hname (append_ne_append (by decide) (by decide))
  | draft he' hx =>
    obtain ⟨hmodule, hname⟩ := List.cons.inj hway
    rw [← entity_eq_of_file hnodup he' he hmodule (List.singleton_inj.mp hname)]
    exact hx
  | _ => simp at hway

end Generation

end CrudBackend
