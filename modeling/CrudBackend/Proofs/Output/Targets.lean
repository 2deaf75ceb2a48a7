import CrudBackend.Proofs.History
import CrudBackend.Proofs.Output.Pieces

/-!
Where the output of a run goes. Each piece belongs to one of the five directories and lies one or
two names below it; files end like Python modules, and marks have a name of their own. Whatever is
generated begins with the marker.
-/

namespace CrudBackend

open FileTree Ownership

def Piece.ending : Piece → String
  | mark _ _ => stampName
  | _ => ".py"

namespace Generation

/-! ### The pieces of a run -/

def sharedTexts (s : Spec) (l : Layout) : List (Path × String × String) :=
  [(l.enumsDir, "enums.py", Artifact.enums s),
   (l.modelsDir, "_gen_mixins.py", Artifact.mixins),
   (l.schemasDir, "_gen_common.py", Artifact.common),
   (l.servicesDir, "_gen_base.py", Artifact.serviceBase),
   (l.apiDir, "_gen_perm.py", Artifact.perm),
   (l.apiDir, "router.py", Artifact.router (mounts s l))]

theorem paths_sharedTexts (s : Spec) (l : Layout) :
    (sharedTexts s l).map (fun x => x.1.join x.2.1) = l.sharedFiles := rfl

def entityTexts (c : Config) (l : Layout) (i : Imports) (e : Entity) :
    List (Path × String × String) :=
  [(l.modelsDir, ".py", Artifact.model e l i),
   (l.schemasDir, ".py", Artifact.schema e l),
   (l.servicesDir, "_service.py", Artifact.service e l (c.hasExtension e)),
   (l.apiDir, ".py", Artifact.api e l i c.routes)]

theorem paths_entityTexts (c : Config) (l : Layout) (i : Imports) (e : Entity) :
    (entityTexts c l i e).map (fun x => Layout.fileIn x.1 e x.2.1) =
      [(l.entityFiles e).model, (l.entityFiles e).schema, (l.entityFiles e).service,
        (l.entityFiles e).api] := rfl

def draftEnding : String := "_service_impl.py"

/-- A piece of a run goes some way down a directory. -/
inductive Goes (s : Spec) (c : Config) (l : Layout) (i : Imports) (spec : RawPath) :
    Path → List String → Piece → Prop where
  | package {dir : Path} (hd : dir ∈ l.packageDirs) :
    Goes s c l i spec dir ["__init__.py"] (.package dir)
  | shared {dir : Path} {name text : String} (hs : (dir, name, text) ∈ sharedTexts s l) :
    Goes s c l i spec dir [name] (.generated (dir.join name) text)
  | modulePackage {root : Path} {e : Entity} (hr : root ∈ l.moduleRoots) (he : e ∈ s.entities) :
    Goes s c l i spec root [e.moduleName, "__init__.py"] (.package (root.join e.moduleName))
  | mark {root : Path} {e : Entity} (hr : root ∈ l.moduleRoots) (he : e ∈ s.entities) :
    Goes s c l i spec root [e.moduleName, stampName] (.mark (root.join e.moduleName) spec)
  | file {root : Path} {ending text : String} {e : Entity} (he : e ∈ s.entities)
      (hf : (root, ending, text) ∈ entityTexts c l i e) :
    Goes s c l i spec root [e.moduleName, e.fileStem ++ ending]
      (.generated (Layout.fileIn root e ending) text)
  | draft {e : Entity} (he : e ∈ s.entities) (hx : c.hasExtension e = true) :
    Goes s c l i spec l.servicesDir [e.moduleName, e.fileStem ++ draftEnding]
      (.draft (l.entityFiles e).serviceImpl (Artifact.serviceImpl e l))

variable {s : Spec} {c : Config} {l : Layout} {i : Imports} {dir p : Path} {spec : RawPath}
  {way : List String} {piece : Piece} {text : String} {t : FileTree}

theorem Goes.target_eq (h : Goes s c l i spec dir way piece) :
    piece.target = Cleaning.down dir way := by
  cases h <;> rfl

theorem goes_of_mem_filePieces {e : Entity} (he : e ∈ s.entities)
    (h : piece ∈ filePieces c l i e) : ∃ dir way, Goes s c l i spec dir way piece := by
  have hfile : ∀ root ending text, (root, ending, text) ∈ entityTexts c l i e →
      ∃ dir way, Goes s c l i spec dir way (.generated (Layout.fileIn root e ending) text) :=
    fun root ending text hf => ⟨root, _, .file he hf⟩
  simp only [filePieces, List.mem_append, List.mem_cons, List.not_mem_nil, or_false] at h
  rcases h with ((rfl | rfl | rfl) | h) | rfl
  · exact hfile l.modelsDir ".py" _ (by simp [entityTexts])
  · exact hfile l.schemasDir ".py" _ (by simp [entityTexts])
  · exact hfile l.servicesDir "_service.py" _ (by simp [entityTexts])
  · split_ifs at h with hx
    · cases List.mem_singleton.mp h
      exact ⟨_, _, .draft he hx⟩
    · cases h
  · exact hfile l.apiDir ".py" _ (by simp [entityTexts])

theorem goes_of_mem_pieces (h : piece ∈ pieces s c l i spec) :
    ∃ dir way, Goes s c l i spec dir way piece := by
  have hshared : ∀ dir name text, (dir, name, text) ∈ sharedTexts s l →
      ∃ dir' way, Goes s c l i spec dir' way (.generated (dir.join name) text) :=
    fun dir name text hs => ⟨dir, _, .shared hs⟩
  rw [pieces, List.mem_append, List.mem_append, List.mem_append] at h
  rcases h with ((h | h) | h) | h
  · obtain ⟨dir, hd, rfl⟩ := List.mem_map.mp h
    exact ⟨dir, _, .package hd⟩
  · simp only [sharedPieces, List.mem_cons, List.not_mem_nil, or_false] at h
    rcases h with rfl | rfl | rfl | rfl | rfl
    · exact hshared l.enumsDir "enums.py" _ (by simp [sharedTexts])
    · exact hshared l.modelsDir "_gen_mixins.py" _ (by simp [sharedTexts])
    · exact hshared l.schemasDir "_gen_common.py" _ (by simp [sharedTexts])
    · exact hshared l.servicesDir "_gen_base.py" _ (by simp [sharedTexts])
    · exact hshared l.apiDir "_gen_perm.py" _ (by simp [sharedTexts])
  · obtain ⟨e, he, ⟨dir, hd, hpiece⟩ | h⟩ := mem_entityPieces h
    · obtain ⟨root, hr, rfl⟩ := List.mem_map.mp hd
      rcases hpiece with rfl | rfl
      · exact ⟨root, _, .modulePackage hr he⟩
      · exact ⟨root, _, .mark hr he⟩
    · exact goes_of_mem_filePieces he h
  · cases List.mem_singleton.mp h
    exact hshared l.apiDir "router.py" _ (by simp [sharedTexts])

theorem mem_filePieces_of_mem_entityTexts {root : Path} {ending : String} {e : Entity}
    (h : (root, ending, text) ∈ entityTexts c l i e) :
    .generated (Layout.fileIn root e ending) text ∈ filePieces c l i e := by
  simp only [entityTexts, List.mem_cons, Prod.mk.injEq, List.not_mem_nil, or_false] at h
  rcases h with ⟨rfl, rfl, rfl⟩ | ⟨rfl, rfl, rfl⟩ | ⟨rfl, rfl, rfl⟩ | ⟨rfl, rfl, rfl⟩ <;>
    simp [filePieces, Layout.entityFiles]

theorem package_mem_directoryPieces {marked : List (List Path.Component)} {dirs : List Path}
    (h : dir ∈ dirs) : .package dir ∈ (directoryPieces spec marked dirs).1 := by
  induction dirs generalizing marked with
  | nil => cases h
  | cons d rest ih =>
    rw [directoryPieces]
    split_ifs
    · rcases List.mem_cons.mp h with rfl | h
      · exact List.mem_cons_self ..
      · exact List.mem_cons_of_mem _ (ih h)
    · rcases List.mem_cons.mp h with rfl | h
      · exact List.mem_cons_self ..
      · exact List.mem_cons_of_mem _ (List.mem_cons_of_mem _ (ih h))

/-- A directory is marked, under a name of its own or another one, or it has been marked before. -/
theorem mark_mem_directoryPieces {marked : List (List Path.Component)} {dirs : List Path}
    {key : List Path.Component}
    (h : key ∈ (directoryPieces spec marked dirs).2 ∨ ∃ d ∈ dirs, key = d.components) :
    key ∈ marked ∨ ∃ d ∈ dirs, .mark d spec ∈ (directoryPieces spec marked dirs).1 ∧
      d.components = key := by
  induction dirs generalizing marked with
  | nil =>
    rcases h with h | ⟨d, hd, -⟩
    · exact Or.inl h
    · cases hd
  | cons d rest ih =>
    rw [directoryPieces] at h ⊢
    split_ifs at h ⊢ with hmarked
    · have hrest : key ∈ (directoryPieces spec marked rest).2 ∨ (∃ d ∈ rest, key = d.components) ∨
          key ∈ marked := by
        rcases h with h | ⟨d', hd', rfl⟩
        · exact Or.inl h
        · rcases List.mem_cons.mp hd' with rfl | hd'
          · exact Or.inr (Or.inr (List.contains_iff_mem.mp hmarked))
          · exact Or.inr (Or.inl ⟨d', hd', rfl⟩)
      rcases or_assoc.mpr hrest with hrest | hin
      · refine (ih hrest).imp_right ?_
        rintro ⟨d', hd', hmem, hkey⟩
        exact ⟨d', List.mem_cons_of_mem _ hd', List.mem_cons_of_mem _ hmem, hkey⟩
      · exact Or.inl hin
    · have hrest : (key ∈ (directoryPieces spec (d.components :: marked) rest).2 ∨
          ∃ d ∈ rest, key = d.components) ∨ key = d.components := by
        rcases h with h | ⟨d', hd', rfl⟩
        · exact Or.inl (Or.inl h)
        · rcases List.mem_cons.mp hd' with rfl | hd'
          · exact Or.inr rfl
          · exact Or.inl (Or.inr ⟨d', hd', rfl⟩)
      have hhere : key = d.components → ∃ d' ∈ d :: rest, .mark d' spec ∈ Piece.package d ::
          .mark d spec :: (directoryPieces spec (d.components :: marked) rest).1 ∧
          d'.components = key := fun hkey =>
        ⟨d, List.mem_cons_self .., List.mem_cons_of_mem _ (List.mem_cons_self ..), hkey.symm⟩
      rcases hrest with hrest | hkey
      · rcases ih hrest with hin | ⟨d', hd', hmem, hkey⟩
        · exact (List.mem_cons.mp hin).symm.imp_right hhere
        · exact Or.inr ⟨d', List.mem_cons_of_mem _ hd',
            List.mem_cons_of_mem _ (List.mem_cons_of_mem _ hmem), hkey⟩
      · exact Or.inr (hhere hkey)

theorem mem_entityPieces_of_mem {marked : List (List Path.Component)} {entities : List Entity}
    {e : Entity} (he : e ∈ entities)
    (h : (∃ d ∈ l.moduleDirs e, piece = .package d) ∨ piece ∈ filePieces c l i e) :
    piece ∈ entityPieces c l i spec marked entities := by
  induction entities generalizing marked with
  | nil => cases he
  | cons e' rest ih =>
    rw [entityPieces]
    rcases List.mem_cons.mp he with rfl | he
    · refine List.mem_append_left _ (List.mem_append.mpr ?_)
      refine h.imp_left ?_
      rintro ⟨d, hd, rfl⟩
      exact package_mem_directoryPieces hd
    · exact List.mem_append_right _ (ih he)

theorem mark_mem_entityPieces {marked : List (List Path.Component)} {entities : List Entity}
    {e : Entity} {d : Path} (he : e ∈ entities) (hd : d ∈ l.moduleDirs e) :
    d.components ∈ marked ∨ ∃ e' ∈ entities, ∃ d' ∈ l.moduleDirs e',
      .mark d' spec ∈ entityPieces c l i spec marked entities ∧ d'.components = d.components := by
  induction entities generalizing marked with
  | nil => cases he
  | cons e' rest ih =>
    have hhere : ∀ key, (key ∈ (directoryPieces spec marked (l.moduleDirs e')).2 ∨
        ∃ d ∈ l.moduleDirs e', key = d.components) → key ∈ marked ∨ ∃ e'' ∈ e' :: rest,
        ∃ d' ∈ l.moduleDirs e'', .mark d' spec ∈ entityPieces c l i spec marked (e' :: rest) ∧
        d'.components = key := by
      intro key h
      refine (mark_mem_directoryPieces h).imp_right ?_
      rintro ⟨d', hd', hmem, hkey⟩
      refine ⟨e', List.mem_cons_self .., d', hd', ?_, hkey⟩
      rw [entityPieces]
      exact List.mem_append_left _ (List.mem_append_left _ hmem)
    rcases List.mem_cons.mp he with rfl | he
    · exact hhere _ (Or.inr ⟨d, hd, rfl⟩)
    · rcases @ih (directoryPieces spec marked (l.moduleDirs e')).2 he with
        hin | ⟨e'', he'', d', hd', hmem, hkey⟩
      · exact hhere _ (Or.inl hin)
      · refine Or.inr ⟨e'', List.mem_cons_of_mem _ he'', d', hd', ?_, hkey⟩
        rw [entityPieces]
        exact List.mem_append_right _ hmem

theorem mem_pieces_of_goes (h : Goes s c l i spec dir way piece)
    (hmark : ∀ d, piece ≠ .mark d spec) : piece ∈ pieces s c l i spec := by
  have hentity : ∀ e ∈ s.entities,
      (∃ d ∈ l.moduleDirs e, piece = .package d) ∨ piece ∈ filePieces c l i e →
      piece ∈ pieces s c l i spec := by
    intro e he h
    rw [pieces]
    exact List.mem_append_left _ (List.mem_append_right _ (mem_entityPieces_of_mem he h))
  cases h with
  | package hd =>
    rw [pieces, List.append_assoc, List.append_assoc]
    exact List.mem_append_left _ (List.mem_map_of_mem hd)
  | shared hs =>
    simp only [sharedTexts, List.mem_cons, Prod.mk.injEq, List.not_mem_nil, or_false] at hs
    rcases hs with ⟨rfl, rfl, rfl⟩ | ⟨rfl, rfl, rfl⟩ | ⟨rfl, rfl, rfl⟩ | ⟨rfl, rfl, rfl⟩ |
      ⟨rfl, rfl, rfl⟩ | ⟨rfl, rfl, rfl⟩ <;>
      simp [pieces, sharedPieces, Layout.enumsFile, Layout.mixinsFile, Layout.commonFile,
        Layout.serviceBaseFile, Layout.permFile, Layout.routerFile]
  | modulePackage hr he => exact hentity _ he (Or.inl ⟨_, List.mem_map_of_mem hr, rfl⟩)
  | mark hr he => exact absurd rfl (hmark _)
  | file he hf => exact hentity _ he (Or.inr (mem_filePieces_of_mem_entityTexts hf))
  | draft he hx => exact hentity _ he (Or.inr (by simp [filePieces, hx]))

theorem exists_mark_mem_pieces (c : Config) (i : Imports) (spec : RawPath) {root : Path} {e : Entity}
    (hr : root ∈ l.moduleRoots) (he : e ∈ s.entities) : ∃ root' ∈ l.moduleRoots, ∃ e' ∈ s.entities,
      .mark (root'.join e'.moduleName) spec ∈ pieces s c l i spec ∧
      (root'.join e'.moduleName).components = (root.join e.moduleName).components := by
  have hd : root.join e.moduleName ∈ l.moduleDirs e := List.mem_map_of_mem hr
  have hmarked : (root.join e.moduleName).components ∈ [] ∨ ∃ e' ∈ s.entities,
      ∃ d' ∈ l.moduleDirs e', .mark d' spec ∈ entityPieces c l i spec [] s.entities ∧
      d'.components = (root.join e.moduleName).components := mark_mem_entityPieces he hd
  rcases hmarked with hnone | ⟨e', he', d', hd', hmem, hkey⟩
  · cases hnone
  · obtain ⟨root', hr', rfl⟩ := List.mem_map.mp hd'
    refine ⟨root', hr', e', he', ?_, hkey⟩
    rw [pieces]
    exact List.mem_append_left _ (List.mem_append_right _ hmem)

/-- Every generated text begins with the marker. -/
theorem isMarked_of_goes (h : Goes s c l i spec dir way (.generated p text)) :
    isMarked (Text.encode text) = true := by
  cases h with
  | shared hs =>
    simp only [sharedTexts, List.mem_cons, Prod.mk.injEq, List.not_mem_nil, or_false] at hs
    rcases hs with ⟨-, -, rfl⟩ | ⟨-, -, rfl⟩ | ⟨-, -, rfl⟩ | ⟨-, -, rfl⟩ | ⟨-, -, rfl⟩ | ⟨-, -, rfl⟩ <;>
      exact Artifact.isMarked_generated _
  | file he hf =>
    simp only [entityTexts, List.mem_cons, Prod.mk.injEq, List.not_mem_nil, or_false] at hf
    rcases hf with ⟨-, -, rfl⟩ | ⟨-, -, rfl⟩ | ⟨-, -, rfl⟩ | ⟨-, -, rfl⟩ <;>
      exact Artifact.isMarked_generated _

/-! ### How targets end -/

theorem Goes.suffix_target (h : Goes s c l i spec dir way piece) :
    ∃ cs, piece.target.text.toList = cs ++ piece.ending.toList := by
  have hjoin : ∀ (dir : Path) (name ending : String), ending.toList <:+ name.toList →
      ∃ cs, (dir.join name).text.toList = cs ++ ending.toList := by
    rintro dir name ending ⟨front, hfront⟩
    obtain ⟨cs, hcs⟩ := suffix_join dir name
    exact ⟨cs ++ front, by rw [hcs, ← hfront, List.append_assoc]⟩
  have hfile : ∀ (root : Path) (e : Entity) (ending : String), ".py".toList <:+ ending.toList →
      ∃ cs, (Layout.fileIn root e ending).text.toList = cs ++ ".py".toList := by
    intro root e ending hsuffix
    refine hjoin _ _ _ (hsuffix.trans ?_)
    rw [String.toList_append]
    exact List.suffix_append _ _
  cases h with
  | package hd => exact hjoin dir "__init__.py" ".py" (by decide)
  | modulePackage hr he => exact hjoin _ "__init__.py" ".py" (by decide)
  | mark hr he => exact hjoin _ stampName stampName (List.suffix_refl _)
  | shared hs =>
    refine hjoin dir _ ".py" ?_
    simp only [sharedTexts, List.mem_cons, Prod.mk.injEq, List.not_mem_nil, or_false] at hs
    rcases hs with ⟨-, rfl, -⟩ | ⟨-, rfl, -⟩ | ⟨-, rfl, -⟩ | ⟨-, rfl, -⟩ | ⟨-, rfl, -⟩ | ⟨-, rfl, -⟩ <;>
      decide
  | file he hf =>
    refine hfile _ _ _ ?_
    simp only [entityTexts, List.mem_cons, Prod.mk.injEq, List.not_mem_nil, or_false] at hf
    rcases hf with ⟨-, rfl, -⟩ | ⟨-, rfl, -⟩ | ⟨-, rfl, -⟩ | ⟨-, rfl, -⟩ <;> decide
  | draft he hx => exact hfile _ _ draftEnding (by decide)

theorem ending_cases (piece : Piece) :
    '/' ∉ piece.ending.toList ∧ piece.ending.toList ≠ [] ∧ piece.ending.toList ≠ ['.'] := by
  cases piece <;> simp only [Piece.ending] <;> decide

theorem Goes.ofFile (h : Goes s c l i spec dir way piece) (hp : piece.target.Straight) :
    piece.target.OfFile := by
  obtain ⟨cs, hcs⟩ := h.suffix_target
  obtain ⟨hsep, hne, hdot⟩ := ending_cases piece
  exact Path.ofFile_of_suffix hp hcs hsep hne hdot

/-- The last name of the place of a target ends like the target. -/
theorem Goes.getLast?_place (h : Goes s c l i spec dir way piece) (hp : piece.target.Straight)
    (t : FileTree) :
    ∃ n, (t.place piece.target).getLast? = some n ∧ piece.ending.toList <:+ n.toList := by
  obtain ⟨cs, hcs⟩ := h.suffix_target
  obtain ⟨hsep, hne, -⟩ := ending_cases piece
  obtain ⟨before, last, hs, hsuffix⟩ := suffix_of_steps hcs hsep hne
  obtain ⟨before', last', hs', hhere⟩ := (h.ofFile hp).named
  obtain ⟨rfl, rfl⟩ := List.append_inj' (hs.symm.trans hs') rfl |>.imp id List.singleton_inj.mp
  refine ⟨last, ?_, hsuffix⟩
  rw [place, hs, names_append, names_cons hhere, names_nil, ← List.append_assoc,
    List.getLast?_concat]

/-- Marks share their places with marks only. -/
theorem Goes.ending_eq {dir' : Path} {way' : List String} {other : Piece}
    (h : Goes s c l i spec dir way piece) (hp : piece.target.Straight)
    (h' : Goes s c l i spec dir' way' other) (hp' : other.target.Straight)
    (heq : t.place piece.target = t.place other.target) : piece.ending = other.ending := by
  obtain ⟨n, hn, hsuffix⟩ := h.getLast?_place hp t
  obtain ⟨n', hn', hsuffix'⟩ := h'.getLast?_place hp' t
  rw [heq, hn'] at hn
  cases hn
  have hpy : ¬ ".py".toList <:+ stampName.toList := by decide
  have hstamp : ¬ stampName.toList <:+ ".py".toList := by decide
  have hcompare := List.suffix_or_suffix_of_suffix hsuffix hsuffix'
  cases piece <;> cases other <;> simp only [Piece.ending] at hcompare ⊢ <;> tauto

end Generation

end CrudBackend
