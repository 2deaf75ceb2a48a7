import CrudBackend.Proofs.Mounts
import CrudBackend.Proofs.Output.Again
import CrudBackend.Proofs.Output.Room

/-!
What a run leaves behind, path by path. Where the five directories are apart and names are plain, no
two different pieces of a run share a target, and none goes above or below another one. So each file
ends as its own piece has left it, whatever else the run writes.
-/

namespace CrudBackend

open FileTree Ownership Piece

namespace Generation

variable {s : Spec} {c : Config} {l : Layout} {i : Imports} {dir : Path} {spec : RawPath}
  {way : List String} {piece : Piece} {t t' : FileTree} {j : Job} {imports : Imports}

/-! ### Runs that succeed -/

/-- What a real run does is to remove what it is to remove, and then to bring out its pieces. -/
theorem exists_of_run {r : Report} (hdry : j.options.dryRun = false)
    (hrun : run j.spec j.config j.options t = .ok r t') :
    ∃ imports removed u outcomes, j.config.resolveImports = .ok imports ∧
      j.removals t = .ok removed u ∧ Output.performAll false
        (pieces j.spec j.config j.layout imports j.options.specPath) u = .ok outcomes t' ∧
      r = report j.layout outcomes removed := by
  cases himports : j.config.resolveImports with
  | error fault =>
    rw [run, himports] at hrun
    cases hrun
  | ok imports =>
    rw [run_eq himports, hdry] at hrun
    obtain ⟨removed, u, hremovals, hrest⟩ := Disk.bind_eq_ok hrun
    obtain ⟨outcomes, v, hall, hreport⟩ := Disk.bind_eq_ok hrest
    cases hreport
    exact ⟨imports, removed, u, outcomes, rfl, hremovals, hall, rfl⟩

theorem run_of_removals {u : FileTree} {removed : List Path} {outcomes : List Outcome}
    (hdry : j.options.dryRun = false) (himports : j.config.resolveImports = .ok imports)
    (hremovals : j.removals t = .ok removed u)
    (hall : Output.performAll false
      (pieces j.spec j.config j.layout imports j.options.specPath) u = .ok outcomes t') :
    run j.spec j.config j.options t = .ok (report j.layout outcomes removed) t' := by
  rw [run_eq himports, hdry]
  exact (Disk.bind_ok hremovals).trans (Disk.bind_ok hall)

theorem removals_of_apply {u : FileTree} {plan : CleanPlan} {removed : List Path}
    (hclean : j.options.clean = true) (hdry : j.options.dryRun = false)
    (hplan : Cleaning.plan t j.layout j.options.specPath = .ok plan)
    (happly : Cleaning.apply plan false t = .ok removed u) : j.removals t = .ok removed u := by
  rw [removals_eq, Job.plan, if_pos hclean, hplan, hdry]
  exact happly

theorem removals_of_not_clean (hclean : j.options.clean = false) : j.removals t = .ok [] t := by
  unfold Job.removals
  rw [if_neg (by simp [hclean])]
  rfl

theorem performAll_of_run {report : Report} (hclean : j.options.clean = false)
    (hdry : j.options.dryRun = false)
    (hrun : run j.spec j.config j.options t = .ok report t') :
    ∃ imports outcomes, j.config.resolveImports = .ok imports ∧ Output.performAll false
      (pieces j.spec j.config j.layout imports j.options.specPath) t = .ok outcomes t' := by
  obtain ⟨imports, removed, u, outcomes, himports, hremovals, hall, -⟩ := exists_of_run hdry hrun
  rw [removals_of_not_clean hclean] at hremovals
  cases hremovals
  exact ⟨imports, outcomes, himports, hall⟩

def Job.outputs (j : Job) : List Path :=
  j.layout.sharedFiles ++ j.layout.packageDirs.map Output.initFile ++
    j.spec.entities.flatMap fun e =>
      let files := j.layout.entityFiles e
      (j.layout.moduleDirs e).map Output.initFile ++ (j.layout.moduleDirs e).map stampFile ++
        [files.model, files.schema, files.service, files.serviceImpl, files.api]

theorem Goes.target_mem_outputs
    (h : Goes j.spec j.config j.layout i j.options.specPath dir way piece) :
    piece.target ∈ j.outputs := by
  have hentity : ∀ e ∈ j.spec.entities, ∀ p, p ∈ (let files := j.layout.entityFiles e
      (j.layout.moduleDirs e).map Output.initFile ++ (j.layout.moduleDirs e).map stampFile ++
        [files.model, files.schema, files.service, files.serviceImpl, files.api]) →
      p ∈ j.outputs := fun e he p hp =>
    List.mem_append_right _ (List.mem_flatMap.mpr ⟨e, he, hp⟩)
  cases h with
  | package hd =>
    exact List.mem_append_left _ (List.mem_append_right _ (List.mem_map_of_mem hd))
  | shared hs =>
    refine List.mem_append_left _ (List.mem_append_left _ ?_)
    rw [← paths_sharedTexts j.spec]
    exact List.mem_map.mpr ⟨_, hs, rfl⟩
  | modulePackage hr he =>
    refine hentity _ he _ (List.mem_append_left _ (List.mem_append_left _ ?_))
    exact List.mem_map_of_mem (List.mem_map_of_mem hr)
  | mark hr he =>
    refine hentity _ he _ (List.mem_append_left _ (List.mem_append_right _ ?_))
    exact List.mem_map_of_mem (List.mem_map_of_mem hr)
  | draft he hx => exact hentity _ he _ (by simp [Piece.target])
  | @file root ending text e he hf =>
    refine hentity e he _ (List.mem_append_right _ ?_)
    have hin := List.mem_map_of_mem (f := fun x => Layout.fileIn x.1 e x.2.1) hf
    rw [paths_entityTexts] at hin
    simp only [List.mem_cons, List.not_mem_nil, or_false] at hin ⊢
    rcases hin with h | h | h | h <;> simp [Piece.target, h]

/-- With plain names, no path of a run has a step up unless its layout has one. -/
theorem Job.straight_of_plain (hs : j.spec.Plain) (hl : j.layout.Straight) : j.Straight := by
  have hfile : ∀ e ∈ j.spec.entities, ∀ root ∈ j.layout.moduleRoots, ∀ ending : String,
      '/' ∉ ending.toList → 2 < ending.length → (Layout.fileIn root e ending).Straight := by
    intro e he root hr ending hsep hlong
    have hstem := Entity.separator_not_mem_fileStem (hs e he).1.no_separator
    exact (straight_join_segment (isSegment_append hstem hsep hlong)).mpr
      ((straight_join_segment (hs e he).2.isSegment).mpr (hl.root hr))
  intro p hp
  rcases List.mem_append.mp hp with hp | hp
  · rcases List.mem_append.mp hp with hp | hp
    · exact hl p hp
    · exact hl.shared hp
  · obtain ⟨e, he, hp⟩ := List.mem_flatMap.mp hp
    rcases List.mem_append.mp hp with hp | hp
    · obtain ⟨root, hr, rfl⟩ := List.mem_map.mp hp
      exact (straight_join_segment (hs e he).2.isSegment).mpr (hl.root hr)
    · simp only [List.mem_cons, List.not_mem_nil, or_false] at hp
      rcases hp with rfl | rfl | rfl | rfl | rfl <;>
        exact hfile e he _ (by simp [Layout.moduleRoots]) _ (by decide) (by decide)

/-! ### Targets that are apart -/

/-- No target of a run lies above the place of a target of the same layout. -/
theorem Goes.not_isAbove {s' : Spec} {c' : Config} {i' : Imports} {spec' : RawPath} (hs : s.Plain)
    (hs' : s'.Plain) (ha : l.Apart t) (h : Goes s c l i spec dir way piece) :
    ¬ IsAbove t (pieces s' c' l i' spec') (t.place piece.target) := by
  rintro ⟨other, hin, hpre, hne⟩
  obtain ⟨dir', way', h'⟩ := goes_of_mem_pieces hin
  obtain ⟨rfl, rfl⟩ := h.eq_of_isPrefix hs hs' ha h' hpre
  exact hne (by rw [h.place_eq hs, h'.place_eq hs'])

theorem ofFile_of_mem_pieces (hs : s.Plain) (hl : l.Straight)
    (h : piece ∈ pieces s c l i spec) : piece.target.OfFile := by
  obtain ⟨dir, way, hg⟩ := goes_of_mem_pieces h
  exact hg.ofFile (hg.straight hs hl)

theorem exists_performAll_pieces (hw : t.WellFormed) (hs : s.Plain) (hl : l.Straight)
    (ha : l.Apart t) (hopen : ∀ piece ∈ pieces s c l i spec, t.Open piece.target)
    (hmark : ∀ d, .mark d spec ∈ pieces s c l i spec →
      t.get? (t.place (stampFile d)) ≠ some .directory) :
    ∃ outcomes t', Output.performAll false (pieces s c l i spec) t = .ok outcomes t' := by
  refine Output.exists_performAll hw (fun piece => ofFile_of_mem_pieces hs hl) hopen ?_ ?_
  · intro piece hin habove
    obtain ⟨dir, way, hg⟩ := goes_of_mem_pieces hin
    exact absurd habove (hg.not_isAbove hs hs ha)
  · intro d spec' hin
    obtain ⟨dir, way, hg⟩ := goes_of_mem_pieces hin
    cases hg with
    | mark hr he => exact hmark _ hin

theorem ontoAll_of_same {pieces : List Piece} (hsame : ∀ q ∈ pieces, q = piece)
    (hne : pieces ≠ []) (hover : ∀ e, piece.onto (piece.onto e) = piece.onto e)
    (e : Option Entry) : ontoAll pieces e = piece.onto e := by
  induction pieces generalizing e with
  | nil => exact absurd rfl hne
  | cons q rest ih =>
    obtain rfl := hsame q (List.mem_cons_self ..)
    by_cases hnil : rest = []
    · rw [hnil]
      rfl
    · rw [ontoAll_cons, ih (fun r hr => hsame r (List.mem_cons_of_mem _ hr)) hnil, hover]

/-- What stands at the target of a piece is what this piece has left, if no other one goes there. -/
theorem Goes.get?_target_of_only (hs : s.Plain) (hl : l.Straight) (ha : l.Apart t)
    (hall : Output.AllLeft t t' (pieces s c l i spec)) (h : Goes s c l i spec dir way piece)
    (honly : ∀ other, Goes s c l i spec dir way other → other = piece) :
    t'.get? (t.place piece.target) = piece.onto (t.get? (t.place piece.target)) := by
  rw [hall.get?_eq _ (h.not_isAbove hs hs ha)]
  refine ontoAll_of_same ?_ ?_ h.onto_onto _
  · intro other hin
    obtain ⟨hmem, hplace⟩ := List.mem_filter.mp hin
    obtain ⟨dir', way', h'⟩ := goes_of_mem_pieces hmem
    obtain ⟨rfl, rfl⟩ := h'.eq_of_isPrefix hs hs ha h
      (of_decide_eq_true hplace ▸ List.prefix_refl _)
    exact honly other h'
  · exact List.ne_nil_of_mem
      (List.mem_filter.mpr ⟨h.mem_pieces hs hl ha, decide_eq_true rfl⟩)

theorem Goes.get?_target (hs : s.Plain) (hnodup : (s.entities.map Entity.fileKey).Nodup)
    (hstems : ∀ e ∈ s.entities, e.fileStem ≠ "__init__") (hl : l.Straight) (ha : l.Apart t)
    (hall : Output.AllLeft t t' (pieces s c l i spec)) (h : Goes s c l i spec dir way piece) :
    t'.get? (t.place piece.target) = piece.onto (t.get? (t.place piece.target)) :=
  h.get?_target_of_only hs hl ha hall fun _ h' => h'.piece_eq hnodup hstems ha.nodup h rfl rfl

/-- A run succeeds if its removals do and nothing is in the way of its output afterwards. -/
theorem exists_run_of_removals {u : FileTree} {removed : List Path} (hw : u.WellFormed)
    (hs : j.spec.Plain) (hl : j.layout.Straight) (ha : j.layout.Apart u)
    (hdry : j.options.dryRun = false) (hresolve : j.config.resolveImports.toOption.isSome = true)
    (hremovals : j.removals t = .ok removed u)
    (hopen : ∀ imports dir way piece,
      Goes j.spec j.config j.layout imports j.options.specPath dir way piece → u.Open piece.target)
    (hmark : ∀ dir, u.get? (u.place (stampFile dir)) ≠ some .directory) :
    ∃ report t', run j.spec j.config j.options t = .ok report t' := by
  obtain ⟨imports, himports⟩ := Option.isSome_iff_exists.mp hresolve
  have htargets : ∀ piece ∈ pieces j.spec j.config j.layout imports j.options.specPath,
      u.Open piece.target := by
    intro piece hin
    obtain ⟨dir, way, hg⟩ := goes_of_mem_pieces hin
    exact hopen imports dir way piece hg
  obtain ⟨outcomes, t', hall⟩ := exists_performAll_pieces hw hs hl ha htargets fun d _ => hmark d
  exact ⟨_, t', run_of_removals hdry (eq_ok_of_toOption himports) hremovals hall⟩

/-- Where there is room for its output, a run without a cleaning succeeds. -/
theorem exists_run (hw : t.WellFormed) (hs : j.spec.Plain) (hn : j.spec.Nameable)
    (hl : j.layout.Straight) (ha : j.layout.Apart t) (hr : j.layout.Roomy t)
    (hclean : j.options.clean = false) (hdry : j.options.dryRun = false)
    (hresolve : j.config.resolveImports.toOption.isSome = true) :
    ∃ report t', run j.spec j.config j.options t = .ok report t' :=
  exists_run_of_removals hw hs hl ha hdry hresolve (removals_of_not_clean hclean)
    (fun _ _ _ _ hg => hg.open_target hs hn hr) (get?_stampFile_ne hr)

/-! ### What a run leaves behind -/

/-- Nothing keeps a generated file from being written: nothing stands there, or a generated file. -/
def Renewable (e : Option Entry) : Prop :=
  e = none ∨ ∃ bytes, e = some (.file bytes) ∧ isMarked bytes = true

/-- A generated file has its text afterwards if it could be written, and nothing has changed
otherwise. -/
structure Renewed (t t' : FileTree) (p : Path) (text : String) : Prop where
  written : Renewable (t.get? (t.place p)) →
    t'.get? (t.place p) = some (.file (Text.encode text))
  kept : ¬ Renewable (t.get? (t.place p)) → t'.get? (t.place p) = t.get? (t.place p)

/-- What a run leaves behind, path by path. -/
structure LeavesBehind (j : Job) (imports : Imports) (t t' : FileTree) : Prop where
  shared : ∀ dir name text, (dir, name, text) ∈ sharedTexts j.spec j.layout →
    Renewed t t' (dir.join name) text
  entity : ∀ e ∈ j.spec.entities, ∀ root ending text,
    (root, ending, text) ∈ entityTexts j.config j.layout imports e →
    Renewed t t' (Layout.fileIn root e ending) text
  /-- The draft of a registered extension is written where nothing stands. -/
  draft : ∀ e ∈ j.spec.entities, ∀ p, p = (j.layout.entityFiles e).serviceImpl →
    (j.config.hasExtension e = true → t.get? (t.place p) = none →
      t'.get? (t.place p) = some (.file (Text.encode (Artifact.serviceImpl e j.layout)))) ∧
    (j.config.hasExtension e = false ∨ t.get? (t.place p) ≠ none →
      t'.get? (t.place p) = t.get? (t.place p))
  /-- The five directories and those of the modules are packages. -/
  package : ∀ dir, (dir ∈ j.layout.packageDirs ∨ ∃ e ∈ j.spec.entities, dir ∈ j.layout.moduleDirs e) →
    t'.get? (t.place (Output.initFile dir)) =
      (t.get? (t.place (Output.initFile dir))).or (some (.file (Text.encode Output.initText)))
  /-- The directories of the modules are marked unless they are marked with another origin. -/
  mark : ∀ e ∈ j.spec.entities, ∀ dir ∈ j.layout.moduleDirs e,
    ((∀ owner, originOfDirectory? t dir = some owner → owner = originOf j.options.specPath) →
      t'.get? (t.place (stampFile dir)) =
        some (.file (Text.encode (stampText j.options.specPath)))) ∧
    (∀ owner, originOfDirectory? t dir = some owner → owner ≠ originOf j.options.specPath →
      t'.get? (t.place (stampFile dir)) = t.get? (t.place (stampFile dir)))
  /-- Everything else is as it was, but for directories that were made for the output. -/
  others : ∀ k, k ∉ j.outputs.map t.place → t'.get? k = t.get? k ∨
    t.get? k = none ∧ t'.get? k = some .directory ∧ ∃ p ∈ j.outputs, k <+: t.place p
  home : t'.home = t.home

theorem renewed_of_onto {p : Path} {text : String}
    (h : t'.get? (t.place p) = (Piece.generated p text).onto (t.get? (t.place p))) :
    Renewed t t' p text := by
  constructor
  · rintro (hnone | ⟨bytes, hfile, hmark⟩)
    · rw [h, hnone]
      rfl
    · rw [h, hfile]
      exact if_pos hmark
  · intro hnot
    rw [h]
    rcases hget : t.get? (t.place p) with - | - | bytes
    · exact absurd (Or.inl hget) hnot
    · rfl
    · exact if_neg fun hmark => hnot (Or.inr ⟨bytes, hget, hmark⟩)

theorem onto_package (dir : Path) (e : Option Entry) :
    (Piece.package dir).onto e = e.or (some (.file (Text.encode Output.initText))) := by
  cases e <;> rfl

/-- What is neither a target nor above one is as it was. -/
theorem get?_of_no_target {pieces : List Piece} {k : Location}
    (hall : Output.AllLeft t t' pieces)
    (hk : ∀ piece ∈ pieces, ¬ k <+: t.place piece.target) : t'.get? k = t.get? k := by
  have habove : ¬ IsAbove t pieces k := fun ⟨piece, hin, hpre, _⟩ => hk piece hin hpre
  have haim : aimedAt t pieces k = [] := by
    refine List.filter_eq_nil_iff.mpr fun piece hin heq => hk piece hin ?_
    exact of_decide_eq_true heq ▸ List.prefix_refl _
  rw [hall.get?_eq k habove, haim, ontoAll_nil]

/-- The place of a draft is no target unless its extension is registered. -/
theorem get?_serviceImpl_of_not_registered {e : Entity} (hs : s.Plain)
    (hnodup : (s.entities.map Entity.fileKey).Nodup) (ha : l.Apart t)
    (hall : Output.AllLeft t t' (pieces s c l i spec)) (he : e ∈ s.entities)
    (hx : c.hasExtension e = false) :
    t'.get? (t.place (l.entityFiles e).serviceImpl) =
      t.get? (t.place (l.entityFiles e).serviceImpl) := by
  have hd : l.servicesDir ∈ l.packageDirs := by simp [Layout.packageDirs]
  refine get?_of_no_target hall fun piece hin hpre => ?_
  obtain ⟨dir, way, hg⟩ := goes_of_mem_pieces hin
  rw [place_serviceImpl hs he, hg.place_eq hs] at hpre
  obtain ⟨hdir, hway⟩ := eq_of_shape ha hd hg.mem_packageDirs
    (shape_of_ending (hs e he).2 (by decide)) (hg.shape hs) hpre
  rw [hg.hasExtension hnodup ha.nodup he hdir.symm hway.symm] at hx
  cases hx

/-- A run that succeeds without a cleaning leaves behind what its pieces say. -/
theorem run_leaves_behind (hw : t.WellFormed) {text : String} (hparse : Spec.parse text = .ok j.spec)
    (hs : j.spec.Plain) (hstems : ∀ e ∈ j.spec.entities, e.fileStem ≠ "__init__")
    (hl : j.layout.Straight) (ha : j.layout.Apart t) (hclean : j.options.clean = false)
    (hdry : j.options.dryRun = false) {report : Report}
    (hrun : run j.spec j.config j.options t = .ok report t') :
    ∃ imports, j.config.resolveImports = .ok imports ∧ LeavesBehind j imports t t' := by
  obtain ⟨imports, outcomes, himports, hperform⟩ := performAll_of_run hclean hdry hrun
  have hnodup := Spec.nodup_fileKey_of_parse hparse
  have hall := Output.allLeft_performAll hw (fun piece => ofFile_of_mem_pieces hs hl) hperform
  have hget : ∀ {dir way piece}, Goes j.spec j.config j.layout imports j.options.specPath dir way
      piece → t'.get? (t.place piece.target) = piece.onto (t.get? (t.place piece.target)) :=
    fun hg => hg.get?_target hs hnodup hstems hl ha hall
  refine ⟨imports, himports, ?_, ?_, ?_, ?_, ?_, ?_, hall.home⟩
  · intro dir name text hin
    have hover := hget (.shared hin)
    exact renewed_of_onto hover
  · intro e he root ending text hin
    have hover := hget (.file he hin)
    exact renewed_of_onto hover
  · rintro e he p rfl
    constructor
    · intro hx hnone
      have hdraft := hget (.draft he hx)
      rw [Piece.target, hnone] at hdraft
      exact hdraft
    · intro hkept
      by_cases hx : j.config.hasExtension e = true
      · obtain ⟨found, hfound⟩ := Option.ne_none_iff_exists'.mp
          (hkept.resolve_left (by simp [hx]))
        have hdraft := hget (.draft he hx)
        rw [Piece.target, hfound] at hdraft
        rw [hdraft, hfound]
        rfl
      · exact get?_serviceImpl_of_not_registered hs hnodup ha hall he
          (Bool.not_eq_true _ ▸ hx)
  · rintro dir (hd | ⟨e, he, hd⟩)
    · have hpackage := hget (.package hd)
      rwa [onto_package] at hpackage
    · obtain ⟨root, hr, rfl⟩ := List.mem_map.mp hd
      have hpackage := hget (.modulePackage hr he)
      rwa [onto_package] at hpackage
  · intro e he dir hd
    obtain ⟨root, hr, rfl⟩ := List.mem_map.mp hd
    have hg : Goes j.spec j.config j.layout imports j.options.specPath root
        [e.moduleName, stampName] (.mark (root.join e.moduleName) j.options.specPath) := .mark hr he
    have hmem := hg.mem_pieces hs hl ha
    have hmark := hget hg
    have hfree := hall.not_marked _ _ hmem
    have horigin := Output.originOfDirectory?_eq hw (ofFile_of_mem_pieces hs hl hmem)
      (hall.accepted _ hmem)
    rw [Piece.target] at hmark
    rw [horigin]
    rcases hentry : t.get? (t.place (stampFile (root.join e.moduleName))) with - | - | bytes
    · rw [hentry] at hmark
      exact ⟨fun _ => hmark, by simp⟩
    · rw [hmark, hentry] at hfree
      exact absurd rfl hfree
    · rw [hentry] at hmark
      refine ⟨fun hown => hmark.trans (if_pos hown), ?_⟩
      intro owner howner hforeign
      exact hmark.trans (if_neg fun hown => hforeign (hown owner howner))
  · intro k hk
    have hnot : ∀ piece ∈ pieces j.spec j.config j.layout imports j.options.specPath,
        k ≠ t.place piece.target := by
      rintro piece hin rfl
      obtain ⟨dir, way, hg⟩ := goes_of_mem_pieces hin
      exact hk (List.mem_map_of_mem hg.target_mem_outputs)
    by_cases habove : IsAbove t (pieces j.spec j.config j.layout imports j.options.specPath) k
    · have hdir := hall.above k habove
      rcases hentry : t.get? k with - | - | bytes
      · obtain ⟨piece, hin, hpre, -⟩ := habove
        obtain ⟨dir, way, hg⟩ := goes_of_mem_pieces hin
        exact Or.inr ⟨rfl, hdir, piece.target, hg.target_mem_outputs, hpre⟩
      · exact Or.inl hdir
      · exact absurd hentry (hall.no_file k habove bytes)
    · refine Or.inl (get?_of_no_target hall fun piece hin hpre => ?_)
      exact habove ⟨piece, hin, hpre, hnot piece hin⟩

def orderSpecText : String :=
  "[\x7b\"className\": \"Order\", \"tableName\": \"orders\", \"moduleName\": \"shop\"\x7d]"

theorem parse_orderSpecText : Spec.parse orderSpecText = .ok ⟨[], [order]⟩ :=
  eq_ok_of_toOption (by decide +kernel)

def orderJob : Job where
  spec := ⟨[], [order]⟩
  config := { extensions := ["Order"] }
  options := ⟨⟨"out"⟩, .ofText "specs/shop.json", false, false⟩

theorem orderJob_apart : orderJob.spec.Plain ∧ orderJob.layout.Straight ∧
    orderJob.layout.Apart ⟨[], []⟩ := by decide +kernel

theorem nameable_order : orderJob.spec.Nameable := by decide +kernel

theorem orderJob_roomy : orderJob.layout.Roomy ⟨[], []⟩ ∧
    orderJob.config.resolveImports.toOption.isSome = true := by decide +kernel

theorem exists_run_orderJob : ∃ report t',
    run orderJob.spec orderJob.config orderJob.options ⟨[], []⟩ = .ok report t' := by
  obtain ⟨hplain, hstraight, hapart⟩ := orderJob_apart
  obtain ⟨hroomy, hresolve⟩ := orderJob_roomy
  exact exists_run (by decide) hplain nameable_order hstraight hapart hroomy rfl rfl hresolve

theorem order_run_leaves_behind : ∃ report t' imports,
    Spec.parse orderSpecText = .ok orderJob.spec ∧
    run orderJob.spec orderJob.config orderJob.options ⟨[], []⟩ = .ok report t' ∧
    LeavesBehind orderJob imports ⟨[], []⟩ t' := by
  obtain ⟨report, t', hrun⟩ := exists_run_orderJob
  obtain ⟨hplain, hstraight, hapart⟩ := orderJob_apart
  obtain ⟨imports, -, hleaves⟩ := run_leaves_behind (by decide) parse_orderSpecText
    hplain (by decide +kernel)
    hstraight hapart rfl rfl hrun
  exact ⟨report, t', imports, parse_orderSpecText, hrun, hleaves⟩

end Generation

end CrudBackend
