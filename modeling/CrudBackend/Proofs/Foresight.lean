import CrudBackend.Proofs.Accounting
import CrudBackend.Proofs.Cleaning.Forecast
import CrudBackend.Proofs.Output.Encounters
import CrudBackend.Proofs.Output.Repeats

/-!
What a dry run foresees of a real one. A dry run decides on the tree that it is started on, a real run
on what its cleaning and its earlier pieces have made of it. The reports agree if and only if all
decisions do. Where names are plain and the directories apart, that can be read off the tree that
both are started on: the cleaning must take nothing that decides on a piece, and a module that
several entities share must be a package already.
-/

namespace CrudBackend

open FileTree Ownership Piece

namespace Piece

variable {e : Option Entry}

/-- A generated text is put over what its own piece leaves if and only if it is put over what that piece
finds. -/
theorem actsOn_onto_generated {p : Path} {text : String} (hmarked : isMarked (Text.encode text) = true) :
    (generated p text).ActsOn ((generated p text).onto e) ↔ (generated p text).ActsOn e := by
  by_cases hacts : (generated p text).ActsOn e
  · have hfree : e ≠ some .directory := by
      rintro rfl
      obtain ⟨dir, spec, hmark⟩ := actsOn_directory_iff.mp hacts
      cases hmark
    rw [onto_of_actsOn hacts hfree]
    refine iff_of_true (fun h => ?_) hacts
    have hunmarked : isMarked (Text.encode text) = false := h.2 _ rfl
    rw [hunmarked] at hmarked
    cases hmarked
  · rw [(onto_of_not_actsOn hacts).1]

end Piece

namespace Generation

variable {j : Job} {t t' u : FileTree} {plan : CleanPlan} {imports : Imports} {removed : List Path}
  {outcomes : List Outcome} {piece : Piece}

/-! ### The two reports -/

/-- What a dry run reports. -/
theorem run_dry (himports : j.config.resolveImports = .ok imports) (hplan : j.plan t = .ok plan) :
    run j.spec j.config { j.options with dryRun := true } t =
      .ok (report j.layout ((pieces j.spec j.config j.layout imports j.options.specPath).filterMap
        (fate t)) plan.files) t := by
  let dry : Job := ⟨j.spec, j.config, { j.options with dryRun := true }⟩
  have hremovals : dry.removals t = .ok plan.files t := by
    rw [removals_eq, show dry.plan t = .ok plan from hplan]
    rfl
  exact (congrFun (run_eq (j := dry) himports) t).trans
    ((Disk.bind_ok hremovals).trans (Disk.bind_ok (Output.performAll_dry _ t)))

/-- What decides in a dry run is what decides in the real one. -/
structure Job.Foreseen (j : Job) (t : FileTree) : Prop where
  /-- The cleaning removes what it has planned as files, and nothing else. -/
  removals : ∀ plan, j.plan t = .ok plan → Cleaning.Forecast t plan
  /-- A piece acts on what the run has made of the tree by then if and only if it acts on the tree. -/
  decisions : ∀ imports, j.config.resolveImports = .ok imports → ∀ front piece back,
    pieces j.spec j.config j.layout imports j.options.specPath = front ++ piece :: back →
      (piece.Acts ((Output.performAll false front).after (j.removals.after t)) ↔ piece.Acts t)

theorem plan_of_not_clean (hclean : j.options.clean = false) : j.plan t = .ok .empty := by
  rw [Job.plan, if_neg (by simp [hclean])]

theorem removed_eq_iff_forecast (hw : t.WellFormed) (hdry : j.options.dryRun = false)
    (hplan : j.plan t = .ok plan) (hremovals : j.removals t = .ok removed u) :
    removed = plan.files ↔ Cleaning.Forecast t plan := by
  rw [removals_eq, hplan, hdry] at hremovals
  rw [Job.plan] at hplan
  split_ifs at hplan with hclean
  · exact Cleaning.removed_eq_files_iff hw hplan hremovals
  · cases hplan
    cases hremovals
    exact iff_of_true rfl (Cleaning.forecast_empty t)

/-- Every piece decides in a real run as in a dry one if and only if what is told of them agrees. -/
theorem report_eq_iff_foreseen (hw : t.WellFormed) (hdry : j.options.dryRun = false)
    (himports : j.config.resolveImports = .ok imports) (hplan : j.plan t = .ok plan)
    (hremovals : j.removals t = .ok removed u)
    (hall : Output.performAll false
      (pieces j.spec j.config j.layout imports j.options.specPath) u = .ok outcomes t') :
    report j.layout outcomes removed = report j.layout
        ((pieces j.spec j.config j.layout imports j.options.specPath).filterMap (fate t))
        plan.files ↔ j.Foreseen t := by
  have hmarks : ∀ x ∈ Output.encounters u
      (pieces j.spec j.config j.layout imports j.options.specPath),
      ∀ dir spec, x.1 = .mark dir spec → spec = j.options.specPath := by
    rintro x hx dir spec hmark
    have hin := List.mem_map_of_mem (f := Prod.fst) hx
    rw [Output.map_fst_encounters, hmark] at hin
    obtain ⟨d, way, hg⟩ := goes_of_mem_pieces hin
    cases hg
    rfl
  rw [Output.outcomes_eq_of_performAll hall, Output.filterMap_fate_eq t u,
    report_eq_iff_acts hmarks, removed_eq_iff_forecast hw hdry hplan hremovals]
  have hafter : j.removals.after t = u := Disk.after_ok hremovals
  constructor
  · rintro ⟨hacts, hforecast⟩
    refine ⟨fun plan' hplan' => ?_, fun imports' himports' front piece back hsplit => ?_⟩
    · cases hplan.symm.trans hplan'
      exact hforecast
    · cases himports.symm.trans himports'
      rw [hafter]
      exact hacts _ ((Output.mem_encounters_iff hall).mpr ⟨front, back, hsplit, rfl⟩)
  · intro h
    refine ⟨?_, h.removals plan hplan⟩
    rintro ⟨piece, s⟩ hx
    obtain ⟨front, back, hsplit, rfl⟩ := (Output.mem_encounters_iff hall).mp hx
    rw [← hafter]
    exact h.decisions imports himports front piece back hsplit

/-! ### Plain names and directories apart -/

/-- A piece of a run with plain names and directories apart finds a tree from which locations have
gone and in which the pieces before it have come up. -/
structure Encounter (t u v : FileTree) (gone : List Location) (s : Spec) (c : Config) (l : Layout)
    (i : Imports) (spec : RawPath) (front : List Piece) (piece : Piece) : Prop where
  wellFormed : t.WellFormed
  plain : s.Plain
  distinct : (s.entities.map Entity.fileKey).Nodup
  stems : ∀ e ∈ s.entities, e.fileStem ≠ "__init__"
  straight : l.Straight
  apart : l.Apart t
  taken : t.Taken u gone
  split : ∃ back, pieces s c l i spec = front ++ piece :: back
  left : Output.AllLeft u v front
  accepted : piece.target.Accepted

namespace Encounter

variable {v : FileTree} {gone : List Location} {s : Spec} {c : Config} {l : Layout} {i : Imports}
  {spec : RawPath} {front : List Piece}

theorem mem_pieces (h : Encounter t u v gone s c l i spec front piece) {q : Piece}
    (hq : q = piece ∨ q ∈ front) : q ∈ pieces s c l i spec := by
  obtain ⟨back, hsplit⟩ := h.split
  rw [hsplit]
  rcases hq with rfl | hq
  · exact List.mem_append_right _ (List.mem_cons_self ..)
  · exact List.mem_append_left _ hq

/-- The piece finds what removals have left, or what it has left itself when it came up before. -/
theorem get?_eq (h : Encounter t u v gone s c l i spec front piece) :
    v.get? (t.place piece.target) = if piece ∈ front then
      piece.onto (u.get? (t.place piece.target)) else u.get? (t.place piece.target) := by
  obtain ⟨dir, way, hg⟩ := goes_of_mem_pieces (h.mem_pieces (Or.inl rfl))
  have ha := h.apart.congr h.taken.home
  have hsame : ∀ q ∈ front, u.place piece.target <+: u.place q.target → q = piece := by
    intro q hq hpre
    obtain ⟨dir', way', hq'⟩ := goes_of_mem_pieces (h.mem_pieces (Or.inr hq))
    obtain ⟨hdir, hway⟩ := hg.eq_of_isPrefix h.plain h.plain ha hq' hpre
    exact hq'.piece_eq h.distinct h.stems ha.nodup hg hdir.symm hway.symm
  have habove : ¬ IsAbove u front (u.place piece.target) := by
    rintro ⟨q, hq, hpre, hne⟩
    rw [hsame q hq hpre] at hne
    exact hne rfl
  have haimed : ∀ q ∈ aimedAt u front (u.place piece.target), q = piece := by
    intro q hq
    obtain ⟨hq, hplace⟩ := List.mem_filter.mp hq
    exact hsame q hq (of_decide_eq_true hplace ▸ List.prefix_refl _)
  rw [← place_congr h.taken.home, h.left.get?_eq _ habove]
  split_ifs with hpiece
  · have hne : aimedAt u front (u.place piece.target) ≠ [] :=
      List.ne_nil_of_mem (List.mem_filter.mpr ⟨hpiece, decide_eq_true rfl⟩)
    exact ontoAll_of_same haimed hne hg.onto_onto _
  · have hnil : aimedAt u front (u.place piece.target) = [] := by
      refine List.eq_nil_iff_forall_not_mem.mpr fun q hq => hpiece ?_
      exact haimed q hq ▸ (List.mem_filter.mp hq).1
    rw [hnil, ontoAll_nil]

/-- Only packages and generated files come up again. -/
theorem cases_of_again (h : Encounter t u v gone s c l i spec front piece) (hagain : piece ∈ front) :
    (∃ dir, piece = .package dir) ∨ ∃ p text, piece = .generated p text := by
  obtain ⟨back, hsplit⟩ := h.split
  have hdrafts := nodup_draftPath?_pieces h.plain h.distinct c l i spec
  have hmarks := nodup_markedKey?_pieces s c l i spec
  rw [hsplit, List.filterMap_append, List.filterMap_cons] at hdrafts hmarks
  cases piece with
  | generated p text => exact Or.inr ⟨p, text, rfl⟩
  | package dir => exact Or.inl ⟨dir, rfl⟩
  | draft p text =>
    refine absurd (List.mem_cons_self ..) (List.disjoint_of_nodup_append hdrafts ?_)
    exact List.mem_filterMap.mpr ⟨_, hagain, rfl⟩
  | mark dir spec' =>
    refine absurd (List.mem_cons_self ..) (List.disjoint_of_nodup_append hmarks ?_)
    exact List.mem_filterMap.mpr ⟨_, hagain, rfl⟩

/-- The two decisions on a piece, each by what stands at its target. -/
theorem acts_iff_acts_iff (h : Encounter t u v gone s c l i spec front piece) :
    (piece.Acts v ↔ piece.Acts t) ↔
      (piece.ActsOn (v.get? (t.place piece.target)) ↔
        piece.ActsOn (t.get? (t.place piece.target))) := by
  have hp := ofFile_of_mem_pieces h.plain h.straight (h.mem_pieces (Or.inl rfl))
  rw [Output.acts_iff h.left.wellFormed hp h.accepted, Output.acts_iff h.wellFormed hp h.accepted,
    place_congr (h.left.home.trans h.taken.home)]

/-- What removals leave decides as before unless a piece that would not have been put over it has
lost its target. -/
theorem actsOn_iff_of_taken (h : Encounter t u v gone s c l i spec front piece) :
    (piece.ActsOn (u.get? (t.place piece.target)) ↔
        piece.ActsOn (t.get? (t.place piece.target))) ↔
      (t.place piece.target ∈ gone → piece.ActsOn (t.get? (t.place piece.target))) := by
  rw [h.taken.get?_eq]
  split_ifs with hgone
  · simp [hgone, actsOn_none]
  · simp [hgone]

theorem iff_of_first (h : Encounter t u v gone s c l i spec front piece) (hfirst : piece ∉ front) :
    (piece.Acts v ↔ piece.Acts t) ↔
      (t.place piece.target ∈ gone → piece.ActsOn (t.get? (t.place piece.target))) := by
  rw [h.acts_iff_acts_iff, h.get?_eq, if_neg hfirst, h.actsOn_iff_of_taken]

/-- A piece that comes up again decides as at first, unless it is a package that has not stood. -/
theorem iff_of_again (h : Encounter t u v gone s c l i spec front piece) (hagain : piece ∈ front)
    (hgone : t.place piece.target ∈ gone → piece.ActsOn (t.get? (t.place piece.target))) :
    (piece.Acts v ↔ piece.Acts t) ↔
      ∀ dir, piece = .package dir → t.get? (t.place piece.target) ≠ none := by
  rw [h.acts_iff_acts_iff, h.get?_eq, if_pos hagain]
  rcases h.cases_of_again hagain with ⟨dir, rfl⟩ | ⟨p, text, rfl⟩
  · have hagain : ¬ (Piece.package dir).ActsOn ((Piece.package dir).onto
        (u.get? (t.place (Piece.package dir).target))) := onto_ne_none _ _
    rw [iff_false_left hagain]
    exact ⟨fun hstood _ _ => hstood, fun h => h dir rfl⟩
  · obtain ⟨dir, way, hg⟩ := goes_of_mem_pieces (h.mem_pieces (Or.inl rfl))
    refine iff_of_true ?_ (by simp)
    rw [actsOn_onto_generated (isMarked_of_goes hg)]
    exact h.actsOn_iff_of_taken.mpr hgone

end Encounter

/-- What a run finds before each of its pieces. -/
theorem encounter_of_split {gone : List Location} {front back : List Piece} (hw : t.WellFormed)
    (hs : j.spec.Plain) (hnodup : (j.spec.entities.map Entity.fileKey).Nodup)
    (hstems : ∀ e ∈ j.spec.entities, e.fileStem ≠ "__init__") (hl : j.layout.Straight)
    (ha : j.layout.Apart t) (htaken : t.Taken u gone)
    (hall : Output.performAll false
      (pieces j.spec j.config j.layout imports j.options.specPath) u = .ok outcomes t')
    (hsplit : pieces j.spec j.config j.layout imports j.options.specPath = front ++ piece :: back) :
    Encounter t u ((Output.performAll false front).after u) gone j.spec j.config j.layout imports
      j.options.specPath front piece := by
  have hfile : ∀ q ∈ front ++ piece :: back, q.target.OfFile := fun q hq =>
    ofFile_of_mem_pieces hs hl (hsplit ▸ hq)
  rw [hsplit] at hall
  obtain ⟨found, v, hfront⟩ := Output.exists_performAll_front hall
  have hleft := Output.allLeft_performAll htaken.wellFormed hfile hall
  refine ⟨hw, hs, hnodup, hstems, hl, ha, htaken, ⟨back, hsplit⟩, ?_, hleft.accepted _ (by simp)⟩
  rw [Disk.after_ok hfront]
  exact Output.allLeft_performAll htaken.wellFormed
    (fun q hq => hfile q (List.mem_append_left _ hq)) hfront

/-- The module of several entities is a package already, below each root. -/
def Job.SharedStand (j : Job) (t : FileTree) : Prop :=
  j.spec.entities.Pairwise fun e e' => e.moduleName = e'.moduleName →
    ∀ root ∈ j.layout.moduleRoots, t.get? (t.place (Output.initFile (root.join e.moduleName))) ≠ none

/-- Nothing that decides on a piece changes between the start of the run and the piece. -/
structure Job.Steady (j : Job) (t : FileTree) : Prop where
  /-- The cleaning removes what it has planned as files, and nothing else. -/
  removals : ∀ plan, j.plan t = .ok plan → Cleaning.Forecast t plan
  /-- Whatever it removes at the target of a piece, the piece would have been put over it. -/
  renewed : ∀ plan imports, j.plan t = .ok plan → j.config.resolveImports = .ok imports →
    ∀ piece ∈ pieces j.spec j.config j.layout imports j.options.specPath,
      t.place piece.target ∈ plan.files.map t.place →
        piece.ActsOn (t.get? (t.place piece.target))
  shared : j.SharedStand t

/-- Without a cleaning only shared modules matter. -/
theorem steady_iff_of_not_clean (hclean : j.options.clean = false) :
    j.Steady t ↔ j.SharedStand t := by
  refine ⟨Job.Steady.shared, fun h => ⟨?_, ?_, h⟩⟩
  · intro plan hplan
    cases (plan_of_not_clean hclean).symm.trans hplan
    exact Cleaning.forecast_empty t
  · intro plan imports hplan _ piece _ hgone
    cases (plan_of_not_clean hclean).symm.trans hplan
    cases hgone

/-- Pieces of which one comes up behind the other. -/
theorem exists_split_of_sublist {q : Piece} {ps : List Piece} (h : [q, piece].Sublist ps) :
    ∃ front back, ps = front ++ piece :: back ∧ q ∈ front := by
  obtain ⟨front, rest, rfl, hq, hrest⟩ := List.cons_sublist_iff.mp h
  obtain ⟨more, back, rfl⟩ := List.append_of_mem (List.singleton_sublist.mp hrest)
  exact ⟨front ++ more, back, by simp, List.mem_append_left _ hq⟩

/-- Where names are plain and the directories apart, whether a dry run foresees the real one can be
read off the tree that both are started on. -/
theorem foreseen_iff_steady {r : Report} (hw : t.WellFormed) (hs : j.spec.Plain)
    (hnodup : (j.spec.entities.map Entity.fileKey).Nodup)
    (hstems : ∀ e ∈ j.spec.entities, e.fileStem ≠ "__init__") (hl : j.layout.Straight)
    (ha : j.layout.Apart t) (hdry : j.options.dryRun = false)
    (hrun : run j.spec j.config j.options t = .ok r t') : j.Foreseen t ↔ j.Steady t := by
  obtain ⟨imports, removed, u, outcomes, himports, hremovals, hall, -⟩ := exists_of_run hdry hrun
  obtain ⟨plan, hplan, -⟩ := apply_of_removals hremovals
  have hafter : j.removals.after t = u := Disk.after_ok hremovals
  have hencounter : ∀ {front piece back}, Cleaning.Forecast t plan →
      pieces j.spec j.config j.layout imports j.options.specPath = front ++ piece :: back →
      Encounter t u ((Output.performAll false front).after u) (plan.files.map t.place) j.spec j.config
        j.layout imports j.options.specPath front piece := by
    intro front piece back hforecast hsplit
    have htaken := taken_of_removals hw hl hdry hremovals
    rw [(removed_eq_iff_forecast hw hdry hplan hremovals).mpr hforecast] at htaken
    exact encounter_of_split hw hs hnodup hstems hl ha htaken hall hsplit
  have hpackages := pairwise_packages_iff (P := fun dir => t.get? (t.place (Output.initFile dir)) ≠
    none) hs ha
  rw [← packageDir?_pieces j.spec j.config j.layout imports j.options.specPath,
    List.pairwise_filterMap, List.pairwise_iff_forall_sublist] at hpackages
  simp only [packageDir?_eq_some_iff] at hpackages
  constructor
  · intro h
    have hforecast := h.removals plan hplan
    have hdecision := fun {front piece back} hsplit =>
      hafter ▸ h.decisions imports himports front piece back hsplit
    have hrenewed : ∀ piece ∈ pieces j.spec j.config j.layout imports j.options.specPath,
        t.place piece.target ∈ plan.files.map t.place →
          piece.ActsOn (t.get? (t.place piece.target)) := by
      intro piece hin
      obtain ⟨front, back, hsplit, hfirst⟩ := List.eq_append_cons_of_mem hin
      exact ((hencounter hforecast hsplit).iff_of_first hfirst).mp (hdecision hsplit)
    refine ⟨h.removals, ?_, hpackages.mp ?_⟩
    · intro plan' imports' hplan' himports'
      cases hplan.symm.trans hplan'
      cases himports.symm.trans himports'
      exact hrenewed
    · rintro q piece hsub dir rfl dir' rfl rfl
      obtain ⟨front, back, hsplit, hagain⟩ := exists_split_of_sublist hsub
      have hin := (hencounter hforecast hsplit).mem_pieces (Or.inl rfl)
      exact ((hencounter hforecast hsplit).iff_of_again hagain (hrenewed _ hin)).mp
        (hdecision hsplit) dir rfl
  · intro h
    have hforecast := h.removals plan hplan
    refine ⟨h.removals, fun imports' himports' front piece back hsplit => ?_⟩
    cases himports.symm.trans himports'
    have hpiece := hencounter hforecast hsplit
    have hrenewed := h.renewed plan imports hplan himports piece (hpiece.mem_pieces (Or.inl rfl))
    rw [hafter]
    by_cases hagain : piece ∈ front
    · refine (hpiece.iff_of_again hagain hrenewed).mpr ?_
      rintro dir rfl
      refine hpackages.mpr h.shared ?_ dir rfl dir rfl rfl
      rw [hsplit]
      exact (List.singleton_sublist.mpr hagain).append
        (List.cons_sublist_cons.mpr (List.nil_sublist _))
    · exact (hpiece.iff_of_first hagain).mpr hrenewed

/-! ### Whether a dry run foresees the real one -/

/-- Whatever tree a real run succeeds on, with a cleaning or without one, a dry run succeeds on it
too and leaves it alone. The two reports agree if and only if the cleaning removes the files that it
has planned, each once, and no directory, and each piece decides on the tree that it finds as it
would on the tree that the run was started on. Where names are plain and the directories apart, it
can be read off that tree alone whether they agree. -/
theorem dry_run_foresees_iff {r : Report} (hw : t.WellFormed) (hdry : j.options.dryRun = false)
    (hrun : run j.spec j.config j.options t = .ok r t') :
    ∃ dry, run j.spec j.config { j.options with dryRun := true } t = .ok dry t ∧
      (dry = r ↔ j.Foreseen t) ∧
      (j.spec.Plain → (j.spec.entities.map Entity.fileKey).Nodup →
        (∀ e ∈ j.spec.entities, e.fileStem ≠ "__init__") → j.layout.Straight → j.layout.Apart t →
        (dry = r ↔ j.Steady t)) := by
  obtain ⟨imports, removed, u, outcomes, himports, hremovals, hall, rfl⟩ := exists_of_run hdry hrun
  obtain ⟨plan, hplan, -⟩ := apply_of_removals hremovals
  have hforeseen := report_eq_iff_foreseen hw hdry himports hplan hremovals hall
  rw [eq_comm] at hforeseen
  refine ⟨_, run_dry himports hplan, hforeseen, fun hs hnodup hstems hl ha => ?_⟩
  exact hforeseen.trans (foreseen_iff_steady hw hs hnodup hstems hl ha hdry hrun)

/-- Without a cleaning, an entity alone in its module is foreseen. -/
theorem order_run_is_foreseen : ∃ r t' dry,
    run orderJob.spec orderJob.config orderJob.options ⟨[], []⟩ = .ok r t' ∧
    run orderJob.spec orderJob.config { orderJob.options with dryRun := true } ⟨[], []⟩ =
      .ok dry ⟨[], []⟩ ∧ dry = r := by
  obtain ⟨r, t', hrun⟩ := exists_run_orderJob
  obtain ⟨hplain, hstraight, hapart⟩ := orderJob_apart
  have hsteady : orderJob.Steady ⟨[], []⟩ :=
    (steady_iff_of_not_clean rfl).mpr (List.pairwise_singleton _ _)
  obtain ⟨dry, hdry, -, hiff⟩ := dry_run_foresees_iff (by decide) rfl hrun
  have hsame := hiff hplain (by decide) (by decide +kernel) hstraight hapart
  exact ⟨r, t', dry, hrun, hdry, hsame.mpr hsteady⟩

def shopJob : Job where
  spec := ⟨[], [order, orderItem]⟩
  config := {}
  options := ⟨⟨"out"⟩, .ofText "specs/shop.json", false, false⟩

theorem shopJob_apart : shopJob.spec.Plain ∧ shopJob.layout.Straight ∧
    shopJob.layout.Apart ⟨[], []⟩ := by decide +kernel

theorem shopJob_nameable : shopJob.spec.Nameable := by decide +kernel

theorem exists_run_shopJob : ∃ report t',
    run shopJob.spec shopJob.config shopJob.options ⟨[], []⟩ = .ok report t' := by
  obtain ⟨hplain, hstraight, hapart⟩ := shopJob_apart
  obtain ⟨hroomy, hresolve⟩ := orderJob_roomy
  exact exists_run (by decide) hplain shopJob_nameable hstraight hapart hroomy rfl rfl hresolve

/-- A dry run makes the module of both entities a package twice, the real one only once. -/
theorem shop_run_is_not_foreseen : ∃ r t' dry,
    run shopJob.spec shopJob.config shopJob.options ⟨[], []⟩ = .ok r t' ∧
    run shopJob.spec shopJob.config { shopJob.options with dryRun := true } ⟨[], []⟩ =
      .ok dry ⟨[], []⟩ ∧ dry ≠ r := by
  obtain ⟨r, t', hrun⟩ := exists_run_shopJob
  obtain ⟨hplain, hstraight, hapart⟩ := shopJob_apart
  obtain ⟨imports, removed, u, outcomes, himports, hremovals, hall, rfl⟩ := exists_of_run rfl hrun
  obtain ⟨plan, hplan, -⟩ := apply_of_removals hremovals
  refine ⟨_, t', _, hrun, run_dry himports hplan, fun heq => ?_⟩
  have hforeseen := (report_eq_iff_foreseen (by decide) rfl himports hplan hremovals hall).mp heq.symm
  have hsteady := (foreseen_iff_steady (by decide) hplain (by decide) (by decide +kernel) hstraight
    hapart rfl hrun).mp hforeseen
  have hstood := (List.pairwise_cons.mp hsteady.shared).1 orderItem (by simp) rfl
    shopJob.layout.modelsDir (by simp [Layout.moduleRoots])
  exact hstood rfl

end Generation

end CrudBackend
