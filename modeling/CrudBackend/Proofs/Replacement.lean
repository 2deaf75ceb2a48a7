import CrudBackend.Proofs.Residue

/-!
Replacing the output of one specification by that of another one. What a cleaning has left is in the
way of nothing, and a run that finds it keeps it: it brings out what it would have brought out
without it.
-/

namespace CrudBackend

open FileTree Ownership Piece

/-- The second tree is the first one with the drafts of a specification in it, and with directories
that hold them. -/
structure FileTree.WithDrafts (t t' : FileTree) (s : Spec) (c : Config) (l : Layout) : Prop where
  home : t'.home = t.home
  draft : ∀ e ∈ s.entities, c.hasExtension e = true →
    t'.get? (t.place (l.entityFiles e).serviceImpl) =
      some (.file (Text.encode (Artifact.serviceImpl e l)))
  holding : ∀ e ∈ s.entities, c.hasExtension e = true → ∀ k,
    k <+: t.place (l.entityFiles e).serviceImpl → k ≠ t.place (l.entityFiles e).serviceImpl →
    t'.get? k = some .directory
  others : ∀ k, (∀ e ∈ s.entities, c.hasExtension e = true →
    ¬ k <+: t.place (l.entityFiles e).serviceImpl) → t'.get? k = t.get? k

namespace Generation

variable {s s' : Spec} {c : Config} {l : Layout} {i : Imports} {dir : Path} {spec : RawPath}
  {way : List String} {piece other : Piece} {t t₁ t₂ t₃ u v : FileTree} {plan : CleanPlan}
  {removed files dirs : List Path}

theorem Goes.isAbsolute_target (hs : s.Plain) (h : Goes s c l i spec dir way piece) :
    piece.target.isAbsolute = dir.isAbsolute := by
  have hway := h.isSegment hs
  rw [h.target_eq]
  clear h
  induction way using List.reverseRecOn with
  | nil => rfl
  | append_singleton way n ih =>
    rw [Cleaning.down_concat, isAbsolute_join (isAbsolute_of_isSegment (hway n (by simp))),
      ih fun m hm => hway m (List.mem_append_left _ hm)]

/-! ### Over the residue of another run -/

namespace FirstRun

theorem not_isAbove_residue (h : FirstRun t t₁ s c l i spec)
    (hnodup : (s.entities.map Entity.fileKey).Nodup) (hs : s'.Plain)
    (hg : Goes s' c l i spec dir way piece) :
    ¬ IsAbove t (residue s c l) (t.place piece.target) := fun ⟨q, hq, hpre, hne⟩ =>
  hg.not_isAbove hs h.plain h.apart ⟨q, h.mem_pieces_of_mem_residue hnodup hq, hpre, hne⟩

/-- A piece that aims at the target of a piece of the residue keeps what stands there. -/
theorem onto_of_residue (h : FirstRun t t₁ s c l i spec) (hs : s'.Plain)
    (hin : other ∈ residue s c l) (hg : Goes s' c l i spec dir way piece)
    (hplace : t.place other.target = t.place piece.target) (e : Entry) :
    piece.onto (some e) = some e := by
  have hpre : t.place other.target <+: t.place piece.target := hplace ▸ List.prefix_refl _
  rcases mem_residue hin with ⟨d, hd, rfl⟩ | ⟨e', he', hx, rfl⟩
  · have hother : Goes s c l i spec d ["__init__.py"] (.package d) := .package hd
    obtain ⟨rfl, rfl⟩ := hother.eq_of_isPrefix h.plain hs h.apart hg hpre
    rw [hg.package_of_way]
    rfl
  · have hother : Goes s c l i spec l.servicesDir [e'.moduleName, e'.fileStem ++ draftEnding]
        (.draft (l.entityFiles e').serviceImpl (Artifact.serviceImpl e' l)) := .draft he' hx
    obtain ⟨rfl, rfl⟩ := hother.eq_of_isPrefix h.plain hs h.apart hg hpre
    obtain ⟨-, -, -, -, -, rfl⟩ := hg.draft_of_way h.apart.nodup rfl rfl
    rfl

/-- What the residue has left stays, whatever is brought out over it. -/
theorem get?_of_residue (h : FirstRun t t₁ s c l i spec) (hs : s'.Plain)
    (hnodup : (s.entities.map Entity.fileKey).Nodup) (hu : Output.AllLeft t u (residue s c l))
    (h₃ : Output.AllLeft u t₃ (pieces s' c l i spec)) (hin : other ∈ residue s c l) :
    t₃.get? (t.place other.target) = other.onto none := by
  obtain ⟨dir, way, hg, -⟩ := h.goes_of_mem_residue hnodup hin
  have hbefore : u.get? (t.place other.target) = other.onto none := by
    rw [hu.get?_eq _ (h.not_isAbove_residue hnodup h.plain hg), h.get?_bare h.plain hg,
      h.ontoAll_residue hnodup hin]
  have hnot : ¬ IsAbove u (pieces s' c l i spec) (t.place other.target) := by
    rw [isAbove_congr hu.home]
    exact hg.not_isAbove h.plain hs h.apart
  obtain ⟨e, he⟩ := Option.ne_none_iff_exists'.mp (onto_ne_none other none)
  rw [h₃.get?_eq _ hnot, hbefore, he]
  refine ontoAll_of_keeping fun q hq => ?_
  obtain ⟨hq, hplace⟩ := List.mem_filter.mp hq
  obtain ⟨dir', way', hgq⟩ := goes_of_mem_pieces hq
  rw [place_congr hu.home] at hplace
  exact h.onto_of_residue hs hin hgq (of_decide_eq_true hplace).symm e

/-- Over the residue of another run, a run brings out what it brings out where nothing stands. -/
theorem withDrafts (h : FirstRun t t₁ s c l i spec) (h' : FirstRun t t₂ s' c l i spec)
    (hnodup : (s.entities.map Entity.fileKey).Nodup) (hu : Output.AllLeft t u (residue s c l))
    (h₃ : Output.AllLeft u t₃ (pieces s' c l i spec)) : t₂.WithDrafts t₃ s c l := by
  have hkept : ∀ q ∈ residue s c l, t₃.get? (t.place q.target) = q.onto none := fun q hq =>
    h.get?_of_residue h'.plain hnodup hu h₃ hq
  refine ⟨h₃.home.trans (hu.home.trans h'.left.home.symm), ?_, ?_, ?_⟩
  · intro e he hx
    rw [h'.place_eq]
    have hdraft := hkept _ (draft_mem_residue he hx)
    exact hdraft
  · intro e he hx k hk hne
    rw [h'.place_eq] at hk hne
    have hdraft := hkept _ (draft_mem_residue he hx)
    exact h₃.wellFormed.directory_above hdraft hk hne
  · intro k hnone
    rw [h'.place_eq] at hnone
    by_cases habove : IsAbove t (pieces s' c l i spec) k
    · rw [h'.left.above k habove, h₃.above k ((isAbove_congr hu.home).mpr habove)]
    · by_cases hq : ∃ q ∈ residue s c l, k <+: t.place q.target
      · obtain ⟨q, hq, hpre⟩ := hq
        rcases mem_residue hq with ⟨d, hd, rfl⟩ | ⟨e, he, hx, rfl⟩
        · have hg : Goes s' c l i spec d ["__init__.py"] (.package d) := .package hd
          by_cases hk : k = t.place (Output.initFile d)
          · have hpackage := hkept _ hq
            rw [hk, h'.get?_package hd]
            exact hpackage
          · exact absurd ⟨_, hg.mem_pieces h'.plain h'.straight h'.apart, hpre, hk⟩ habove
        · exact absurd hpre (hnone e he hx)
      · rw [h'.left.get?_eq k habove,
          h₃.get?_eq k fun h => habove ((isAbove_congr hu.home).mp h), aimedAt_congr hu.home,
          get?_of_no_target hu fun q hin hpre => hq ⟨q, hin, hpre⟩]

/-! ### After a cleaning -/

theorem list_of_empty {root : Path} (hempty : root.text = "") : t.list root = .error .notFound := by
  have hfault : textFault? root = some .notFound := by
    simp [textFault?, hempty]
  rw [list, find, approach, hfault]

/-- After a first run a plan can be made and carried out. -/
theorem exists_removals (h : FirstRun t t₁ s c l i spec) :
    ∃ plan v u files dirs, Cleaning.plan t₁ l spec = .ok plan ∧
      (∃ removed, Cleaning.apply plan false t₁ = .ok removed u) ∧
      Cleaning.CarriedOut t₁ v u plan files dirs := by
  have hw := h.left.wellFormed
  have hlist : ∀ root ∈ l.moduleRoots,
      (∃ names, t₁.list root = .ok names) ∨ t₁.list root = .error .notFound := by
    intro root hr
    by_cases hempty : root.text = ""
    · exact Or.inr (list_of_empty hempty)
    · have hfind := h.find_dir (List.mem_cons_of_mem _ hr) hempty
      exact Or.inl ⟨_, by rw [list, hfind]⟩
  obtain ⟨plan, hplan⟩ := Cleaning.exists_plan spec hlist
  have haccepted : ∀ p ∈ plan.files, p.Accepted := by
    intro p hp
    obtain ⟨owned, hmem, hfiles, -⟩ := Cleaning.plan_eq_ok hw h.straight hplan
    rw [hfiles, List.mem_append, List.mem_filter, List.mem_flatMap] at hp
    rcases hp with ⟨hin, hgen⟩ | ⟨dir, hdir, hp⟩
    · obtain ⟨k, bytes, hfind, -⟩ := isGenerated_eq_true_iff.mp hgen
      exact (find_eq_ok (h.straight.shared hin) hfind).1
    · obtain ⟨way, hne, ⟨e, hget⟩, -, -, rfl⟩ := (Cleaning.mem_files_partOf hw).mp hp
      obtain ⟨root, hr, r, n, -, hn, rfl⟩ := ((hmem dir).mp hdir).listed
      rw [place_join_name (hw.isName_of_mem_namesIn hn), h.place_eq, List.append_assoc] at hget
      obtain ⟨piece, hg⟩ := h.goes_of_below_module (n := n) hr hne (by simp_all)
      have ha := h.accepted hg
      rwa [hg.target_eq] at ha
  obtain ⟨removed, u, happly⟩ := Cleaning.exists_apply hw h.straight hplan haccepted
  obtain ⟨v, files, dirs, hc, -⟩ := Cleaning.carriedOut_of_apply hw h.straight hplan happly
  exact ⟨plan, v, u, files, dirs, hplan, ⟨removed, happly⟩, hc⟩

/-- What another run aims at is no file after the first one, unless both aim at it. -/
theorem no_file_above (h : FirstRun t t₁ s c l i spec) (h' : FirstRun t t₂ s' c l i spec)
    {k : Location} (hk : IsAbove t (pieces s' c l i spec) k) (bytes : List UInt8) :
    t₁.get? k ≠ some (.file bytes) := by
  intro hget
  by_cases habove : IsAbove t (pieces s c l i spec) k
  · rw [h.left.above k habove] at hget
    cases hget
  · have haim : aimedAt t (pieces s c l i spec) k = [] := by
      refine List.filter_eq_nil_iff.mpr fun q hq heq => ?_
      obtain ⟨d, w, hg⟩ := goes_of_mem_pieces hq
      rw [← of_decide_eq_true heq] at hk
      exact hg.not_isAbove h.plain h'.plain h.apart hk
    rw [h.left.get?_eq k habove, haim, ontoAll_nil] at hget
    exact h'.left.no_file k hk bytes hget

/-- After the cleaning, nothing is in the way to what another run brings out. -/
theorem open_after_cleaning (h : FirstRun t t₁ s c l i spec) (h' : FirstRun t t₂ s' c l i spec)
    (hplan : Cleaning.plan t₁ l spec = .ok plan)
    (hc : Cleaning.CarriedOut t₁ v u plan files dirs) (hg : Goes s' c l i spec dir way piece) :
    u.Open piece.target := by
  have hw := h.left.wellFormed
  have hin := hg.mem_pieces h'.plain h'.straight h'.apart
  have hhome : u.home = t.home := hc.taken.home.trans h.left.home
  have hopen := open_of_stands h'.left.wellFormed
    (hg.ofFile (hg.straight h'.plain h'.straight)).named (h'.accepted hg)
    (by rw [h'.place_eq]; exact h'.left.stands hin)
  have hinit : Goes s c l i spec dir ["__init__.py"] (.package dir) := .package hg.mem_packageDirs
  have hget := h.get?_package hg.mem_packageDirs
  have hstands : u.get? (t.place (Output.initFile dir)) ≠ none := fun hgone =>
    h.not_stale_package hg.mem_packageDirs ((hc.gone_iff_stale hw h.straight hplan hget).mp hgone)
  have hstart := (open_of_stands hc.taken.wellFormed
    (hinit.ofFile (hinit.straight h.plain h.straight)).named (h.accepted hinit)
    (by rw [place_congr hhome]; exact hstands)).start
  rw [start, hinit.isAbsolute_target h.plain, ← hg.isAbsolute_target h'.plain, ← start] at hstart
  refine ⟨h'.accepted hg, hopen.short, hstart, ?_⟩
  rw [place_congr hhome]
  intro k hk hne bytes hfile
  exact h.no_file_above h' ⟨piece, hin, hk, hne⟩ bytes (hc.taken.get?_of_some hfile)

/-- A run succeeds after the cleaning if it succeeds where nothing stands. -/
theorem exists_performAll_after_cleaning (h : FirstRun t t₁ s c l i spec)
    (h' : FirstRun t t₂ s' c l i spec) (hplan : Cleaning.plan t₁ l spec = .ok plan)
    (hc : Cleaning.CarriedOut t₁ v u plan files dirs) :
    ∃ outcomes t₃, Output.performAll false (pieces s' c l i spec) u = .ok outcomes t₃ := by
  have hhome : u.home = t.home := hc.taken.home.trans h.left.home
  refine exists_performAll_pieces hc.taken.wellFormed h'.plain h'.straight (h'.apart.congr hhome)
    ?_ ?_
  · intro piece hin
    obtain ⟨dir, way, hg⟩ := goes_of_mem_pieces hin
    exact h.open_after_cleaning h' hplan hc hg
  · intro d hin hdir
    obtain ⟨dir, way, hg⟩ := goes_of_mem_pieces hin
    have hnot : ¬ IsAbove t (pieces s c l i spec) (t.place (Piece.mark d spec).target) :=
      hg.not_isAbove h'.plain h.plain h.apart
    have hbare := h'.get?_bare h'.plain hg
    rw [Piece.target] at hnot hbare
    have hget := hc.taken.get?_of_some hdir
    rw [place_congr hhome, h.left.get?_eq _ hnot, ontoAll_eq_directory_iff, hbare] at hget
    cases hget

end FirstRun

/-- Where a specification has been generated, another one can be generated with a cleaning if it can
be generated where nothing stands. -/
theorem exists_clean_run {root : Path} (h : FirstRun t t₁ s c (Layout.of root c) i spec)
    (h' : FirstRun t t₂ s' c (Layout.of root c) i spec) (himports : c.resolveImports = .ok i) :
    ∃ plan v u files dirs report t₃, Cleaning.plan t₁ (Layout.of root c) spec = .ok plan ∧
      Cleaning.CarriedOut t₁ v u plan files dirs ∧
      Output.AllLeft u t₃ (pieces s' c (Layout.of root c) i spec) ∧
      run s' c ⟨root, spec, true, false⟩ t₁ = .ok report t₃ := by
  obtain ⟨plan, v, u, files, dirs, hplan, ⟨removed, happly⟩, hc⟩ := h.exists_removals
  obtain ⟨outcomes, t₃, hall⟩ := h.exists_performAll_after_cleaning h' hplan hc
  let j : Job := ⟨s', c, root, spec, true, false⟩
  have hremovals := removals_of_apply (j := j) rfl rfl hplan happly
  have hrun := run_of_removals (j := j) rfl himports hremovals hall
  have hleft := Output.allLeft_performAll hc.taken.wellFormed
    (fun piece => ofFile_of_mem_pieces h'.plain h'.straight) hall
  exact ⟨plan, v, u, files, dirs, _, t₃, hplan, hc, hleft, hrun⟩

/-- Where a specification has been generated, generating another one with a cleaning leaves what this
one alone would have left, and the drafts of the first one. -/
theorem clean_run_is_fresh_but_for_drafts {root : Path} {clean clean' : Bool} {text : String}
    {report₁ report₂ : Report} (hw : t.WellFormed) (hparse : Spec.parse text = .ok s)
    (hs : s.Plain) (hs' : s'.Plain) (hl : (Layout.of root c).Straight)
    (ha : (Layout.of root c).Apart t) (hbare : (Layout.of root c).Bare t)
    (hspelled : ∀ dir ∈ (Layout.of root c).moduleRoots, dir.text ≠ "")
    (hreads : originInText? (stampText spec) = some (originOf spec))
    (hrun₁ : run s c ⟨root, spec, clean, false⟩ t = .ok report₁ t₁)
    (hrun₂ : run s' c ⟨root, spec, clean', false⟩ t = .ok report₂ t₂) :
    ∃ report t₃, run s' c ⟨root, spec, true, false⟩ t₁ = .ok report t₃ ∧
      t₂.WithDrafts t₃ s c (Layout.of root c) := by
  obtain ⟨i, himports, h⟩ := firstRun_of_run hw hbare hs hl ha hrun₁
  obtain ⟨i', himports', h'⟩ := firstRun_of_run hw hbare hs' hl ha hrun₂
  rw [himports] at himports'
  cases himports'
  have hnodup := Spec.nodup_fileKey_of_parse hparse
  obtain ⟨plan, v, u, files, dirs, report, t₃, hplan, hc, h₃, hrun⟩ := exists_clean_run h h' himports
  have hu := h.allLeft_residue hnodup hreads hspelled hplan hc
  exact ⟨report, t₃, hrun, h.withDrafts h' hnodup hu h₃⟩

def invoiceSpecText : String :=
  "[\x7b\"className\": \"Invoice\", \"tableName\": \"invoices\", \"moduleName\": \"sales\"\x7d]"

def invoice : Entity := ⟨"Invoice", "invoices", "sales", "", "Invoice", [], [], [], true, true⟩

theorem plain_invoice : (Spec.mk [] [invoice]).Plain := by decide +kernel

theorem nameable_invoice : (Spec.mk [] [invoice]).Nameable := by decide +kernel

def invoiceJob : Job := { orderJob with spec := ⟨[], [invoice]⟩ }

theorem exists_run_invoiceJob : ∃ report t',
    run invoiceJob.spec invoiceJob.config invoiceJob.options ⟨[], []⟩ = .ok report t' := by
  obtain ⟨-, hstraight, hapart⟩ := orderJob_apart
  obtain ⟨hroomy, hresolve⟩ := orderJob_roomy
  exact exists_run (by decide) plain_invoice nameable_invoice hstraight hapart hroomy rfl rfl hresolve

theorem invoices_after_orders : ∃ report₁ t₁ report₂ t₂ report t₃,
    run orderJob.spec orderJob.config orderJob.options ⟨[], []⟩ = .ok report₁ t₁ ∧
    run invoiceJob.spec orderJob.config orderJob.options ⟨[], []⟩ = .ok report₂ t₂ ∧
    run invoiceJob.spec orderJob.config ⟨⟨"out"⟩, .ofText "specs/shop.json", true, false⟩ t₁ =
      .ok report t₃ ∧
    t₂.WithDrafts t₃ orderJob.spec orderJob.config orderJob.layout := by
  obtain ⟨report₁, t₁, hrun₁⟩ := exists_run_orderJob
  obtain ⟨report₂, t₂, hrun₂⟩ := exists_run_invoiceJob
  obtain ⟨hplain, hstraight, hapart⟩ := orderJob_apart
  obtain ⟨report, t₃, hrun, hdrafts⟩ := clean_run_is_fresh_but_for_drafts (by decide)
    parse_orderSpecText hplain plain_invoice hstraight hapart
    (Layout.bare_of_entries (by decide)) (by decide +kernel) (by decide +kernel) hrun₁ hrun₂
  exact ⟨report₁, t₁, report₂, t₂, report, t₃, hrun₁, hrun₂, hrun, hdrafts⟩

/-! ### Roots that cannot be listed -/

/-- A cleaning passes over the modules of a root that is spelled as the empty path. -/
theorem FirstRun.not_stale_below_unlisted {root : Path} {n : String} {w : List String}
    {bytes : List UInt8} (h : FirstRun t t₁ s c l i spec) (hr : root ∈ l.moduleRoots)
    (hempty : root.text = "") (hne : w ≠ []) :
    ¬ Cleaning.Stale t₁ l spec (t.place root ++ n :: w) bytes := by
  have hin := List.mem_cons_of_mem l.enumsDir hr
  rintro (⟨p, hp, hfind, -⟩ | ⟨⟨p, way, hb⟩, -⟩)
  · obtain ⟨dir, hd, m, -, hplace⟩ := h.place_shared hp
    have heq := (find_eq_ok (h.straight.shared hp) hfind).2.1
    rw [h.place_eq, hplace] at heq
    obtain rfl := h.apart.eq_of_prefix_append hin hd ⟨[], by rw [List.append_nil, heq]⟩
    exact hne (List.cons.inj (List.append_cancel_left heq)).2
  · obtain ⟨root', hr', m, hspelled, heq⟩ := h.exists_root_of_below hb
    obtain rfl := h.apart.eq_of_prefix_append hin (List.mem_cons_of_mem _ hr')
      ⟨[], by rw [List.append_nil, heq]⟩
    exact hspelled hempty

/-- A configuration that puts the models right into the directory that paths start from. -/
def scattered : Config :=
  { appDir := "", genPaths := ⟨"/gen/enums", "", "/gen/schemas", "/gen/services", "/gen/api"⟩ }

def scatteredLayout : Layout := .of ⟨""⟩ scattered

def scatteredJob (s : Spec) : Job := ⟨s, scattered, ⟨""⟩, .ofText "specs/shop.json", false, false⟩

def workTree : FileTree := ⟨[(["work"], .directory)], ["work"]⟩

theorem scatteredLayout_apart : scatteredLayout.Straight ∧ scatteredLayout.Apart workTree := by
  decide +kernel

theorem scatteredLayout_roomy : scatteredLayout.Roomy workTree ∧
    scattered.resolveImports.toOption.isSome = true := by decide +kernel

theorem exists_run_scatteredJob {s : Spec} (hs : s.Plain) (hn : s.Nameable) :
    ∃ report t', run s scattered ⟨⟨""⟩, .ofText "specs/shop.json", false, false⟩ workTree =
      .ok report t' := by
  obtain ⟨hstraight, hapart⟩ := scatteredLayout_apart
  obtain ⟨hroomy, hresolve⟩ := scatteredLayout_roomy
  exact exists_run (j := scatteredJob s) (by decide) hs hn hstraight hapart hroomy rfl rfl hresolve

/-- The cleaning does not reach the model of a module that is dropped. -/
theorem dropped_module_stays : ∃ report₁ t₁ report₂ t₂ report t₃,
    Spec.parse orderSpecText = .ok ⟨[], [order]⟩ ∧
    Spec.parse invoiceSpecText = .ok ⟨[], [invoice]⟩ ∧
    run ⟨[], [order]⟩ scattered ⟨⟨""⟩, .ofText "specs/shop.json", false, false⟩ workTree =
      .ok report₁ t₁ ∧
    run ⟨[], [invoice]⟩ scattered ⟨⟨""⟩, .ofText "specs/shop.json", false, false⟩ workTree =
      .ok report₂ t₂ ∧
    run ⟨[], [invoice]⟩ scattered ⟨⟨""⟩, .ofText "specs/shop.json", true, false⟩ t₁ = .ok report t₃ ∧
    t₃.get? ["work", "shop", "order.py"] ≠ none ∧
    ¬ t₂.WithDrafts t₃ ⟨[], [order]⟩ scattered scatteredLayout := by
  have hw : workTree.WellFormed := by decide
  have hbare : scatteredLayout.Bare workTree := Layout.bare_of_entries (by decide)
  obtain ⟨hs, -, -⟩ := orderJob_apart
  obtain ⟨hstraight, hapart⟩ := scatteredLayout_apart
  obtain ⟨report₁, t₁, hrun₁⟩ := exists_run_scatteredJob hs nameable_order
  obtain ⟨report₂, t₂, hrun₂⟩ := exists_run_scatteredJob plain_invoice nameable_invoice
  obtain ⟨i, himports, h⟩ := firstRun_of_run hw hbare hs hstraight hapart hrun₁
  obtain ⟨i', himports', h'⟩ := firstRun_of_run hw hbare plain_invoice hstraight hapart hrun₂
  rw [himports] at himports'
  cases himports'
  obtain ⟨plan, v, u, files, dirs, report, t₃, hplan, hc, h₃, hrun⟩ := exists_clean_run h h' himports
  have hmodels : scatteredLayout.modelsDir ∈ scatteredLayout.moduleRoots := by
    simp [Layout.moduleRoots]
  have hplace : workTree.place scatteredLayout.modelsDir = ["work"] := by decide
  have hstands : ∃ bytes, t₁.get? ["work", "shop", "order.py"] = some (.file bytes) := by
    have hmodel : (scatteredLayout.modelsDir, ".py", Artifact.model order scatteredLayout i) ∈
        entityTexts scattered scatteredLayout i order := by
      simp [entityTexts]
    have hg : Goes ⟨[], [order]⟩ scattered scatteredLayout i (.ofText "specs/shop.json")
        scatteredLayout.modelsDir ["shop", order.fileStem ++ ".py"]
        (.generated (Layout.fileIn scatteredLayout.modelsDir order ".py")
          (Artifact.model order scatteredLayout i)) :=
      .file (List.mem_singleton.mpr rfl) hmodel
    have hway : order.fileStem ++ ".py" = "order.py" := by decide
    obtain ⟨bytes, hfile⟩ := h.exists_file hg
    rw [hg.place_eq hs, hplace, hway] at hfile
    exact ⟨bytes, hfile⟩
  obtain ⟨bytes, hfile⟩ := hstands
  have hnot : ∀ t : FileTree, t.home = workTree.home → ∀ piece ∈ pieces ⟨[], [invoice]⟩ scattered
      scatteredLayout i (.ofText "specs/shop.json"),
      ¬ ["work", "shop", "order.py"] <+: t.place piece.target := by
    intro t hhome piece hin
    obtain ⟨dir, way, hg⟩ := goes_of_mem_pieces hin
    have hout := hg.target_mem_outputs (j := scatteredJob ⟨[], [invoice]⟩)
    have hnone : ∀ p ∈ (scatteredJob ⟨[], [invoice]⟩).outputs,
        ¬ ["work", "shop", "order.py"] <+: workTree.place p := by decide +kernel
    rw [place_congr hhome]
    exact hnone _ hout
  have hkept : t₃.get? ["work", "shop", "order.py"] ≠ none := by
    rw [get?_of_no_target h₃ (hnot u (hc.taken.home.trans h.left.home))]
    intro hgone
    have hstale := (hc.gone_iff_stale h.left.wellFormed hstraight hplan hfile).mp hgone
    have hspared : ¬ Cleaning.Stale t₁ scatteredLayout (.ofText "specs/shop.json")
        (workTree.place scatteredLayout.modelsDir ++ "shop" :: ["order.py"]) bytes :=
      h.not_stale_below_unlisted hmodels rfl (by simp)
    rw [hplace] at hspared
    exact hspared hstale
  refine ⟨report₁, t₁, report₂, t₂, report, t₃, parse_orderSpecText,
    eq_ok_of_toOption (by decide +kernel), hrun₁, hrun₂, hrun, hkept, ?_⟩
  intro hdrafts
  refine hkept ?_
  have hregistered : scattered.hasExtension order = false := by decide
  rw [hdrafts.others _ (by simp [hregistered]), get?_of_no_target h'.left (hnot workTree rfl)]
  decide

end Generation

end CrudBackend
