import CrudBackend.Proofs.Isolation
import CrudBackend.Proofs.Output.Fate

/-!
What the report of a run tells of the tree. Each piece that acts is told of, and each piece acts on
its target only, so whatever changes is listed. What is told of a piece when it is brought out still
holds when the run ends, for no later piece turns a generated file into another one or the other way
round. A path that is written is therefore none that was passed over or drafted.
-/

namespace CrudBackend

open FileTree Ownership Piece

/-- What an outcome tells of a tree, but for the files that mark directories: what is written is a
generated file, and what is passed over or drafted is none. -/
def Outcome.Holds (t : FileTree) : Outcome → Prop
  | written p => (t.place p).getLast? ≠ some stampName →
    ∃ bytes, t.get? (t.place p) = some (.file bytes) ∧ isMarked bytes = true
  | skipped p => (t.place p).getLast? ≠ some stampName ∧ Unmarked (t.get? (t.place p))
  | drafted p => (t.place p).getLast? ≠ some stampName ∧ Unmarked (t.get? (t.place p))
  | kept _ => True

def Outcome.IsPut (o : Outcome) : Prop := o = .written o.path ∨ o = .drafted o.path

namespace Piece

variable {pieces : List Piece} {e : Option Entry}

theorem isPut_done (piece : Piece) : piece.done.IsPut := by
  cases piece with
  | draft p text => exact Or.inr rfl
  | _ => exact Or.inl rfl

theorem path_done (piece : Piece) : piece.done.path = piece.target := by
  cases piece <;> rfl

/-- Only what is given as output is told of. -/
theorem path_of_mem_fate {t : FileTree} {piece : Piece} {o : Outcome} (h : o ∈ piece.fate t) :
    o.path = piece.target := by
  rw [fate] at h
  split_ifs at h
  · cases h
    exact piece.path_done
  · cases piece <;> cases h <;> rfl

theorem ontoAll_of_unmarked (hp : ∀ piece ∈ pieces, piece.Regular) (he : Unmarked e) :
    ontoAll pieces e = e := by
  cases e with
  | none => exact absurd rfl he.1
  | some entry =>
    refine Piece.ontoAll_of_keeping fun piece hin => ?_
    cases entry with
    | directory => exact onto_eq_directory_iff.mpr rfl
    | file bytes => exact onto_of_unmarked (hp piece hin) (he.2 bytes rfl)

end Piece

variable {s t t' : FileTree} {piece : Piece} {pieces rest : List Piece} {outcome : Option Outcome}
  {outcomes : List Outcome} {o : Outcome} {k : Location} {bytes : List UInt8} {p : Path}

/-- Whatever is written is neither passed over nor drafted. -/
theorem Outcome.Holds.place_ne {q : Path} (h : Outcome.Holds t (.written p))
    (h' : (t.place q).getLast? ≠ some stampName ∧ Unmarked (t.get? (t.place q))) :
    t.place p ≠ t.place q := by
  intro heq
  rw [← heq] at h'
  obtain ⟨bytes, hget, hmarked⟩ := h h'.1
  rw [h'.2.2 bytes hget] at hmarked
  cases hmarked

namespace Output

/-! ### Changes are told of -/

theorem exists_piece_of_mem {dryRun : Bool} (h : performAll dryRun pieces t = .ok outcomes t')
    (ho : o ∈ outcomes) : ∃ piece ∈ pieces, o.path = piece.target := by
  induction pieces generalizing t outcomes with
  | nil =>
    cases h
    cases ho
  | cons piece rest ih =>
    obtain ⟨outcome, s, more, hfirst, hrest, rfl⟩ := performAll_cons_eq_ok h
    rcases List.mem_append.mp ho with ho | ho
    · rw [Option.mem_toList, (perform_eq_ok hfirst).1] at ho
      exact ⟨piece, List.mem_cons_self .., path_of_mem_fate ho⟩
    · obtain ⟨q, hq, heq⟩ := ih hrest ho
      exact ⟨q, List.mem_cons_of_mem _ hq, heq⟩

/-- A file that is new or has new bytes is one that a text has been put to. -/
theorem changed_of_perform (hw : t.WellFormed) (hp : piece.target.OfFile)
    (h : perform false piece t = .ok outcome s) (hnew : s.get? k = some (.file bytes))
    (hold : t.get? k ≠ some (.file bytes)) : ∃ o ∈ outcome, o.IsPut ∧ k = t.place o.path := by
  obtain ⟨houtcome, ⟨hacts, hput⟩ | ⟨-, rfl⟩⟩ := perform_eq_ok h
  · rw [houtcome, fate, if_pos hacts]
    refine ⟨_, rfl, piece.isPut_done, ?_⟩
    rw [path_done]
    by_contra hne
    obtain ⟨hbrought, -⟩ := put_eq_ok hw hp hput
    rw [hbrought.get?_eq, if_neg hne] at hnew
    split_ifs at hnew with habove
    · cases hnew
    · exact hold hnew
  · exact absurd hnew hold

theorem changed_of_performAll (hw : t.WellFormed) (hp : ∀ piece ∈ pieces, piece.target.OfFile)
    (h : performAll false pieces t = .ok outcomes t') (hnew : t'.get? k = some (.file bytes))
    (hold : t.get? k ≠ some (.file bytes)) : ∃ o ∈ outcomes, o.IsPut ∧ k = t.place o.path := by
  induction pieces generalizing t outcomes with
  | nil =>
    cases h
    exact absurd hnew hold
  | cons piece rest ih =>
    obtain ⟨outcome, s, more, hfirst, hrest, rfl⟩ := performAll_cons_eq_ok h
    have hleft := left_perform hw (hp piece (List.mem_cons_self ..)) hfirst
    by_cases hs : s.get? k = some (.file bytes)
    · obtain ⟨o, ho, hput⟩ :=
        changed_of_perform hw (hp piece (List.mem_cons_self ..)) hfirst hs hold
      exact ⟨o, List.mem_append_left _ (Option.mem_toList.mpr ho), hput⟩
    · obtain ⟨o, ho, hput, hk⟩ := ih hleft.brought.wellFormed
        (fun q hq => hp q (List.mem_cons_of_mem _ hq)) hrest hs
      exact ⟨o, List.mem_append_right _ ho, hput, hk.trans (place_congr hleft.brought.home)⟩

/-- Nothing goes while pieces are brought out. -/
theorem AllLeft.stays (h : AllLeft t t' pieces) (hget : t.get? k ≠ none) : t'.get? k ≠ none := by
  by_cases habove : IsAbove t pieces k
  · rw [h.above k habove]
    simp
  · rw [h.get?_eq k habove]
    exact ontoAll_ne_none (Or.inl hget)

end Output

namespace Generation

variable {sp : Spec} {c : Config} {l : Layout} {i : Imports} {dir : Path} {spec : RawPath}
  {way : List String} {j : Job}

/-! ### What is told holds to the end -/

/-- Where no mark can stand, no mark is put. -/
theorem regular_of_mem_aimedAt (hps : ∀ piece ∈ pieces, ∃ dir way, Goes sp c l i spec dir way piece)
    (hk : k.getLast? ≠ some stampName) (hin : piece ∈ aimedAt t pieces k) : piece.Regular := by
  obtain ⟨hmem, hplace⟩ := List.mem_filter.mp hin
  obtain ⟨dir, way, hg⟩ := hps piece hmem
  rcases hg.regular_or_mark with hregular | ⟨d, rfl⟩
  · exact hregular
  · have hlast : (t.place (stampFile d)).getLast? = some stampName := by
      rw [Output.place_stampFile, List.getLast?_concat]
    exact absurd (of_decide_eq_true hplace ▸ hlast) hk

theorem stays_marked (hps : ∀ piece ∈ pieces, ∃ dir way, Goes sp c l i spec dir way piece)
    (hall : Output.AllLeft t t' pieces) (hk : k.getLast? ≠ some stampName)
    (hget : t.get? k = some (.file bytes)) (hmarked : isMarked bytes = true) :
    ∃ bytes', t'.get? k = some (.file bytes') ∧ isMarked bytes' = true := by
  have habove : ¬ IsAbove t pieces k := fun h => hall.no_file k h bytes hget
  rw [hall.get?_eq k habove, hget]
  exact ontoAll_of_marked (fun piece hin => regular_of_mem_aimedAt hps hk hin) hmarked

theorem stays_unmarked (hps : ∀ piece ∈ pieces, ∃ dir way, Goes sp c l i spec dir way piece)
    (hall : Output.AllLeft t t' pieces) (hk : k.getLast? ≠ some stampName)
    (hunmarked : Unmarked (t.get? k)) : Unmarked (t'.get? k) := by
  by_cases habove : IsAbove t pieces k
  · rw [hall.above k habove]
    exact ⟨by simp, by simp⟩
  · rw [hall.get?_eq k habove,
      ontoAll_of_unmarked (fun piece hin => regular_of_mem_aimedAt hps hk hin) hunmarked]
    exact hunmarked

theorem holds_of_allLeft (hps : ∀ piece ∈ pieces, ∃ dir way, Goes sp c l i spec dir way piece)
    (hall : Output.AllLeft t t' pieces) (h : o.Holds t) : o.Holds t' := by
  cases o with
  | written p =>
    intro hk
    rw [place_congr hall.home] at hk ⊢
    obtain ⟨bytes, hget, hmarked⟩ := h hk
    exact stays_marked hps hall hk hget hmarked
  | skipped p =>
    obtain ⟨hk, hunmarked⟩ := h
    rw [Outcome.Holds, place_congr hall.home]
    exact ⟨hk, stays_unmarked hps hall hk hunmarked⟩
  | drafted p =>
    obtain ⟨hk, hunmarked⟩ := h
    rw [Outcome.Holds, place_congr hall.home]
    exact ⟨hk, stays_unmarked hps hall hk hunmarked⟩
  | kept p => exact trivial

/-- Only marks have their places where marks stand. -/
theorem getLast?_place_ne (hg : Goes sp c l i spec dir way piece) (hp : piece.target.Straight)
    (hending : piece.ending = ".py") : (t.place piece.target).getLast? ≠ some stampName := by
  obtain ⟨n, hn, hsuffix⟩ := hg.getLast?_place hp t
  rw [hending] at hsuffix
  rw [hn]
  intro h
  rw [Option.some.inj h] at hsuffix
  exact absurd hsuffix (by decide)

/-- What is told of a piece that has been brought out holds. -/
theorem holds_of_perform (hw : t.WellFormed) (hg : Goes sp c l i spec dir way piece)
    (hp : piece.target.Straight) (h : Output.perform false piece t = .ok outcome s)
    (ho : o ∈ outcome) : o.Holds s := by
  have hlast := getLast?_place_ne (t := s) hg hp
  obtain ⟨rfl, ⟨hacts, hput⟩ | ⟨hkeep, rfl⟩⟩ := Output.perform_eq_ok h
  · rw [fate, if_pos hacts] at ho
    cases ho
    obtain ⟨hbrought, -⟩ := Output.put_eq_ok hw (hg.ofFile hp) hput
    have hput : s.get? (s.place piece.target) = some (.file (Text.encode piece.text)) := by
      rw [place_congr hbrought.home, hbrought.get?_place]
    cases piece with
    | generated p text => exact fun _ => ⟨_, hput, isMarked_of_goes hg⟩
    | package dir => exact fun _ => ⟨_, hput, Output.isMarked_initText⟩
    | mark dir spec =>
      have hstamp : (s.place (stampFile dir)).getLast? = some stampName := by
        rw [Output.place_stampFile, List.getLast?_concat]
      exact fun hk => absurd hstamp hk
    | draft p text =>
      have hdraft : s.get? (s.place p) = some (.file (Text.encode text)) := hput
      have hunmarked : Unmarked (s.get? (s.place p)) := by
        refine ⟨by simp [hdraft], fun bytes hbytes => ?_⟩
        rw [hdraft] at hbytes
        cases hbytes
        cases hg
        exact Artifact.isMarked_serviceImpl _ _
      exact ⟨hlast rfl, hunmarked⟩
  · rw [fate, if_neg hkeep] at ho
    cases piece with
    | generated p text =>
      cases ho
      have ha := Output.accepted_of_not_acts hw (hg.ofFile hp) hkeep
      rw [Output.acts_iff hw (hg.ofFile hp) ha] at hkeep
      exact ⟨hlast rfl, not_not.mp hkeep⟩
    | draft p text =>
      cases ho
      exact trivial
    | package dir => cases ho
    | mark dir spec => cases ho

/-- So does what is told of all pieces, when the last one has been brought out. -/
theorem holds_of_performAll (hw : t.WellFormed)
    (hps : ∀ piece ∈ pieces, ∃ dir way, Goes sp c l i spec dir way piece)
    (hp : ∀ piece ∈ pieces, piece.target.Straight)
    (h : Output.performAll false pieces t = .ok outcomes t') (ho : o ∈ outcomes) : o.Holds t' := by
  induction pieces generalizing t outcomes with
  | nil =>
    cases h
    cases ho
  | cons piece rest ih =>
    obtain ⟨outcome, s, more, hfirst, hrest, rfl⟩ := Output.performAll_cons_eq_ok h
    obtain ⟨dir, way, hg⟩ := hps piece (List.mem_cons_self ..)
    have hpiece := hp piece (List.mem_cons_self ..)
    have hps' := fun q hq => hps q (List.mem_cons_of_mem piece hq)
    have hp' := fun q hq => hp q (List.mem_cons_of_mem piece hq)
    have hws := (Output.left_perform hw (hg.ofFile hpiece) hfirst).brought.wellFormed
    rcases List.mem_append.mp ho with ho | ho
    · have hall : Output.AllLeft s t' rest := by
        refine Output.allLeft_performAll hws (fun q hq => ?_) hrest
        obtain ⟨d, w, hq'⟩ := hps' q hq
        exact hq'.ofFile (hp' q hq)
      exact holds_of_allLeft hps' hall
        (holds_of_perform hw hg hpiece hfirst (Option.mem_toList.mp ho))
    · exact ih hws hps' hp' hrest ho

/-! ### The report of a run -/

/-- The paths that are removed lead to what goes, each to an entry of its own. -/
theorem taken_of_removals {u : FileTree} {removed : List Path} (hw : t.WellFormed)
    (hl : j.layout.Straight) (hdry : j.options.dryRun = false)
    (h : j.removals t = .ok removed u) : t.Taken u (removed.map t.place) := by
  obtain ⟨plan, hplan, happly⟩ := apply_of_removals h
  rw [hdry] at happly
  rw [Job.plan] at hplan
  split_ifs at hplan
  · obtain ⟨v, files, dirs, hc, rfl⟩ := Cleaning.carriedOut_of_apply hw hl hplan happly
    exact hc.taken
  · cases hplan
    cases happly
    exact .refl hw

/-- The report of a run accounts for what the run has made of a tree. -/
structure Accounts (t t' : FileTree) (r : Report) : Prop where
  /-- A file that is new or has new bytes is listed. -/
  changed : ∀ k bytes, t'.get? k = some (.file bytes) → t.get? k ≠ some (.file bytes) →
    k ∈ r.written.map t.place ∨ k ∈ r.scaffolded.map t.place
  /-- So is whatever is gone. -/
  gone : ∀ k, t.get? k ≠ none → t'.get? k = none → k ∈ r.removed.map t.place
  /-- What is listed as removed has been there. -/
  stood : ∀ p ∈ r.removed, t.get? (t.place p) ≠ none
  /-- What is listed as written is recognized, but for the files that mark directories. -/
  recognized : ∀ p ∈ r.written, (t.place p).getLast? ≠ some stampName → isGenerated t' p = true
  /-- Nothing is listed as written that is passed over or drafted as well. -/
  written_once : ∀ p ∈ r.written,
    t.place p ∉ r.skipped.map t.place ∧ t.place p ∉ r.scaffolded.map t.place

theorem mem_report {removed : List Path} :
    (p ∈ (report l outcomes removed).written ↔ .written p ∈ outcomes) ∧
    (p ∈ (report l outcomes removed).skipped ↔ .skipped p ∈ outcomes) ∧
    (p ∈ (report l outcomes removed).scaffolded ↔ .drafted p ∈ outcomes) := by
  simp only [report, List.mem_filterMap]
  refine ⟨⟨?_, fun h => ⟨_, h, rfl⟩⟩, ⟨?_, fun h => ⟨_, h, rfl⟩⟩, ⟨?_, fun h => ⟨_, h, rfl⟩⟩⟩ <;>
  · rintro ⟨o, ho, heq⟩
    cases o <;> cases heq
    exact ho

/-- Take any real run that succeeds, with a cleaning or without one. Its report lists every file that
is new or has new bytes, and everything that is gone, and lists nothing as removed that was not
there. What it lists as written is recognized as generated when the run ends, unless it marks a
directory, and nothing of it is listed as passed over or drafted. -/
theorem report_accounts_for_changes {r : Report} (hw : t.WellFormed) (hj : j.Straight)
    (hdry : j.options.dryRun = false)
    (hrun : run j.spec j.config j.options t = .ok r t') : Accounts t t' r := by
  obtain ⟨imports, removed, u, outcomes, -, hremovals, hall, rfl⟩ := exists_of_run hdry hrun
  have htaken := taken_of_removals hw hj.layout hdry hremovals
  have hps : ∀ piece ∈ pieces j.spec j.config j.layout imports j.options.specPath,
      ∃ dir way, Goes j.spec j.config j.layout imports j.options.specPath dir way piece :=
    fun piece hin => goes_of_mem_pieces hin
  have hstraight : ∀ piece ∈ pieces j.spec j.config j.layout imports j.options.specPath,
      piece.target.Straight := fun piece hin => straight_target hj hin
  have hfile : ∀ piece ∈ pieces j.spec j.config j.layout imports j.options.specPath,
      piece.target.OfFile := by
    intro piece hin
    obtain ⟨dir, way, hg⟩ := hps piece hin
    exact hg.ofFile (hstraight piece hin)
  have hleft := Output.allLeft_performAll htaken.wellFormed hfile hall
  have hholds : ∀ o ∈ outcomes, o.Holds t' := fun o ho =>
    holds_of_performAll htaken.wellFormed hps hstraight hall ho
  have hplace : ∀ p, t'.place p = t.place p := fun p =>
    place_congr (hleft.home.trans htaken.home)
  have hplace' : ∀ p, u.place p = t.place p := fun p => place_congr htaken.home
  refine ⟨?_, ?_, ?_, ?_, ?_⟩
  · intro k bytes hnew hold
    have hold' : u.get? k ≠ some (.file bytes) := fun h => hold (htaken.get?_of_some h)
    obtain ⟨o, ho, hput, hk⟩ :=
      Output.changed_of_performAll htaken.wellFormed hfile hall hnew hold'
    rw [hplace'] at hk
    rcases hput with hwritten | hdrafted
    · rw [hwritten] at ho
      exact Or.inl (List.mem_map.mpr ⟨o.path, mem_report.1.mpr ho, hk.symm⟩)
    · rw [hdrafted] at ho
      exact Or.inr (List.mem_map.mpr ⟨o.path, mem_report.2.2.mpr ho, hk.symm⟩)
  · intro k hstood hgone
    have hnone : u.get? k = none := by
      by_contra hstays
      exact hleft.stays hstays hgone
    exact htaken.mem_iff.mpr ⟨hstood, hnone⟩
  · exact fun p hp => htaken.stood _ (List.mem_map_of_mem hp)
  · intro p hp hlast
    rw [mem_report.1] at hp
    obtain ⟨bytes, hget, hmarked⟩ := hholds _ hp (by rwa [hplace])
    obtain ⟨piece, hin, hpath⟩ := Output.exists_piece_of_mem hall hp
    have htarget : p = piece.target := hpath
    subst htarget
    exact (isGenerated_iff hleft.wellFormed (hfile piece hin)).mpr
      ⟨hleft.accepted piece hin, bytes, hget, hmarked⟩
  · intro p hp
    have hwritten := hholds _ (mem_report.1.mp hp)
    rw [List.mem_map, List.mem_map]
    constructor
    · rintro ⟨q, hq, heq⟩
      refine hwritten.place_ne (hholds _ (mem_report.2.1.mp hq)) ?_
      rw [hplace, hplace, heq]
    · rintro ⟨q, hq, heq⟩
      refine hwritten.place_ne (hholds _ (mem_report.2.2.mp hq)) ?_
      rw [hplace, hplace, heq]

theorem nested_run_is_accounted_for : ∃ r t',
    run itemJob.spec itemJob.config itemJob.options nestedTree = .ok r t' ∧
    Accounts nestedTree t' r := by
  obtain ⟨r, t', hrun⟩ := exists_run_nestedTree
  exact ⟨r, t', hrun,
    report_accounts_for_changes wellFormed_nestedTree itemJob_straight.1 rfl hrun⟩

end Generation

end CrudBackend
