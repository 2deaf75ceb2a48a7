import CrudBackend.Proofs.Output.Put

/-!
What a list of pieces makes of a tree. What stands at the target of a piece afterwards depends on
nothing but what stood there before, so every location can be followed by itself: the pieces that
aim at it act on its entry one after the other, and locations above a target become directories.
Targets may coincide and may lie within each other.
-/

namespace CrudBackend

open FileTree Ownership

def Ownership.originInBytes? (bytes : List UInt8) : Option String :=
  (Text.decode? bytes).bind originInText?

/-- Something stands there, and it is no generated file. -/
def Unmarked (e : Option Entry) : Prop :=
  e ≠ none ∧ ∀ bytes, e = some (.file bytes) → isMarked bytes = false

namespace Piece

def ActsOn : Piece → Option Entry → Prop
  | generated _ _, e => ¬ Unmarked e
  | mark _ spec, e => ∀ bytes, e = some (.file bytes) → ∀ owner,
    originInBytes? bytes = some owner → owner = originOf spec
  | _, e => e = none

/-- What a piece leaves at its target, given what it finds there. -/
def onto : Piece → Option Entry → Option Entry
  | generated _ text, none => some (.file (Text.encode text))
  | generated _ text, some (.file bytes) =>
    if isMarked bytes then some (.file (Text.encode text)) else some (.file bytes)
  | draft _ text, none => some (.file (Text.encode text))
  | package _, none => some (.file (Text.encode Output.initText))
  | mark _ spec, none => some (.file (Text.encode (stampText spec)))
  | mark _ spec, some (.file bytes) =>
    if ∀ owner, originInBytes? bytes = some owner → owner = originOf spec then
      some (.file (Text.encode (stampText spec)))
    else some (.file bytes)
  | _, e => e

def ontoAll (pieces : List Piece) (e : Option Entry) : Option Entry :=
  pieces.foldl (fun e piece => piece.onto e) e

def aimedAt (t : FileTree) (pieces : List Piece) (l : Location) : List Piece :=
  pieces.filter fun piece => t.place piece.target = l

def IsAbove (t : FileTree) (pieces : List Piece) (l : Location) : Prop :=
  ∃ piece ∈ pieces, l <+: t.place piece.target ∧ l ≠ t.place piece.target

variable {piece : Piece} {pieces rest : List Piece} {e : Option Entry} {t t' : FileTree}
  {l : Location}

theorem onto_eq_directory_iff : piece.onto e = some .directory ↔ e = some .directory := by
  cases piece <;> rcases e with - | - | bytes <;> simp only [onto] <;> (try split_ifs) <;> simp

theorem onto_ne_none (piece : Piece) (e : Option Entry) : piece.onto e ≠ none := by
  cases piece <;> rcases e with - | - | bytes <;> simp only [onto] <;> (try split_ifs) <;> simp

/-- Any piece is put where nothing stands. -/
theorem actsOn_none (piece : Piece) : piece.ActsOn none := by
  cases piece with
  | generated p text => exact fun h => h.1 rfl
  | mark dir spec => exact fun bytes h => by cases h
  | _ => rfl

/-- Only a mark takes a directory for nothing. -/
theorem actsOn_directory_iff :
    piece.ActsOn (some .directory) ↔ ∃ dir spec, piece = .mark dir spec := by
  cases piece with
  | generated p text => simp [ActsOn, Unmarked]
  | _ => simp [ActsOn]

theorem onto_of_actsOn (h : piece.ActsOn e) (hfree : e ≠ some .directory) :
    piece.onto e = some (.file (Text.encode piece.text)) := by
  rcases e with - | - | bytes
  · cases piece <;> rfl
  · exact absurd rfl hfree
  · cases piece with
    | generated p text =>
      refine if_pos ?_
      by_contra hbytes
      exact h ⟨by simp, by simpa using hbytes⟩
    | mark dir spec => exact if_pos (h bytes rfl)
    | _ => cases h

theorem onto_of_not_actsOn (h : ¬ piece.ActsOn e) : piece.onto e = e ∧ e ≠ none := by
  rcases e with - | - | bytes
  · exact absurd (actsOn_none piece) h
  · exact ⟨onto_eq_directory_iff.mpr rfl, by simp⟩
  · refine ⟨?_, by simp⟩
    cases piece with
    | generated p text =>
      refine if_neg fun hmarked => h fun hunmarked => ?_
      rw [hunmarked.2 bytes rfl] at hmarked
      cases hmarked
    | mark dir spec =>
      refine if_neg fun hown => h fun bytes' heq => ?_
      cases heq
      exact hown
    | _ => rfl

@[simp] theorem ontoAll_nil (e : Option Entry) : ontoAll [] e = e := rfl

@[simp] theorem ontoAll_cons (piece : Piece) (rest : List Piece) (e : Option Entry) :
    ontoAll (piece :: rest) e = ontoAll rest (piece.onto e) := rfl

theorem ontoAll_append (pieces rest : List Piece) (e : Option Entry) :
    ontoAll (pieces ++ rest) e = ontoAll rest (ontoAll pieces e) := List.foldl_append

theorem ontoAll_eq_directory_iff : ontoAll pieces e = some .directory ↔ e = some .directory := by
  induction pieces generalizing e with
  | nil => rfl
  | cons piece rest ih => rw [ontoAll_cons, ih, onto_eq_directory_iff]

theorem ontoAll_ne_none (he : e ≠ none ∨ pieces ≠ []) : ontoAll pieces e ≠ none := by
  rcases List.eq_nil_or_concat pieces with rfl | ⟨before, piece, rfl⟩
  · exact he.resolve_right fun h => h rfl
  · rw [List.concat_eq_append, ontoAll_append]
    exact onto_ne_none _ _

theorem ontoAll_aimedAt_cons (t : FileTree) (piece : Piece) (rest : List Piece) (l : Location)
    (e : Option Entry) : ontoAll (aimedAt t (piece :: rest) l) e =
      ontoAll (aimedAt t rest l) (if t.place piece.target = l then piece.onto e else e) := by
  by_cases h : t.place piece.target = l
  · simp [aimedAt, h]
  · simp [aimedAt, h]

theorem aimedAt_congr (h : t'.home = t.home) : aimedAt t' pieces l = aimedAt t pieces l := by
  simp only [aimedAt, place_congr h]

theorem isAbove_cons : IsAbove t (piece :: rest) l ↔
    (l <+: t.place piece.target ∧ l ≠ t.place piece.target) ∨ IsAbove t rest l := by
  simp only [IsAbove, List.mem_cons, exists_eq_or_imp]

theorem isAbove_congr (h : t'.home = t.home) : IsAbove t' pieces l ↔ IsAbove t pieces l := by
  simp only [IsAbove, place_congr h]

end Piece

open Piece

variable {t t' : FileTree} {piece : Piece} {pieces : List Piece} {p dir : Path} {spec : RawPath}
  {text : String} {outcome : Option Outcome} {outcomes : List Outcome}

/-! ### One piece -/

namespace Output

theorem originOfDirectory?_eq (hw : t.WellFormed) (hp : (stampFile dir).OfFile)
    (ha : (stampFile dir).Accepted) : originOfDirectory? t dir =
      match t.get? (t.place (stampFile dir)) with
      | some (.file bytes) => originInBytes? bytes
      | _ => none := by
  have hread : ∀ bytes, t.readBytes (stampFile dir) = .ok bytes ↔ _ := fun _ =>
    readBytes_eq_ok_iff hw hp.straight
  unfold originOfDirectory? readText originInBytes?
  cases hfound : t.readBytes (stampFile dir) with
  | ok bytes =>
    rw [((hread bytes).mp hfound).2.2.2]
    dsimp only
    cases Text.decode? bytes <;> rfl
  | error fault =>
    dsimp only
    split
    · next bytes hget =>
      rw [(hread bytes).mpr ⟨ha, hp.named, hp.closed, hget⟩] at hfound
      cases hfound
    · rfl

theorem accepted_of_originOfDirectory? (hw : t.WellFormed) (hp : (stampFile dir).OfFile)
    {owner : String} (h : originOfDirectory? t dir = some owner) : (stampFile dir).Accepted := by
  unfold originOfDirectory? readText at h
  cases hfound : t.readBytes (stampFile dir) with
  | ok bytes => exact ((readBytes_eq_ok_iff hw hp.straight).mp hfound).1
  | error fault =>
    rw [hfound] at h
    cases h

structure Left (t t' : FileTree) (piece : Piece) : Prop where
  brought : t.Brought t' piece.target (piece.onto (t.get? (t.place piece.target)))
  accepted : piece.target.Accepted
  not_marked : ∀ dir spec, piece = .mark dir spec →
    t.get? (t.place piece.target) ≠ some .directory

theorem Left.directory (h : Left t t' piece) {l : Location} (hget : t.get? l = some .directory) :
    t'.get? l = some .directory := by
  rw [h.brought.get?_eq]
  split_ifs with heq
  · rw [onto_eq_directory_iff, ← heq, hget]
  · rfl
  · exact hget

/-- Whether a piece acts shows in what stands at its target. -/
theorem acts_iff (hw : t.WellFormed) (hp : piece.target.OfFile) (ha : piece.target.Accepted) :
    piece.Acts t ↔ piece.ActsOn (t.get? (t.place piece.target)) := by
  have hexists : t.pathExists piece.target = true ↔ t.get? (t.place piece.target) ≠ none := by
    rw [pathExists_iff hw hp, and_iff_right ha]
  cases piece with
  | generated p text =>
    have hgenerated : isGenerated t p = true ↔ _ :=
      (isGenerated_iff hw hp).trans (and_iff_right ha)
    refine not_congr (and_congr hexists ?_)
    rw [← Bool.not_eq_true, hgenerated, not_exists]
    exact forall_congr' fun bytes => by simp
  | draft p text => exact (not_congr hexists).trans not_not
  | package dir => exact (not_congr hexists).trans not_not
  | mark dir spec =>
    rw [Acts, ActsOn, originOfDirectory?_eq hw hp ha, target]
    rcases t.get? (t.place (stampFile dir)) with - | - | bytes <;> simp

theorem accepted_of_not_acts (hw : t.WellFormed) (hp : piece.target.OfFile)
    (h : ¬ piece.Acts t) : piece.target.Accepted := by
  cases piece with
  | generated p text => exact ((pathExists_iff hw hp).mp (not_not.mp h).1).1
  | draft p text => exact ((pathExists_iff hw hp).mp (not_not.mp h)).1
  | package dir => exact ((pathExists_iff hw hp).mp (not_not.mp h)).1
  | mark dir spec =>
    rw [Acts] at h
    push Not at h
    obtain ⟨owner, howner, -⟩ := h
    exact accepted_of_originOfDirectory? hw hp howner

theorem left_perform (hw : t.WellFormed) (hp : piece.target.OfFile)
    (h : perform false piece t = .ok outcome t') : Left t t' piece := by
  obtain ⟨-, ⟨hacts, hput⟩ | ⟨hkeep, rfl⟩⟩ := perform_eq_ok h
  · obtain ⟨hbrought, ha, hfree⟩ := put_eq_ok hw hp hput
    rw [acts_iff hw hp ha] at hacts
    exact ⟨(onto_of_actsOn hacts hfree).symm ▸ hbrought, ha, fun _ _ _ => hfree⟩
  · have ha := accepted_of_not_acts hw hp hkeep
    rw [acts_iff hw hp ha] at hkeep
    obtain ⟨honto, hstands⟩ := onto_of_not_actsOn hkeep
    refine ⟨honto.symm ▸ .refl hw hstands, ha, fun dir spec hmark hdir => hkeep ?_⟩
    rw [hdir]
    exact actsOn_directory_iff.mpr ⟨dir, spec, hmark⟩

/-- A piece can be brought out if nothing is in the way, unless a directory stands for a mark. -/
theorem perform_of_open (hw : t.WellFormed) (hp : piece.target.OfFile) (ho : t.Open piece.target)
    (hmark : ∀ dir spec, piece = .mark dir spec →
      t.get? (t.place piece.target) ≠ some .directory) :
    ∃ outcome t', perform false piece t = .ok outcome t' := by
  rw [perform_eq]
  by_cases hacts : piece.Acts t
  · have hfree : t.get? (t.place piece.target) ≠ some .directory := by
      intro hdir
      rw [acts_iff hw hp ho.accepted, hdir, actsOn_directory_iff] at hacts
      obtain ⟨dir, spec, heq⟩ := hacts
      exact hmark dir spec heq hdir
    obtain ⟨s, hs⟩ := put_of_open hw hp ho hfree
    exact ⟨_, s, (if_pos hacts).trans (Disk.bind_ok hs)⟩
  · exact ⟨_, t, if_neg hacts⟩

/-! ### Pieces one after the other -/

/-- What pieces that are brought out leave, location by location. -/
structure AllLeft (t t' : FileTree) (pieces : List Piece) : Prop where
  wellFormed : t'.WellFormed
  home : t'.home = t.home
  accepted : ∀ piece ∈ pieces, piece.target.Accepted
  above : ∀ l, IsAbove t pieces l → t'.get? l = some .directory
  no_file : ∀ l, IsAbove t pieces l → ∀ bytes, t.get? l ≠ some (.file bytes)
  get?_eq : ∀ l, ¬ IsAbove t pieces l → t'.get? l = ontoAll (aimedAt t pieces l) (t.get? l)
  not_marked : ∀ dir spec, .mark dir spec ∈ pieces →
    t'.get? (t.place (stampFile dir)) ≠ some .directory

/-- Locations away from the targets are as they were, but for directories above targets. -/
theorem allLeft_performAll (hw : t.WellFormed) (hpieces : ∀ piece ∈ pieces, piece.target.OfFile)
    (h : performAll false pieces t = .ok outcomes t') : AllLeft t t' pieces := by
  induction pieces generalizing t outcomes with
  | nil =>
    have hnone : ∀ l, ¬ IsAbove t [] l := by
      rintro l ⟨piece, hin, -⟩
      cases hin
    cases h
    exact ⟨hw, rfl, by simp, fun l h => absurd h (hnone l), fun l h => absurd h (hnone l),
      fun _ _ => rfl, by simp⟩
  | cons piece rest ih =>
    obtain ⟨outcome, s, hfirst, hrest⟩ := Disk.bind_eq_ok h
    obtain ⟨more, s', hmore, hlast⟩ := Disk.bind_eq_ok hrest
    cases hlast
    obtain ⟨hbrought, ha, hmark⟩ := left_perform hw (hpieces piece (List.mem_cons_self ..)) hfirst
    have hall := ih hbrought.wellFormed (fun q hq => hpieces q (List.mem_cons_of_mem _ hq)) hmore
    have hhome := hbrought.home
    -- A directory stays one, whatever pieces aim at it.
    have hstays : ∀ l, s.get? l = some .directory → t'.get? l = some .directory := by
      intro l hdir
      by_cases habove : IsAbove s rest l
      · exact hall.above l habove
      · rw [hall.get?_eq l habove, ontoAll_eq_directory_iff]
        exact hdir
    -- A file stays one too, so no later target lies below it.
    have hfile : ∀ l bytes, s.get? l = some (.file bytes) → ¬ IsAbove t rest l := fun l bytes hget h =>
      hall.no_file l ((isAbove_congr hhome).mpr h) bytes hget
    refine ⟨hall.wellFormed, hall.home.trans hhome, ?_, ?_, ?_, ?_, ?_⟩
    · intro q hq
      rcases List.mem_cons.mp hq with rfl | hq
      · exact ha
      · exact hall.accepted q hq
    · intro l habove
      rcases isAbove_cons.mp habove with ⟨hl, hne⟩ | habove
      · exact hstays l (hbrought.get?_above hl hne)
      · exact hall.above l ((isAbove_congr hhome).mpr habove)
    · intro l habove bytes hget
      rcases isAbove_cons.mp habove with ⟨hl, hne⟩ | habove
      · exact hbrought.no_file l hl hne bytes hget
      · by_cases hl : l <+: t.place piece.target
        · by_cases heq : l = t.place piece.target
          · have hplace := hbrought.get?_place
            rw [← heq, hget] at hplace
            obtain ⟨e, he⟩ := Option.ne_none_iff_exists'.mp
              (onto_ne_none piece (some (.file bytes)))
            cases e with
            | directory => cases onto_eq_directory_iff.mp he
            | file bytes' => exact hfile l bytes' (hplace.trans he) habove
          · exact hbrought.no_file l hl heq bytes hget
        · exact hfile l bytes ((hbrought.get?_other hl).trans hget) habove
    · intro l hnot
      rw [isAbove_cons, not_or] at hnot
      rw [hall.get?_eq l fun habove => hnot.2 ((isAbove_congr hhome).mp habove),
        aimedAt_congr hhome, ontoAll_aimedAt_cons]
      split_ifs with hl
      · rw [← hl, hbrought.get?_place]
      · rw [hbrought.get?_other fun hpre => hnot.1 ⟨hpre, Ne.symm hl⟩]
    · intro dir spec hin hdir
      rcases List.mem_cons.mp hin with rfl | hin
      · have hfree := hmark dir spec rfl
        have hplace := hbrought.get?_place
        obtain ⟨e, he⟩ := Option.ne_none_iff_exists'.mp
          (onto_ne_none (.mark dir spec) (t.get? (t.place (stampFile dir))))
        have hget : s.get? (t.place (stampFile dir)) = some e := hplace.trans he
        cases e with
        | directory => exact hfree (onto_eq_directory_iff.mp he)
        | file bytes =>
          have hnot := hfile _ bytes hget
          rw [hall.get?_eq _ fun h => hnot ((isAbove_congr hhome).mp h),
            ontoAll_eq_directory_iff, hget] at hdir
          cases hdir
      · exact hall.not_marked dir spec hin (by rw [place_congr hhome]; exact hdir)

/-- What stood under the targets stands there, or something else does. -/
theorem AllLeft.stands (h : AllLeft t t' pieces) (hin : piece ∈ pieces) :
    t'.get? (t.place piece.target) ≠ none := by
  by_cases habove : IsAbove t pieces (t.place piece.target)
  · simp [h.above _ habove]
  · rw [h.get?_eq _ habove]
    refine ontoAll_ne_none (Or.inr (List.ne_nil_of_mem (a := piece) ?_))
    exact List.mem_filter.mpr ⟨hin, decide_eq_true rfl⟩

/-- A path stays open unless a piece puts a file above its place. -/
theorem Left.open (h : Left t t' piece) (ho : t.Open p)
    (hnest : t.place piece.target <+: t.place p → t.place piece.target ≠ t.place p →
      t.get? (t.place piece.target) = some .directory) : t'.Open p := by
  have hhome := h.brought.home
  refine ⟨ho.accepted, ho.short, ?_, ?_⟩
  · rw [start, hhome]
    exact h.directory ho.start
  · rw [place_congr hhome]
    intro k hk hne bytes hget
    rw [h.brought.get?_eq] at hget
    split_ifs at hget with heq habove
    · rw [heq] at hk hne
      rw [onto_eq_directory_iff.mpr (hnest hk hne)] at hget
      cases hget
    · cases hget
    · exact ho.no_file k hk hne bytes hget

/-- Pieces can be brought out if nothing is in the way to any of them, and if what lies above a
target is a directory already wherever it is a target itself. -/
theorem exists_performAll (hw : t.WellFormed) (hpieces : ∀ piece ∈ pieces, piece.target.OfFile)
    (ho : ∀ piece ∈ pieces, t.Open piece.target)
    (hnest : ∀ piece ∈ pieces, IsAbove t pieces (t.place piece.target) →
      t.get? (t.place piece.target) = some .directory)
    (hmark : ∀ dir spec, .mark dir spec ∈ pieces →
      t.get? (t.place (stampFile dir)) ≠ some .directory) :
    ∃ outcomes t', performAll false pieces t = .ok outcomes t' := by
  induction pieces generalizing t with
  | nil => exact ⟨[], t, rfl⟩
  | cons piece rest ih =>
    have hfirst := hpieces piece (List.mem_cons_self ..)
    obtain ⟨outcome, s, hrun⟩ := perform_of_open hw hfirst (ho piece (List.mem_cons_self ..))
      fun dir spec heq => by
        subst heq
        exact hmark dir spec (List.mem_cons_self ..)
    have hleft := left_perform hw hfirst hrun
    have hhome := hleft.brought.home
    have hopen : ∀ q ∈ rest, s.Open q.target := by
      intro q hq
      refine hleft.open (ho q (List.mem_cons_of_mem _ hq)) fun hl hne => ?_
      exact hnest piece (List.mem_cons_self ..) ⟨q, List.mem_cons_of_mem _ hq, hl, hne⟩
    have hdirs : ∀ q ∈ rest, IsAbove s rest (s.place q.target) →
        s.get? (s.place q.target) = some .directory := by
      intro q hq habove
      rw [isAbove_congr hhome, place_congr hhome] at habove
      rw [place_congr hhome]
      exact hleft.directory
        (hnest q (List.mem_cons_of_mem _ hq) (isAbove_cons.mpr (Or.inr habove)))
    have hfree : ∀ dir spec, .mark dir spec ∈ rest →
        s.get? (s.place (stampFile dir)) ≠ some .directory := by
      intro dir spec hin hdir
      have hbefore := hmark dir spec (List.mem_cons_of_mem _ hin)
      rw [place_congr hhome, hleft.brought.get?_eq] at hdir
      split_ifs at hdir with heq habove
      · rw [onto_eq_directory_iff, ← heq] at hdir
        exact hbefore hdir
      · exact hbefore (hnest (.mark dir spec) (List.mem_cons_of_mem _ hin)
          (isAbove_cons.mpr (Or.inl ⟨habove, heq⟩)))
      · exact hbefore hdir
    obtain ⟨outcomes, t', hrest⟩ := ih hleft.brought.wellFormed
      (fun q hq => hpieces q (List.mem_cons_of_mem _ hq)) hopen hdirs hfree
    exact ⟨_, t', (Disk.bind_ok hrun).trans (Disk.bind_ok hrest)⟩

end Output

end CrudBackend
