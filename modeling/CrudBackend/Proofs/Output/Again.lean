import CrudBackend.Proofs.Output.Targets

/-!
Pieces that act where pieces have acted before. Marks replace only what names their own origin or
none, and behind the last generated text that was put somewhere, each piece finds what it would
leave. So pieces that aim at one location leave their own output as it is.
-/

namespace CrudBackend

open FileTree Ownership

namespace Piece

/-- The piece is not a mark, and generates nothing that is not marked. -/
def Regular : Piece → Prop
  | generated _ text => isMarked (Text.encode text) = true
  | mark _ _ => False
  | _ => True

variable {piece : Piece} {pieces : List Piece} {e : Option Entry} {bytes : List UInt8}
  {spec : RawPath}

/-! ### Pieces that aim at one location -/

theorem onto_of_unmarked (hp : piece.Regular) (hb : isMarked bytes = false) :
    piece.onto (some (.file bytes)) = some (.file bytes) := by
  cases piece with
  | generated p text => simp [onto, hb]
  | draft p text => rfl
  | package dir => rfl
  | mark dir spec => exact hp.elim

theorem onto_of_marked (hp : piece.Regular) (hb : isMarked bytes = true) :
    ∃ bytes', piece.onto (some (.file bytes)) = some (.file bytes') ∧ isMarked bytes' = true := by
  cases piece with
  | generated p text => exact ⟨_, by simp [onto, hb], hp⟩
  | draft p text => exact ⟨bytes, rfl, hb⟩
  | package dir => exact ⟨bytes, rfl, hb⟩
  | mark dir spec => exact hp.elim

/-- Pieces that keep whatever they find keep it one after the other. -/
theorem ontoAll_of_keeping {entry : Entry}
    (h : ∀ q ∈ pieces, q.onto (some entry) = some entry) :
    ontoAll pieces (some entry) = some entry := by
  induction pieces with
  | nil => rfl
  | cons q rest ih =>
    rw [ontoAll_cons, h q (List.mem_cons_self ..)]
    exact ih fun r hr => h r (List.mem_cons_of_mem _ hr)

theorem ontoAll_of_marked (hp : ∀ piece ∈ pieces, piece.Regular) (hb : isMarked bytes = true) :
    ∃ bytes', ontoAll pieces (some (.file bytes)) = some (.file bytes') ∧
      isMarked bytes' = true := by
  induction pieces generalizing bytes with
  | nil => exact ⟨bytes, rfl, hb⟩
  | cons piece rest ih =>
    obtain ⟨bytes', hover, hb'⟩ := onto_of_marked (hp piece (List.mem_cons_self ..)) hb
    rw [ontoAll_cons, hover]
    exact ih (fun q hq => hp q (List.mem_cons_of_mem _ hq)) hb'

/-- A piece that has acted finds what it leaves, also when other pieces have come between. -/
theorem onto_ontoAll_onto (hp : piece.Regular) (hps : ∀ q ∈ pieces, q.Regular)
    (hfixed : ontoAll pieces e = e) : piece.onto (ontoAll pieces (piece.onto e)) = piece.onto e := by
  rcases e with - | - | bytes
  · have hnil : pieces = [] := by
      by_contra hne
      exact ontoAll_ne_none (Or.inr hne) hfixed
    subst hnil
    cases piece with
    | generated p text => exact if_pos hp
    | draft p text => rfl
    | package dir => rfl
    | mark dir spec => exact hp.elim
  · rw [onto_eq_directory_iff.mpr rfl, hfixed, onto_eq_directory_iff.mpr rfl]
  · by_cases hb : isMarked bytes = true
    · cases piece with
      | generated p text =>
        have hover : (generated p text).onto (some (.file bytes)) =
            some (.file (Text.encode text)) := if_pos hb
        obtain ⟨bytes', hall, hb'⟩ := ontoAll_of_marked hps hp
        rw [hover, hall]
        exact if_pos hb'
      | draft p text => exact congrArg _ hfixed
      | package dir => exact congrArg _ hfixed
      | mark dir spec => exact hp.elim
    · rw [onto_of_unmarked hp (Bool.not_eq_true _ ▸ hb), hfixed,
        onto_of_unmarked hp (Bool.not_eq_true _ ▸ hb)]

theorem ontoAll_ontoAll_of_regular (hp : ∀ piece ∈ pieces, piece.Regular) (e : Option Entry) :
    ontoAll pieces (ontoAll pieces e) = ontoAll pieces e := by
  induction pieces using List.reverseRecOn with
  | nil => rfl
  | append_singleton rest piece ih =>
    have hrest : ∀ q ∈ rest, q.Regular := fun q hq => hp q (List.mem_append_left _ hq)
    simp only [ontoAll_append, ontoAll_cons, ontoAll_nil]
    exact onto_ontoAll_onto (hp piece (by simp)) hrest (ih hrest)

theorem onto_onto_of_marks {dir dir' : Path} (e : Option Entry) :
    (mark dir spec).onto ((mark dir' spec).onto e) = (mark dir' spec).onto e := by
  have hstamp : (mark dir spec).onto (some (.file (Text.encode (stampText spec)))) =
      some (.file (Text.encode (stampText spec))) := by
    simp only [onto]
    split_ifs <;> rfl
  rcases e with - | - | bytes
  · exact hstamp
  · rfl
  · by_cases hown : ∀ owner, originInBytes? bytes = some owner → owner = originOf spec
    · have hover : (mark dir' spec).onto (some (.file bytes)) =
          some (.file (Text.encode (stampText spec))) := if_pos hown
      rw [hover]
      exact hstamp
    · have hover : ∀ d, (mark d spec).onto (some (.file bytes)) = some (.file bytes) :=
        fun d => if_neg hown
      rw [hover, hover]

theorem ontoAll_ontoAll_of_marks (hp : ∀ piece ∈ pieces, ∃ dir, piece = .mark dir spec)
    (e : Option Entry) : ontoAll pieces (ontoAll pieces e) = ontoAll pieces e := by
  cases pieces with
  | nil => rfl
  | cons piece rest =>
    obtain ⟨dir, rfl⟩ := hp piece (List.mem_cons_self ..)
    have hfixed : ∀ qs : List Piece, (∀ q ∈ qs, ∃ d, q = .mark d spec) →
        ontoAll qs ((mark dir spec).onto e) = (mark dir spec).onto e := by
      intro qs hqs
      induction qs with
      | nil => rfl
      | cons q qs ih =>
        obtain ⟨d, rfl⟩ := hqs q (List.mem_cons_self ..)
        rw [ontoAll_cons, onto_onto_of_marks]
        exact ih fun r hr => hqs r (List.mem_cons_of_mem _ hr)
    have hrest : ontoAll (.mark dir spec :: rest) e = (mark dir spec).onto e :=
      hfixed rest fun q hq => hp q (List.mem_cons_of_mem _ hq)
    rw [hrest, ontoAll_cons, onto_onto_of_marks]
    exact hrest

end Piece

open Piece

namespace Generation

variable {s : Spec} {c : Config} {l : Layout} {i : Imports} {dir : Path} {spec : RawPath}
  {way : List String} {t : FileTree} {piece : Piece}

theorem Goes.regular_or_mark (h : Goes s c l i spec dir way piece) :
    piece.Regular ∨ ∃ d, piece = .mark d spec := by
  have hmarked : ∀ p text, piece = .generated p text → isMarked (Text.encode text) = true := by
    rintro p text rfl
    exact isMarked_of_goes h
  cases h with
  | mark hr he => exact Or.inr ⟨_, rfl⟩
  | package hd => exact Or.inl trivial
  | modulePackage hr he => exact Or.inl trivial
  | draft he hx => exact Or.inl trivial
  | shared hs => exact Or.inl (hmarked _ _ rfl)
  | file he hf => exact Or.inl (hmarked _ _ rfl)

/-- A piece of a run leaves its own output as it is. -/
theorem Goes.onto_onto (h : Goes s c l i spec dir way piece) (e : Option Entry) :
    piece.onto (piece.onto e) = piece.onto e := by
  rcases h.regular_or_mark with hregular | ⟨d, rfl⟩
  · have hnone : ∀ q ∈ ([] : List Piece), q.Regular := by simp
    exact onto_ontoAll_onto hregular hnone rfl
  · exact onto_onto_of_marks e

/-- So do all pieces of a run that aim at one location. -/
theorem ontoAll_ontoAll_aimedAt
    (hp : ∀ piece ∈ pieces s c l i spec, piece.target.Straight) (k : Location) (e : Option Entry) :
    ontoAll (aimedAt t (pieces s c l i spec) k) (ontoAll (aimedAt t (pieces s c l i spec) k) e) =
      ontoAll (aimedAt t (pieces s c l i spec) k) e := by
  have haim : ∀ piece ∈ aimedAt t (pieces s c l i spec) k,
      piece.target.Straight ∧ (∃ dir way, Goes s c l i spec dir way piece) ∧
        t.place piece.target = k := by
    intro piece hin
    obtain ⟨hmem, hplace⟩ := List.mem_filter.mp hin
    exact ⟨hp piece hmem, goes_of_mem_pieces hmem, of_decide_eq_true hplace⟩
  -- Whether the location is one of marks can be seen from any piece that aims at it.
  by_cases hmark : ∃ piece ∈ aimedAt t (pieces s c l i spec) k, ∃ d, piece = .mark d spec
  · obtain ⟨m, hm, d, rfl⟩ := hmark
    obtain ⟨hmp, ⟨_, _, hmg⟩, hmk⟩ := haim _ hm
    have hmarks : ∀ piece ∈ aimedAt t (pieces s c l i spec) k, ∃ d, piece = .mark d spec := by
      intro piece hin
      obtain ⟨hpp, ⟨_, _, hg⟩, hk⟩ := haim piece hin
      refine hg.regular_or_mark.resolve_left fun hregular => ?_
      have heq := hg.ending_eq hpp hmg hmp (hk.trans hmk.symm)
      have hne : ".py" ≠ stampName := by decide
      cases piece with
      | mark d' spec' => exact hregular
      | _ => exact hne heq
    exact ontoAll_ontoAll_of_marks hmarks e
  · refine ontoAll_ontoAll_of_regular ?_ e
    intro piece hin
    obtain ⟨-, ⟨_, _, hg⟩, -⟩ := haim piece hin
    exact hg.regular_or_mark.resolve_right fun hm => hmark ⟨piece, hin, hm⟩

end Generation

end CrudBackend
