import CrudBackend.Output
import CrudBackend.Proofs.Disk

/-!
What becomes of a piece is settled by the tree that it finds. A piece that acts puts its text at its
target, unless the run is dry; any other piece leaves the tree as it is.
-/

namespace CrudBackend

open Ownership

namespace Piece

def text : Piece → String
  | generated _ text => text
  | draft _ text => text
  | package _ => Output.initText
  | mark _ spec => stampText spec

/-- The piece puts its text at its target. A generated file is put over nothing and over what is
generated, a mark over nothing and over a mark of the same origin, and anything else only where
nothing stands. -/
def Acts (t : FileTree) : Piece → Prop
  | generated p _ => ¬ (t.pathExists p = true ∧ isGenerated t p = false)
  | draft p _ => ¬ t.pathExists p = true
  | package dir => ¬ t.pathExists (Output.initFile dir) = true
  | mark dir spec => ∀ owner ∈ originOfDirectory? t dir, owner = originOf spec

instance (t : FileTree) (piece : Piece) : Decidable (piece.Acts t) :=
  match piece with
  | generated p _ =>
    inferInstanceAs (Decidable (¬ (t.pathExists p = true ∧ isGenerated t p = false)))
  | draft p _ => inferInstanceAs (Decidable (¬ t.pathExists p = true))
  | package dir => inferInstanceAs (Decidable (¬ t.pathExists (Output.initFile dir) = true))
  | mark dir spec =>
    inferInstanceAs (Decidable (∀ owner ∈ originOfDirectory? t dir, owner = originOf spec))

def done : Piece → Outcome
  | draft p _ => .drafted p
  | piece => .written piece.target

def passedOver : Piece → Option Outcome
  | generated p _ => some (.skipped p)
  | draft p _ => some (.kept p)
  | _ => none

def fate (t : FileTree) (piece : Piece) : Option Outcome :=
  if piece.Acts t then some piece.done else piece.passedOver

end Piece

open Piece

namespace Output

variable {t t' : FileTree} {piece : Piece} {pieces : List Piece} {dryRun : Bool}
  {outcome : Option Outcome} {outcomes : List Outcome} {p : Path} {text : String}

theorem writeGenerated_eq (dryRun : Bool) (p : Path) (text : String) (t : FileTree) :
    writeGenerated dryRun p text t =
      if (generated p text).Acts t then
        (do put dryRun p text; return some (.written p) : Disk (Option Outcome)) t
      else .ok (some (.skipped p)) t := by
  have hguard : (t.pathExists p && !isGenerated t p) = true ↔ ¬ (generated p text).Acts t := by
    simp [Acts]
  refine (Disk.bind_ok rfl).trans ?_
  by_cases hacts : (generated p text).Acts t
  · rw [if_neg (mt hguard.mp (not_not_intro hacts)), if_pos hacts]
  · rw [if_pos (hguard.mpr hacts), if_neg hacts]
    rfl

/-- What bringing out a piece comes to. -/
theorem perform_eq (dryRun : Bool) (piece : Piece) (t : FileTree) : perform dryRun piece t =
    if piece.Acts t then
      (do put dryRun piece.target piece.text; return some piece.done : Disk (Option Outcome)) t
    else .ok piece.passedOver t := by
  cases piece with
  | generated p text => exact writeGenerated_eq dryRun p text t
  | draft p text =>
    refine (Disk.bind_ok rfl).trans ?_
    by_cases hacts : (draft p text).Acts t
    · rw [if_neg hacts, if_pos hacts]
      rfl
    · rw [if_pos (not_not.mp hacts), if_neg hacts]
      rfl
  | package dir =>
    refine (Disk.bind_ok rfl).trans ?_
    by_cases hacts : (package dir).Acts t
    · have hwrites : (generated (initFile dir) initText).Acts t := fun hexists => hacts hexists.1
      rw [if_neg hacts, if_pos hacts, writeGenerated_eq, if_pos hwrites]
      rfl
    · rw [if_pos (not_not.mp hacts), if_neg hacts]
      rfl
  | mark dir spec =>
    refine (Disk.bind_ok rfl).trans ?_
    cases horigin : originOfDirectory? t dir with
    | none =>
      have hacts : (mark dir spec).Acts t := by simp [Acts, horigin]
      rw [if_pos hacts]
      rfl
    | some owner =>
      have howner : owner = originOf spec ↔ (mark dir spec).Acts t := by simp [Acts, horigin]
      by_cases hacts : (mark dir spec).Acts t
      · dsimp only
        rw [if_neg (not_not_intro (howner.mpr hacts)), if_pos hacts]
        rfl
      · dsimp only
        rw [if_pos (mt howner.mp hacts), if_neg hacts]
        rfl

/-- What bringing out a piece makes of the tree, whether it gets through or not. -/
theorem after_perform (dryRun : Bool) (piece : Piece) (t : FileTree) :
    (perform dryRun piece).after t =
      if piece.Acts t then (put dryRun piece.target piece.text).after t else t := by
  rw [Disk.after, perform_eq]
  split_ifs
  · cases h : put dryRun piece.target piece.text t with
    | ok u s => rw [Disk.bind_ok h, Disk.after_ok h]; rfl
    | error failure s => rw [Disk.bind_error h, Disk.after, h]
  · rfl

/-- A dry run tells what becomes of a piece and leaves the tree. -/
theorem perform_dry (piece : Piece) (t : FileTree) : perform true piece t = .ok (piece.fate t) t := by
  rw [perform_eq, fate]
  split_ifs <;> rfl

/-- A real run tells the same of it, if it gets that far. -/
theorem perform_eq_ok (h : perform dryRun piece t = .ok outcome t') : outcome = piece.fate t ∧
    (piece.Acts t ∧ put dryRun piece.target piece.text t = .ok () t' ∨
      ¬ piece.Acts t ∧ t' = t) := by
  rw [perform_eq] at h
  rw [fate]
  split_ifs at h ⊢ with hacts
  · obtain ⟨_, s, hput, hrest⟩ := Disk.bind_eq_ok h
    cases hrest
    exact ⟨rfl, Or.inl ⟨hacts, hput⟩⟩
  · cases h
    exact ⟨rfl, Or.inr ⟨hacts, rfl⟩⟩

/-- Only a draft piece makes a draft. -/
theorem put_of_drafted (h : perform dryRun piece t = .ok (some (.drafted p)) t') :
    ∃ text, piece = .draft p text ∧ put dryRun p text t = .ok () t' := by
  obtain ⟨hfate, hput⟩ := perform_eq_ok h
  rw [fate] at hfate
  split_ifs at hfate with hacts
  · cases piece with
    | draft q text =>
      cases hfate
      exact ⟨text, rfl, (hput.resolve_right fun hkeep => hkeep.1 hacts).2⟩
    | _ => cases hfate
  · cases piece <;> cases hfate

theorem performAll_cons_eq_ok {rest : List Piece}
    (h : performAll dryRun (piece :: rest) t = .ok outcomes t') :
    ∃ outcome s more, perform dryRun piece t = .ok outcome s ∧
      performAll dryRun rest s = .ok more t' ∧ outcomes = outcome.toList ++ more := by
  obtain ⟨outcome, s, hperform, hrest⟩ := Disk.bind_eq_ok h
  obtain ⟨more, s', hmore, hreturn⟩ := Disk.bind_eq_ok hrest
  cases hreturn
  exact ⟨outcome, s, more, hperform, hmore, rfl⟩

/-- A dry run takes every decision on the tree that it is started on. -/
theorem performAll_dry (pieces : List Piece) (t : FileTree) :
    performAll true pieces t = .ok (pieces.filterMap (fate t)) t := by
  induction pieces with
  | nil => rfl
  | cons piece rest ih =>
    refine (Disk.bind_ok (perform_dry piece t)).trans ((Disk.bind_ok ih).trans ?_)
    cases h : piece.fate t with
    | none => rw [List.filterMap_cons_none h]; rfl
    | some outcome => rw [List.filterMap_cons_some h]; rfl

end Output

end CrudBackend
