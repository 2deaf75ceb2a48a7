import CrudBackend.Generation
import CrudBackend.Proofs.Files.Place
import CrudBackend.Proofs.Output.Fate
import Mathlib.Data.List.Basic

/-!
The decisions of a real run beside those of a dry one. A real run decides on the tree that a piece
finds, a dry run on the tree that it was started on. What is told of pieces agrees if and only if
all decisions do: among pieces of one kind with one target a dry run takes the same decision each
time, so if the real one takes another one even once, the numbers of times the target is told of
differ.
-/

namespace CrudBackend

open FileTree Ownership Piece

namespace Output

/-- The pieces of a real run, each with the tree that it finds. -/
def encounters : FileTree → List Piece → List (Piece × FileTree)
  | _, [] => []
  | t, piece :: rest => (piece, t) :: encounters ((perform false piece).after t) rest

variable {s t t' u : FileTree} {piece : Piece} {pieces : List Piece} {outcomes : List Outcome}
  {p : Path} {spec : RawPath}

theorem map_fst_encounters (t : FileTree) (pieces : List Piece) :
    (encounters t pieces).map Prod.fst = pieces := by
  induction pieces generalizing t with
  | nil => rfl
  | cons piece rest ih => rw [encounters, List.map_cons, ih]

/-- A real run that gets through tells the fate of each piece on the tree that it finds. -/
theorem outcomes_eq_of_performAll (h : performAll false pieces t = .ok outcomes t') :
    outcomes = (encounters t pieces).filterMap fun x => x.1.fate x.2 := by
  induction pieces generalizing t outcomes with
  | nil =>
    cases h
    rfl
  | cons piece rest ih =>
    obtain ⟨outcome, s, more, hfirst, hrest, rfl⟩ := performAll_cons_eq_ok h
    rw [encounters, Disk.after_ok hfirst, ih hrest, (perform_eq_ok hfirst).1, List.filterMap_cons]
    cases piece.fate t <;> rfl

theorem filterMap_fate_eq (t u : FileTree) (pieces : List Piece) :
    pieces.filterMap (fate t) = (encounters u pieces).filterMap fun x => x.1.fate t := by
  conv_lhs => rw [← map_fst_encounters u pieces, List.filterMap_map]
  rfl

/-- What a piece finds is what the pieces before it leave. -/
theorem mem_encounters_iff (h : performAll false pieces t = .ok outcomes t') :
    (piece, s) ∈ encounters t pieces ↔ ∃ front back, pieces = front ++ piece :: back ∧
      s = (performAll false front).after t := by
  induction pieces generalizing t outcomes with
  | nil => simp [encounters]
  | cons first rest ih =>
    obtain ⟨outcome, v, more, hfirst, hrest, rfl⟩ := performAll_cons_eq_ok h
    have hafter : ∀ front, (performAll false (first :: front)).after t =
        (performAll false front).after v := by
      intro front
      have hcons : performAll false (first :: front) t = (do
          return outcome.toList ++ (← performAll false front) : Disk (List Outcome)) v :=
        Disk.bind_ok hfirst
      rw [Disk.after, hcons]
      cases hfront : performAll false front v with
      | ok found w => rw [Disk.bind_ok hfront, Disk.after_ok hfront]; rfl
      | error failure w => rw [Disk.bind_error hfront, Disk.after, hfront]
    rw [encounters, Disk.after_ok hfirst, List.mem_cons, ih hrest]
    constructor
    · rintro (heq | ⟨front, back, rfl, rfl⟩)
      · cases heq
        exact ⟨[], rest, rfl, rfl⟩
      · exact ⟨first :: front, back, rfl, (hafter front).symm⟩
    · rintro ⟨front, back, hsplit, hs⟩
      cases front with
      | nil =>
        cases hsplit
        exact Or.inl (Prod.ext rfl hs)
      | cons q front =>
        cases hsplit
        exact Or.inr ⟨front, back, rfl, hs.trans (hafter front)⟩

/-- A run that gets through all its pieces gets through the first ones. -/
theorem exists_performAll_front {front back : List Piece}
    (h : performAll false (front ++ back) t = .ok outcomes t') :
    ∃ found s, performAll false front t = .ok found s := by
  induction front generalizing t outcomes with
  | nil => exact ⟨[], t, rfl⟩
  | cons piece rest ih =>
    obtain ⟨outcome, s, more, hfirst, hrest, -⟩ := performAll_cons_eq_ok h
    obtain ⟨found, v, hfound⟩ := ih hrest
    exact ⟨_, v, (Disk.bind_ok hfirst).trans (Disk.bind_ok hfound)⟩

end Output

/-! ### Kinds of pieces with one target -/

namespace Piece

variable {t : FileTree} {piece other : Piece} {p : Path} {spec : RawPath}

def generatesAt (p : Path) : Piece → Bool
  | generated q _ => q == p
  | _ => false

def draftsAt (p : Path) : Piece → Bool
  | draft q _ => q == p
  | _ => false

def preparesAt (p : Path) : Piece → Bool
  | package dir => Output.initFile dir == p
  | mark dir _ => stampFile dir == p
  | _ => false

theorem exists_kind (piece : Piece) : ∃ p, piece.generatesAt p = true ∨ piece.draftsAt p = true ∨
    piece.preparesAt p = true := by
  refine ⟨piece.target, ?_⟩
  cases piece <;> simp [generatesAt, draftsAt, preparesAt, target]

theorem preparesAt_of_generatesAt (h : piece.generatesAt p = true) :
    piece.preparesAt p = false := by
  cases piece <;> simp_all [generatesAt, preparesAt]

def acts (t : FileTree) (piece : Piece) : Bool := decide (piece.Acts t)

theorem fate_eq_some_iff {o : Outcome} : piece.fate t = some o ↔
    piece.acts t = true ∧ piece.done = o ∨ piece.acts t = false ∧ piece.passedOver = some o := by
  rw [fate, acts]
  split_ifs with hacts <;> simp [hacts]

theorem done_eq_written_iff :
    piece.done = .written p ↔ (piece.generatesAt p || piece.preparesAt p) = true := by
  cases piece <;> simp [done, generatesAt, preparesAt, target]

theorem done_eq_drafted_iff : piece.done = .drafted p ↔ piece.draftsAt p = true := by
  cases piece <;> simp [done, draftsAt]

theorem passedOver_eq_skipped_iff :
    piece.passedOver = some (.skipped p) ↔ piece.generatesAt p = true := by
  cases piece <;> simp [passedOver, generatesAt]

theorem isSkipped_fate : (piece.fate t == some (.skipped p)) =
    (!piece.acts t && piece.generatesAt p) := by
  have hdone : piece.done ≠ .skipped p := by cases piece <;> simp [done]
  rw [Bool.eq_iff_iff, beq_iff_eq, fate_eq_some_iff, passedOver_eq_skipped_iff]
  simp [hdone]

theorem isDrafted_fate : (piece.fate t == some (.drafted p)) =
    (piece.acts t && piece.draftsAt p) := by
  have hpassed : piece.passedOver ≠ some (.drafted p) := by cases piece <;> simp [passedOver]
  rw [Bool.eq_iff_iff, beq_iff_eq, fate_eq_some_iff, done_eq_drafted_iff]
  simp [hpassed]

theorem isWritten_fate : (piece.fate t == some (.written p)) =
    (piece.acts t && (piece.generatesAt p || piece.preparesAt p)) := by
  have hpassed : piece.passedOver ≠ some (.written p) := by cases piece <;> simp [passedOver]
  rw [Bool.eq_iff_iff, beq_iff_eq, fate_eq_some_iff, done_eq_written_iff]
  simp [hpassed]

/-! ### One decision for one kind and one target -/

theorem acts_eq_of_generatesAt (h : piece.generatesAt p = true) (h' : other.generatesAt p = true) :
    piece.acts t = other.acts t := by
  cases piece with
  | generated q text =>
    cases other with
    | generated q' text' =>
      rw [generatesAt, beq_iff_eq] at h h'
      rw [h, h']
      rfl
    | _ => cases h'
  | _ => cases h

theorem acts_eq_of_draftsAt (h : piece.draftsAt p = true) (h' : other.draftsAt p = true) :
    piece.acts t = other.acts t := by
  cases piece with
  | draft q text =>
    cases other with
    | draft q' text' =>
      rw [draftsAt, beq_iff_eq] at h h'
      rw [h, h']
      rfl
    | _ => cases h'
  | _ => cases h

/-- No file both makes a directory a package and marks one. -/
theorem initFile_ne_stampFile (dir dir' : Path) : Output.initFile dir ≠ stampFile dir' := by
  intro h
  obtain ⟨cs, hcs⟩ := suffix_join dir "__init__.py"
  obtain ⟨ds, hds⟩ := suffix_join dir' stampName
  have htext : cs ++ "__init__.py".toList = ds ++ stampName.toList := by
    rw [← hcs, ← hds]
    exact congrArg (fun p => p.text.toList) h
  have hinit : "__init__.py".toList = "__init__.p".toList ++ ['y'] := by decide
  have hstamp : stampName.toList = ".codege".toList ++ ['n'] := by decide
  have hlast := congrArg List.getLast? htext
  rw [hinit, hstamp, ← List.append_assoc, ← List.append_assoc, List.getLast?_concat,
    List.getLast?_concat] at hlast
  exact absurd hlast (by decide)

theorem originOfDirectory?_congr {dir dir' : Path} (h : stampFile dir = stampFile dir') :
    originOfDirectory? t dir = originOfDirectory? t dir' := by
  unfold originOfDirectory?
  rw [h]

theorem preparesAt_package {dir : Path} :
    (package dir).preparesAt p = true ↔ Output.initFile dir = p := beq_iff_eq

theorem preparesAt_mark {dir : Path} :
    (mark dir spec).preparesAt p = true ↔ stampFile dir = p := beq_iff_eq

theorem acts_eq_of_preparesAt (hspec : ∀ dir spec', piece = .mark dir spec' → spec' = spec)
    (hspec' : ∀ dir spec', other = .mark dir spec' → spec' = spec)
    (h : piece.preparesAt p = true) (h' : other.preparesAt p = true) :
    piece.acts t = other.acts t := by
  cases piece with
  | package dir =>
    rw [preparesAt_package] at h
    cases other with
    | package dir' =>
      rw [preparesAt_package] at h'
      simp only [acts, Acts, h, h']
    | mark dir' spec' =>
      rw [preparesAt_mark] at h'
      exact absurd (h.trans h'.symm) (initFile_ne_stampFile dir dir')
    | _ => cases h'
  | mark dir spec' =>
    rw [preparesAt_mark] at h
    cases other with
    | package dir' =>
      rw [preparesAt_package] at h'
      exact absurd (h'.trans h.symm) (initFile_ne_stampFile dir' dir)
    | mark dir' spec'' =>
      rw [preparesAt_mark] at h'
      simp only [acts, Acts, originOfDirectory?_congr (h.trans h'.symm), hspec _ _ rfl,
        hspec' _ _ rfl]
    | _ => cases h'
  | _ => cases h

end Piece

namespace Generation

/-! ### What is told twice -/

section Counting

variable {α : Type} {a b kind kind' : α → Bool} {xs : List α}

/-- If one decision is the same on all elements of a kind and falls on them as often as another one,
the two are the same there. -/
theorem eq_of_countP_eq
    (hconst : ∀ x ∈ xs, ∀ y ∈ xs, kind x = true → kind y = true → a x = a y)
    (h : (xs.countP fun x => b x && kind x) = xs.countP fun x => a x && kind x) :
    ∀ x ∈ xs, kind x = true → b x = a x := by
  intro x hx hkind
  have hmem : x ∈ xs.filter kind := List.mem_filter.mpr ⟨hx, hkind⟩
  have hsame : ∀ y ∈ xs.filter kind, a y = a x := fun y hy =>
    hconst y (List.mem_filter.mp hy).1 x hx (List.mem_filter.mp hy).2 hkind
  rw [← List.countP_filter, ← List.countP_filter] at h
  cases ha : a x with
  | true =>
    rw [List.countP_eq_length.mpr fun y hy => (hsame y hy).trans ha] at h
    exact List.countP_eq_length.mp h x hmem
  | false =>
    have hnone : ∀ y ∈ xs.filter kind, ¬ a y = true := fun y hy => by simp [hsame y hy, ha]
    rw [List.countP_eq_zero.mpr hnone] at h
    simpa using List.countP_eq_zero.mp h x hmem

theorem countP_kinds (hapart : ∀ x, kind x = true → kind' x = false) :
    (xs.countP fun x => a x && (kind x || kind' x)) =
      (xs.countP fun x => a x && kind x) + xs.countP fun x => a x && kind' x := by
  induction xs with
  | nil => rfl
  | cons x xs ih =>
    have hx := hapart x
    rw [List.countP_cons, List.countP_cons, List.countP_cons, ih]
    cases a x <;> cases hk : kind x <;> cases hk' : kind' x <;> simp_all <;> omega

end Counting

variable {l : Layout} {xs : List (Piece × FileTree)} {t : FileTree} {p : Path} {spec : RawPath}
  {removed removed' : List Path} {outcomes outcomes' : List Outcome}

theorem report_eq_iff : report l outcomes removed = report l outcomes' removed' ↔
    (report l outcomes removed).written = (report l outcomes' removed').written ∧
    (report l outcomes removed).skipped = (report l outcomes' removed').skipped ∧
    (report l outcomes removed).scaffolded = (report l outcomes' removed').scaffolded ∧
    removed = removed' := by
  simp [report]

variable {fateOf fateOf' : Piece × FileTree → Option Outcome}

theorem count_written (p : Path) :
    (report l (xs.filterMap fateOf) removed).written.count p =
      xs.countP fun x => fateOf x == some (.written p) := by
  simp only [report, List.filterMap_filterMap, List.count_filterMap]
  refine List.countP_congr fun x _ => ?_
  rcases fateOf x with - | - | - | - | - <;> simp

theorem count_skipped (p : Path) :
    (report l (xs.filterMap fateOf) removed).skipped.count p =
      xs.countP fun x => fateOf x == some (.skipped p) := by
  simp only [report, List.filterMap_filterMap, List.count_filterMap]
  refine List.countP_congr fun x _ => ?_
  rcases fateOf x with - | - | - | - | - <;> simp

theorem count_scaffolded (p : Path) :
    (report l (xs.filterMap fateOf) removed).scaffolded.count p =
      xs.countP fun x => fateOf x == some (.drafted p) := by
  simp only [report, List.filterMap_filterMap, List.count_filterMap]
  refine List.countP_congr fun x _ => ?_
  rcases fateOf x with - | - | - | - | - <;> simp

/-- Reports on two decisions on each piece agree if and only if the decisions do, when the second
one is taken on one tree for all pieces. -/
theorem report_eq_iff_acts
    (hspec : ∀ x ∈ xs, ∀ dir spec', x.1 = .mark dir spec' → spec' = spec) :
    report l (xs.filterMap fun x => x.1.fate x.2) removed =
        report l (xs.filterMap fun x => x.1.fate t) removed' ↔
      (∀ x ∈ xs, x.1.Acts x.2 ↔ x.1.Acts t) ∧ removed = removed' := by
  have hacts : ∀ x : Piece × FileTree, (x.1.Acts x.2 ↔ x.1.Acts t) ↔
      x.1.acts x.2 = x.1.acts t := fun x => by simp [acts]
  constructor
  · intro h
    obtain ⟨hwritten, hskipped, hscaffolded, hremoved⟩ := report_eq_iff.mp h
    refine ⟨?_, hremoved⟩
    have hgenerated : ∀ p, ∀ x ∈ xs, x.1.generatesAt p = true → x.1.acts x.2 = x.1.acts t := by
      intro p x hx hkind
      have hcount := congrArg (List.count p) hskipped
      rw [count_skipped, count_skipped] at hcount
      simp only [isSkipped_fate] at hcount
      have hnot := eq_of_countP_eq (fun y _ z _ hy hz => by rw [acts_eq_of_generatesAt hy hz])
        hcount x hx hkind
      simpa using hnot
    have hdrafted : ∀ p, ∀ x ∈ xs, x.1.draftsAt p = true → x.1.acts x.2 = x.1.acts t := by
      intro p x hx hkind
      have hcount := congrArg (List.count p) hscaffolded
      rw [count_scaffolded, count_scaffolded] at hcount
      simp only [isDrafted_fate] at hcount
      exact eq_of_countP_eq (fun y _ z _ hy hz => acts_eq_of_draftsAt hy hz) hcount x hx hkind
    -- what is written are generated files, on which the decisions agree, and marks and packages
    have hprepared : ∀ p, ∀ x ∈ xs, x.1.preparesAt p = true → x.1.acts x.2 = x.1.acts t := by
      intro p x hx hkind
      have hcount := congrArg (List.count p) hwritten
      rw [count_written, count_written] at hcount
      simp only [isWritten_fate] at hcount
      rw [countP_kinds fun x => preparesAt_of_generatesAt,
        countP_kinds fun x => preparesAt_of_generatesAt] at hcount
      have hsame : (xs.countP fun x => x.1.acts x.2 && x.1.generatesAt p) =
          xs.countP fun x => x.1.acts t && x.1.generatesAt p := by
        refine List.countP_congr fun x hx => ?_
        cases hk : x.1.generatesAt p with
        | true => rw [hgenerated p x hx hk]
        | false => simp
      rw [hsame, Nat.add_left_cancel_iff] at hcount
      exact eq_of_countP_eq
        (fun y hy z hz hy' hz' => acts_eq_of_preparesAt (hspec y hy) (hspec z hz) hy' hz')
        hcount x hx hkind
    intro x hx
    rw [hacts]
    rcases exists_kind x.1 with ⟨p, hkind | hkind | hkind⟩
    · exact hgenerated p x hx hkind
    · exact hdrafted p x hx hkind
    · exact hprepared p x hx hkind
  · rintro ⟨halike, rfl⟩
    have hfate : ∀ x ∈ xs, x.1.fate x.2 = x.1.fate t := by
      intro x hx
      simp only [fate, halike x hx]
    rw [List.filterMap_congr hfate]

end Generation

end CrudBackend
