import CrudBackend.Generation
import CrudBackend.Proofs.Cleaning.Plan
import CrudBackend.Proofs.Output.Fate

/-!
Hand-written files: those that neither begin with the marker nor mark a directory. Every step of a
run spares them, each for a reason of its own. A generated text goes where no file is found or a
generated one is, a draft where nothing is found, a mark under the name of marks, and the files that
a cleaning removes were found to be generated or marks.
-/

namespace CrudBackend

open FileTree Ownership

/-- A file stands at the location that a run must not touch. -/
structure FileTree.HandWritten (t : FileTree) (l : Location) (bytes : List UInt8) : Prop where
  stands : t.get? l = some (.file bytes)
  unmarked : isMarked bytes = false
  no_stamp : l.getLast? ≠ some stampName

theorem FileTree.HandWritten.ne_root {t : FileTree} {l : Location} {bytes : List UInt8}
    (hand : t.HandWritten l bytes) : l ≠ [] := by
  rintro rfl
  cases hand.stands

/-- A file that a path leads to is hand-written if it is neither recognized as generated nor named
like a mark. -/
theorem FileTree.handWritten_iff {t : FileTree} {p : Path} {bytes : List UInt8} (hw : t.WellFormed)
    (hp : p.Straight) (hread : t.readBytes p = .ok bytes) :
    t.HandWritten (t.place p) bytes ↔
      isGenerated t p = false ∧ (t.place p).getLast? ≠ some stampName := by
  have hget := ((readBytes_eq_ok_iff hw hp).mp hread).2.2.2
  have hgenerated : isGenerated t p = isMarked bytes := by rw [isGenerated, hread]
  rw [hgenerated]
  exact ⟨fun h => ⟨h.unmarked, h.no_stamp⟩, fun h => ⟨hget, h.1, h.2⟩⟩

/-- The second tree has all hand-written files of the first one. -/
structure FileTree.Spares (t t' : FileTree) : Prop where
  wellFormed : t'.WellFormed
  home : t'.home = t.home
  kept : ∀ l bytes, t.HandWritten l bytes → t'.get? l = some (.file bytes)

namespace FileTree.Spares

variable {r s t t' : FileTree} {p : Path}

theorem refl (hw : t.WellFormed) : t.Spares t := ⟨hw, rfl, fun _ _ h => h.stands⟩

theorem trans (h : r.Spares s) (h' : s.Spares t) : r.Spares t := by
  refine ⟨h'.wellFormed, h'.home.trans h.home, ?_⟩
  intro l bytes hand
  exact h'.kept l bytes ⟨h.kept l bytes hand, hand.unmarked, hand.no_stamp⟩

theorem handWritten (h : s.Spares t) {l : Location} {bytes : List UInt8}
    (hand : s.HandWritten l bytes) : t.HandWritten l bytes :=
  ⟨h.kept l bytes hand, hand.unmarked, hand.no_stamp⟩

theorem of_directoriesMade (h : t.DirectoriesMade t') : t.Spares t' :=
  ⟨h.wellFormed, h.home, fun _ _ hand => h.file_iff.mpr hand.stands⟩

/-- A file is put over nothing that is hand-written. -/
theorem put_file {l : Location} {text : List UInt8} (hw : (t.put l (.file text)).WellFormed)
    (hfree : ∀ bytes, ¬ t.HandWritten l bytes) : t.Spares (t.put l (.file text)) := by
  refine ⟨hw, rfl, ?_⟩
  intro k bytes hand
  have hne : k ≠ l := by
    rintro rfl
    exact hfree bytes hand
  rw [get?_put, if_neg hand.ne_root, if_neg hne]
  exact hand.stands

/-- Nothing hand-written is taken away. -/
theorem erase {l : Location} (hw : (t.erase l).WellFormed)
    (hfree : ∀ bytes, ¬ t.HandWritten l bytes) : t.Spares (t.erase l) := by
  refine ⟨hw, rfl, ?_⟩
  intro k bytes hand
  have hne : k ≠ l := by
    rintro rfl
    exact hfree bytes hand
  rw [get?_erase, if_neg hand.ne_root, if_neg hne]
  exact hand.stands

end FileTree.Spares

/-- However far the steps get, the rest of them spares what is hand-written by then. -/
def Sparing : FileTree → List (Disk Unit) → Prop
  | t, [] => t.WellFormed
  | t, step :: rest => t.WellFormed ∧ t.Spares (step.after t) ∧
      ∀ s, step t = .ok () s → Sparing s rest

namespace Sparing

variable {t : FileTree} {steps more : List (Disk Unit)}

theorem wellFormed (h : Sparing t steps) : t.WellFormed := by
  cases steps with
  | nil => exact h
  | cons step rest => exact h.1

theorem spares (h : Sparing t steps) : t.Spares ((Disk.inTurn steps).after t) := by
  induction steps generalizing t with
  | nil => exact .refl h
  | cons step rest ih => exact Disk.rel_bind .trans h.2.1 fun _ s hs _ => ih (h.2.2 s hs)

theorem append (h : Sparing t steps) (hmore : ∀ s, s.WellFormed → Sparing s more) :
    Sparing t (steps ++ more) := by
  induction steps generalizing t with
  | nil => exact hmore t h
  | cons step rest ih => exact ⟨h.1, h.2.1, fun s hs => ih (h.2.2 s hs)⟩

theorem left (h : Sparing t (steps ++ more)) : Sparing t steps := by
  induction steps generalizing t with
  | nil => exact h.wellFormed
  | cons step rest ih => exact ⟨h.1, h.2.1, fun s hs => ih (h.2.2 s hs)⟩

/-- What is hand-written when some of the steps have been taken is spared by the others. -/
theorem between (h : Sparing t (steps ++ more)) :
    ((Disk.inTurn steps).after t).Spares ((Disk.inTurn (steps ++ more)).after t) := by
  induction steps generalizing t with
  | nil => exact h.spares
  | cons step rest ih =>
    cases hstep : step t with
    | error failure s =>
      have hleft : (Disk.inTurn (step :: rest)).after t = s := by
        rw [Disk.after, Disk.inTurn, Disk.bind_error hstep]
      have hright : (Disk.inTurn (step :: rest ++ more)).after t = s := by
        rw [List.cons_append, Disk.after, Disk.inTurn, Disk.bind_error hstep]
      rw [hleft, hright]
      have hspares := h.2.1
      rw [Disk.after, hstep] at hspares
      exact .refl hspares.wellFormed
    | ok u s =>
      have hleft : (Disk.inTurn (step :: rest)).after t = (Disk.inTurn rest).after s := by
        rw [Disk.after, Disk.inTurn, Disk.bind_ok hstep, Disk.after]
      have hright : (Disk.inTurn (step :: rest ++ more)).after t =
          (Disk.inTurn (rest ++ more)).after s := by
        rw [List.cons_append, Disk.after, Disk.inTurn, Disk.bind_ok hstep, Disk.after]
      rw [hleft, hright]
      exact ih (h.2.2 s hstep)

/-- Steps of one kind spare what is hand-written if an invariant of theirs makes each do so. -/
theorem map {α : Type} {I : FileTree → Prop} {f : α → Disk Unit} {xs : List α}
    (hI : ∀ s, I s → s.WellFormed)
    (hstep : ∀ x ∈ xs, ∀ s, I s → s.Spares ((f x).after s) ∧ I ((f x).after s)) (ht : I t) :
    Sparing t (xs.map f) := by
  induction xs generalizing t with
  | nil => exact hI t ht
  | cons x rest ih =>
    obtain ⟨hspares, hnext⟩ := hstep x (List.mem_cons_self ..) t ht
    refine ⟨hI t ht, hspares, ?_⟩
    intro s hs
    rw [Disk.after_ok hs] at hnext
    exact ih (fun y hy => hstep y (List.mem_cons_of_mem _ hy)) hnext

end Sparing

variable {t t' : FileTree} {p dir : Path} {spec : RawPath} {dryRun : Bool} {text : String}

/-! ### Output -/

namespace Output

theorem pathExists_of_readBytes {bytes : List UInt8} (h : t.readBytes p = .ok bytes) :
    t.pathExists p = true := by
  unfold FileTree.readBytes at h
  unfold FileTree.pathExists
  cases hfind : t.find p with
  | error fault =>
    rw [hfind] at h
    cases h
  | ok found => rfl

theorem directoriesMade_makeParent (hw : t.WellFormed) :
    t.DirectoriesMade ((makeParent p).after t) := by
  unfold Disk.after makeParent
  cases p.parent? with
  | none => exact .refl hw
  | some dir =>
    by_cases hexists : t.pathExists dir = true
    · simp only [if_pos hexists]
      exact .refl hw
    · have hmade := directoriesMade_makeAll hw dir.ancestors
      simp only [if_neg hexists, FileTree.makeDirectories]
      cases hall : t.makeAll dir.ancestors with
      | mk s result =>
        rw [hall] at hmade
        cases result with
        | none => exact hmade
        | some fault => exact hmade

theorem put_eq (p : Path) (text : String) (t : FileTree) : put false p text t =
    match makeParent p t with
    | .ok _ s =>
      match s.writeBytes p (Text.encode text) with
      | .ok s' => .ok () s'
      | .error fault => .error (.files p fault) s
    | .error failure s => .error failure s := by
  cases hmake : makeParent p t with
  | error failure s => exact Disk.bind_error hmake
  | ok u s =>
    refine (Disk.bind_ok hmake).trans ?_
    cases hwrite : s.writeBytes p (Text.encode text) <;> simp only [hwrite]

/-- However far it gets, a text that is put has had directories made for it, and may have been
written. -/
theorem after_put (hw : t.WellFormed) (dryRun : Bool) (p : Path) (text : String) :
    ∃ s, t.DirectoriesMade s ∧ ((put dryRun p text).after t = s ∨
      s.writeBytes p (Text.encode text) = .ok ((put dryRun p text).after t)) := by
  cases dryRun with
  | true => exact ⟨t, .refl hw, Or.inl rfl⟩
  | false =>
    have hmade := directoriesMade_makeParent (p := p) hw
    rw [Disk.after, put_eq]
    cases hmake : makeParent p t with
    | error failure s =>
      rw [Disk.after, hmake] at hmade
      exact ⟨s, hmade, Or.inl rfl⟩
    | ok u s =>
      rw [Disk.after_ok hmake] at hmade
      refine ⟨s, hmade, ?_⟩
      dsimp only
      cases hwrite : s.writeBytes p (Text.encode text) with
      | error fault => exact Or.inl rfl
      | ok s' => exact Or.inr rfl

/-- A text that has been put has been written when its directory had been made. -/
theorem writeBytes_of_put (hw : t.WellFormed) (h : put false p text t = .ok () t') :
    ∃ s, makeParent p t = .ok () s ∧ t.DirectoriesMade s ∧
      s.writeBytes p (Text.encode text) = .ok t' := by
  have hmade := directoriesMade_makeParent (p := p) hw
  rw [put_eq] at h
  cases hmake : makeParent p t with
  | error failure s =>
    rw [hmake] at h
    cases h
  | ok u s =>
    rw [Disk.after_ok hmake] at hmade
    refine ⟨s, rfl, hmade, ?_⟩
    rw [hmake] at h
    dsimp only at h
    cases hwrite : s.writeBytes p (Text.encode text) with
    | error fault =>
      rw [hwrite] at h
      cases h
    | ok s' =>
      rw [hwrite] at h
      cases h
      rfl

/-- A text is put where nothing hand-written is found. -/
theorem spares_put (hw : t.WellFormed) (hp : p.Straight)
    (hover : ∀ bytes, t.readBytes p = .ok bytes →
      isMarked bytes = true ∨ (t.place p).getLast? = some stampName) :
    t.Spares ((put dryRun p text).after t) := by
  obtain ⟨s, hmade, hafter | hwrite⟩ := after_put hw dryRun p text
  · exact hafter ▸ .of_directoriesMade hmade
  · have hw' := hmade.wellFormed.writeBytes hwrite
    obtain ⟨d, name, haim, hopen, -, -, hput⟩ := writeBytes_eq_ok hmade.wellFormed hwrite
    rw [hput] at hw' ⊢
    refine (FileTree.Spares.of_directoriesMade hmade).trans (.put_file hw' ?_)
    intro bytes hand
    have hplace := haim.place_eq hp
    rw [place_congr hmade.home] at hplace
    have hget := hmade.file_iff.mp hand.stands
    rw [← hplace] at hget
    have hread := (readBytes_eq_ok_iff hw hp).mpr ⟨haim.accepted, haim.named, hopen, hget⟩
    rcases hover bytes hread with hmark | hstamp
    · rw [hand.unmarked] at hmark
      cases hmark
    · exact hand.no_stamp (hplace ▸ hstamp)

theorem isName_stampName : IsName stampName := by decide

theorem place_stampFile (t : FileTree) (dir : Path) :
    t.place (stampFile dir) = t.place dir ++ [stampName] := place_join_name isName_stampName

/-- What a piece is put over is a generated file or a mark. -/
theorem over_of_acts {piece : Piece} {bytes : List UInt8} (hacts : piece.Acts t)
    (hread : t.readBytes piece.target = .ok bytes) :
    isMarked bytes = true ∨ (t.place piece.target).getLast? = some stampName := by
  have hexists := pathExists_of_readBytes hread
  cases piece with
  | generated p text =>
    have hgenerated : isGenerated t p = isMarked bytes := by
      rw [isGenerated, show t.readBytes p = .ok bytes from hread]
    refine Or.inl ?_
    rw [← hgenerated]
    by_contra hunmarked
    exact hacts ⟨hexists, Bool.not_eq_true _ ▸ hunmarked⟩
  | draft p text => exact absurd hexists hacts
  | package dir => exact absurd hexists hacts
  | mark dir spec =>
    refine Or.inr ?_
    rw [Piece.target, place_stampFile, List.getLast?_concat]

theorem spares_perform (hw : t.WellFormed) (piece : Piece) (hp : piece.target.Straight) :
    t.Spares ((perform dryRun piece).after t) := by
  rw [after_perform]
  split_ifs with hacts
  · exact spares_put hw hp fun _ hread => over_of_acts hacts hread
  · exact .refl hw

theorem sparing_perform (hw : t.WellFormed) (pieces : List Piece)
    (hp : ∀ piece ∈ pieces, piece.target.Straight) :
    Sparing t (pieces.map fun piece => Disk.quiet (perform dryRun piece)) := by
  refine .map (fun _ h => h) ?_ hw
  intro piece hpiece s hs
  rw [Disk.after_quiet]
  have hspares : s.Spares ((perform dryRun piece).after s) :=
    spares_perform hs piece (hp piece hpiece)
  exact ⟨hspares, hspares.wellFormed⟩

theorem spares_performAll (hw : t.WellFormed) (pieces : List Piece)
    (hp : ∀ piece ∈ pieces, piece.target.Straight) :
    t.Spares ((performAll dryRun pieces).after t) := by
  rw [← Disk.after_quiet, Disk.quiet_performAll]
  exact (sparing_perform hw pieces hp).spares

end Output

/-! ### Cleaning -/

namespace Cleaning

variable {l : Layout} {plan : CleanPlan}

/-- Nothing hand-written stands where the path leads. -/
def Disposable (t : FileTree) (p : Path) : Prop :=
  p.Straight ∧ ∀ bytes, ¬ t.HandWritten (t.place p) bytes

theorem disposable_of_isGenerated (hw : t.WellFormed) (hp : p.Straight)
    (h : isGenerated t p = true) : Disposable t p := by
  refine ⟨hp, ?_⟩
  intro bytes hand
  cases hread : t.readBytes p with
  | error fault =>
    rw [isGenerated, hread] at h
    cases h
  | ok found =>
    have hget := ((readBytes_eq_ok_iff hw hp).mp hread).2.2.2
    rw [hand.stands] at hget
    cases hget
    rw [((handWritten_iff hw hp hread).mp hand).1] at h
    cases h

theorem disposable_of_mem_files (hw : t.WellFormed) (hl : l.Straight)
    (hplan : Cleaning.plan t l spec = .ok plan) (hp : p ∈ plan.files) : Disposable t p := by
  obtain ⟨owned, hmem, hfiles, -⟩ := plan_eq_ok hw hl hplan
  rw [hfiles, List.mem_append, List.mem_filter, List.mem_flatMap] at hp
  rcases hp with ⟨hin, hgen⟩ | ⟨dir, hdir, hp⟩
  · exact disposable_of_isGenerated hw (hl.shared hin) hgen
  · obtain ⟨way, hne, ⟨e, hget⟩, -, hgoes, rfl⟩ := (mem_files_partOf hw).mp hp
    have ho := (hmem dir).mp hdir
    have hstraight := ho.straight_down hw hl hget
    rw [goes, Bool.and_eq_true, Bool.or_eq_true, beq_iff_eq] at hgoes
    rcases hgoes.2 with hstamp | hgen
    · refine ⟨hstraight, fun bytes hand => hand.no_stamp ?_⟩
      rw [Owned.place_down hw hget, List.getLast?_append, hstamp, Option.some_or]
    · exact disposable_of_isGenerated hw hstraight hgen

theorem Disposable.erase {k : Location} (h : Disposable t p) : Disposable (t.erase k) p := by
  refine ⟨h.1, ?_⟩
  intro bytes hand
  have hget := hand.stands
  rw [get?_erase] at hget
  split_ifs at hget
  · cases hget
  · exact h.2 bytes ⟨hget, hand.unmarked, hand.no_stamp⟩

theorem after_removeFile (p : Path) (t : FileTree) : (removeFile p).after t = t ∨
    ∃ t', t.removeFile p = .ok t' ∧ (removeFile p).after t = t' := by
  unfold Disk.after removeFile
  cases t.removeFile p with
  | ok t' => exact Or.inr ⟨t', rfl, rfl⟩
  | error fault => cases fault <;> exact Or.inl rfl

theorem sparing_removeFiles (hw : t.WellFormed) (paths : List Path)
    (hpaths : ∀ p ∈ paths, Disposable t p) :
    Sparing t (paths.map fun p => Disk.quiet (removeFile p)) := by
  -- The paths stay disposable, since removing a file brings in nothing.
  refine .map (I := fun s => s.WellFormed ∧ ∀ p ∈ paths, Disposable s p) (fun _ h => h.1) ?_
    ⟨hw, hpaths⟩
  rintro p hp s ⟨hs, hall⟩
  rw [Disk.after_quiet]
  rcases after_removeFile p s with heq | ⟨s', hremove, heq⟩
  · rw [heq]
    exact ⟨.refl hs, hs, hall⟩
  · rw [heq]
    have hs' := hs.removeFile hremove
    obtain ⟨dir, name, bytes, haim, -, rfl⟩ := removeFile_eq_ok hremove
    rw [← haim.place_eq (hall p hp).1] at hs' ⊢
    exact ⟨.erase hs' (hall p hp).2, hs', fun q hq => (hall q hq).erase⟩

theorem spares_removeIfEmpty (hw : t.WellFormed) (p : Path) :
    t.Spares ((removeIfEmpty p).after t) := by
  unfold Disk.after removeIfEmpty
  by_cases hempty : t.isEmptyDirectory p = true
  · rw [if_pos hempty]
    cases hremove : t.removeDirectory p with
    | error fault => exact .refl hw
    | ok t' =>
      have hw' := hw.removeDirectory hempty hremove
      obtain ⟨dir, name, -, hget, -, rfl⟩ := removeDirectory_eq_ok hremove
      refine .erase hw' ?_
      intro bytes hand
      rw [hand.stands] at hget
      cases hget
  · rw [if_neg hempty]
    exact .refl hw

theorem sparing_removeDirectories (hw : t.WellFormed) (paths : List Path) :
    Sparing t (paths.map fun p => Disk.quiet (removeIfEmpty p)) := by
  refine .map (fun _ h => h) ?_ hw
  intro p _ s hs
  rw [Disk.after_quiet]
  have hspares := spares_removeIfEmpty hs p
  exact ⟨hspares, hspares.wellFormed⟩

end Cleaning

end CrudBackend
