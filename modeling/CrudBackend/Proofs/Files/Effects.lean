import CrudBackend.Proofs.Files.Following

/-!
What the operations on files do. Each one that succeeds changes a single location, the one that the
last segment of its path names in the directory before it; a path without a step up has its place
there. All of them leave a well-formed tree behind.
-/

namespace CrudBackend.FileTree

open FileTree

/-- The last segment of a path is a name that is looked up in a directory. -/
structure Aims (t : FileTree) (p : Path) (dir : Location) (name : String) : Prop where
  accepted : p.Accepted
  named : p.Named
  isName : IsName name
  place_eq : p.Straight → t.place p = dir ++ [name]

variable {t t' : FileTree} {p : Path} {dir : Location} {last : String} {bytes : List UInt8}

theorem aims_of_approach (happ : t.approach p = .ok (dir, some last))
    (hhere : last ≠ ".") (hup : last ≠ "..") (hshort : last.utf8ByteSize ≤ maxNameBytes) :
    t.Aims p dir last := by
  have ha := accepted_of_approach happ
  rcases List.eq_nil_or_concat (steps p) with hnil | ⟨before, s, hs⟩
  · rw [approach_of_no_steps ha hnil] at happ
    cases happ
  · rw [List.concat_eq_append] at hs
    obtain ⟨hlast, hfold⟩ := (approach_eq_ok_iff ha hs).mp happ
    cases hlast
    refine ⟨ha, ⟨before, last, hs, hhere⟩,
      isName_of_mem_steps ha (by simp [hs]) hhere hup hshort, ?_⟩
    intro hp
    rw [Path.Straight, hs, List.mem_append, not_or] at hp
    rw [place, hs, names_append, names_cons hhere, names_nil, ← List.append_assoc,
      ← (foldlM_enter_eq_ok hp.1 hfold).1]

theorem writeBytes_eq_ok (hw : t.WellFormed) (h : t.writeBytes p bytes = .ok t') :
    ∃ dir name, t.Aims p dir name ∧ endsOpen p = false ∧ t.get? dir = some .directory ∧
      t.get? (dir ++ [name]) ≠ some .directory ∧ t' = t.put (dir ++ [name]) (.file bytes) := by
  unfold writeBytes at h
  split at h
  · cases h
  · cases h
  · next dir last happ =>
    by_cases hbad : last = "." ∨ last = ".." ∨ endsOpen p = true
    · rw [if_pos hbad] at h
      cases h
    · rw [if_neg hbad] at h
      simp only [not_or, Bool.not_eq_true] at hbad
      split at h
      · cases h
      · next hchild =>
        obtain ⟨hshort, rfl, hget⟩ := child_eq_ok_iff.mp hchild
        cases h
        exact ⟨dir, last, aims_of_approach happ hbad.1 hbad.2.1 hshort, hbad.2.2,
          hw.parent_of_get? hget, by simp [hget], rfl⟩
      · next hchild =>
        obtain ⟨hshort, hget⟩ := child_eq_notFound_iff.mp hchild
        unfold add at h
        split_ifs at h with hdir
        cases h
        exact ⟨dir, last, aims_of_approach happ hbad.1 hbad.2.1 hshort, hbad.2.2, hdir,
          by simp [hget], rfl⟩
      · cases h

theorem makeDirectory_eq_ok (h : t.makeDirectory p = .ok t') :
    ∃ dir name, t.Aims p dir name ∧ t.get? dir = some .directory ∧
      t.get? (dir ++ [name]) = none ∧ t' = t.put (dir ++ [name]) .directory := by
  unfold makeDirectory at h
  split at h
  · cases h
  · cases h
  · next dir last happ =>
    by_cases hbad : last = "." ∨ last = ".."
    · rw [if_pos hbad] at h
      cases h
    · rw [if_neg hbad] at h
      rw [not_or] at hbad
      split at h
      · cases h
      · next hchild =>
        obtain ⟨hshort, hget⟩ := child_eq_notFound_iff.mp hchild
        unfold add at h
        split_ifs at h with hdir
        cases h
        exact ⟨dir, last, aims_of_approach happ hbad.1 hbad.2 hshort, hdir, hget, rfl⟩
      · cases h

theorem removeFile_eq_ok (h : t.removeFile p = .ok t') :
    ∃ dir name bytes, t.Aims p dir name ∧ t.get? (dir ++ [name]) = some (.file bytes) ∧
      t' = t.erase (dir ++ [name]) := by
  unfold removeFile at h
  split at h
  · cases h
  · cases h
  · next dir last happ =>
    by_cases hbad : last = "." ∨ last = ".."
    · rw [if_pos hbad] at h
      cases h
    · rw [if_neg hbad] at h
      rw [not_or] at hbad
      split at h
      · cases h
      · next hchild =>
        obtain ⟨hshort, rfl, hget⟩ := child_eq_ok_iff.mp hchild
        split_ifs at h with hopen
        cases h
        exact ⟨dir, last, _, aims_of_approach happ hbad.1 hbad.2 hshort, hget, rfl⟩
      · cases h

/-- Nothing stands where a file that is to be removed is not found. -/
theorem removeFile_eq_notFound (hw : t.WellFormed) (hp : p.Straight) (hn : p.Named)
    (h : t.removeFile p = .error .notFound) : t.get? (t.place p) = none := by
  unfold removeFile at h
  split at h
  · next fault happ =>
    cases h
    have ha := accepted_of_approach_notFound hn happ
    cases hget : t.get? (t.place p) with
    | none => rfl
    | some e =>
      obtain ⟨dir, last, hfound⟩ := approach_of_get? hw hp hn ha hget
      rw [happ] at hfound
      cases hfound
  · cases h
  · next dir last happ =>
    by_cases hbad : last = "." ∨ last = ".."
    · rw [if_pos hbad] at h
      cases h
    · rw [if_neg hbad] at h
      rw [not_or] at hbad
      split at h
      · cases h
      · split_ifs at h
        cases h
      · next hchild =>
        cases h
        obtain ⟨hshort, hget⟩ := child_eq_notFound_iff.mp hchild
        have haim := aims_of_approach happ hbad.1 hbad.2 hshort
        rw [haim.place_eq hp]
        exact hget

theorem removeDirectory_eq_ok (h : t.removeDirectory p = .ok t') :
    ∃ dir name, t.Aims p dir name ∧ t.get? (dir ++ [name]) = some .directory ∧
      t.find p = .ok (dir ++ [name], .directory) ∧ t' = t.erase (dir ++ [name]) := by
  unfold removeDirectory at h
  split at h
  · cases h
  · cases h
  · next dir last happ =>
    by_cases hbad : last = "." ∨ last = ".."
    · rw [if_pos hbad] at h
      cases h
    · rw [if_neg hbad] at h
      rw [not_or] at hbad
      split at h
      · next hchild =>
        have hfind : t.find p = t.child dir last := by
          rw [find, happ]
          simp only [if_neg hbad.1, if_neg hbad.2, hchild]
        obtain ⟨hshort, rfl, hget⟩ := child_eq_ok_iff.mp hchild
        cases h
        exact ⟨dir, last, aims_of_approach happ hbad.1 hbad.2 hshort, hget, hfind.trans hchild, rfl⟩
      · cases h
      · cases h

/-! ### Well-formed trees stay well-formed -/

theorem WellFormed.writeBytes (hw : t.WellFormed) (h : t.writeBytes p bytes = .ok t') :
    t'.WellFormed := by
  obtain ⟨dir, name, haim, -, hdir, hfree, rfl⟩ := writeBytes_eq_ok hw h
  exact hw.put hdir haim.isName hfree

theorem WellFormed.makeDirectory (hw : t.WellFormed) (h : t.makeDirectory p = .ok t') :
    t'.WellFormed := by
  obtain ⟨dir, name, haim, hdir, hfree, rfl⟩ := makeDirectory_eq_ok h
  exact hw.put hdir haim.isName (by simp [hfree])

theorem WellFormed.removeFile (hw : t.WellFormed) (h : t.removeFile p = .ok t') :
    t'.WellFormed := by
  obtain ⟨dir, name, bytes, -, hget, rfl⟩ := removeFile_eq_ok h
  exact hw.erase fun s => hw.get?_below_none (by simp [hget]) (List.cons_ne_nil s [])

/-- Nothing lies in a directory that is found empty. -/
theorem get?_none_of_isEmptyDirectory (hw : t.WellFormed) (hempty : t.isEmptyDirectory p = true)
    (hfind : t.find p = .ok (dir, .directory)) (s : String) : t.get? (dir ++ [s]) = none := by
  rw [isEmptyDirectory, list, hfind] at hempty
  cases hget : t.get? (dir ++ [s]) with
  | none => rfl
  | some e =>
    have hmem := (mem_namesIn_iff hw).mpr ⟨e, hget⟩
    rw [List.isEmpty_iff.mp hempty] at hmem
    exact absurd hmem List.not_mem_nil

theorem WellFormed.removeDirectory (hw : t.WellFormed) (hempty : t.isEmptyDirectory p = true)
    (h : t.removeDirectory p = .ok t') : t'.WellFormed := by
  obtain ⟨dir, name, -, -, hfind, rfl⟩ := removeDirectory_eq_ok h
  exact hw.erase (get?_none_of_isEmptyDirectory hw hempty hfind)

/-! ### Directories above a file -/

/-- Directories have been made where nothing stood, and nothing else has changed. -/
structure DirectoriesMade (t t' : FileTree) : Prop where
  wellFormed : t'.WellFormed
  home : t'.home = t.home
  get?_eq : ∀ l, t'.get? l = t.get? l ∨ t.get? l = none ∧ t'.get? l = some .directory

namespace DirectoriesMade

theorem refl (hw : t.WellFormed) : t.DirectoriesMade t := ⟨hw, rfl, fun _ => Or.inl rfl⟩

theorem trans {r s t : FileTree} (h : r.DirectoriesMade s) (h' : s.DirectoriesMade t) :
    r.DirectoriesMade t := by
  refine ⟨h'.wellFormed, h'.home.trans h.home, ?_⟩
  intro l
  rcases h'.get?_eq l with hst | ⟨hs, ht⟩
  · rw [hst]
    exact h.get?_eq l
  · rcases h.get?_eq l with hrs | ⟨-, hs'⟩
    · exact Or.inr ⟨hrs ▸ hs, ht⟩
    · rw [hs] at hs'
      cases hs'

theorem file_iff (h : t.DirectoriesMade t') {l : Location} :
    t'.get? l = some (.file bytes) ↔ t.get? l = some (.file bytes) := by
  rcases h.get?_eq l with heq | ⟨hnone, hdir⟩
  · rw [heq]
  · simp [hnone, hdir]

end DirectoriesMade

theorem directoriesMade_makeDirectory (hw : t.WellFormed) (h : t.makeDirectory p = .ok t') :
    t.DirectoriesMade t' := by
  have hw' := hw.makeDirectory h
  obtain ⟨dir, name, -, -, hfree, rfl⟩ := makeDirectory_eq_ok h
  refine ⟨hw', rfl, ?_⟩
  intro l
  rw [get?_put]
  split_ifs with h1 h2
  · exact Or.inl (h1 ▸ rfl)
  · exact Or.inr ⟨h2 ▸ hfree, rfl⟩
  · exact Or.inl rfl

theorem directoriesMade_makeAll (hw : t.WellFormed) (paths : List Path) :
    t.DirectoriesMade (t.makeAll paths).1 := by
  induction paths generalizing t with
  | nil => exact .refl hw
  | cons p above ih =>
    unfold makeAll
    by_cases hempty : p.text = ""
    · rw [if_pos hempty]
      exact .refl hw
    · rw [if_neg hempty]
      cases hmake : t.makeDirectory p with
      | ok made => exact directoriesMade_makeDirectory hw hmake
      | error fault =>
        cases fault with
        | notFound =>
          have habove := ih hw
          cases hall : t.makeAll above with
          | mk s result =>
            rw [hall] at habove
            cases result with
            | some fault => exact habove
            | none =>
              dsimp only
              cases hagain : s.makeDirectory p with
              | ok made =>
                exact habove.trans (directoriesMade_makeDirectory habove.wellFormed hagain)
              | error fault => exact habove
        | _ => exact .refl hw

end CrudBackend.FileTree
