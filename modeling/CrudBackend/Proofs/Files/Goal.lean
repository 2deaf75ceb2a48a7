import CrudBackend.Proofs.Files.Effects

/-!
Where a path leads whose segments may go up. No links are followed, so a step up always drops the
last name, and the only location that a path can lead to is known from its text. Whether it leads
there depends on the directories on its way, and stays so as long as these stay.
-/

namespace CrudBackend.FileTree

open FileTree

/-- The only location that a segment can lead to. -/
def follow (l : Location) (s : String) : Location :=
  if s = "." then l else if s = ".." then l.dropLast else l ++ [s]

/-- The only location that a path can lead to. -/
def goal (t : FileTree) (p : Path) : Location := (steps p).foldl follow (t.start p)

variable {t t' : FileTree} {p : Path} {l k dir : Location} {s last : String} {ps way : List String}
  {e : Entry} {bytes : List UInt8}

theorem follow_name (hhere : s ≠ ".") (hup : s ≠ "..") : follow l s = l ++ [s] := by
  rw [follow, if_neg hhere, if_neg hup]

theorem goal_congr (h : t'.home = t.home) : t'.goal p = t.goal p := by
  rw [goal, goal, start, start, h]

theorem goal_of_steps (hs : steps p = ps ++ [last]) :
    t.goal p = follow (ps.foldl follow (t.start p)) last := by
  rw [goal, hs, List.foldl_append, List.foldl_cons, List.foldl_nil]

theorem goal_join_name (hs : IsName s) : t.goal (p.join s) = t.goal p ++ [s] := by
  rw [goal_of_steps (steps_join_name hs), follow_name hs.not_here hs.not_up, goal, start, start,
    isAbsolute_join (isAbsolute_of_isName hs)]

theorem enter_eq_follow (h : t.enter dir s = .ok l) : l = follow dir s := by
  unfold enter at h
  unfold follow
  split_ifs at h ⊢ with hhere hup
  · cases h
    rfl
  · cases h
    rfl
  · split at h
    · next hchild =>
      cases h
      exact (child_eq_ok_iff.mp hchild).2.1
    · cases h
    · cases h

theorem foldlM_enter_eq_goal (h : ps.foldlM t.enter dir = .ok l) : l = ps.foldl follow dir := by
  induction ps generalizing dir with
  | nil =>
    cases h
    rfl
  | cons s ps ih =>
    rw [List.foldlM_cons] at h
    cases hs : t.enter dir s with
    | error fault =>
      rw [hs] at h
      cases h
    | ok d =>
      rw [hs] at h
      rw [List.foldl_cons, ← enter_eq_follow hs]
      exact ih h

/-- Segments lead on as they did while directories only come in. -/
theorem foldlM_enter_mono (hstay : ∀ k, t.get? k = some .directory → t'.get? k = some .directory)
    (h : ps.foldlM t.enter dir = .ok l) : ps.foldlM t'.enter dir = .ok l := by
  have hone : ∀ s d d', t.enter d s = .ok d' → t'.enter d s = .ok d' := by
    intro s d d' hs
    by_cases hup : s = ".."
    · subst hup
      exact hs
    · rw [enter_eq_ok_iff hup] at hs ⊢
      refine hs.imp_right ?_
      rintro ⟨hhere, hshort, heq, hget⟩
      exact ⟨hhere, hshort, heq, hstay _ hget⟩
  induction ps generalizing dir with
  | nil => exact h
  | cons s ps ih =>
    rw [List.foldlM_cons] at h ⊢
    cases hs : t.enter dir s with
    | error fault =>
      rw [hs] at h
      cases h
    | ok d =>
      rw [hs] at h
      rw [hone s dir d hs]
      exact ih h

theorem goal_of_approach (h : t.approach p = .ok (dir, some last)) (hhere : last ≠ ".")
    (hup : last ≠ "..") : t.goal p = dir ++ [last] := by
  have ha := accepted_of_approach h
  rcases List.eq_nil_or_concat (steps p) with hnil | ⟨before, s, hs⟩
  · rw [approach_of_no_steps ha hnil] at h
    cases h
  · rw [List.concat_eq_append] at hs
    obtain ⟨hlast, hfold⟩ := (approach_eq_ok_iff ha hs).mp h
    cases hlast
    rw [goal_of_steps hs, follow_name hhere hup, ← foldlM_enter_eq_goal hfold]

/-- What a path leads to that ends with a name is looked up under this name. -/
theorem child_of_find (happ : t.approach p = .ok (dir, some last)) (hhere : last ≠ ".")
    (hup : last ≠ "..") (h : t.find p = .ok (l, e)) :
    t.child dir last = .ok (l, e) ∧ (e ≠ .directory → endsOpen p = false) := by
  rw [find, happ] at h
  dsimp only at h
  rw [if_neg hhere, if_neg hup] at h
  split at h
  · next hchild =>
    split_ifs at h with hopen
    cases h
    exact ⟨hchild, fun _ => Bool.not_eq_true _ ▸ hopen⟩
  · next hnot =>
    refine ⟨h, fun hne => ?_⟩
    cases e with
    | directory => exact absurd rfl hne
    | file bytes => exact absurd h (hnot l bytes)

/-- What is found is found at the goal. -/
theorem eq_goal_of_find (h : t.find p = .ok (l, e)) :
    l = t.goal p ∧ (t.get? l = some e ∨ e = .directory) := by
  cases happ : t.approach p with
  | error fault =>
    rw [find, happ] at h
    cases h
  | ok found =>
    obtain ⟨dir, piece⟩ := found
    have ha := accepted_of_approach happ
    rcases List.eq_nil_or_concat (steps p) with hnil | ⟨before, s, hs⟩
    · rw [approach_of_no_steps ha hnil] at happ
      cases happ
      rw [find, approach_of_no_steps ha hnil] at h
      cases h
      rw [goal, hnil]
      exact ⟨rfl, Or.inr rfl⟩
    · rw [List.concat_eq_append] at hs
      obtain ⟨rfl, hfold⟩ := (approach_eq_ok_iff ha hs).mp happ
      rw [goal_of_steps hs, ← foldlM_enter_eq_goal hfold, follow]
      by_cases hhere : s = "."
      · subst hhere
        rw [find, happ] at h
        cases h
        exact ⟨rfl, Or.inr rfl⟩
      · by_cases hup : s = ".."
        · subst hup
          rw [find, happ] at h
          cases h
          exact ⟨rfl, Or.inr rfl⟩
        · rw [if_neg hhere, if_neg hup]
          obtain ⟨-, rfl, hget⟩ := child_eq_ok_iff.mp (child_of_find happ hhere hup h).1
          exact ⟨rfl, Or.inl hget⟩

/-! ### Directories that a path leads to -/

/-- Single dots lead nowhere else. -/
theorem foldlM_enter_names (t : FileTree) (ps : List String) (k : Location) :
    (names ps).foldlM t.enter k = ps.foldlM t.enter k := by
  induction ps generalizing k with
  | nil => rfl
  | cons s ps ih =>
    by_cases hs : s = "."
    · subst hs
      rw [names_here_cons, ih, List.foldlM_cons, enter, if_pos rfl]
      rfl
    · rw [names_cons hs, List.foldlM_cons, List.foldlM_cons]
      exact bind_congr ih

theorem foldlM_enter_concat (h : ps.foldlM t.enter dir = .ok l) (s : String) :
    (ps ++ [s]).foldlM t.enter dir = t.enter l s := by
  rw [List.foldlM_append, h]
  exact bind_pure (t.enter l s)

/-- The directory that the steps of a path lead to is found. -/
theorem find_of_leads (ha : p.Accepted) (h : (steps p).foldlM t.enter (t.start p) = .ok k) :
    t.find p = .ok (k, .directory) := by
  rcases List.eq_nil_or_concat (steps p) with hnil | ⟨before, last, hs⟩
  · rw [hnil] at h
    cases h
    rw [find, approach_of_no_steps ha hnil]
  · rw [List.concat_eq_append] at hs
    rw [hs] at h
    cases hbefore : before.foldlM t.enter (t.start p) with
    | error fault =>
      rw [List.foldlM_append, hbefore] at h
      cases h
    | ok d =>
      have hlast : t.enter d last = .ok k := (foldlM_enter_concat hbefore last).symm.trans h
      rw [find, (approach_eq_ok_iff ha hs).mpr ⟨rfl, hbefore⟩]
      dsimp only
      unfold enter at hlast
      by_cases hhere : last = "."
      · rw [if_pos hhere] at hlast ⊢
        cases hlast
        rfl
      by_cases hup : last = ".."
      · rw [if_neg hhere, if_pos hup] at hlast ⊢
        cases hlast
        rfl
      rw [if_neg hhere, if_neg hup] at hlast ⊢
      split at hlast
      · next hchild =>
        cases hlast
        rw [hchild]
      · cases hlast
      · cases hlast

theorem leads_of_find (h : t.find p = .ok (k, .directory)) :
    p.Accepted ∧ (steps p).foldlM t.enter (t.start p) = .ok k := by
  cases happ : t.approach p with
  | error fault =>
    rw [find, happ] at h
    cases h
  | ok found =>
    obtain ⟨d, piece⟩ := found
    have ha := accepted_of_approach happ
    refine ⟨ha, ?_⟩
    rcases List.eq_nil_or_concat (steps p) with hnil | ⟨before, last, hs⟩
    · rw [find, approach_of_no_steps ha hnil] at h
      cases h
      rw [hnil]
      rfl
    · rw [List.concat_eq_append] at hs
      obtain ⟨rfl, hfold⟩ := (approach_eq_ok_iff ha hs).mp happ
      rw [hs, foldlM_enter_concat hfold]
      unfold enter
      by_cases hhere : last = "."
      · subst hhere
        rw [find, happ] at h
        cases h
        rfl
      by_cases hup : last = ".."
      · subst hup
        rw [find, happ] at h
        cases h
        rfl
      rw [if_neg hhere, if_neg hup, (child_of_find happ hhere hup h).1]

/-- What a path leads to is a directory as long as the directories on its way stay. -/
theorem find_directory_mono (hhome : t'.home = t.home)
    (hstay : ∀ k, t.get? k = some .directory → t'.get? k = some .directory)
    (h : t.find p = .ok (k, .directory)) : t'.find p = .ok (k, .directory) := by
  obtain ⟨ha, hfold⟩ := leads_of_find h
  refine find_of_leads ha ?_
  rw [start, hhome, ← start]
  exact foldlM_enter_mono hstay hfold

/-- A name is found in the directory that a path leads to. -/
theorem find_join_name (hs : IsName s) (ha : (p.join s).Accepted)
    (hfind : t.find p = .ok (k, .directory)) (hget : t.get? (k ++ [s]) = some e) :
    t.find (p.join s) = .ok (k ++ [s], e) := by
  have hstart : t.start (p.join s) = t.start p := by
    rw [start, start, isAbsolute_join (isAbsolute_of_isName hs)]
  have happ : t.approach (p.join s) = .ok (k, some s) := by
    refine (approach_eq_ok_iff ha (steps_join_name hs)).mpr ⟨rfl, ?_⟩
    rw [hstart]
    exact (leads_of_find hfind).2
  have hchild : t.child k s = .ok (k ++ [s], e) := child_eq_ok_iff.mpr ⟨hs.short, rfl, hget⟩
  rw [find, happ]
  simp only [if_neg hs.not_here, if_neg hs.not_up, hchild, endsOpen_join_name hs]
  cases e <;> rfl

/-- The name of a file that a path leads to is looked up in a directory. -/
theorem approach_of_find_file {bytes : List UInt8} (h : t.find p = .ok (k, .file bytes)) :
    ∃ d last, t.approach p = .ok (d, some last) ∧ last ≠ "." ∧ last ≠ ".." := by
  cases happ : t.approach p with
  | error fault =>
    rw [find, happ] at h
    cases h
  | ok found =>
    obtain ⟨d, piece⟩ := found
    rw [find, happ] at h
    cases piece with
    | none => cases h
    | some last =>
      refine ⟨d, last, rfl, ?_, ?_⟩
      · rintro rfl
        cases h
      · rintro rfl
        cases h

/-! ### Operations at the goal -/

theorem removeFile_eq_erase (h : t.removeFile p = .ok t') :
    (∃ bytes, t.get? (t.goal p) = some (.file bytes)) ∧ t' = t.erase (t.goal p) := by
  unfold removeFile at h
  split at h
  · cases h
  · cases h
  · next dir last happ =>
    by_cases hbad : last = "." ∨ last = ".."
    · rw [if_pos hbad] at h
      cases h
    · rw [if_neg hbad] at h
      rw [not_or] at hbad
      rw [goal_of_approach happ hbad.1 hbad.2]
      split at h
      · cases h
      · next hchild =>
        obtain ⟨-, rfl, hget⟩ := child_eq_ok_iff.mp hchild
        split_ifs at h
        cases h
        exact ⟨⟨_, hget⟩, rfl⟩
      · cases h

theorem writeBytes_eq_put (h : t.writeBytes p bytes = .ok t') :
    (∃ dir last, t.approach p = .ok (dir, some last)) ∧ t.get? (t.goal p) ≠ some .directory ∧
      t' = t.put (t.goal p) (.file bytes) := by
  unfold writeBytes at h
  split at h
  · cases h
  · cases h
  · next dir last happ =>
    refine ⟨⟨dir, last, happ⟩, ?_⟩
    by_cases hbad : last = "." ∨ last = ".." ∨ endsOpen p = true
    · rw [if_pos hbad] at h
      cases h
    · rw [if_neg hbad] at h
      rw [not_or, not_or] at hbad
      rw [goal_of_approach happ hbad.1 hbad.2.1]
      split at h
      · cases h
      · next hchild =>
        obtain ⟨-, rfl, hget⟩ := child_eq_ok_iff.mp hchild
        cases h
        exact ⟨by simp [hget], rfl⟩
      · next hchild =>
        obtain ⟨-, hget⟩ := child_eq_notFound_iff.mp hchild
        unfold add at h
        split_ifs at h
        cases h
        exact ⟨by simp [hget], rfl⟩
      · cases h

end CrudBackend.FileTree
