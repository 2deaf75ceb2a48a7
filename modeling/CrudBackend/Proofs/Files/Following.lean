import CrudBackend.Proofs.Files.Place

/-!
Following a path. A path without a step up that the system accepts leads to whatever stands at its
place, and to nothing else. Only a path that names no entry at all, such as a single dot, may lead
to a directory that is gone.
-/

namespace CrudBackend

open FileTree

structure Path.Accepted (p : Path) : Prop where
  text_ok : textFault? p = none
  short : p.text.utf8ByteSize ≤ maxPathBytes

instance (p : Path) : Decidable p.Accepted :=
  decidable_of_iff (textFault? p = none ∧ p.text.utf8ByteSize ≤ maxPathBytes)
    ⟨fun ⟨h1, h2⟩ => ⟨h1, h2⟩, fun ⟨h1, h2⟩ => ⟨h1, h2⟩⟩

namespace FileTree

variable {t : FileTree} {p : Path} {l dir : Location} {s last : String} {ps : List String}
  {e : Entry} {x : Option String}

theorem isName_of_mem_steps (ha : p.Accepted) (h : s ∈ steps p) (hhere : s ≠ ".") (hup : s ≠ "..")
    (hshort : s.utf8ByteSize ≤ maxNameBytes) : IsName s := by
  obtain ⟨hne, hsep, hsub⟩ := mem_steps h
  refine ⟨hne, hhere, hup, hsep, ?_, hshort⟩
  intro c hc hzero
  have hany : p.text.toList.any (fun c => c.toNat == 0) = true :=
    List.any_eq_true.mpr ⟨c, hsub c hc, by simp [hzero]⟩
  have hfault := ha.text_ok
  rw [textFault?, if_pos hany] at hfault
  exact absurd hfault (by simp)

theorem textFault?_eq_none_iff :
    textFault? p = none ↔ p.text ≠ "" ∧ ∀ c ∈ p.text.toList, c.toNat ≠ 0 := by
  unfold textFault?
  split_ifs with hnul hempty
  · simp only [List.any_eq_true, beq_iff_eq] at hnul
    obtain ⟨c, hc, hzero⟩ := hnul
    simp only [false_iff, not_and, not_forall]
    exact fun _ => ⟨c, hc, fun h => h hzero⟩
  · simp [hempty]
  · simpa [hempty] using hnul

theorem no_nul_join (hp : ∀ c ∈ p.text.toList, c.toNat ≠ 0) (hs : IsName s) :
    ∀ c ∈ (p.join s).text.toList, c.toNat ≠ 0 := by
  intro c hc
  have hmem : c ∈ p.text.toList ∨ c = '/' ∨ c ∈ s.toList := by
    rcases join_cases (p := p) (isAbsolute_of_isName hs) with ⟨-, h⟩ | ⟨cs, hcs, h⟩ | ⟨-, h⟩
    · rw [h] at hc
      exact Or.inr (Or.inr hc)
    · rw [h] at hc
      rcases List.mem_append.mp hc with hc | hc
      · exact Or.inl (hcs ▸ List.mem_append_left _ hc)
      · exact Or.inr (List.mem_cons.mp hc)
    · rw [h] at hc
      rcases List.mem_append.mp hc with hc | hc
      · exact Or.inl hc
      · exact Or.inr (List.mem_cons.mp hc)
  rcases hmem with hc | rfl | hc
  · exact hp c hc
  · decide
  · exact hs.no_nul c hc

theorem textFault?_join (hp : textFault? p = none) (hs : IsName s) :
    textFault? (p.join s) = none := by
  rw [textFault?_eq_none_iff] at hp ⊢
  obtain ⟨-, hnul⟩ := hp
  refine ⟨?_, no_nul_join hnul hs⟩
  intro hempty
  have hsteps := steps_join_name (p := p) hs
  rw [steps_empty hempty] at hsteps
  simp at hsteps

theorem endsOpen_join_name (hs : IsName s) : endsOpen (p.join s) = false := by
  obtain ⟨cs, hcs⟩ := suffix_join p s
  rcases List.eq_nil_or_concat s.toList with hnil | ⟨ds, c, heq⟩
  · exact absurd (String.toList_eq_nil_iff.mp hnil) hs.not_empty
  · have hsep : c ≠ '/' := fun h => hs.no_separator (by simp [heq, h])
    simp [endsOpen, hcs, heq, hsep]

theorem child_eq_ok_iff : t.child dir s = .ok (l, e) ↔
    s.utf8ByteSize ≤ maxNameBytes ∧ l = dir ++ [s] ∧ t.get? (dir ++ [s]) = some e := by
  unfold child
  split_ifs with hlong
  · simp [Nat.not_le.mpr hlong]
  · cases hget : t.get? (dir ++ [s]) with
    | none => simp
    | some e' => simp [Nat.not_lt.mp hlong, eq_comm]

theorem child_eq_notFound_iff : t.child dir s = .error .notFound ↔
    s.utf8ByteSize ≤ maxNameBytes ∧ t.get? (dir ++ [s]) = none := by
  unfold child
  split_ifs with hlong
  · simp [Nat.not_le.mpr hlong]
  · cases hget : t.get? (dir ++ [s]) with
    | none => simp [Nat.not_lt.mp hlong]
    | some e' => simp

/-- One segment leads to the directory of its name, unless it is a dot. -/
theorem enter_eq_ok_iff (hup : s ≠ "..") : t.enter dir s = .ok l ↔
    s = "." ∧ l = dir ∨ s ≠ "." ∧ s.utf8ByteSize ≤ maxNameBytes ∧ l = dir ++ [s] ∧
      t.get? (dir ++ [s]) = some .directory := by
  unfold enter
  rw [if_neg hup]
  split_ifs with hhere
  · simp [hhere, eq_comm]
  · constructor
    · intro h
      split at h
      · next heq =>
        rw [child_eq_ok_iff] at heq
        cases h
        exact Or.inr ⟨hhere, heq⟩
      · cases h
      · cases h
    · rintro (⟨h, -⟩ | ⟨-, h⟩)
      · exact absurd h hhere
      · rw [child_eq_ok_iff.mpr h]

/-- Segments lead down by their names. -/
theorem foldlM_enter_eq_ok (hup : ".." ∉ ps) (h : ps.foldlM t.enter dir = .ok l) :
    l = dir ++ names ps ∧ (names ps = [] ∨ t.get? l = some .directory) := by
  induction ps generalizing dir with
  | nil =>
    cases h
    simp
  | cons s ps ih =>
    rw [List.mem_cons, not_or] at hup
    rw [List.foldlM_cons] at h
    cases hs : t.enter dir s with
    | error fault =>
      rw [hs] at h
      cases h
    | ok d =>
      rw [hs] at h
      obtain ⟨hl, hd⟩ := ih hup.2 h
      rcases (enter_eq_ok_iff (Ne.symm hup.1)).mp hs with ⟨rfl, rfl⟩ | ⟨hne, -, rfl, hget⟩
      · exact ⟨hl, hd⟩
      · rw [List.append_assoc, List.singleton_append, ← names_cons hne] at hl
        refine ⟨hl, Or.inr ?_⟩
        rcases hd with hnil | hd
        · rw [hl, names_cons hne, hnil]
          exact hget
        · exact hd

theorem foldlM_enter_of_directory (hw : t.WellFormed) (hup : ".." ∉ ps)
    (h : t.get? (dir ++ names ps) = some .directory) :
    ps.foldlM t.enter dir = .ok (dir ++ names ps) := by
  induction ps generalizing dir with
  | nil => simp [pure, Except.pure]
  | cons s ps ih =>
    rw [List.mem_cons, not_or] at hup
    rw [List.foldlM_cons]
    by_cases hs : s = "."
    · subst hs
      rw [(enter_eq_ok_iff (Ne.symm hup.1)).mpr (Or.inl ⟨rfl, rfl⟩)]
      exact ih hup.2 h
    · rw [names_cons hs, List.append_cons] at h ⊢
      have hget : t.get? (dir ++ [s]) = some .directory := by
        by_cases hnil : names ps = []
        · simpa [hnil] using h
        · exact hw.directory_of_below h hnil
      have hname := hw.isName_of_get? hget s (by simp)
      rw [(enter_eq_ok_iff (Ne.symm hup.1)).mpr (Or.inr ⟨hs, hname.short, rfl, hget⟩)]
      exact ih hup.2 h

theorem accepted_of_approach (h : t.approach p = .ok (dir, x)) : p.Accepted := by
  unfold approach at h
  split at h
  · cases h
  · next htext =>
    split_ifs at h with hlong
    exact ⟨htext, Nat.not_lt.mp hlong⟩

theorem approach_of_accepted (ha : p.Accepted) : t.approach p =
    match (steps p).getLast? with
    | none => .ok (t.start p, none)
    | some last =>
      ((steps p).dropLast.foldlM t.enter (t.start p)).map fun dir => (dir, some last) := by
  unfold approach
  rw [ha.text_ok]
  exact if_neg (Nat.not_lt.mpr ha.short)

/-- The last segment of a path is looked up where the segments before it lead. -/
theorem approach_eq_ok_iff (ha : p.Accepted) (hs : steps p = ps ++ [last]) :
    t.approach p = .ok (dir, x) ↔ x = some last ∧ ps.foldlM t.enter (t.start p) = .ok dir := by
  rw [approach_of_accepted ha, hs, List.getLast?_concat, List.dropLast_concat]
  cases ps.foldlM t.enter (t.start p) with
  | error fault => simp [Except.map]
  | ok d => simp [Except.map, and_comm, eq_comm]

theorem approach_of_no_steps (ha : p.Accepted) (hs : steps p = []) :
    t.approach p = .ok (t.start p, none) := by
  rw [approach_of_accepted ha, hs]
  rfl

theorem approach_join_name (hw : t.WellFormed) (hp : p.Straight) (hs : IsName s)
    (ha : (p.join s).Accepted) (hget : t.get? (t.place p) = some .directory) :
    t.approach (p.join s) = .ok (t.place p, some s) := by
  have hstart : t.start (p.join s) = t.start p := by
    rw [start, start, isAbsolute_join (isAbsolute_of_isName hs)]
  refine (approach_eq_ok_iff ha (steps_join_name hs)).mpr ⟨rfl, ?_⟩
  rw [hstart]
  exact foldlM_enter_of_directory hw hp hget

/-- What a path leads to: nothing more than its place, and what stands there. -/
theorem find_eq_ok (hp : p.Straight) (h : t.find p = .ok (l, e)) :
    p.Accepted ∧ l = t.place p ∧ (t.get? l = some e ∨ e = .directory ∧ names (steps p) = []) := by
  cases happ : t.approach p with
  | error fault =>
    rw [find, happ] at h
    cases h
  | ok found =>
    obtain ⟨dir, piece⟩ := found
    have ha := accepted_of_approach happ
    refine ⟨ha, ?_⟩
    rcases List.eq_nil_or_concat (steps p) with hnil | ⟨before, last, hs⟩
    · rw [find, approach_of_no_steps ha hnil] at h
      cases h
      simp [place, hnil]
    · rw [List.concat_eq_append] at hs
      obtain ⟨rfl, hfold⟩ := (approach_eq_ok_iff ha hs).mp happ
      rw [Path.Straight, hs, List.mem_append, List.mem_singleton, not_or] at hp
      obtain ⟨hdir, hget⟩ := foldlM_enter_eq_ok hp.1 hfold
      simp only [find, happ, if_neg (Ne.symm hp.2)] at h
      by_cases hhere : last = "."
      · rw [if_pos hhere] at h
        cases h
        subst hhere
        refine ⟨by simpa [place, hs] using hdir, ?_⟩
        rcases hget with hnil | hget
        · exact Or.inr ⟨rfl, by simpa [hs] using hnil⟩
        · exact Or.inl hget
      · rw [if_neg hhere] at h
        have hchild : t.child dir last = .ok (l, e) := by
          split at h
          · split_ifs at h
            cases h
            assumption
          · exact h
        obtain ⟨-, rfl, hget⟩ := child_eq_ok_iff.mp hchild
        refine ⟨?_, Or.inl hget⟩
        rw [place, hs, names_append, names_cons hhere, names_nil, ← List.append_assoc, ← hdir]

end FileTree

def Path.Named (p : Path) : Prop := ∃ before last, steps p = before ++ [last] ∧ last ≠ "."

namespace FileTree

variable {t : FileTree} {p : Path} {l : Location} {e : Entry} {bytes : List UInt8}

theorem accepted_of_approach_notFound (hn : p.Named) (h : t.approach p = .error .notFound) :
    p.Accepted := by
  obtain ⟨before, last, hs, -⟩ := hn
  have hne : p.text ≠ "" := by
    intro hempty
    rw [steps_empty hempty] at hs
    simp at hs
  unfold approach at h
  split at h
  · next fault htext =>
    cases h
    unfold textFault? at htext
    rw [if_neg hne] at htext
    split_ifs at htext
    cases htext
  · next htext =>
    split_ifs at h with hlong
    · cases h
    · exact ⟨htext, Nat.not_lt.mp hlong⟩

/-- The directory of what stands at the place of a path is found. -/
theorem approach_of_get? (hw : t.WellFormed) (hp : p.Straight) (hn : p.Named) (ha : p.Accepted)
    (hget : t.get? (t.place p) = some e) : ∃ dir last, t.approach p = .ok (dir, some last) := by
  obtain ⟨before, last, hs, hhere⟩ := hn
  rw [Path.Straight, hs, List.mem_append, not_or] at hp
  rw [place, hs, names_append, names_cons hhere, names_nil, ← List.append_assoc] at hget
  have hfold := foldlM_enter_of_directory hw hp.1 (hw.parent_of_get? hget)
  exact ⟨_, last, (approach_eq_ok_iff ha hs).mpr ⟨rfl, hfold⟩⟩

/-- What a path that ends with a name leads to. A file is not found under a path that goes on with a
separator. -/
theorem find_eq_ok_iff (hw : t.WellFormed) (hp : p.Straight) (hn : p.Named) :
    t.find p = .ok (l, e) ↔ p.Accepted ∧ l = t.place p ∧ t.get? l = some e ∧
      (e ≠ .directory → endsOpen p = false) := by
  obtain ⟨before, last, hs, hhere⟩ := hn
  have hp' := hp
  rw [Path.Straight, hs, List.mem_append, List.mem_singleton, not_or] at hp'
  have hplace : t.place p = t.start p ++ names before ++ [last] := by
    rw [place, hs, names_append, names_cons hhere, names_nil, List.append_assoc]
  constructor
  · intro h
    obtain ⟨ha, hl, hget⟩ := find_eq_ok hp h
    have hget : t.get? l = some e := by
      rcases hget with hget | ⟨-, hnil⟩
      · exact hget
      · rw [hs, names_append, names_cons hhere] at hnil
        simp at hnil
    refine ⟨ha, hl, hget, ?_⟩
    intro hne
    by_contra hopen
    rw [Bool.not_eq_false] at hopen
    have hfold : before.foldlM t.enter (t.start p) = .ok (t.start p ++ names before) :=
      foldlM_enter_of_directory hw hp'.1 (hw.parent_of_get? (by rwa [← hplace, ← hl]))
    rw [find, (approach_eq_ok_iff ha hs).mpr ⟨rfl, hfold⟩] at h
    simp only [if_neg (Ne.symm hp'.2), if_neg hhere] at h
    split at h
    · rw [if_pos hopen] at h
      cases h
    · next hchild =>
      cases e with
      | directory => exact hne rfl
      | file bytes => exact hchild _ _ h
  · rintro ⟨ha, rfl, hget, hopen⟩
    rw [hplace] at hget
    have hfold : before.foldlM t.enter (t.start p) = .ok (t.start p ++ names before) :=
      foldlM_enter_of_directory hw hp'.1 (hw.parent_of_get? hget)
    have hname := hw.isName_of_get? hget last (by simp)
    have hchild : t.child (t.start p ++ names before) last = .ok (t.place p, e) :=
      child_eq_ok_iff.mpr ⟨hname.short, hplace, hget⟩
    rw [find, (approach_eq_ok_iff ha hs).mpr ⟨rfl, hfold⟩]
    simp only [if_neg (Ne.symm hp'.2), if_neg hhere, hchild]
    cases e with
    | directory => rfl
    | file bytes => simp [hopen (by simp)]

theorem isDirectory_eq_true_iff : t.isDirectory p = true ↔ ∃ l, t.find p = .ok (l, .directory) := by
  unfold isDirectory
  constructor
  · intro h
    split at h
    · next l hfind => exact ⟨l, hfind⟩
    · cases h
  · rintro ⟨l, hfind⟩
    rw [hfind]

theorem isDirectory_iff (hw : t.WellFormed) (hp : p.Straight) (hn : p.Named) :
    t.isDirectory p = true ↔ p.Accepted ∧ t.get? (t.place p) = some .directory := by
  rw [isDirectory_eq_true_iff]
  constructor
  · rintro ⟨l, hfind⟩
    obtain ⟨ha, rfl, hget, -⟩ := (find_eq_ok_iff hw hp hn).mp hfind
    exact ⟨ha, hget⟩
  · rintro ⟨ha, hget⟩
    exact ⟨t.place p, (find_eq_ok_iff hw hp hn).mpr ⟨ha, rfl, hget, by simp⟩⟩

theorem named_of_find_file (hp : p.Straight) (h : t.find p = .ok (l, .file bytes)) : p.Named := by
  have ha := (find_eq_ok hp h).1
  rcases List.eq_nil_or_concat (steps p) with hnil | ⟨before, last, hs⟩
  · rw [find, approach_of_no_steps ha hnil] at h
    cases h
  · rw [List.concat_eq_append] at hs
    refine ⟨before, last, hs, ?_⟩
    rintro rfl
    cases happ : t.approach p with
    | error fault =>
      rw [find, happ] at h
      cases h
    | ok found =>
      obtain ⟨dir, piece⟩ := found
      cases ((approach_eq_ok_iff ha hs).mp happ).1
      rw [find, happ] at h
      cases h

theorem readBytes_eq_ok_iff (hw : t.WellFormed) (hp : p.Straight) :
    t.readBytes p = .ok bytes ↔ p.Accepted ∧ p.Named ∧ endsOpen p = false ∧
      t.get? (t.place p) = some (.file bytes) := by
  have hread : t.readBytes p = .ok bytes ↔ ∃ l, t.find p = .ok (l, .file bytes) := by
    unfold readBytes
    split <;> simp_all
  rw [hread]
  constructor
  · rintro ⟨l, hfind⟩
    have hn := named_of_find_file hp hfind
    obtain ⟨ha, rfl, hget, hopen⟩ := (find_eq_ok_iff hw hp hn).mp hfind
    exact ⟨ha, hn, hopen (by simp), hget⟩
  · rintro ⟨ha, hn, hopen, hget⟩
    exact ⟨t.place p, (find_eq_ok_iff hw hp hn).mpr ⟨ha, rfl, hget, fun _ => hopen⟩⟩

end FileTree

end CrudBackend
