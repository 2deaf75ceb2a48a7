import CrudBackend.Proofs.Files.Parent

/-!
Making a directory with all those above it. Only directories on the way to its place are made, and
the making succeeds whenever no file stands on that way. The paths above are tried from the longest
one on, so the induction is on the length of the text that is still to be shortened.
-/

namespace CrudBackend.FileTree

open FileTree

variable {t t' : FileTree} {p q : Path} {k l dir : Location} {s last : String} {ps : List String}

/-! ### The paths above -/

theorem mem_names_of_ne_here (hs : s ≠ ".") : s ∈ names ps ↔ s ∈ ps := by
  simp [names, hs]

theorem straight_iff_names : p.Straight ↔ ".." ∉ names (steps p) := by
  rw [Path.Straight, mem_names_of_ne_here (by decide)]

theorem Above.isPrefix_names (h : Above p q) : names (steps q) <+: names (steps p) := by
  rcases h.names_eq with ⟨hempty, -⟩ | ⟨s, heq⟩
  · rw [steps_empty hempty]
    exact List.nil_prefix
  · rw [heq]
    exact List.prefix_append _ _

theorem Above.straight (h : Above p q) (hp : p.Straight) : q.Straight := by
  rw [straight_iff_names] at hp ⊢
  exact fun hup => hp (h.isPrefix_names.subset hup)

theorem Above.start_eq (h : Above p q) (t : FileTree) : t.start q = t.start p := by
  rw [start, start, h.absolute]

theorem Above.isPrefix_place (h : Above p q) (t : FileTree) : t.place q <+: t.place p := by
  rw [place, place, h.start_eq, List.prefix_append_right_inj]
  exact h.isPrefix_names

/-- The path above a path that ends with a name has its place one name further up. -/
theorem Above.place_eq (h : Above p q) (hn : p.Named) (t : FileTree) :
    ∃ s, t.place p = t.place q ++ [s] := by
  rcases h.names_eq with ⟨-, hnil⟩ | ⟨s, heq⟩
  · obtain ⟨before, last, hs, hhere⟩ := hn
    rw [hs, names_append, names_cons hhere] at hnil
    simp at hnil
  · exact ⟨s, by rw [place, place, h.start_eq, heq, List.append_assoc]⟩

theorem Above.accepted (h : Above p q) (ha : p.Accepted) : q.text = "" ∨ q.Accepted := by
  by_cases hempty : q.text = ""
  · exact Or.inl hempty
  · refine Or.inr ⟨textFault?_eq_none_iff.mpr ⟨hempty, ?_⟩, ?_⟩
    · exact fun c hc => (textFault?_eq_none_iff.mp ha.text_ok).2 c (h.begins.subset hc)
    · obtain ⟨rest, hrest⟩ := h.begins
      have htext : p.text = q.text ++ String.ofList rest := by
        rw [← String.toList_inj, String.toList_append, String.toList_ofList, hrest]
      have hshort := ha.short
      rw [htext, String.utf8ByteSize_append] at hshort
      omega

theorem exists_parent? (hn : p.Named) : ∃ q, p.parent? = some q := by
  cases hparent : p.parent? with
  | some q => exact ⟨q, rfl⟩
  | none =>
    obtain ⟨before, last, hs, hhere⟩ := hn
    have hnil := names_of_parent?_eq_none hparent
    rw [hs, names_append, names_cons hhere] at hnil
    simp at hnil

theorem mem_ancestorsWithin {n : Nat} (hp : p.Straight) (hq : q ∈ Path.ancestorsWithin n p) :
    q.Straight ∧ t.place q <+: t.place p := by
  induction n generalizing p with
  | zero =>
    cases List.mem_singleton.mp hq
    exact ⟨hp, List.prefix_refl _⟩
  | succ n ih =>
    unfold Path.ancestorsWithin at hq
    split at hq
    · next r hr =>
      have habove := above_of_parent? hr
      rcases List.mem_cons.mp hq with rfl | hq
      · exact ⟨hp, List.prefix_refl _⟩
      · obtain ⟨hstraight, hpre⟩ := ih (habove.straight hp) hq
        exact ⟨hstraight, hpre.trans (habove.isPrefix_place t)⟩
    · cases List.mem_singleton.mp hq
      exact ⟨hp, List.prefix_refl _⟩

/-! ### What is made -/

/-- Directories are made only at the places of the paths that are listed. -/
theorem place_of_makeAll {paths : List Path} (hw : t.WellFormed) (hpaths : ∀ p ∈ paths, p.Straight)
    (hl : (t.makeAll paths).1.get? l ≠ t.get? l) : ∃ p ∈ paths, l = t.place p := by
  have hmade : ∀ {s s' : FileTree} {p : Path}, p.Straight → s.makeDirectory p = .ok s' →
      s'.get? l ≠ s.get? l → l = s.place p := by
    intro s s' p hp hmake hne
    obtain ⟨dir, name, haim, -, -, rfl⟩ := makeDirectory_eq_ok hmake
    rw [haim.place_eq hp]
    by_contra hother
    refine hne ?_
    rw [get?_put, if_neg hother]
    split_ifs with hroot
    · rw [hroot, get?_root]
    · rfl
  induction paths generalizing t with
  | nil => exact absurd rfl hl
  | cons p above ih =>
    have hp := hpaths p (List.mem_cons_self ..)
    unfold makeAll at hl
    by_cases hempty : p.text = ""
    · rw [if_pos hempty] at hl
      exact absurd rfl hl
    · rw [if_neg hempty] at hl
      cases hmake : t.makeDirectory p with
      | ok made =>
        rw [hmake] at hl
        exact ⟨p, List.mem_cons_self .., hmade hp hmake hl⟩
      | error fault =>
        rw [hmake] at hl
        cases fault with
        | notFound =>
          have habove := directoriesMade_makeAll hw above
          have hin := fun hne => ih hw (fun q hq => hpaths q (List.mem_cons_of_mem _ hq)) hne
          cases hall : t.makeAll above with
          | mk s result =>
            rw [hall] at hl habove hin
            have hlisted : s.get? l ≠ t.get? l → ∃ p' ∈ p :: above, l = t.place p' := by
              intro hne
              obtain ⟨q, hq, heq⟩ := hin hne
              exact ⟨q, List.mem_cons_of_mem _ hq, heq⟩
            cases result with
            | some fault => exact hlisted hl
            | none =>
              dsimp only at hl
              cases hagain : s.makeDirectory p with
              | error fault =>
                rw [hagain] at hl
                exact hlisted hl
              | ok made =>
                rw [hagain] at hl
                by_cases hsame : s.get? l = t.get? l
                · rw [← hsame] at hl
                  have hplace := hmade hp hagain hl
                  rw [place_congr habove.home] at hplace
                  exact ⟨p, List.mem_cons_self .., hplace⟩
                · exact hlisted hsame
        | _ => exact absurd rfl hl

/-! ### The making succeeds -/

/-- Nothing keeps a directory from being made at the place of the path, if its text is fine. -/
structure Clear (t : FileTree) (p : Path) : Prop where
  start : t.get? (t.start p) = some .directory
  short : ∀ s ∈ names (steps p), s.utf8ByteSize ≤ maxNameBytes
  no_file : ∀ k, k <+: t.place p → ∀ bytes, t.get? k ≠ some (.file bytes)

theorem Clear.above (h : t.Clear p) (habove : Above p q) : t.Clear q :=
  ⟨habove.start_eq t ▸ h.start, fun s hs => h.short s (habove.isPrefix_names.subset hs),
    fun k hk => h.no_file k (hk.trans (habove.isPrefix_place t))⟩

/-- Where a directory is missing on the way, and no file stands in its stead, nothing is found. -/
theorem foldlM_enter_eq_notFound (hup : ".." ∉ ps)
    (hshort : ∀ s ∈ names ps, s.utf8ByteSize ≤ maxNameBytes)
    (hfile : ∀ w, w <+: names ps → ∀ bytes, t.get? (dir ++ w) ≠ some (.file bytes))
    (hdir : t.get? dir = some .directory) (hend : t.get? (dir ++ names ps) ≠ some .directory) :
    ps.foldlM t.enter dir = .error .notFound := by
  induction ps generalizing dir with
  | nil =>
    rw [names_nil, List.append_nil] at hend
    exact absurd hdir hend
  | cons s ps ih =>
    rw [List.mem_cons, not_or] at hup
    rw [List.foldlM_cons]
    by_cases hs : s = "."
    · subst hs
      rw [(enter_eq_ok_iff (Ne.symm hup.1)).mpr (Or.inl ⟨rfl, rfl⟩)]
      exact ih hup.2 hshort hfile hdir hend
    · rw [names_cons hs] at hshort hfile hend
      have hsize := hshort s (List.mem_cons_self ..)
      cases hget : t.get? (dir ++ [s]) with
      | none =>
        have hchild := child_eq_notFound_iff.mpr ⟨hsize, hget⟩
        have henter : t.enter dir s = .error .notFound := by
          rw [enter, if_neg hs, if_neg (Ne.symm hup.1), hchild]
        rw [henter]
        rfl
      | some e =>
        cases e with
        | file bytes => exact absurd hget (hfile [s] (by simp) bytes)
        | directory =>
          rw [(enter_eq_ok_iff (Ne.symm hup.1)).mpr (Or.inr ⟨hs, hsize, rfl, hget⟩)]
          refine ih hup.2 (fun n hn => hshort n (List.mem_cons_of_mem _ hn)) ?_ hget ?_
          · intro w hpre bytes
            have hw := hfile (s :: w) (List.cons_prefix_cons.mpr ⟨rfl, hpre⟩) bytes
            rwa [List.append_cons] at hw
          · rwa [List.append_cons] at hend

/-- A path without names leads to the directory that it is followed from. -/
theorem approach_of_no_names (ha : p.Accepted) (hnil : names (steps p) = []) :
    ∃ x, t.approach p = .ok (t.start p, x) ∧ (x = none ∨ x = some ".") := by
  have hdots : ∀ ps : List String, names ps = [] → ps.foldlM t.enter (t.start p) =
      .ok (t.start p) := by
    intro ps hps
    induction ps with
    | nil => rfl
    | cons s ps ih =>
      have hs : s = "." := by
        by_contra hne
        rw [names_cons hne] at hps
        cases hps
      subst hs
      rw [List.foldlM_cons, (enter_eq_ok_iff (by decide)).mpr (Or.inl ⟨rfl, rfl⟩)]
      exact ih hps
  rcases List.eq_nil_or_concat (steps p) with hs | ⟨before, last, hs⟩
  · exact ⟨none, approach_of_no_steps ha hs, Or.inl rfl⟩
  · rw [List.concat_eq_append] at hs
    rw [hs, names_append, List.append_eq_nil_iff] at hnil
    have hlast : last = "." := by
      by_contra hne
      rw [names_cons hne] at hnil
      cases hnil.2
    subst hlast
    exact ⟨some ".", (approach_eq_ok_iff ha hs).mpr ⟨rfl, hdots before hnil.1⟩, Or.inr rfl⟩

theorem isDirectory_of_no_names (ha : p.Accepted) (hnil : names (steps p) = []) :
    t.isDirectory p = true := by
  obtain ⟨x, happ, rfl | rfl⟩ := approach_of_no_names (t := t) ha hnil
  · rw [isDirectory, find, happ]
  · rw [isDirectory, find, happ]
    rfl

theorem makeDirectory_of_no_names (ha : p.Accepted) (hnil : names (steps p) = []) :
    t.makeDirectory p = .error .alreadyExists := by
  obtain ⟨x, happ, rfl | rfl⟩ := approach_of_no_names (t := t) ha hnil
  · rw [makeDirectory, happ]
  · rw [makeDirectory, happ]
    rfl

/-- One directory is made, or is there, if what it lies in is a directory. -/
theorem makeDirectory_cases (hw : t.WellFormed) (hp : p.Straight) (hn : p.Named) (ha : p.Accepted)
    (hshort : ∀ s ∈ names (steps p), s.utf8ByteSize ≤ maxNameBytes)
    (hparent : t.get? (t.place p).dropLast = some .directory)
    (hfile : ∀ bytes, t.get? (t.place p) ≠ some (.file bytes)) :
    (∃ made, t.makeDirectory p = .ok made ∧ made.get? (t.place p) = some .directory) ∨
      t.makeDirectory p = .error .alreadyExists ∧ t.isDirectory p = true ∧
        t.get? (t.place p) = some .directory := by
  have hisdir := (isDirectory_iff hw hp hn).mpr
  obtain ⟨before, last, hs, hhere⟩ := hn
  have hup := hp
  rw [Path.Straight, hs, List.mem_append, List.mem_singleton, not_or] at hup
  have hplace : t.place p = t.start p ++ names before ++ [last] := by
    rw [place, hs, names_append, names_cons hhere, names_nil, List.append_assoc]
  rw [hplace] at hparent hfile hisdir ⊢
  rw [List.dropLast_concat] at hparent
  have hsize : last.utf8ByteSize ≤ maxNameBytes :=
    hshort last (by rw [hs, names_append, names_cons hhere]; simp)
  have happ := (approach_eq_ok_iff ha hs).mpr
    ⟨rfl, foldlM_enter_of_directory hw hup.1 hparent⟩
  unfold makeDirectory
  rw [happ]
  simp only [hhere, Ne.symm hup.2, or_self, if_false]
  cases hget : t.get? (t.start p ++ names before ++ [last]) with
  | none =>
    rw [child_eq_notFound_iff.mpr ⟨hsize, hget⟩, add, if_pos hparent]
    refine Or.inl ⟨_, rfl, ?_⟩
    rw [get?_put, if_neg (by simp), if_pos rfl]
  | some e =>
    cases e with
    | file bytes => exact absurd hget (hfile bytes)
    | directory =>
      rw [child_eq_ok_iff.mpr ⟨hsize, rfl, hget⟩]
      exact Or.inr ⟨rfl, hisdir ⟨ha, hget⟩, rfl⟩

/-- A directory whose parent is missing is not found. -/
theorem makeDirectory_eq_notFound (hp : p.Straight) (hn : p.Named) (ha : p.Accepted)
    (hclear : t.Clear p)
    (hparent : t.get? (t.place p).dropLast ≠ some .directory) :
    t.makeDirectory p = .error .notFound := by
  obtain ⟨before, last, hs, hhere⟩ := hn
  have hup := hp
  rw [Path.Straight, hs, List.mem_append, not_or] at hup
  have hnames : names (steps p) = names before ++ [last] := by
    rw [hs, names_append, names_cons hhere, names_nil]
  have hplace : t.place p = t.start p ++ names before ++ [last] := by
    rw [place, hnames, List.append_assoc]
  rw [hplace, List.dropLast_concat] at hparent
  have hfold : before.foldlM t.enter (t.start p) = .error .notFound := by
    refine foldlM_enter_eq_notFound hup.1 ?_ ?_ hclear.start hparent
    · exact fun s h => hclear.short s (hnames ▸ List.mem_append_left _ h)
    · intro w hpre
      refine hclear.no_file _ ?_
      rw [hplace, List.append_assoc, List.prefix_append_right_inj]
      exact hpre.trans (List.prefix_append _ _)
  have happ : t.approach p = .error .notFound := by
    rw [approach_of_accepted ha, hs, List.getLast?_concat, List.dropLast_concat, hfold]
    rfl
  rw [makeDirectory, happ]

/-- With the paths above it, a directory is made wherever no file is in the way. -/
theorem makeAll_ancestorsWithin {n : Nat} (hw : t.WellFormed) (hp : p.Straight)
    (hends : names (steps p) = [] ∨ p.Named) (ha : p.text = "" ∨ p.Accepted) (hclear : t.Clear p)
    (hn : p.text.length ≤ n) :
    (t.makeAll (Path.ancestorsWithin n p)).2 = none ∧
      (t.makeAll (Path.ancestorsWithin n p)).1.get? (t.place p) = some .directory := by
  induction n generalizing p with
  | zero =>
    have hempty : p.text = "" := by
      rw [← String.toList_eq_nil_iff, ← List.length_eq_zero_iff, String.length_toList]
      omega
    rw [Path.ancestorsWithin, makeAll, if_pos hempty, place, steps_empty hempty]
    exact ⟨rfl, by simpa using hclear.start⟩
  | succ n ih =>
    have hlist : ∃ above, Path.ancestorsWithin (n + 1) p = p :: above ∧
        ∀ q, p.parent? = some q → above = Path.ancestorsWithin n q := by
      rw [Path.ancestorsWithin]
      cases p.parent? with
      | none => exact ⟨[], rfl, by simp⟩
      | some q => exact ⟨_, rfl, by simp⟩
    obtain ⟨above, hcons, habove⟩ := hlist
    rw [hcons, makeAll]
    by_cases hempty : p.text = ""
    · rw [if_pos hempty, place, steps_empty hempty]
      exact ⟨rfl, by simpa using hclear.start⟩
    · rw [if_neg hempty]
      have ha := ha.resolve_left hempty
      rcases hends with hnil | hnamed
      · rw [makeDirectory_of_no_names ha hnil]
        dsimp only
        rw [if_pos (isDirectory_of_no_names ha hnil), place, hnil, List.append_nil]
        exact ⟨rfl, hclear.start⟩
      · have hfile := hclear.no_file _ (List.prefix_refl _)
        by_cases hparent : t.get? (t.place p).dropLast = some .directory
        · rcases makeDirectory_cases hw hp hnamed ha hclear.short hparent hfile with
            ⟨made, hmake, hmade⟩ | ⟨hmake, hisdir, hget⟩
          · rw [hmake]
            exact ⟨rfl, hmade⟩
          · rw [hmake]
            dsimp only
            rw [if_pos hisdir]
            exact ⟨rfl, hget⟩
        · rw [makeDirectory_eq_notFound hp hnamed ha hclear hparent]
          obtain ⟨q, hq⟩ := exists_parent? hnamed
          have hup := above_of_parent? hq
          obtain ⟨s, hplace⟩ := hup.place_eq hnamed t
          have hrest := ih (hup.straight hp) hup.ends (hup.accepted ha) (hclear.above hup)
            (by have := hup.shorter; omega)
          rw [← habove q hq] at hrest
          have hmade := directoriesMade_makeAll hw above
          cases hall : t.makeAll above with
          | mk u result =>
            rw [hall] at hrest hmade
            obtain ⟨rfl, hdir⟩ := hrest
            dsimp only at hdir hmade ⊢
            have hplace' : u.place p = t.place p := place_congr hmade.home
            have hcases := makeDirectory_cases hmade.wellFormed hp hnamed ha hclear.short
              (by rw [hplace', hplace, List.dropLast_concat]; exact hdir)
              (fun bytes hget => hfile bytes (hmade.file_iff.mp (hplace' ▸ hget)))
            rw [hplace'] at hcases
            rcases hcases with ⟨made, hmake, hget⟩ | ⟨hmake, hisdir, hget⟩
            · rw [hmake]
              exact ⟨rfl, hget⟩
            · rw [hmake]
              dsimp only
              rw [if_pos hisdir]
              exact ⟨rfl, hget⟩

theorem makeDirectories_of_clear (hw : t.WellFormed) (hp : p.Straight)
    (hends : names (steps p) = [] ∨ p.Named) (ha : p.text = "" ∨ p.Accepted)
    (hclear : t.Clear p) : (t.makeDirectories p).2 = none ∧
      (t.makeDirectories p).1.get? (t.place p) = some .directory :=
  makeAll_ancestorsWithin hw hp hends ha hclear (Nat.le_succ _)

end CrudBackend.FileTree
