import CrudBackend.Proofs.Output.Apart

/-!
Room for the output of a run. Paths and names are taken up to a length each. Every target lies one
or two names below one of the five directories, so if these paths leave room for two more names, and
no file stands where a directory has to be, every target can be brought out.
-/

namespace CrudBackend

open FileTree Ownership

/-- The path begins at a directory, and it can be continued by `n` bytes. It may be empty: what is
joined to it is not. -/
structure FileTree.Room (t : FileTree) (n : Nat) (p : Path) : Prop where
  no_nul : ∀ c ∈ p.text.toList, c.toNat ≠ 0
  short : p.text.utf8ByteSize + n ≤ maxPathBytes
  names_short : ∀ s ∈ names (steps p), s.utf8ByteSize ≤ maxNameBytes
  start : t.get? (t.start p) = some .directory

instance (t : FileTree) (n : Nat) (p : Path) : Decidable (t.Room n p) :=
  decidable_of_iff ((p.text.toList.all fun c => c.toNat ≠ 0) = true ∧
      p.text.utf8ByteSize + n ≤ maxPathBytes ∧
      (∀ s ∈ names (steps p), s.utf8ByteSize ≤ maxNameBytes) ∧
      t.get? (t.start p) = some .directory)
    ⟨fun ⟨h1, h2, h3, h4⟩ => ⟨by simpa using h1, h2, h3, h4⟩,
      fun ⟨h1, h2, h3, h4⟩ => ⟨by simpa using h1, h2, h3, h4⟩⟩

/-- The bytes that a name takes at most, with the separator before it. -/
def nameRoom : Nat := maxNameBytes + 1

def Spec.Nameable (s : Spec) : Prop :=
  ∀ e ∈ s.entities, IsName e.moduleName ∧ IsName (e.fileStem ++ Generation.draftEnding)

instance (s : Spec) : Decidable s.Nameable :=
  inferInstanceAs (Decidable
    (∀ e ∈ s.entities, IsName e.moduleName ∧ IsName (e.fileStem ++ Generation.draftEnding)))

/-- Two names fit below each of the five directories, no file lies above what is two names below
them, and no directory is named like a mark. -/
structure Layout.Roomy (t : FileTree) (l : Layout) : Prop where
  room : ∀ dir ∈ l.packageDirs, t.Room (2 * nameRoom) dir
  deep : ∀ x ∈ t.entries, x.2 = .directory ∨
    ∀ dir ∈ l.packageDirs, (t.place dir).length + 2 ≤ x.1.length
  mark : ∀ x ∈ t.entries, x.2 = .directory → x.1.getLast? ≠ some stampName

instance (t : FileTree) (l : Layout) : Decidable (l.Roomy t) :=
  decidable_of_iff ((∀ dir ∈ l.packageDirs, t.Room (2 * nameRoom) dir) ∧
      (∀ x ∈ t.entries, x.2 = .directory ∨
        ∀ dir ∈ l.packageDirs, (t.place dir).length + 2 ≤ x.1.length) ∧
      ∀ x ∈ t.entries, x.2 = .directory → x.1.getLast? ≠ some stampName)
    ⟨fun ⟨h1, h2, h3⟩ => ⟨h1, h2, h3⟩, fun ⟨h1, h2, h3⟩ => ⟨h1, h2, h3⟩⟩

variable {s : Spec} {c : Config} {l : Layout} {i : Imports} {dir p : Path} {spec : RawPath}
  {way : List String} {piece : Piece} {t : FileTree} {name : String} {n : Nat}

/-- A name with a shorter ending is one still. -/
theorem IsName.of_append {stem ending ending' : String} (h : IsName (stem ++ ending))
    (hsep : '/' ∉ ending'.toList) (hnul : ∀ c ∈ ending'.toList, c.toNat ≠ 0)
    (hlong : 2 < ending'.length) (hshort : ending'.utf8ByteSize ≤ ending.utf8ByteSize) :
    IsName (stem ++ ending') := by
  obtain ⟨-, -, -, hsep', hnul', hshort'⟩ := h
  rw [String.toList_append] at hsep' hnul'
  rw [String.utf8ByteSize_append] at hshort'
  have hstem : '/' ∉ stem.toList := fun hc => hsep' (List.mem_append_left _ hc)
  obtain ⟨hne, hhere, hup, hno⟩ := isSegment_append hstem hsep hlong
  refine ⟨hne, hhere, hup, hno, ?_, ?_⟩
  · intro c hc
    rw [String.toList_append] at hc
    rcases List.mem_append.mp hc with hc | hc
    · exact hnul' c (List.mem_append_left _ hc)
    · exact hnul c hc
  · rw [String.utf8ByteSize_append]
    omega

namespace FileTree.Room

theorem join (h : t.Room (n + nameRoom) p) (hs : IsName name) : t.Room n (p.join name) where
  no_nul := no_nul_join h.no_nul hs
  short := by
    have hjoin := utf8ByteSize_join_le (p := p) hs
    have hname := hs.short
    have hshort := h.short
    unfold nameRoom at hshort
    omega
  names_short := by
    intro m hm
    rw [steps_join_name hs, names_append, names_cons hs.not_here, names_nil] at hm
    rcases List.mem_append.mp hm with hm | hm
    · exact h.names_short m hm
    · rw [List.mem_singleton.mp hm]
      exact hs.short
  start := by
    rw [FileTree.start, isAbsolute_join (isAbsolute_of_isName hs)]
    exact h.start

theorem down (h : t.Room (n + way.length * nameRoom) dir) (hway : ∀ m ∈ way, IsName m) :
    t.Room n (Cleaning.down dir way) := by
  induction way generalizing dir with
  | nil =>
    rw [List.length_nil, Nat.zero_mul] at h
    exact h
  | cons m rest ih =>
    rw [List.length_cons, Nat.add_mul, Nat.one_mul, ← Nat.add_assoc] at h
    exact ih (h.join (hway m (List.mem_cons_self ..))) fun m' hm' =>
      hway m' (List.mem_cons_of_mem _ hm')

theorem of_le {m : Nat} (h : t.Room n p) (hle : m ≤ n) : t.Room m p :=
  ⟨h.no_nul, Nat.le_trans (Nat.add_le_add_left hle _) h.short, h.names_short, h.start⟩

theorem accepted (h : t.Room n p) (hne : p.text ≠ "") : p.Accepted :=
  ⟨textFault?_eq_none_iff.mpr ⟨hne, h.no_nul⟩, Nat.le_trans (Nat.le_add_right ..) h.short⟩

end FileTree.Room

namespace Generation

theorem Goes.isName (hn : s.Nameable) (h : Goes s c l i spec dir way piece) :
    ∀ m ∈ way, IsName m := by
  have hinit : IsName "__init__.py" := isName_initFile
  have hmark : IsName stampName := by decide
  cases h with
  | package hd => simpa using hinit
  | shared hs =>
    simp only [sharedTexts, List.mem_cons, Prod.mk.injEq, List.not_mem_nil, or_false] at hs
    rcases hs with ⟨-, rfl, -⟩ | ⟨-, rfl, -⟩ | ⟨-, rfl, -⟩ | ⟨-, rfl, -⟩ | ⟨-, rfl, -⟩ | ⟨-, rfl, -⟩ <;>
      exact List.forall_mem_singleton.mpr (by decide)
  | modulePackage hr he => simpa using ⟨(hn _ he).1, hinit⟩
  | mark hr he => simpa using ⟨(hn _ he).1, hmark⟩
  | draft he hx => simpa using hn _ he
  | @file root ending text e he hf =>
    have hfile : IsName (e.fileStem ++ ending) := by
      simp only [entityTexts, List.mem_cons, Prod.mk.injEq, List.not_mem_nil, or_false] at hf
      rcases hf with ⟨-, rfl, -⟩ | ⟨-, rfl, -⟩ | ⟨-, rfl, -⟩ | ⟨-, rfl, -⟩ <;>
        exact (hn e he).2.of_append (by decide) (by simp) (by decide) (by decide)
    simpa using ⟨(hn e he).1, hfile⟩

theorem Goes.length_le (h : Goes s c l i spec dir way piece) : way.length ≤ 2 := by
  cases h <;> simp

/-- Nothing is in the way to a target. -/
theorem Goes.open_target (hs : s.Plain) (hn : s.Nameable) (hr : l.Roomy t)
    (h : Goes s c l i spec dir way piece) : t.Open piece.target := by
  have hdir := hr.room dir h.mem_packageDirs
  have hlen := h.length_le
  have hroom : t.Room 0 piece.target := by
    rw [h.target_eq]
    refine FileTree.Room.down (hdir.of_le ?_) (h.isName hn)
    rw [Nat.zero_add]
    exact Nat.mul_le_mul_right _ hlen
  have hne : piece.target.text ≠ "" := by
    obtain ⟨cs, hcs⟩ := h.suffix_target
    intro hempty
    rw [hempty, eq_comm] at hcs
    exact (ending_cases piece).2.1 (List.append_eq_nil_iff.mp hcs).2
  refine ⟨hroom.accepted hne, hroom.names_short, hroom.start, ?_⟩
  intro k hk hnot bytes hfile
  have hroot : k ≠ [] := by
    rintro rfl
    cases hfile
  rcases hr.deep _ (mem_entries_of_get? hroot hfile) with hkind | hdeep
  · cases hkind
  · have hshort := hk.length_le.lt_of_ne fun heq => hnot (hk.eq_of_length heq)
    have hdepth : (t.place dir).length + 2 ≤ k.length := hdeep dir h.mem_packageDirs
    rw [h.place_eq hs, List.length_append] at hshort
    omega

/-- No mark is a directory. -/
theorem get?_stampFile_ne (hr : l.Roomy t) (dir : Path) :
    t.get? (t.place (stampFile dir)) ≠ some .directory := by
  intro hget
  have hmark : IsName stampName := by decide
  rw [stampFile, place_join_name hmark] at hget
  have hroot : t.place dir ++ [stampName] ≠ [] := by simp
  exact hr.mark _ (mem_entries_of_get? hroot hget) rfl List.getLast?_concat

end Generation

end CrudBackend
