import CrudBackend.Proofs.Files.WellFormed

/-!
The place of a path: the only location that it can lead to if it has no step up. The place follows
from the segments of the path, and a path that is continued by a name has its place one name further
down.
-/

namespace CrudBackend

open FileTree

/-- No segment of the path is a step up. -/
def Path.Straight (p : Path) : Prop := ".." ∉ steps p

instance (p : Path) : Decidable p.Straight := inferInstanceAs (Decidable (".." ∉ steps p))

namespace FileTree

/-- The segments that lead down, which are all but single dots. -/
def names (segments : List String) : List String := segments.filter (· ≠ ".")

/-- The only location that a path without a step up can lead to. -/
def place (t : FileTree) (p : Path) : Location := t.start p ++ names (steps p)

variable {t t' : FileTree} {p : Path} {s : String}

@[simp] theorem names_nil : names [] = [] := rfl

@[simp] theorem names_here_cons (segments : List String) :
    names ("." :: segments) = names segments := rfl

theorem names_cons (hs : s ≠ ".") (segments : List String) :
    names (s :: segments) = s :: names segments :=
  List.filter_cons_of_pos (decide_eq_true hs)

@[simp] theorem names_append (before after : List String) :
    names (before ++ after) = names before ++ names after := List.filter_append ..

theorem mem_splitOn_separator {cs ds : List Char} (h : ds ∈ cs.splitOn '/') :
    '/' ∉ ds ∧ ∀ c ∈ ds, c ∈ cs := by
  induction cs generalizing ds with
  | nil =>
    rw [List.splitOn_nil, List.mem_singleton] at h
    simp [h]
  | cons c rest ih =>
    rw [List.splitOn_cons_eq_if_modifyHead] at h
    obtain ⟨first, more, heq⟩ := List.exists_cons_of_ne_nil (List.splitOn_ne_nil '/' rest)
    rw [heq] at h ih
    split_ifs at h with hc
    · rcases List.mem_cons.mp h with rfl | h
      · simp
      · exact ⟨(ih h).1, fun x hx => List.mem_cons_of_mem _ ((ih h).2 x hx)⟩
    · rw [List.modifyHead_cons] at h
      rcases List.mem_cons.mp h with rfl | h
      · have hfirst := ih (List.mem_cons_self ..)
        refine ⟨?_, ?_⟩
        · intro hmem
          rcases List.mem_cons.mp hmem with rfl | hmem
          · exact hc (beq_self_eq_true _)
          · exact hfirst.1 hmem
        · intro x hx
          rcases List.mem_cons.mp hx with rfl | hx
          · exact List.mem_cons_self ..
          · exact List.mem_cons_of_mem _ (hfirst.2 x hx)
      · have hmore := ih (List.mem_cons_of_mem _ h)
        exact ⟨hmore.1, fun x hx => List.mem_cons_of_mem _ (hmore.2 x hx)⟩

theorem mem_steps (h : s ∈ steps p) :
    s ≠ "" ∧ '/' ∉ s.toList ∧ ∀ c ∈ s.toList, c ∈ p.text.toList := by
  obtain ⟨ds, hds, rfl⟩ := List.mem_map.mp h
  obtain ⟨hmem, hne⟩ := List.mem_filter.mp hds
  have hsep := mem_splitOn_separator hmem
  refine ⟨?_, by simpa using hsep⟩
  intro hnil
  have hds : ds = [] := by simpa using congrArg String.toList hnil
  simp [hds] at hne

/-- The segments of a text that a separator divides. -/
theorem steps_of_append_separator {cs ds : List Char} (hp : p.text.toList = cs ++ '/' :: ds) :
    steps p = steps ⟨String.ofList cs⟩ ++ steps ⟨String.ofList ds⟩ := by
  simp only [steps, Path.pieces, hp, String.toList_ofList, List.splitOn_append_cons_self,
    List.filter_append, List.map_append]

theorem steps_empty (h : p.text = "") : steps p = [] := by
  simp [steps, Path.pieces, h]

theorem steps_of_isName (hs : IsName s) : steps ⟨s⟩ = [s] := by
  have hne : s.toList ≠ [] := fun h => hs.not_empty (String.toList_eq_nil_iff.mp h)
  simp [steps, Path.pieces, List.splitOn_eq_singleton hs.no_separator, hne]

theorem isAbsolute_of_isName (hs : IsName s) : (Path.mk s).isAbsolute = false := by
  have hsep := hs.no_separator
  unfold Path.isAbsolute
  cases heq : s.toList with
  | nil => rfl
  | cons c rest =>
    rw [heq, List.mem_cons, not_or] at hsep
    simpa using Ne.symm hsep.1

/-- How a path continued by a relative one is spelled. -/
theorem join_cases (hrel : (Path.mk s).isAbsolute = false) :
    (p.text = "" ∧ (p.join s).text.toList = s.toList) ∨
    (∃ cs, p.text.toList = cs ++ ['/'] ∧ (p.join s).text.toList = cs ++ '/' :: s.toList) ∨
    (p.text ≠ "" ∧ (p.join s).text.toList = p.text.toList ++ '/' :: s.toList) := by
  unfold Path.join
  rw [if_neg (by simp [hrel])]
  rcases List.eq_nil_or_concat p.text.toList with hnil | ⟨cs, c, heq⟩
  · have htext := String.toList_eq_nil_iff.mp hnil
    refine Or.inl ⟨htext, ?_⟩
    simp [htext]
  · have hne : p.text ≠ "" := fun h => by simp [h] at heq
    by_cases hc : c = '/'
    · subst hc
      refine Or.inr (Or.inl ⟨cs, by simpa using heq, ?_⟩)
      simp [heq]
    · refine Or.inr (Or.inr ⟨hne, ?_⟩)
      simp [heq, hc]

theorem steps_join (hrel : (Path.mk s).isAbsolute = false) :
    steps (p.join s) = steps p ++ steps ⟨s⟩ := by
  rcases join_cases (p := p) hrel with ⟨hp, hj⟩ | ⟨cs, hp, hj⟩ | ⟨-, hj⟩
  · rw [steps_empty hp, List.nil_append]
    simp only [steps, Path.pieces, hj]
  · rw [steps_of_append_separator hj, steps_of_append_separator hp, String.ofList_toList,
      steps_empty (p := ⟨String.ofList []⟩) rfl, List.append_nil]
  · rw [steps_of_append_separator hj, String.ofList_toList, String.ofList_toList]

theorem isAbsolute_join (hrel : (Path.mk s).isAbsolute = false) :
    (p.join s).isAbsolute = p.isAbsolute := by
  have hhead : ∀ q : Path, q.isAbsolute = (q.text.toList.head? == some '/') := fun _ => rfl
  rcases join_cases (p := p) hrel with ⟨hp, hj⟩ | ⟨cs, hp, hj⟩ | ⟨hp, hj⟩
  · rw [hhead (p.join s), hj, ← hhead ⟨s⟩, hrel, hhead p, hp]
    rfl
  · rw [hhead, hhead, hj, hp]
    cases cs <;> rfl
  · rw [hhead, hhead, hj]
    cases heq : p.text.toList with
    | nil => exact absurd (String.toList_eq_nil_iff.mp heq) hp
    | cons c rest => rfl

theorem suffix_join (p : Path) (s : String) :
    ∃ cs, (p.join s).text.toList = cs ++ s.toList := by
  unfold Path.join
  split_ifs
  · exact ⟨[], rfl⟩
  · exact ⟨p.text.toList ++ ['/'], by simp⟩
  · exact ⟨p.text.toList, by simp⟩

theorem utf8ByteSize_le_join (hs : IsName s) :
    p.text.utf8ByteSize ≤ (p.join s).text.utf8ByteSize := by
  unfold Path.join
  rw [if_neg (by simp [isAbsolute_of_isName hs])]
  split_ifs
  · simp only [String.utf8ByteSize_append]
    omega
  · simp only [String.utf8ByteSize_append]
    omega

theorem utf8ByteSize_join_le (hs : IsName s) :
    (p.join s).text.utf8ByteSize ≤ p.text.utf8ByteSize + 1 + s.utf8ByteSize := by
  unfold Path.join
  rw [if_neg (by simp [isAbsolute_of_isName hs])]
  split_ifs
  · have hslash : "/".utf8ByteSize = 1 := by decide
    simp only [String.utf8ByteSize_append]
    omega
  · simp only [String.utf8ByteSize_append]
    omega

theorem place_join (hrel : (Path.mk s).isAbsolute = false) :
    t.place (p.join s) = t.place p ++ names (steps ⟨s⟩) := by
  simp only [place, start, isAbsolute_join hrel, steps_join hrel, names_append, List.append_assoc]

theorem place_join_name (hs : IsName s) : t.place (p.join s) = t.place p ++ [s] := by
  rw [place_join (isAbsolute_of_isName hs), steps_of_isName hs, names_cons hs.not_here, names_nil]

theorem steps_join_name (hs : IsName s) : steps (p.join s) = steps p ++ [s] := by
  rw [steps_join (isAbsolute_of_isName hs), steps_of_isName hs]

theorem straight_join_name (hs : IsName s) : (p.join s).Straight ↔ p.Straight := by
  simp [Path.Straight, steps_join_name hs, hs.not_up.symm]

theorem place_congr (h : t'.home = t.home) : t'.place p = t.place p := by
  simp only [place, start, h]

end FileTree

end CrudBackend
