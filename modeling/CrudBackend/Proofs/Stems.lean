import CrudBackend.Proofs.LowerCase
import CrudBackend.Proofs.Names
import CrudBackend.Spec.Basic

/-!
File stems as names in a path. Snake case only brings in underscores and lower-case letters, so the
stem of a class has no separator, no dot and no other mark that the name of the class does not have.
-/

namespace CrudBackend

structure IsPlain (s : String) : Prop where
  not_empty : s ≠ ""
  no_separator : '/' ∉ s.toList
  no_dot : '.' ∉ s.toList

instance (s : String) : Decidable (IsPlain s) :=
  decidable_of_iff (s ≠ "" ∧ '/' ∉ s.toList ∧ '.' ∉ s.toList)
    ⟨fun ⟨h1, h2, h3⟩ => ⟨h1, h2, h3⟩, fun ⟨h1, h2, h3⟩ => ⟨h1, h2, h3⟩⟩

theorem isPlain_of_isIdentifier {s : String} (h : Python.isIdentifier s = true) : IsPlain s := by
  obtain ⟨hhead, hall⟩ := Python.isIdentifier_iff.mp h
  have hnot : ∀ d, Python.continuesIdentifier d = false → d ∉ s.toList := by
    intro d hd hin
    rw [hall d hin] at hd
    cases hd
  refine ⟨?_, hnot '/' (by decide), hnot '.' (by decide)⟩
  rintro rfl
  simp at hhead

/-! ### Lower case -/

/-- A character that comes before digits and letters, as separators and dots do. -/
def IsMark (d : Char) : Prop := 0 < d.toNat ∧ d.toNat ≤ 47

instance (d : Char) : Decidable (IsMark d) :=
  inferInstanceAs (Decidable (0 < d.toNat ∧ d.toNat ≤ 47))

variable {d : Char}

theorem IsMark.toLower_ne (hd : IsMark d) {c : Char} (hc : c ≠ d) (hascii : c.toNat < 0x80) :
    c.toLower ≠ d := by
  have hkept : c.toLower.toNat ≤ 47 → c.toLower = c := by
    refine Text.forall_ascii (P := fun c => c.toLower.toNat ≤ 47 → c.toLower = c) ?_ hascii
    decide
  rintro rfl
  exact hc (hkept hd.2).symm

namespace Text

theorem lowerLetter?_ne (hd : IsMark d) {n : Nat} {c : Char} (h : lowerLetter? n = some c) :
    c ≠ d := by
  have hall : ∀ run ∈ lowerRuns, 47 < (run.1 : Int) + run.2.2.2 := by decide +kernel
  simp only [lowerLetter?, Option.map_eq_some_iff] at h
  obtain ⟨⟨first, last, step, shift⟩, hrun, rfl⟩ := h
  have hlow := hall _ (List.mem_of_find?_eq_some hrun)
  have hin := List.find?_some hrun
  simp only [Bool.and_eq_true, decide_eq_true_eq] at hin
  dsimp only at hlow ⊢
  intro heq
  have hval : ∀ m, Char.ofNat m = d → m = d.toNat := by
    intro m hm
    by_cases hvalid : m.isValidChar
    · rw [Char.ofNat, dif_pos hvalid] at hm
      exact congrArg Char.toNat hm
    · rw [Char.ofNat, dif_neg hvalid] at hm
      subst hm
      cases hd.1
  have hd := hd.2
  have := hval _ heq
  omega

theorem not_mem_lowerLetter (hd : IsMark d) {c : Char} (hc : c ≠ d) : d ∉ lowerLetter c := by
  unfold lowerLetter
  split_ifs with hascii hdotted
  · simpa using (hd.toLower_ne hc hascii).symm
  · intro hin
    have hall : ∀ c ∈ ['i', Char.ofNat 0x307], ¬ IsMark c :=
      List.forall_mem_cons.mpr ⟨by decide, List.forall_mem_singleton.mpr (by decide)⟩
    exact hall d hin hd
  · cases hlower : lowerLetter? c.toNat with
    | none => simpa using hc.symm
    | some other => simpa using (lowerLetter?_ne hd hlower).symm

theorem not_mem_lowerAfter (hd : IsMark d) {before cs : List Char} (h : d ∉ cs) :
    d ∉ lowerAfter before cs := by
  induction cs generalizing before with
  | nil => exact h
  | cons c rest ih =>
    rw [List.mem_cons, not_or] at h
    rw [lowerAfter, List.mem_append, not_or]
    refine ⟨?_, ih h.2⟩
    have hsigma : ∀ c ∈ ['ς', 'σ'], ¬ IsMark c :=
      List.forall_mem_cons.mpr ⟨by decide, List.forall_mem_singleton.mpr (by decide)⟩
    split_ifs
    · exact fun hin => hsigma d (by simp_all) hd
    · exact fun hin => hsigma d (by simp_all) hd
    · exact not_mem_lowerLetter hd (Ne.symm h.1)

end Text

/-! ### Snake case -/

namespace Naming

theorem mem_splitWords {state : WordSearch} {cs : List Char} {c : Char}
    (h : c ∈ splitWords state cs) : c ∈ cs ∨ c = '_' := by
  fun_induction splitWords state cs <;> grind

theorem mem_splitBoundaries {cs : List Char} {c : Char} (h : c ∈ splitBoundaries cs) :
    c ∈ cs ∨ c = '_' := by
  fun_induction splitBoundaries cs <;> grind

theorem not_mem_snakeChars (hd : IsMark d) {cs : List Char} (h : d ∉ cs) : d ∉ snakeChars cs := by
  have hunderscore : d ≠ '_' := by
    rintro rfl
    revert hd
    decide
  refine Text.not_mem_lowerAfter hd ?_
  intro hin
  obtain ⟨c, hc, hjoin⟩ := List.mem_map.mp hin
  have heq : c = d := by
    unfold joinHyphen at hjoin
    split_ifs at hjoin
    · exact absurd hjoin.symm hunderscore
    · exact hjoin
  subst heq
  rcases mem_splitBoundaries hc with hc | hc
  · rcases mem_splitWords hc with hc | hc
    · exact h hc
    · exact hunderscore hc
  · exact hunderscore hc

theorem splitWords_ne_nil {state : WordSearch} {cs : List Char} (h : cs ≠ []) :
    splitWords state cs ≠ [] := by
  fun_cases splitWords state cs <;> simp_all

theorem splitBoundaries_ne_nil {cs : List Char} (h : cs ≠ []) : splitBoundaries cs ≠ [] := by
  fun_cases splitBoundaries cs <;> simp_all

theorem snakeChars_ne_nil {cs : List Char} (h : cs ≠ []) : snakeChars cs ≠ [] := by
  have hletter : ∀ c, Text.lowerLetter c ≠ [] := by
    intro c
    unfold Text.lowerLetter
    split_ifs <;> simp
  have hlower : ∀ before cs, cs ≠ [] → Text.lowerAfter before cs ≠ [] := by
    rintro before (_ | ⟨c, rest⟩) hne
    · exact hne
    · rw [Text.lowerAfter]
      split_ifs <;> simp [hletter]
  refine hlower [] _ ?_
  rw [ne_eq, List.map_eq_nil_iff]
  exact splitBoundaries_ne_nil (splitWords_ne_nil h)

end Naming

namespace Entity

variable {e : Entity}

theorem not_mem_fileStem (hd : IsMark d) (h : d ∉ e.className.toList) : d ∉ e.fileStem.toList := by
  unfold Entity.fileStem
  split
  · next c rest _ heq =>
    rw [String.toList_ofList]
    apply Naming.not_mem_snakeChars hd
    rw [heq] at h
    grind
  · rw [Naming.snakeCase, String.toList_ofList]
    exact Naming.not_mem_snakeChars hd h

theorem separator_not_mem_fileStem (h : '/' ∉ e.className.toList) : '/' ∉ e.fileStem.toList :=
  not_mem_fileStem (by decide) h

theorem isPlain_fileStem (h : IsPlain e.className) : IsPlain e.fileStem := by
  refine ⟨?_, separator_not_mem_fileStem h.no_separator, not_mem_fileStem (by decide) h.no_dot⟩
  rw [ne_eq, ← String.toList_eq_nil_iff]
  unfold Entity.fileStem
  split
  · rw [String.toList_ofList]
    exact Naming.snakeChars_ne_nil (List.cons_ne_nil _ _)
  · rw [Naming.snakeCase, String.toList_ofList]
    exact Naming.snakeChars_ne_nil fun hnil => h.not_empty (String.toList_eq_nil_iff.mp hnil)

end Entity

end CrudBackend
