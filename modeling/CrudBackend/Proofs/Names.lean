import CrudBackend.Naming.Reservation
import CrudBackend.Python.Identifier
import Mathlib.Data.List.Nodup
import Mathlib.Data.List.Perm.Subperm
import Mathlib.Tactic.SplitIfs

/-!
Names of generated functions and members. Any text is turned into an identifier that is not a
keyword, and a numbered ending leaves it one. Of the candidates for a name that is taken one is
free, so the names that are reserved are all different.
-/

namespace CrudBackend

theorem map_eq_self {α : Type*} {f : α → α} {xs : List α} (h : ∀ x ∈ xs, f x = x) :
    xs.map f = xs :=
  (List.map_congr_left h).trans (List.map_id' xs)

namespace Python

/-- The front of a text ends where the first other character stands. -/
theorem span_append {p : Char → Bool} {cs : List Char} (hcs : ∀ c ∈ cs, p c = true)
    (rest : List Char) (hrest : ∀ c ∈ rest.head?, p c = false) :
    (cs ++ rest).takeWhile p = cs ∧ (cs ++ rest).dropWhile p = rest := by
  rw [List.takeWhile_append_of_pos hcs, List.dropWhile_append_of_pos hcs]
  cases rest with
  | nil => simp
  | cons c rest =>
    have hc : p c = false := hrest c rfl
    simp [hc]

/-- The pieces between separators have none in them. -/
theorem not_of_mem_splitOnP {p : Char → Bool} {cs ds : List Char} (h : ds ∈ cs.splitOnP p) :
    ∀ c ∈ ds, p c = false := by
  induction cs generalizing ds with
  | nil =>
    rw [List.splitOnP_nil, List.mem_singleton] at h
    simp [h]
  | cons c rest ih =>
    rw [List.splitOnP_cons_eq_if_modifyHead] at h
    obtain ⟨first, more, heq⟩ := List.exists_cons_of_ne_nil (List.splitOnP_ne_nil p rest)
    split_ifs at h with hc
    · rcases List.mem_cons.mp h with rfl | h
      · simp
      · exact ih h
    · rw [heq, List.modifyHead_cons] at h
      rcases List.mem_cons.mp h with rfl | h
      · exact List.forall_mem_cons.mpr ⟨by simpa using hc, ih (heq ▸ List.mem_cons_self ..)⟩
      · exact ih (heq ▸ List.mem_cons_of_mem _ h)

theorem continuesIdentifier_of_starts {c : Char} (h : startsIdentifier c = true) :
    continuesIdentifier c = true := by
  unfold startsIdentifier at h
  unfold continuesIdentifier Char.isAlphanum
  rcases Bool.or_eq_true _ _ ▸ h with h | h <;> simp [h]

theorem isIdentifier_iff {name : String} : isIdentifier name = true ↔
    name.toList.head?.any startsIdentifier = true ∧
      ∀ c ∈ name.toList, continuesIdentifier c = true := by
  unfold isIdentifier
  cases name.toList with
  | nil => simp
  | cons c rest =>
    simp only [Bool.and_eq_true, List.all_eq_true, List.head?_cons, Option.any_some,
      List.mem_cons, forall_eq_or_imp]
    exact ⟨fun h => ⟨h.1, continuesIdentifier_of_starts h.1, h.2⟩, fun h => ⟨h.1, h.2.2⟩⟩

theorem isIdentifier_append {name ending : String} (hname : isIdentifier name = true)
    (hending : ∀ c ∈ ending.toList, continuesIdentifier c = true) :
    isIdentifier (name ++ ending) = true := by
  obtain ⟨hhead, hname⟩ := isIdentifier_iff.mp hname
  rw [isIdentifier_iff, String.toList_append]
  refine ⟨?_, List.forall_mem_append.mpr ⟨hname, hending⟩⟩
  cases hcs : name.toList with
  | nil => simp [hcs] at hhead
  | cons c rest => simpa [hcs] using hhead

theorem isIdentifier_identifierChars (cs : List Char) :
    isIdentifier (String.ofList (identifierChars cs)) = true := by
  have hcleaned : ∀ c ∈ cs.map fun c => if continuesIdentifier c then c else '_',
      continuesIdentifier c = true := by
    rw [List.forall_mem_map]
    intro c _
    split_ifs with hc
    · exact hc
    · rfl
  rw [isIdentifier_iff, String.toList_ofList]
  unfold identifierChars
  dsimp only
  split
  · next heq =>
    split_ifs with hstarts
    · rw [heq]
      exact ⟨hstarts, heq ▸ hcleaned⟩
    · exact ⟨rfl, List.forall_mem_cons.mpr ⟨rfl, List.forall_mem_cons.mpr ⟨rfl, hcleaned⟩⟩⟩
  · exact ⟨rfl, by simp [continuesIdentifier]⟩

/-! ### Keywords -/

theorem isKeyword_eq_false {name : String} (h : '_' ∈ name.toList) : isKeyword name = false := by
  have hplain : ∀ word ∈ keywords, '_' ∉ word.toList := by decide +kernel
  rw [isKeyword, ← Bool.not_eq_true, List.contains_iff_mem]
  exact fun hmem => hplain name hmem h

/-- A name that a function can have: an identifier that is neither a keyword nor the name of the
built-in list. -/
structure IsFunctionName (name : String) : Prop where
  identifier : isIdentifier name = true
  not_keyword : isKeyword name = false
  not_list : name ≠ "list"

instance (name : String) : Decidable (IsFunctionName name) :=
  decidable_of_iff (isIdentifier name = true ∧ isKeyword name = false ∧ name ≠ "list")
    ⟨fun h => ⟨h.1, h.2.1, h.2.2⟩, fun h => ⟨h.identifier, h.not_keyword, h.not_list⟩⟩

/-- An ending with an underscore keeps an identifier away from the reserved names. -/
theorem isFunctionName_append {name ending : String} (hname : isIdentifier name = true)
    (hending : ∀ c ∈ ending.toList, continuesIdentifier c = true) (hmem : '_' ∈ ending.toList) :
    IsFunctionName (name ++ ending) := by
  have hunderscore : '_' ∈ (name ++ ending).toList := by
    rw [String.toList_append]
    exact List.mem_append_right _ hmem
  refine ⟨isIdentifier_append hname hending, isKeyword_eq_false hunderscore, ?_⟩
  intro heq
  rw [heq] at hunderscore
  exact absurd hunderscore (by decide)

theorem isIdentifier_symbol (value : String) : isIdentifier (symbol value) = true := by
  unfold symbol
  dsimp only
  split_ifs
  · exact isIdentifier_append (isIdentifier_identifierChars _) (by simp [continuesIdentifier])
  · exact isIdentifier_identifierChars _

theorem isKeyword_symbol (value : String) : isKeyword (symbol value) = false := by
  unfold symbol
  dsimp only
  split_ifs with hkeyword
  · exact isKeyword_eq_false (by simp)
  · exact Bool.eq_false_iff.mpr hkeyword

theorem isFunctionName_functionName (name : String) : IsFunctionName (functionName name) := by
  unfold functionName
  dsimp only
  split_ifs with hlist
  · decide +kernel
  · exact ⟨isIdentifier_symbol name, isKeyword_symbol name, hlist⟩

end Python

/-! ### Reserved names -/

namespace Naming

variable {taken names : List String}

theorem numbered_injective (name : String) : Function.Injective (numbered name) := by
  intro k j h
  have hchars := congrArg String.toList h
  rw [numbered, numbered, String.toList_append, String.toList_append (s := name ++ "_")] at hchars
  have hrepr : k.repr.toList = j.repr.toList := List.append_cancel_left hchars
  rw [Nat.toList_repr, Nat.toList_repr] at hrepr
  simpa using congrArg (fun digits => Nat.ofDigitChars 10 digits 0) hrepr

/-- There is one candidate more than there are taken names, and no two candidates are equal. -/
theorem exists_free_candidate (taken : List String) (name : String) :
    ∃ candidate ∈ candidates taken name, candidate ∉ taken := by
  by_contra! hall
  have hnodup : (candidates taken name).Nodup :=
    List.Nodup.map (numbered_injective name) List.nodup_range'
  have hlen := (List.subperm_of_subset hnodup hall).length_le
  rw [candidates, List.length_map, List.length_range'] at hlen
  omega

theorem freeName_not_mem (taken : List String) (name : String) : freeName taken name ∉ taken := by
  unfold freeName
  split_ifs with htaken
  · obtain ⟨candidate, hmem, hfree⟩ := exists_free_candidate taken name
    cases hfind : (candidates taken name).find? fun c => !taken.contains c with
    | none => exact absurd (List.find?_eq_none.mp hfind candidate hmem) (by simpa using hfree)
    | some c => simpa using List.find?_some hfind
  · simpa using htaken

theorem length_reserveAll (taken names : List String) :
    (reserveAll taken names).length = names.length := by
  induction names generalizing taken with
  | nil => rfl
  | cons name rest ih => simp [reserveAll, ih]

theorem not_mem_of_mem_reserveAll : ∀ name ∈ reserveAll taken names, name ∉ taken := by
  induction names generalizing taken with
  | nil => simp [reserveAll]
  | cons name rest ih =>
    refine List.forall_mem_cons.mpr ⟨freeName_not_mem taken name, fun other hother htaken => ?_⟩
    exact ih other hother (List.mem_cons_of_mem _ htaken)

theorem nodup_reserveAll (taken names : List String) : (reserveAll taken names).Nodup := by
  induction names generalizing taken with
  | nil => exact List.nodup_nil
  | cons name rest ih =>
    refine List.nodup_cons.mpr ⟨fun hmem => ?_, ih _⟩
    exact not_mem_of_mem_reserveAll _ hmem (List.mem_cons_self ..)

/-- What a numbered ending preserves holds of each reserved name if it holds of the wanted ones. -/
theorem forall_mem_reserveAll {P : String → Prop}
    (hnumbered : ∀ name k, P name → P (numbered name k)) (h : ∀ name ∈ names, P name) :
    ∀ name ∈ reserveAll taken names, P name := by
  induction names generalizing taken with
  | nil => simp [reserveAll]
  | cons name rest ih =>
    rw [List.forall_mem_cons] at h
    refine List.forall_mem_cons.mpr ⟨?_, ih h.2⟩
    unfold freeName
    split_ifs
    · cases hfind : (candidates taken name).find? fun c => !taken.contains c with
      | none => exact h.1
      | some c =>
        obtain ⟨k, -, rfl⟩ := List.mem_map.mp (List.mem_of_find?_eq_some hfind)
        exact hnumbered name k h.1
    · exact h.1

/-- The digits of a number, behind an underscore. -/
theorem isFunctionName_numbered_of_isIdentifier {name : String}
    (h : Python.isIdentifier name = true) (k : Nat) : Python.IsFunctionName (numbered name k) := by
  have hunderscore : ∀ c ∈ "_".toList, Python.continuesIdentifier c = true := by
    simp [Python.continuesIdentifier]
  have hdigits : ∀ c ∈ (toString k).toList, Python.continuesIdentifier c = true := by
    intro c hc
    rw [Nat.toString_eq_repr, Nat.toList_repr] at hc
    have hdigit : c.isDigit = true := Nat.isDigit_of_mem_toDigits (by decide) (by decide) hc
    simp [Python.continuesIdentifier, Char.isAlphanum, hdigit]
  rw [numbered, String.append_assoc]
  refine Python.isFunctionName_append h ?_ ?_
  · rw [String.toList_append]
    exact List.forall_mem_append.mpr ⟨hunderscore, hdigits⟩
  · rw [String.toList_append]
    exact List.mem_append_left _ (List.mem_singleton_self _)

end Naming

end CrudBackend
