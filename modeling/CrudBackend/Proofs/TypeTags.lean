import CrudBackend.Proofs.Acceptance
import Mathlib.Data.List.DropRight

/-!
The tags of types. Without the blanks around it, a tag is a word with a meaning, a list of a word, or
anything else, which is kept. A type that has been read is written as a tag that is read as the same
type: in particular no text that is kept is a list or a word with a meaning.
-/

namespace CrudBackend.FieldType

def plainTypes : List FieldType :=
  [.string, .integer, .long, .boolean, .localDateTime, .json, .enumeration]

/-- The tag is a list of the word, which has blanks around it or not. -/
structure IsListOf (tag word : String) : Prop where
  bracketed : ∃ inner, tag = "List<" ++ inner ++ ">" ∧ Text.trim inner = word
  not_empty : word ≠ ""
  plain : ∀ c ∈ word.toList, c.isAlphanum = true ∨ c = '_'

/-! ### Words -/

/-- A word is the tag of the type that it names, also if it has no meaning. -/
theorem tag_scalar (word : String) : (scalar word).tag = word := by
  unfold scalar
  split_ifs with h h h h h h h <;> simp only [tag, h]

theorem scalar_eq_iff {p : FieldType} (hp : p ∈ plainTypes) (word : String) :
    scalar word = p ↔ word = p.tag := by
  have hall : ∀ p ∈ plainTypes, scalar p.tag = p := by decide
  constructor
  · intro h
    rw [← h, tag_scalar]
  · intro h
    rw [h, hall p hp]

theorem scalar_eq_other_iff {word text : String} :
    scalar word = .other text ↔ text = word ∧ ∀ p ∈ plainTypes, word ≠ p.tag := by
  constructor
  · intro h
    refine ⟨?_, ?_⟩
    · rw [← tag_scalar word, h]
      rfl
    · intro p hp hword
      have hplain : ∀ p ∈ plainTypes, ∀ text, p ≠ .other text := by
        simp [plainTypes]
      rw [(scalar_eq_iff hp word).mpr hword] at h
      exact hplain p hp text h
  · rintro ⟨rfl, h⟩
    simp only [plainTypes, List.forall_mem_cons, tag] at h
    obtain ⟨h1, h2, h3, h4, h5, h6, h7, -⟩ := h
    rw [scalar, if_neg h1, if_neg h2, if_neg h3, if_neg h4, if_neg h5, if_neg h6, if_neg h7]

/-! ### Lists of words -/

theorem elementTag?_eq_some_iff {cs word : List Char} : elementTag? cs = some word ↔
    (∃ inner, cs = "List<".toList ++ inner ++ ['>'] ∧ Text.trimmed inner = word) ∧ word ≠ [] ∧
      ∀ c ∈ word, c.isAlphanum = true ∨ c = '_' := by
  have hplain : ∀ word : List Char, word.all (fun c => c.isAlphanum || c == '_') = true ↔
      ∀ c ∈ word, c.isAlphanum = true ∨ c = '_' := by
    simp [List.all_eq_true]
  constructor
  · intro h
    unfold elementTag? at h
    split at h
    · next rest =>
      dsimp only at h
      split_ifs at h with hcond
      simp only [Bool.and_eq_true, beq_iff_eq, hplain, Bool.not_eq_true', List.isEmpty_eq_false_iff]
        at hcond
      obtain ⟨⟨hlast, hne⟩, hword⟩ := hcond
      obtain ⟨inner, rfl⟩ := List.getLast?_eq_some_iff.mp hlast
      rw [List.dropLast_concat] at h hne hword
      cases h
      exact ⟨⟨inner, rfl, rfl⟩, hne, hword⟩
    · cases h
  · rintro ⟨⟨inner, rfl, rfl⟩, hne, hword⟩
    show (if ((inner ++ ['>']).getLast? == some '>' &&
        !(Text.trimmed (inner ++ ['>']).dropLast).isEmpty &&
        (Text.trimmed (inner ++ ['>']).dropLast).all fun c => c.isAlphanum || c == '_') = true
      then some (Text.trimmed (inner ++ ['>']).dropLast) else none) = some (Text.trimmed inner)
    rw [List.dropLast_concat, List.getLast?_concat, (hplain _).mpr hword]
    simp [hne]

theorem toList_bracketed (inner : String) :
    ("List<" ++ inner ++ ">").toList = "List<".toList ++ inner.toList ++ ['>'] := by
  rw [String.toList_append, String.toList_append]
  rfl

theorem isListOf_iff {tag word : String} :
    IsListOf tag word ↔ elementTag? tag.toList = some word.toList := by
  have hbracketed : (∃ inner, tag = "List<" ++ inner ++ ">" ∧ Text.trim inner = word) ↔
      ∃ inner, tag.toList = "List<".toList ++ inner ++ ['>'] ∧ Text.trimmed inner = word.toList := by
    constructor
    · rintro ⟨inner, rfl, rfl⟩
      exact ⟨inner.toList, toList_bracketed inner, by rw [Text.trim, String.toList_ofList]⟩
    · rintro ⟨inner, htag, hword⟩
      refine ⟨String.ofList inner, ?_, ?_⟩
      · rw [← String.toList_inj, htag, toList_bracketed, String.toList_ofList (l := inner)]
      · rw [Text.trim, String.toList_ofList, hword, String.ofList_toList]
  have hempty : word ≠ "" ↔ word.toList ≠ [] := by
    rw [ne_eq, ne_eq, String.toList_eq_nil_iff]
  rw [elementTag?_eq_some_iff, ← hbracketed, ← hempty]
  exact ⟨fun h => ⟨h.bracketed, h.not_empty, h.plain⟩, fun h => ⟨h.1, h.2.1, h.2.2⟩⟩

theorem IsListOf.unique {tag word other : String} (h : IsListOf tag word)
    (h' : IsListOf tag other) : word = other := by
  rw [isListOf_iff] at h h'
  exact String.toList_inj.mp (Option.some.inj (h.symm.trans h'))

theorem not_isListOf_tag {p : FieldType} (hp : p ∈ plainTypes) (word : String) :
    ¬ IsListOf p.tag word := by
  have hall : ∀ p ∈ plainTypes, elementTag? p.tag.toList = none := by decide +kernel
  rw [isListOf_iff, hall p hp]
  simp

/-! ### Reading -/

theorem parse_of_isListOf {tag word : String} (h : IsListOf (Text.trim tag) word) :
    parse tag = .list (scalar word) := by
  rw [isListOf_iff, Text.trim, String.toList_ofList] at h
  rw [parse]
  simp only [h, String.ofList_toList]

theorem parse_of_not_isListOf {tag : String} (h : ∀ word, ¬ IsListOf (Text.trim tag) word) :
    parse tag = scalar (Text.trim tag) := by
  have hnone : elementTag? (Text.trimmed tag.toList) = none := by
    by_contra hsome
    obtain ⟨word, hword⟩ := Option.ne_none_iff_exists'.mp hsome
    apply h (String.ofList word)
    rw [isListOf_iff, Text.trim, String.toList_ofList, String.toList_ofList, hword]
  rw [parse]
  simp only [hnone]
  rfl

/-- How a tag is read: as a list of a word or as a word. -/
theorem parse_cases (tag : String) :
    (∃ word, IsListOf (Text.trim tag) word ∧ parse tag = .list (scalar word)) ∨
    ((∀ word, ¬ IsListOf (Text.trim tag) word) ∧ parse tag = scalar (Text.trim tag)) := by
  by_cases hlist : ∃ word, IsListOf (Text.trim tag) word
  · obtain ⟨word, hword⟩ := hlist
    exact Or.inl ⟨word, hword, parse_of_isListOf hword⟩
  · have hnone := not_exists.mp hlist
    exact Or.inr ⟨hnone, parse_of_not_isListOf hnone⟩

theorem parse_eq_list_iff {tag : String} {element : FieldType} : parse tag = .list element ↔
    ∃ word, IsListOf (Text.trim tag) word ∧ element = scalar word := by
  rcases parse_cases tag with ⟨word, hword, hparse⟩ | ⟨hnone, hparse⟩
  · rw [hparse, list.injEq]
    constructor
    · rintro rfl
      exact ⟨word, hword, rfl⟩
    · rintro ⟨other, hother, rfl⟩
      rw [hword.unique hother]
  · rw [hparse]
    refine iff_of_false (scalar_ne_list _ _) ?_
    rintro ⟨word, hword, -⟩
    exact hnone word hword

theorem parse_eq_plain_iff {p : FieldType} (hp : p ∈ plainTypes) {tag : String} :
    parse tag = p ↔ Text.trim tag = p.tag := by
  rcases parse_cases tag with ⟨word, hword, hparse⟩ | ⟨-, hparse⟩
  · rw [hparse]
    refine iff_of_false ?_ ?_
    · rintro rfl
      simp [plainTypes] at hp
    · intro htag
      rw [htag] at hword
      exact not_isListOf_tag hp word hword
  · rw [hparse, scalar_eq_iff hp]

theorem parse_eq_other_iff {tag text : String} : parse tag = .other text ↔
    text = Text.trim tag ∧ (∀ p ∈ plainTypes, Text.trim tag ≠ p.tag) ∧
      ∀ word, ¬ IsListOf (Text.trim tag) word := by
  rcases parse_cases tag with ⟨word, hword, hparse⟩ | ⟨hnone, hparse⟩
  · rw [hparse]
    refine iff_of_false (by simp) ?_
    rintro ⟨-, -, hnone⟩
    exact hnone word hword
  · rw [hparse, scalar_eq_other_iff]
    exact ⟨fun h => ⟨h.1, h.2, hnone⟩, fun h => ⟨h.1, h.2.1⟩⟩

/-! ### Reading what was written -/

theorem parse_trim (tag : String) : parse (Text.trim tag) = parse tag := by
  have htrim := Text.trimmed_trimmed tag.toList
  rw [parse, parse, Text.trim, String.toList_ofList, htrim]

/-- The tag of a list of a word has no blanks around it, and none within the brackets. -/
theorem IsListOf.tag_list {tag word : String} (h : IsListOf tag word) :
    IsListOf (Text.trim ("List<" ++ word ++ ">")) word := by
  obtain ⟨⟨inner, -, hinner⟩, hne, hplain⟩ := h
  have htrim : Text.trim ("List<" ++ word ++ ">") = "List<" ++ word ++ ">" := by
    have hend := List.rdropWhile_concat_neg Text.isBlank ("List<".toList ++ word.toList) '>'
      (by decide)
    rw [← String.toList_inj, Text.trim, String.toList_ofList, toList_bracketed]
    exact hend
  rw [htrim]
  refine ⟨⟨word, rfl, ?_⟩, hne, hplain⟩
  rw [← hinner, Text.trim_trim]

theorem parse_tag_parse (tag : String) : parse (parse tag).tag = parse tag := by
  rcases parse_cases tag with ⟨word, hword, hparse⟩ | ⟨-, hparse⟩
  · have htag : (FieldType.list (scalar word)).tag = "List<" ++ word ++ ">" := by
      rw [FieldType.tag, tag_scalar]
    rw [hparse, htag, parse_of_isListOf hword.tag_list]
  · have htrim := parse_trim tag
    rw [hparse] at htrim ⊢
    rw [tag_scalar, htrim]

/-- The tag of a type that has been read is read as that type, and lists do not nest. A trimmed tag
that is a list of a word is read as a list of what the word names, one that is the tag of a type that
one word names is read as that type, and all others are kept. -/
theorem type_tags_are_read_back :
    (∀ tag, parse (parse tag).tag = parse tag) ∧
    (∀ tag, (parse tag).IsFlat) ∧
    (∀ tag element, parse tag = .list element ↔
      ∃ word, IsListOf (Text.trim tag) word ∧ element = scalar word) ∧
    (∀ p ∈ plainTypes, ∀ tag, parse tag = p ↔ Text.trim tag = p.tag) ∧
    ∀ tag text, parse tag = .other text ↔ text = Text.trim tag ∧
      (∀ p ∈ plainTypes, Text.trim tag ≠ p.tag) ∧ ∀ word, ¬ IsListOf (Text.trim tag) word :=
  ⟨parse_tag_parse, isFlat_parse, fun _ _ => parse_eq_list_iff,
    fun _ hp _ => parse_eq_plain_iff hp, fun _ _ => parse_eq_other_iff⟩

/-- Blanks of any kind around a tag do not count, and a list of lists is kept as it is written. -/
theorem padded_enum_is_enumeration :
    .enumeration ∈ plainTypes ∧ Text.trim "\u3000enum " = FieldType.enumeration.tag ∧
    parse "\u3000enum " = .enumeration ∧
    parse " List< List<Long> >" = .other "List< List<Long> >" := by
  obtain ⟨-, -, -, hplain, hother⟩ := type_tags_are_read_back
  have hmem : FieldType.enumeration ∈ plainTypes := by decide
  have htrim : Text.trim "\u3000enum " = FieldType.enumeration.tag := by decide +kernel
  have hnested : Text.trim " List< List<Long> >" = "List< List<Long> >" := by decide +kernel
  refine ⟨hmem, htrim, (hplain .enumeration hmem "\u3000enum ").mpr htrim, ?_⟩
  apply (hother " List< List<Long> >" "List< List<Long> >").mpr
  rw [hnested]
  refine ⟨rfl, by decide +kernel, fun word => ?_⟩
  rw [isListOf_iff, show elementTag? "List< List<Long> >".toList = none by decide +kernel]
  simp

end CrudBackend.FieldType
