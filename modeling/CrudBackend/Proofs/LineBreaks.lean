import CrudBackend.Artifact.Source
import CrudBackend.Proofs.Names
import CrudBackend.Python.Literal
import Mathlib.Data.List.DropRight
import Mathlib.Tactic.SplitIfs

/-!
Line breaks in generated texts. A text of any kind stays on one line when it is written as a string
literal, a comment, a docstring, a default value or the symbol of a member. A source has one line
break for each of its lines, besides those inside the lines: what is trimmed from its end takes
nothing away, for the last line of a source ends in something other than a blank.
-/

namespace CrudBackend

def isLineBreak (c : Char) : Bool := c == '\n' || c == '\r'

def lineBreaks (s : String) : Nat := s.toList.countP isLineBreak

theorem lineBreaks_append (s t : String) : lineBreaks (s ++ t) = lineBreaks s + lineBreaks t := by
  rw [lineBreaks, String.toList_append, List.countP_append]
  rfl

theorem lineBreaks_eq_zero_iff {s : String} :
    lineBreaks s = 0 ↔ ∀ c ∈ s.toList, isLineBreak c = false := by
  simp [lineBreaks, List.countP_eq_zero]

theorem lineBreaks_ofList {cs : List Char} (h : ∀ c ∈ cs, isLineBreak c = false) :
    lineBreaks (String.ofList cs) = 0 := by
  rwa [lineBreaks_eq_zero_iff, String.toList_ofList]

/-- Characters of a kind that neither line break is of. -/
theorem isLineBreak_eq_false {kind : Char → Bool} {c : Char} (hfeed : kind '\n' = false)
    (hreturn : kind '\r' = false) (hc : kind c = true) : isLineBreak c = false := by
  rw [isLineBreak, Bool.or_eq_false_iff, beq_eq_false_iff_ne, beq_eq_false_iff_ne]
  constructor
  · rintro rfl
    exact Bool.false_ne_true (hfeed.symm.trans hc)
  · rintro rfl
    exact Bool.false_ne_true (hreturn.symm.trans hc)

/-- How many lines of a text the given lines take up: one each, and one more for each line break
inside. -/
def height : List String → Nat
  | [] => 0
  | line :: rest => lineBreaks line + 1 + height rest

/-- A separator stands between any two items. -/
theorem lineBreaks_intercalate (sep : String) {items : List String} (hne : items ≠ []) :
    lineBreaks (sep.intercalate items) + lineBreaks sep + items.length =
      height items + lineBreaks sep * items.length := by
  induction items with
  | nil => exact absurd rfl hne
  | cons item rest ih =>
    cases rest with
    | nil =>
      rw [String.intercalate_singleton, List.length_singleton, Nat.mul_one, height, height]
      omega
    | cons next rest =>
      have hrest := ih (List.cons_ne_nil _ _)
      rw [String.intercalate_cons_cons, lineBreaks_append, lineBreaks_append, height,
        List.length_cons, Nat.mul_succ]
      omega

/-! ### Texts on one line -/

theorem mem_of_mem_intercalate {α : Type} {sep : List α} {items : List (List α)} {c : α}
    (h : c ∈ sep.intercalate items) : c ∈ sep ∨ ∃ item ∈ items, c ∈ item := by
  induction items with
  | nil => simp at h
  | cons item rest ih =>
    by_cases hrest : rest = []
    · rw [hrest, List.intercalate_singleton] at h
      exact Or.inr ⟨item, List.mem_cons_self .., h⟩
    · rw [List.intercalate_cons_of_ne_nil hrest, List.mem_append, List.mem_append] at h
      rcases h with (h | h) | h
      · exact Or.inr ⟨item, List.mem_cons_self .., h⟩
      · exact Or.inl h
      · refine (ih h).imp_right ?_
        rintro ⟨other, hother, hc⟩
        exact ⟨other, List.mem_cons_of_mem _ hother, hc⟩

namespace Python

variable {c d : Char}

theorem isLineBreak_of_mem_escapedChar (h : d ∈ escapedChar c) : isLineBreak d = false := by
  unfold escapedChar at h
  split_ifs at h with _ _ hfeed hreturn
  on_goal 6 =>
    rw [List.mem_singleton.mp h, isLineBreak, Bool.or_eq_false_iff]
    exact ⟨by simpa using hfeed, by simpa using hreturn⟩
  all_goals rcases List.mem_pair.mp h with rfl | rfl <;> rfl

theorem lineBreaks_quote (s : String) : lineBreaks (quote s) = 0 := by
  have hescaped : lineBreaks (escaped s) = 0 := by
    refine lineBreaks_ofList fun d hd => ?_
    obtain ⟨c, -, hd⟩ := List.mem_flatMap.mp hd
    exact isLineBreak_of_mem_escapedChar hd
  rw [quote, lineBreaks_append, lineBreaks_append, hescaped]
  rfl

/-- Neither the pieces between line breaks nor the spaces that join them have any. -/
theorem lineBreaks_flattened (s : String) : lineBreaks (flattened s) = 0 := by
  refine lineBreaks_ofList fun c hc => ?_
  rcases mem_of_mem_intercalate hc with hc | ⟨line, hline, hc⟩
  · rw [List.mem_singleton.mp hc]
    rfl
  · obtain ⟨piece, hpiece, rfl⟩ := List.mem_map.mp (List.mem_filter.mp hline).1
    have hin : c ∈ piece :=
      (List.dropWhile_suffix _).mem ((List.rdropWhile_prefix Text.isBlank _).mem hc)
    rw [isLineBreak, Bool.or_comm]
    exact not_of_mem_splitOnP hpiece c hin

theorem lineBreaks_docText (s : String) : lineBreaks (docText s) = 0 := by
  refine lineBreaks_ofList fun d hd => ?_
  obtain ⟨c, hc, hd⟩ := List.mem_flatMap.mp hd
  have hplain : isLineBreak c = false := lineBreaks_eq_zero_iff.mp (lineBreaks_flattened s) c hc
  unfold docChar at hd
  split_ifs at hd
  · rcases List.mem_pair.mp hd with rfl | rfl <;> rfl
  · rcases List.mem_pair.mp hd with rfl | rfl <;> rfl
  · rwa [List.mem_singleton.mp hd]

theorem lineBreaks_bool (b : Bool) : lineBreaks (bool b) = 0 := by
  cases b <;> rfl

theorem lineBreaks_natRepr (n : Nat) : lineBreaks n.repr = 0 := by
  rw [lineBreaks_eq_zero_iff, Nat.toList_repr]
  intro c hc
  have hdigit : c.isDigit = true := Nat.isDigit_of_mem_toDigits (by decide) (by decide) hc
  exact isLineBreak_eq_false (by decide) (by decide) hdigit

theorem lineBreaks_intRepr (n : Int) : lineBreaks (toString n) = 0 := by
  rw [Int.toString_eq_repr]
  cases n with
  | ofNat m => exact lineBreaks_natRepr m
  | negSucc m =>
    have hsign : lineBreaks "-" = 0 := rfl
    rw [Int.repr, lineBreaks_append, hsign, lineBreaks_natRepr]

theorem isLineBreak_of_looksLikeInteger {cs : List Char} (h : looksLikeInteger cs = true) :
    ∀ c ∈ cs, isLineBreak c = false := by
  have hdigits : ∀ ds : List Char, ds.all Text.isDecimalDigit = true →
      ∀ c ∈ ds, isLineBreak c = false := fun ds hds c hc =>
    isLineBreak_eq_false (by decide) (by decide) (List.all_eq_true.mp hds c hc)
  unfold looksLikeInteger at h
  split at h
  · exact List.forall_mem_cons.mpr ⟨rfl, hdigits _ (Bool.and_eq_true_iff.mp h).2⟩
  · exact hdigits _ (Bool.and_eq_true_iff.mp h).2

theorem lineBreaks_defaultLiteral (raw : String) : lineBreaks (defaultLiteral raw) = 0 := by
  unfold defaultLiteral
  dsimp only
  split_ifs with _ _ hinteger
  · exact lineBreaks_bool true
  · exact lineBreaks_bool false
  · split
    · exact lineBreaks_intRepr _
    · exact lineBreaks_eq_zero_iff.mpr (isLineBreak_of_looksLikeInteger hinteger)
  · exact lineBreaks_quote _

theorem lineBreaks_symbol (value : String) : lineBreaks (symbol value) = 0 := by
  rw [lineBreaks_eq_zero_iff]
  intro c hc
  have hcontinues := (isIdentifier_iff.mp (isIdentifier_symbol value)).2 c hc
  exact isLineBreak_eq_false (by decide) (by decide) hcontinues

end Python

namespace Naming

theorem lineBreaks_numbered (name : String) (k : Nat) (h : lineBreaks name = 0) :
    lineBreaks (numbered name k) = 0 := by
  have hending : lineBreaks "_" = 0 := rfl
  rw [numbered, lineBreaks_append, lineBreaks_append, h, hending, Nat.zero_add]
  exact Python.lineBreaks_natRepr k

end Naming

/-! ### Sources -/

def EndsSolid (cs : List Char) : Prop := ∃ front c, cs = front ++ [c] ∧ Text.isBlank c = false

theorem endsSolid_of_getLast? {cs : List Char} {c : Char} (h : cs.getLast? = some c)
    (hc : Text.isBlank c = false) : EndsSolid cs := by
  obtain ⟨front, rfl⟩ := List.getLast?_eq_some_iff.mp h
  exact ⟨front, c, rfl, hc⟩

theorem EndsSolid.append {ds : List Char} (h : EndsSolid ds) (cs : List Char) :
    EndsSolid (cs ++ ds) := by
  obtain ⟨front, c, rfl, hc⟩ := h
  exact ⟨cs ++ front, c, (List.append_assoc ..).symm, hc⟩

theorem EndsSolid.append_string {t : String} (h : EndsSolid t.toList) (s : String) :
    EndsSolid (s ++ t).toList := by
  rw [String.toList_append]
  exact h.append _

theorem EndsSolid.withoutTrailingBlanks_eq {cs : List Char} (h : EndsSolid cs) :
    Text.withoutTrailingBlanks cs = cs := by
  obtain ⟨front, c, rfl, hc⟩ := h
  exact List.rdropWhile_concat_neg _ _ _ (by simp [hc])

theorem endsSolid_trimmed {cs : List Char} (h : Text.trimmed cs ≠ []) :
    EndsSolid (Text.trimmed cs) := by
  refine ⟨(Text.trimmed cs).dropLast, (Text.trimmed cs).getLast h,
    (List.dropLast_append_getLast h).symm, ?_⟩
  exact Bool.eq_false_iff.mpr (List.rdropWhile_last_not Text.isBlank _ h)

theorem endsSolid_intercalate (sep : List Char) {front : List (List Char)} {last : List Char}
    (h : EndsSolid last) : EndsSolid (sep.intercalate (front ++ [last])) := by
  induction front with
  | nil => rwa [List.nil_append, List.intercalate_singleton]
  | cons item rest ih =>
    rw [List.cons_append, List.intercalate_cons_of_ne_nil (by simp)]
    exact ih.append _

theorem Python.endsSolid_quote (s : String) : EndsSolid (quote s).toList :=
  (endsSolid_of_getLast? (c := '"') rfl rfl).append_string _

theorem Python.endsSolid_flattened {s : String} (h : flattened s ≠ "") :
    EndsSolid (flattened s).toList := by
  rw [flattened, String.toList_ofList]
  rcases List.eq_nil_or_concat' ((((s.toList.splitOnP fun c => c == '\r' || c == '\n').map
    Text.trimmed).filter fun line => !line.isEmpty)) with hnil | ⟨front, last, heq⟩
  · rw [flattened, hnil] at h
    exact absurd rfl h
  · have hmem : last ∈ front ++ [last] := List.mem_append_right front (List.mem_singleton_self last)
    have hlast := List.mem_filter.mp (heq ▸ hmem)
    obtain ⟨line, -, rfl⟩ := List.mem_map.mp hlast.1
    rw [heq]
    exact endsSolid_intercalate _ (endsSolid_trimmed (by simpa using hlast.2))

namespace Artifact

theorem height_append (lines more : List String) :
    height (lines ++ more) = height lines + height more := by
  induction lines with
  | nil => rw [List.nil_append, height, Nat.zero_add]
  | cons line rest ih =>
    rw [List.cons_append, height, height, ih]
    omega

theorem height_eq_length {lines : List String} (h : ∀ line ∈ lines, lineBreaks line = 0) :
    height lines = lines.length := by
  induction lines with
  | nil => rfl
  | cons line rest ih =>
    rw [List.forall_mem_cons] at h
    rw [height, h.1, ih h.2, List.length_cons]
    omega

/-- Lines that are made of the same things in two ways. -/
theorem height_map_congr {α : Type} {f g : α → String}
    (h : ∀ x, lineBreaks (f x) = lineBreaks (g x)) (xs : List α) :
    height (xs.map f) = height (xs.map g) := by
  induction xs with
  | nil => rfl
  | cons x rest ih => rw [List.map_cons, List.map_cons, height, height, h x, ih]

theorem height_flatMap_congr {α : Type} {f g : α → List String}
    (h : ∀ x, height (f x) = height (g x)) (xs : List α) :
    height (xs.flatMap f) = height (xs.flatMap g) := by
  induction xs with
  | nil => rfl
  | cons x rest ih =>
    rw [List.flatMap_cons, List.flatMap_cons, height_append, height_append, h x, ih]

theorem lineBreaks_indented (line : String) : lineBreaks (indented line) = lineBreaks line := by
  have hblanks : lineBreaks "    " = 0 := rfl
  rw [indented, lineBreaks_append, hblanks, Nat.zero_add]

theorem height_indented (lines : List String) : height (lines.map indented) = height lines := by
  conv_rhs => rw [← List.map_id lines]
  exact height_map_congr lineBreaks_indented lines

theorem lineBreaks_commaSeparated (items : List String) :
    lineBreaks (commaSeparated items) + items.length = height items := by
  have hcomma : lineBreaks ", " = 0 := rfl
  by_cases hne : items = []
  · rw [hne]
    rfl
  · have hcount := lineBreaks_intercalate ", " hne
    rwa [hcomma, Nat.add_zero, Nat.zero_mul, Nat.add_zero] at hcount

theorem lineBreaks_commaSeparated_congr {α : Type} {f g : α → String}
    (h : ∀ x, lineBreaks (f x) = lineBreaks (g x)) (xs : List α) :
    lineBreaks (commaSeparated (xs.map f)) = lineBreaks (commaSeparated (xs.map g)) := by
  have hf := lineBreaks_commaSeparated (xs.map f)
  have hg := lineBreaks_commaSeparated (xs.map g)
  rw [List.length_map] at hf hg
  rw [height_map_congr h] at hf
  exact Nat.add_right_cancel (hf.trans hg.symm)

def Closed (lines : List String) : Prop :=
  ∃ front last, lines = front ++ [last] ∧ EndsSolid last.toList

theorem closed_of_getLast? {lines : List String} {last : String} (h : lines.getLast? = some last)
    (hlast : EndsSolid last.toList) : Closed lines := by
  obtain ⟨front, rfl⟩ := List.getLast?_eq_some_iff.mp h
  exact ⟨front, last, rfl, hlast⟩

theorem closed_singleton {line : String} (h : EndsSolid line.toList) : Closed [line] :=
  ⟨[], line, rfl, h⟩

theorem closed_of_forall {lines : List String} (h : ∀ line ∈ lines, EndsSolid line.toList)
    (hne : lines ≠ []) : Closed lines :=
  ⟨lines.dropLast, lines.getLast hne, (List.dropLast_append_getLast hne).symm,
    h _ (List.getLast_mem hne)⟩

theorem Closed.append {more : List String} (h : Closed more) (lines : List String) :
    Closed (lines ++ more) := by
  obtain ⟨front, last, rfl, hlast⟩ := h
  exact ⟨lines ++ front, last, (List.append_assoc ..).symm, hlast⟩

theorem Closed.map_indented {lines : List String} (h : Closed lines) :
    Closed (lines.map indented) := by
  obtain ⟨front, last, rfl, hlast⟩ := h
  rw [List.map_append]
  exact (closed_singleton (hlast.append_string _)).append _

theorem Closed.cons {lines : List String} (h : Closed lines) (line : String) :
    Closed (line :: lines) :=
  h.append [line]

/-- Parts that are closed make a closed whole, if what comes before them is closed. -/
theorem Closed.append_flatMap {α : Type} {lines : List String} {f : α → List String}
    (h : Closed lines) (hf : ∀ x, Closed (f x)) (xs : List α) : Closed (lines ++ xs.flatMap f) := by
  rcases List.eq_nil_or_concat' xs with rfl | ⟨front, last, rfl⟩
  · rwa [List.flatMap_nil, List.append_nil]
  · rw [List.flatMap_append, List.flatMap_singleton]
    exact ((hf last).append _).append _

theorem endsSolid_intercalate_of_closed {lines : List String} (h : Closed lines) :
    EndsSolid ("\n".intercalate lines).toList := by
  obtain ⟨front, last, rfl, hlast⟩ := h
  rw [String.toList_intercalate, List.map_append, List.map_singleton]
  exact endsSolid_intercalate _ hlast

/-- Nothing is trimmed from closed lines. -/
theorem Closed.source_eq {lines : List String} (h : Closed lines) :
    source lines = "\n".intercalate lines ++ "\n" := by
  rw [source, Text.trimEnd, (endsSolid_intercalate_of_closed h).withoutTrailingBlanks_eq,
    String.ofList_toList]

/-- A blank line at the end is trimmed away. -/
theorem Closed.source_concat {lines : List String} (h : Closed lines) :
    source (lines ++ [""]) = source lines := by
  have hne : lines ≠ [] := by
    obtain ⟨front, last, rfl, -⟩ := h
    simp
  have hjoin : ("\n".intercalate (lines ++ [""])).toList =
      ("\n".intercalate lines).toList ++ ['\n'] := by
    rw [String.intercalate_append_of_ne_nil hne (List.cons_ne_nil _ _)]
    simp
  rw [source, source, Text.trimEnd, Text.trimEnd, hjoin]
  congr 2
  exact List.rdropWhile_concat_pos _ _ _ rfl

theorem Closed.lineBreaks_source {lines : List String} (h : Closed lines) :
    lineBreaks (source lines) = height lines := by
  have hne : lines ≠ [] := by
    obtain ⟨front, last, rfl, -⟩ := h
    simp
  have hbreak : lineBreaks "\n" = 1 := rfl
  have hcount := lineBreaks_intercalate "\n" hne
  rw [hbreak, Nat.one_mul] at hcount
  rw [h.source_eq, lineBreaks_append, hbreak]
  exact Nat.add_right_cancel hcount

/-- A source is split into its lines, with nothing behind the last one. -/
theorem Closed.splitOnP_source {lines : List String} (h : Closed lines)
    (hlines : ∀ line ∈ lines, lineBreaks line = 0) :
    (source lines).toList.splitOnP isLineBreak = lines.map String.toList ++ [[]] := by
  have hjoin : ∀ rest : List String, rest ≠ [] → (∀ line ∈ rest, lineBreaks line = 0) →
      ("\n".intercalate rest ++ "\n").toList.splitOnP isLineBreak =
        rest.map String.toList ++ [[]] := by
    intro rest hne hrest
    induction rest with
    | nil => exact absurd rfl hne
    | cons line rest ih =>
      rw [List.forall_mem_cons] at hrest
      have hline := lineBreaks_eq_zero_iff.mp hrest.1
      cases rest with
      | nil =>
        rw [String.intercalate_singleton, String.toList_append]
        exact List.splitOnP_append_cons_of_forall_mem hline '\n' rfl []
      | cons next rest =>
        rw [String.intercalate_cons_cons, String.append_assoc, String.append_assoc,
          String.toList_append, String.toList_append, List.map_cons, List.cons_append,
          ← ih (List.cons_ne_nil _ _) hrest.2]
        exact List.splitOnP_append_cons_of_forall_mem hline '\n' rfl _
  have hne : lines ≠ [] := by
    obtain ⟨front, last, rfl, -⟩ := h
    simp
  rw [h.source_eq, hjoin lines hne hlines]

def headHeight : Nat := height [Ownership.marker, annotationsImport, ""]

theorem lineBreaks_generated {lines : List String} (h : Closed lines) :
    lineBreaks (generated lines) = headHeight + height lines := by
  rw [headHeight, ← height_append]
  exact (h.append [Ownership.marker, annotationsImport, ""]).lineBreaks_source

/-- A blank line stands between two parts. Without the second part it is trimmed away. -/
theorem lineBreaks_generated_append {lines more : List String} (h : Closed lines)
    (hmore : ∀ line ∈ more, EndsSolid line.toList) :
    lineBreaks (generated (lines ++ "" :: more)) =
      headHeight + height lines + if more = [] then 0 else height more + 1 := by
  rcases List.eq_nil_or_concat' more with rfl | ⟨front, last, rfl⟩
  · have hblank : generated (lines ++ [""]) = generated lines :=
      (h.append [Ownership.marker, annotationsImport, ""]).source_concat
    rw [hblank, lineBreaks_generated h, if_pos rfl, Nat.add_zero]
  · have hlast : EndsSolid last.toList := hmore last (by simp)
    have hblank : lineBreaks "" = 0 := rfl
    have hclosed : Closed (lines ++ "" :: (front ++ [last])) :=
      (((closed_singleton hlast).append front).cons "").append lines
    rw [lineBreaks_generated hclosed, if_neg (by simp), height_append, height, hblank]
    omega

end Artifact

end CrudBackend
