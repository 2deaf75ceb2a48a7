import CrudBackend.Artifact.Model
import CrudBackend.Proofs.Drafts
import CrudBackend.Proofs.LineBreaks

/-!
Reading strings back. A string begins and ends with a delimiter, and a backslash stands together
with the character behind it for one character. A literal of any text is read back to that text, and
nothing is taken from what follows it; the docstring of a stored record is read back to its comment
on one line, and it ends where the rendering closes it.
-/

namespace CrudBackend

namespace Python

def unescaped? (c : Char) : Option Char :=
  match c with
  | '\\' => some '\\'
  | '"' => some '"'
  | 'n' => some '\n'
  | 'r' => some '\r'
  | 't' => some '\t'
  | _ => none

/-- How a string is written: the quotes around it, and whether it may go over several lines. -/
structure Quoting where
  delimiter : List Char
  multiline : Bool
  begins : delimiter.head? = some '"' := by rfl

namespace Quoting

def literal : Quoting where
  delimiter := ['"']
  multiline := false

def docstring : Quoting where
  delimiter := ['"', '"', '"']
  multiline := true

def readText (q : Quoting) : List Char → Option (List Char × List Char)
  | [] => none
  | '\\' :: c :: rest =>
    (unescaped? c).bind fun d => (q.readText rest).map (Prod.map (List.cons d) id)
  | c :: rest =>
    if q.delimiter.isPrefixOf (c :: rest) then some ([], (c :: rest).drop q.delimiter.length)
    else if isLineBreak c && !q.multiline then none
    else (q.readText rest).map (Prod.map (List.cons c) id)

def read (q : Quoting) (cs : List Char) : Option (List Char × List Char) :=
  if q.delimiter.isPrefixOf cs then q.readText (cs.drop q.delimiter.length) else none

variable {q : Quoting} {c d : Char} {cs : List Char}

theorem readText_delimiter (q : Quoting) (rest : List Char) :
    q.readText (q.delimiter ++ rest) = some ([], rest) := by
  obtain ⟨more, hmore⟩ := List.head?_eq_some_iff.mp q.begins
  have hprefix : q.delimiter.isPrefixOf ('"' :: (more ++ rest)) = true := by
    rw [hmore, List.isPrefixOf_iff_prefix]
    exact List.prefix_append ('"' :: more) rest
  have hdrop : ('"' :: (more ++ rest)).drop q.delimiter.length = rest := by
    rw [hmore, ← List.cons_append, List.drop_left]
  rw [hmore, List.cons_append, readText, if_pos hprefix, hdrop]
  simp

theorem readText_escape (h : unescaped? d = some c) (rest : List Char) :
    q.readText ('\\' :: d :: rest) = (q.readText rest).map (Prod.map (List.cons c) id) := by
  rw [readText, h, Option.bind_some]

theorem readText_plain (hslash : c ≠ '\\') (hquote : c ≠ '"')
    (hbreak : isLineBreak c = false ∨ q.multiline = true) (rest : List Char) :
    q.readText (c :: rest) = (q.readText rest).map (Prod.map (List.cons c) id) := by
  obtain ⟨more, hmore⟩ := List.head?_eq_some_iff.mp q.begins
  have hprefix : q.delimiter.isPrefixOf (c :: rest) = false := by
    rw [hmore, List.isPrefixOf_cons_cons, beq_eq_false_iff_ne.mpr hquote.symm, Bool.false_and]
  have hallowed : (isLineBreak c && !q.multiline) = false := by
    rcases hbreak with h | h <;> simp [h]
  rw [readText, hprefix, hallowed]
  · simp
  · exact fun e _ heq => absurd heq hslash

/-- Characters that are written so that each is read back make a text that is read back. -/
theorem readText_flatMap {write : Char → List Char}
    (h : ∀ c ∈ cs, ∀ rest,
      q.readText (write c ++ rest) = (q.readText rest).map (Prod.map (List.cons c) id))
    (rest : List Char) : q.readText (cs.flatMap write ++ (q.delimiter ++ rest)) = some (cs, rest) := by
  induction cs with
  | nil => exact readText_delimiter q rest
  | cons c cs ih =>
    rw [List.forall_mem_cons] at h
    rw [List.flatMap_cons, List.append_assoc, h.1, ih h.2]
    rfl

theorem read_delimiter (q : Quoting) (cs : List Char) :
    q.read (q.delimiter ++ cs) = q.readText cs := by
  rw [read, if_pos (List.isPrefixOf_iff_prefix.mpr (List.prefix_append _ _)), List.drop_left]

theorem readText_escapedChar (c : Char) (rest : List Char) :
    literal.readText (escapedChar c ++ rest) =
      (literal.readText rest).map (Prod.map (List.cons c) id) := by
  unfold escapedChar
  split_ifs with hslash hquote hfeed hreturn htab
  · rw [beq_iff_eq.mp hslash]
    exact readText_escape rfl rest
  · rw [beq_iff_eq.mp hquote]
    exact readText_escape rfl rest
  · rw [beq_iff_eq.mp hfeed]
    exact readText_escape rfl rest
  · rw [beq_iff_eq.mp hreturn]
    exact readText_escape rfl rest
  · rw [beq_iff_eq.mp htab]
    exact readText_escape rfl rest
  · rw [beq_iff_eq] at hslash hquote
    refine readText_plain hslash hquote (Or.inl ?_) rest
    rw [isLineBreak, Bool.or_eq_false_iff]
    exact ⟨by simpa using hfeed, by simpa using hreturn⟩

theorem readText_docChar (c : Char) (rest : List Char) :
    docstring.readText (docChar c ++ rest) =
      (docstring.readText rest).map (Prod.map (List.cons c) id) := by
  unfold docChar
  split_ifs with hslash hquote
  · rw [beq_iff_eq.mp hslash]
    exact readText_escape rfl rest
  · rw [beq_iff_eq.mp hquote]
    exact readText_escape rfl rest
  · rw [beq_iff_eq] at hslash hquote
    exact readText_plain hslash hquote (Or.inr rfl) rest

theorem read_quote (s : String) (rest : List Char) :
    literal.read ((quote s).toList ++ rest) = some (s.toList, rest) := by
  have hquote : (quote s).toList ++ rest =
      literal.delimiter ++ (s.toList.flatMap escapedChar ++ (literal.delimiter ++ rest)) := by
    simp [quote, escaped, literal]
  rw [hquote, read_delimiter]
  exact readText_flatMap (fun c _ => readText_escapedChar c) rest

/-- A line break ends no literal. -/
example : literal.read ['"', 'a', '\n', '"'] = none := rfl

theorem read_docText (comment : String) (rest : List Char) :
    docstring.read (("\"\"\"" ++ docText comment ++ "\"\"\"").toList ++ rest) =
      some ((flattened comment).toList, rest) := by
  have hdoc : ("\"\"\"" ++ docText comment ++ "\"\"\"").toList ++ rest = docstring.delimiter ++
      ((flattened comment).toList.flatMap docChar ++ (docstring.delimiter ++ rest)) := by
    simp [docText, docstring]
  rw [hdoc, read_delimiter]
  exact readText_flatMap (fun c _ => readText_docChar c) rest

end Quoting

end Python

namespace Artifact

open Python

/-- Trimming the end of a source takes nothing from lines that are closed. -/
theorem Closed.exists_source_append {lines : List String} (h : Closed lines) (more : List String) :
    ∃ below, source (lines ++ more) = "\n".intercalate lines ++ below := by
  have hne : lines ≠ [] := by
    obtain ⟨front, last, rfl, -⟩ := h
    simp
  obtain ⟨tail, htail⟩ : ∃ tail, "\n".intercalate (lines ++ more) =
      "\n".intercalate lines ++ tail := by
    by_cases hmore : more = []
    · exact ⟨"", by rw [hmore, List.append_nil, String.append_empty]⟩
    · rw [String.intercalate_append_of_ne_nil hne hmore, String.append_assoc]
      exact ⟨_, rfl⟩
  obtain ⟨front, c, hfront, hc⟩ := endsSolid_intercalate_of_closed h
  refine ⟨String.ofList (Text.withoutTrailingBlanks tail.toList) ++ "\n", ?_⟩
  rw [source, htail, Text.trimEnd, String.toList_append, hfront, List.append_assoc,
    List.singleton_append, Text.withoutTrailingBlanks_append hc, ← String.append_assoc,
    ← String.toList_inj]
  simp [hfront]

theorem exists_intercalate_concat (lines : List String) (last : String) :
    ∃ above, "\n".intercalate (lines ++ [last]) = above ++ last := by
  by_cases hlines : lines = []
  · exact ⟨"", by simp [hlines]⟩
  · rw [String.intercalate_append_of_ne_nil hlines (List.cons_ne_nil _ _),
      String.intercalate_singleton]
    exact ⟨_, rfl⟩

/-- The line that opens the class of a stored record and the line that names its table have only the
docstring between them, if there is one. -/
theorem exists_model_eq (e : Entity) (l : Layout) (i : Imports) :
    ∃ above below, model e l i = above ++ "):\n" ++
      (if docText e.comment = "" then "" else "    \"\"\"" ++ docText e.comment ++ "\"\"\"\n") ++
      "    __tablename__ = " ++ below := by
  generalize htable : indented ("__tablename__ = " ++ quote e.tableName) = table
  obtain ⟨lines, more, bases, hmodel, hlast⟩ : ∃ lines more bases,
      model e l i = generated (lines ++ docLines e.comment ++ [table] ++
        constraintLines e.uniqueConstraints ++ more) ∧
      lines.getLast? = some ("class " ++ e.className ++ "(" ++ bases ++ "):") := by
    rw [← htable]
    exact ⟨_, "" :: e.fields.map fun f => indented (columnLine f),
      commaSeparated (mixinsOf e ++ [i.base.name]), rfl, rfl⟩
  obtain ⟨front, rfl⟩ := List.getLast?_eq_some_iff.mp hlast
  obtain ⟨above, habove⟩ := exists_intercalate_concat
    (Ownership.marker :: annotationsImport :: "" :: front)
    ("class " ++ e.className ++ "(" ++ bases ++ "):")
  generalize hopening : Ownership.marker :: annotationsImport :: "" :: front ++
    ["class " ++ e.className ++ "(" ++ bases ++ "):"] = opening at habove
  have hne : opening ≠ [] := by simp [← hopening]
  have hsolid : EndsSolid table.toList :=
    htable ▸ ((endsSolid_quote _).append_string _).append_string _
  obtain ⟨below, hbelow⟩ := ((closed_singleton hsolid).append
    (opening ++ docLines e.comment)).exists_source_append
      (constraintLines e.uniqueConstraints ++ more)
  have hsource : model e l i = "\n".intercalate (opening ++ (docLines e.comment ++ [table])) ++
      below := by
    rw [← List.append_assoc, ← hbelow, hmodel, generated, ← hopening]
    simp only [List.append_assoc, List.cons_append, List.nil_append]
  refine ⟨above ++ "class " ++ e.className ++ "(" ++ bases, quote e.tableName ++ below, ?_⟩
  rw [hsource, String.intercalate_append_of_ne_nil hne (by simp), habove, ← htable, docLines]
  split_ifs
  · rw [List.nil_append, String.intercalate_singleton, indented]
    simp only [String.append_assoc]
    rfl
  · rw [List.singleton_append, String.intercalate_cons_cons, String.intercalate_singleton, indented]
    simp only [String.append_assoc]
    rfl

/-- A literal of any text is read back to the text, and what follows it is left as it is. The
docstring of any comment is read back to the comment on one line, ends at the three quotes behind
it whatever follows, and has no line break; the module of a stored record has it, unless it is
empty, alone on the line below the one that opens the class. -/
theorem strings_are_read_back :
    (∀ s t : String, Quoting.literal.read (quote s ++ t).toList = some (s.toList, t.toList)) ∧
    (∀ c t : String, Quoting.docstring.read ("\"\"\"" ++ docText c ++ "\"\"\"" ++ t).toList =
      some ((flattened c).toList, t.toList) ∧ lineBreaks (docText c) = 0) ∧
    ∀ (e : Entity) (l : Layout) (i : Imports), ∃ above below, model e l i = above ++ "):\n" ++
      (if docText e.comment = "" then "" else "    \"\"\"" ++ docText e.comment ++ "\"\"\"\n") ++
      "    __tablename__ = " ++ below := by
  refine ⟨fun s t => ?_, fun c t => ⟨?_, lineBreaks_docText c⟩, exists_model_eq⟩
  · rw [String.toList_append]
    exact Quoting.read_quote s t.toList
  · rw [String.toList_append]
    exact Quoting.read_docText c t.toList

end Artifact

end CrudBackend
