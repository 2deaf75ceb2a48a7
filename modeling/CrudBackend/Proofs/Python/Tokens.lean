import CrudBackend.Proofs.Python.Literals

/-!
Reading expressions as names, strings and marks. Blanks between them do not count, and what stands
in a string is no name. A text that ends in a mark is read by itself, whatever follows it, so
expressions that are put together of such texts are read part by part.
-/

namespace CrudBackend

namespace Python

/-- The characters of names. Outside ASCII any character may belong to one. -/
def isWordChar (c : Char) : Bool := continuesIdentifier c || decide (0x80 ≤ c.toNat)

theorem isWordChar_of_continues {c : Char} (h : continuesIdentifier c = true) :
    isWordChar c = true := by
  rw [isWordChar, h, Bool.true_or]

structure IsWord (word : String) : Prop where
  not_empty : word ≠ ""
  all : ∀ c ∈ word.toList, isWordChar c = true

instance (word : String) : Decidable (IsWord word) :=
  decidable_of_iff (word ≠ "" ∧ word.toList.all isWordChar = true)
    ⟨fun h => ⟨h.1, List.all_eq_true.mp h.2⟩, fun h => ⟨h.not_empty, List.all_eq_true.mpr h.all⟩⟩

theorem isWord_of_isIdentifier {word : String} (h : isIdentifier word = true) : IsWord word := by
  obtain ⟨hhead, hall⟩ := isIdentifier_iff.mp h
  refine ⟨?_, fun c hc => isWordChar_of_continues (hall c hc)⟩
  rintro rfl
  simp at hhead

inductive Token where
  | name (word : String)
  | text (s : String)
  | mark (c : Char)
  deriving DecidableEq, Repr

theorem Quoting.length_of_readText {q : Quoting} {cs text rest : List Char}
    (h : q.readText cs = some (text, rest)) : rest.length < cs.length := by
  fun_induction readText q cs generalizing text rest with
  | case1 => cases h
  | case2 c more ih =>
    obtain ⟨d, -, h⟩ := Option.bind_eq_some_iff.mp h
    obtain ⟨⟨t, r⟩, hr, heq⟩ := Option.map_eq_some_iff.mp h
    cases heq
    have := ih hr
    simp only [List.length_cons, id_eq]
    omega
  | case3 c more hslash hend =>
    cases h
    obtain ⟨after, hafter⟩ := List.head?_eq_some_iff.mp q.begins
    rw [hafter, List.length_cons, List.drop_succ_cons, List.length_drop, List.length_cons]
    omega
  | case4 => cases h
  | case5 c more hslash hend hbreak ih =>
    obtain ⟨⟨t, r⟩, hr, heq⟩ := Option.map_eq_some_iff.mp h
    cases heq
    have := ih hr
    simp only [List.length_cons, id_eq]
    omega

/-- The parts of an expression, unless a string in it has no end. -/
def tokens? : List Char → Option (List Token)
  | [] => some []
  | c :: rest =>
    if c = ' ' then tokens? rest
    else if c = '"' then
      match _h : Quoting.literal.readText rest with
      | some (text, more) => (tokens? more).map (List.cons (.text (String.ofList text)))
      | none => none
    else if isWordChar c then
      (tokens? (rest.dropWhile isWordChar)).map
        (List.cons (.name (String.ofList (c :: rest.takeWhile isWordChar))))
    else (tokens? rest).map (List.cons (.mark c))
termination_by cs => cs.length
decreasing_by
  · simp
  · have := Quoting.length_of_readText _h
    simp only [List.length_cons]
    omega
  · have := (List.dropWhile_suffix isWordChar (l := rest)).length_le
    simp only [List.length_cons]
    omega
  · simp

/-- A text is read as these parts, whatever follows it. -/
def Reads (s : String) (ts : List Token) : Prop :=
  ∀ rest, tokens? (s.toList ++ rest) = (tokens? rest).map (ts ++ ·)

variable {s t word : String} {ts us : List Token}

theorem tokens?_of_reads (h : Reads s ts) : tokens? s.toList = some ts := by
  have hs := h []
  rw [List.append_nil, tokens?] at hs
  simpa using hs

theorem Reads.tokens?_append (h : Reads s ts) (t : String) :
    tokens? (s ++ t).toList = (tokens? t.toList).map (ts ++ ·) := by
  rw [String.toList_append, h]

theorem reads_empty : Reads "" [] := fun _ => Option.map_id'.symm

theorem Reads.append (hs : Reads s ts) (ht : Reads t us) : Reads (s ++ t) (ts ++ us) := by
  intro rest
  rw [String.toList_append, List.append_assoc, hs, ht, Option.map_map]
  exact congrArg (Option.map · _) (funext fun more => (List.append_assoc ts us more).symm)

theorem tokens?_word (hword : IsWord word) {rest : List Char}
    (hrest : ∀ c ∈ rest.head?, isWordChar c = false) :
    tokens? (word.toList ++ rest) = (tokens? rest).map (List.cons (.name word)) := by
  obtain ⟨hne, hall⟩ := hword
  cases hcs : word.toList with
  | nil => exact absurd (String.toList_eq_nil_iff.mp hcs) hne
  | cons c cs =>
    rw [hcs, List.forall_mem_cons] at hall
    have hblank : c ≠ ' ' := by
      rintro rfl
      exact absurd hall.1 (by decide)
    have hquote : c ≠ '"' := by
      rintro rfl
      exact absurd hall.1 (by decide)
    obtain ⟨htake, hdrop⟩ := span_append hall.2 rest hrest
    rw [List.cons_append, tokens?, if_neg hblank, if_neg hquote, if_pos hall.1, htake, hdrop, ← hcs,
      String.ofList_toList]

/-- The text begins with something that no name goes on in. -/
def BeginsApart (s : String) : Prop := ∃ c cs, s.toList = c :: cs ∧ isWordChar c = false

theorem BeginsApart.append (h : BeginsApart s) (t : String) : BeginsApart (s ++ t) := by
  obtain ⟨c, cs, hs, hc⟩ := h
  exact ⟨c, cs ++ t.toList, by rw [String.toList_append, hs, List.cons_append], hc⟩

theorem Reads.word_append (hword : IsWord word) (ht : Reads t us) (hapart : BeginsApart t) :
    Reads (word ++ t) (.name word :: us) := by
  intro rest
  obtain ⟨c, cs, hcs, hc⟩ := hapart
  have hrest : ∀ d ∈ (t.toList ++ rest).head?, isWordChar d = false := by
    simpa [hcs] using hc
  rw [String.toList_append, List.append_assoc, tokens?_word hword hrest, ht, Option.map_map]
  rfl

theorem reads_quote (s : String) : Reads (quote s) [.text s] := by
  intro rest
  have hquote : (quote s).toList ++ rest = '"' :: ((escaped s).toList ++ '"' :: rest) := by
    simp [quote]
  have hdelimiter : Quoting.literal.delimiter = ['"'] := rfl
  have htext : Quoting.literal.readText ((escaped s).toList ++ '"' :: rest) =
      some (s.toList, rest) := by
    rw [← Quoting.read_delimiter, hdelimiter, List.singleton_append, ← hquote, Quoting.read_quote]
  rw [hquote, tokens?, if_neg (by decide), if_pos rfl]
  split
  · next text more heq =>
    rw [htext] at heq
    cases heq
    rw [String.ofList_toList]
    rfl
  · next heq =>
    rw [htext] at heq
    cases heq

def EndsApart (cs : List Char) : Prop := ∀ c ∈ cs.getLast?, isWordChar c = false

instance (cs : List Char) : Decidable (EndsApart cs) :=
  decidable_of_iff (cs.getLast?.all fun c => !isWordChar c) <| by
    simp [EndsApart, Option.all_eq_true]

theorem EndsApart.of_suffix {cs ds : List Char} (h : EndsApart cs) (hsuffix : ds <:+ cs) :
    EndsApart ds := by
  obtain ⟨front, rfl⟩ := hsuffix
  intro c hc
  refine h c ?_
  rw [List.getLast?_append, Option.mem_def.mp hc]
  rfl

theorem tokens?_append {cs : List Char} (h : tokens? cs = some ts) (hquote : '"' ∉ cs)
    (hlast : EndsApart cs) (rest : List Char) :
    tokens? (cs ++ rest) = (tokens? rest).map (ts ++ ·) := by
  fun_induction tokens? cs generalizing ts with
  | case1 =>
    cases h
    simp
  | case2 cs ih =>
    rw [List.cons_append, tokens?, if_pos rfl]
    exact ih h (List.not_mem_of_not_mem_cons hquote) (hlast.of_suffix (List.suffix_cons ..))
  | case3 => simp at hquote
  | case4 => simp at hquote
  | case5 c cs hblank hmark hword ih =>
    obtain ⟨us, hus, rfl⟩ := Option.map_eq_some_iff.mp h
    have hnames : IsWord (String.ofList (c :: cs.takeWhile isWordChar)) := by
      refine ⟨by simp, ?_⟩
      rw [String.toList_ofList, List.forall_mem_cons]
      exact ⟨hword, List.all_eq_true.mp List.all_takeWhile⟩
    have hmore : EndsApart (cs.dropWhile isWordChar) :=
      hlast.of_suffix ((List.dropWhile_suffix _).trans (List.suffix_cons ..))
    have hin : '"' ∉ cs.dropWhile isWordChar := fun hmem =>
      hquote (List.mem_cons_of_mem _ ((List.dropWhile_suffix _).mem hmem))
    have hsplit : c :: cs ++ rest = (String.ofList (c :: cs.takeWhile isWordChar)).toList ++
        (cs.dropWhile isWordChar ++ rest) := by
      rw [String.toList_ofList, List.cons_append, List.cons_append, ← List.append_assoc,
        List.takeWhile_append_dropWhile]
    -- the name does not go on into what follows, for the text does not end in it
    have hstop : ∀ d ∈ (cs.dropWhile isWordChar ++ rest).head?, isWordChar d = false := by
      cases hds : cs.dropWhile isWordChar with
      | nil =>
        have hall : ∀ d ∈ c :: cs, isWordChar d = true :=
          List.forall_mem_cons.mpr ⟨hword, List.dropWhile_eq_nil_iff.mp hds⟩
        obtain ⟨d, hd⟩ : ∃ d, (c :: cs).getLast? = some d := ⟨_, List.getLast?_cons⟩
        exact absurd ((hall d (List.mem_of_getLast? hd)).symm.trans (hlast d hd)) (by decide)
      | cons d ds =>
        have hd := List.head?_dropWhile_not isWordChar cs
        rw [hds] at hd
        simpa using hd
    rw [hsplit, tokens?_word hnames hstop, ih hus hin hmore, Option.map_map]
    rfl
  | case6 c cs hblank hmark hword ih =>
    obtain ⟨us, hus, rfl⟩ := Option.map_eq_some_iff.mp h
    rw [List.cons_append, tokens?, if_neg hblank, if_neg hmark, if_neg hword,
      ih hus (List.not_mem_of_not_mem_cons hquote) (hlast.of_suffix (List.suffix_cons ..)),
      Option.map_map]
    rfl

/-- A text without strings that ends in a mark is read by itself. -/
theorem reads_closed
    (h : tokens? s.toList = some ts ∧ '"' ∉ s.toList ∧ EndsApart s.toList) : Reads s ts :=
  tokens?_append h.1 h.2.1 h.2.2

end Python

end CrudBackend
