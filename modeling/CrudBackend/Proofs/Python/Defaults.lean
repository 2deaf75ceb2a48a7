import CrudBackend.Proofs.LowerCase
import CrudBackend.Proofs.Python.Literals

/-!
Literals of default values, compared with what the text of a default value denotes. Digits of any
script behind an optional minus sign denote an integer, which has to be written in ASCII digits
without superfluous zeros. A number in ASCII digits that 128 bits hold is written anew, and any other
one is copied. So the literal is the right one unless digits of another script or superfluous zeros
are copied.
-/

namespace CrudBackend

namespace Python

open Text

/-! ### Integers in digits of any script -/

/-- The zero of the script that a digit belongs to. -/
def zeroOf? (c : Char) : Option Nat :=
  digitBlocks.find? fun start => start ≤ c.toNat && c.toNat < start + 10

def digitValue (c : Char) : Nat := c.toNat - (zeroOf? c).getD 0

def numeral? (cs : List Char) : Option Nat :=
  if cs ≠ [] ∧ cs.all isDecimalDigit = true then
    some (cs.foldl (fun n c => 10 * n + digitValue c) 0)
  else none

def unsigned (cs : List Char) : List Char := if cs.head? = some '-' then cs.tail else cs

def withSign (cs : List Char) (n : Nat) : Int := if cs.head? = some '-' then -n else n

def integer? (cs : List Char) : Option Int := (numeral? (unsigned cs)).map (withSign cs)

theorem isDecimalDigit_eq (c : Char) : isDecimalDigit c = (zeroOf? c).isSome :=
  List.isSome_find?.symm

theorem zeroOf?_of_isDigit {c : Char} (h : c.isDigit = true) : zeroOf? c = some '0'.toNat := by
  have hrange := Char.isDigit_iff_toNat.mp h
  have hblocks : ∃ more, digitBlocks = '0'.toNat :: more := ⟨digitBlocks.tail, rfl⟩
  obtain ⟨more, hmore⟩ := hblocks
  rw [zeroOf?, hmore, List.find?_cons_of_pos]
  simp only [Char.reduceToNat] at hrange ⊢
  simp only [Bool.and_eq_true, decide_eq_true_eq]
  omega

theorem isDecimalDigit_of_isDigit {c : Char} (h : c.isDigit = true) : isDecimalDigit c = true := by
  rw [isDecimalDigit_eq, zeroOf?_of_isDigit h, Option.isSome_some]

theorem digitValue_of_isDigit {c : Char} (h : c.isDigit = true) :
    digitValue c = c.toNat - '0'.toNat := by
  rw [digitValue, zeroOf?_of_isDigit h, Option.getD_some]

theorem numeral?_of_ascii {cs : List Char} (hne : cs ≠ []) (h : ∀ c ∈ cs, c.isDigit = true) :
    numeral? cs = some (Nat.ofDigitChars 10 cs 0) := by
  have hall : cs.all isDecimalDigit = true := by
    rw [List.all_eq_true]
    exact fun c hc => isDecimalDigit_of_isDigit (h c hc)
  rw [numeral?, if_pos ⟨hne, hall⟩, Nat.ofDigitChars_eq_foldl]
  congr 1
  apply List.foldl_ext
  intro n c hc
  rw [digitValue_of_isDigit (h c hc)]

theorem digits_of_integer? {cs : List Char} {n : Int} (h : integer? cs = some n) :
    unsigned cs ≠ [] ∧ ∀ c ∈ unsigned cs, isDecimalDigit c = true := by
  rw [← List.all_eq_true]
  by_contra hnot
  rw [integer?, numeral?, if_neg hnot] at h
  cases h

theorem looksLikeInteger_eq (cs : List Char) : looksLikeInteger cs = (integer? cs).isSome := by
  have hunsigned : looksLikeInteger cs =
      (!(unsigned cs).isEmpty && (unsigned cs).all isDecimalDigit) := by
    unfold looksLikeInteger unsigned
    split
    · simp
    · next hsign =>
      have hhead : cs.head? ≠ some '-' := by
        intro heq
        obtain ⟨more, hmore⟩ := List.head?_eq_some_iff.mp heq
        exact hsign more hmore
      rw [if_neg hhead]
  rw [hunsigned, Bool.eq_iff_iff, integer?, Option.isSome_map, numeral?]
  split_ifs with h
  · simpa using h
  · simpa using h

/-! ### Integer literals -/

/-- ASCII digits, the first of which is a zero only if it stands alone. -/
structure IsDecimal (cs : List Char) : Prop where
  not_empty : cs ≠ []
  digits : ∀ c ∈ cs, c.isDigit = true
  alone : cs.head? = some '0' → cs = ['0']

structure IsIntegerLiteral (cs : List Char) (n : Int) : Prop where
  decimal : IsDecimal (unsigned cs)
  value : withSign cs (Nat.ofDigitChars 10 (unsigned cs) 0) = n

theorem IsIntegerLiteral.integer?_eq {cs : List Char} {n : Int} (h : IsIntegerLiteral cs n) :
    integer? cs = some n := by
  rw [integer?, numeral?_of_ascii h.decimal.not_empty h.decimal.digits, Option.map_some, h.value]

theorem isDecimal_toDigits (n : Nat) : IsDecimal (Nat.toDigits 10 n) := by
  refine ⟨Nat.toDigits_ne_nil, fun c hc => Nat.isDigit_of_mem_toDigits (by omega) (by omega) hc, ?_⟩
  induction n using Nat.strongRecOn with
  | ind n ih =>
    intro hhead
    by_cases hn : n < 10
    · rw [Nat.toDigits_of_lt_base hn] at hhead ⊢
      rw [List.head?_singleton, Option.some.injEq] at hhead
      rw [hhead]
    · -- the digits of a greater number begin with those of a tenth of it, which is no zero
      have htenth : n / 10 < n := by omega
      obtain ⟨c, cs, hcs⟩ := List.exists_cons_of_ne_nil (Nat.toDigits_ne_nil (b := 10) (n := n / 10))
      rw [Nat.toDigits_of_base_le (by omega) (by omega), hcs, List.cons_append, List.head?_cons] at hhead
      have hzero := ih (n / 10) htenth (hcs ▸ hhead)
      have hvalue := Nat.ofDigitChars_ten_toDigits (n := n / 10)
      rw [hzero] at hvalue
      have hnone : Nat.ofDigitChars 10 ['0'] 0 = 0 := rfl
      omega

theorem isIntegerLiteral_toString (n : Int) : IsIntegerLiteral (toString n).toList n := by
  have hdash : ∀ k : Nat, (Nat.toDigits 10 k).head? ≠ some '-' := by
    intro k hhead
    have hdigit := (isDecimal_toDigits k).digits '-' (List.mem_of_head? hhead)
    exact absurd hdigit (by decide)
  rw [Int.toString_eq_repr, Int.repr_eq_if]
  split_ifs with hn
  · rw [Nat.toList_repr]
    have hunsigned : unsigned (Nat.toDigits 10 n.toNat) = Nat.toDigits 10 n.toNat := if_neg (hdash _)
    refine ⟨?_, ?_⟩
    · rw [hunsigned]
      exact isDecimal_toDigits n.toNat
    · rw [hunsigned, Nat.ofDigitChars_ten_toDigits, withSign, if_neg (hdash _)]
      omega
  · have hchars : ("-" ++ (-n).toNat.repr).toList = '-' :: Nat.toDigits 10 (-n).toNat := by
      rw [String.toList_append, Nat.toList_repr]
      rfl
    rw [hchars]
    refine ⟨isDecimal_toDigits (-n).toNat, ?_⟩
    have hvalue : withSign ('-' :: Nat.toDigits 10 (-n).toNat)
        (Nat.ofDigitChars 10 (Nat.toDigits 10 (-n).toNat) 0) = -((-n).toNat : Int) := by
      rw [Nat.ofDigitChars_ten_toDigits]
      rfl
    refine Eq.trans hvalue ?_
    omega

/-! ### Reading back what is written anew -/

theorem natOfDigits?_eq {cs : List Char} (hne : cs ≠ []) : natOfDigits? cs =
    if cs.all Char.isDigit = true then some (Nat.ofDigitChars 10 cs 0) else none := by
  have hcond : (cs.isEmpty || !cs.all Char.isDigit) = true ↔ ¬ cs.all Char.isDigit = true := by
    simp [hne]
  rw [natOfDigits?, Nat.ofDigitChars_eq_foldl]
  by_cases hall : cs.all Char.isDigit = true
  · rw [if_neg (hcond.not_left.mpr hall), if_pos hall]
    rfl
  · rw [if_pos (hcond.mpr hall), if_neg hall]

theorem intOfChars?_eq {cs : List Char} {n : Int} (h : integer? cs = some n) : intOfChars? cs =
    if (unsigned cs).all Char.isDigit = true then some n else none := by
  obtain ⟨hne, hdigits⟩ := digits_of_integer? h
  have hplus : cs.head? ≠ some '+' := by
    intro hhead
    have hsign : unsigned cs = cs := if_neg (by rw [hhead]; decide)
    rw [hsign] at hdigits
    exact absurd (hdigits '+' (List.mem_of_head? hhead)) (by decide +kernel)
  have hread : intOfChars? cs = (natOfDigits? (unsigned cs)).map (withSign cs) := by
    unfold intOfChars?
    split
    · next cs =>
      cases hcs : natOfDigits? cs <;> simp [unsigned, withSign, hcs]
    · simp at hplus
    · next hsign _ =>
      have hhead : cs.head? ≠ some '-' := by
        intro heq
        obtain ⟨more, hmore⟩ := List.head?_eq_some_iff.mp heq
        exact hsign more hmore
      cases hcs : natOfDigits? cs <;> simp [unsigned, withSign, hhead, hcs]
  rw [hread, natOfDigits?_eq hne]
  split_ifs with hascii
  · rw [← h, integer?, numeral?_of_ascii hne (List.all_eq_true.mp hascii)]
  · rfl

def FitsWord (n : Int) : Prop := -(wordHalf 128 : Int) ≤ n ∧ n < wordHalf 128

instance (n : Int) : Decidable (FitsWord n) := inferInstanceAs (Decidable (_ ∧ _))

/-- The text is written in ASCII digits, and a word holds its number. -/
def IsReadable (cs : List Char) (n : Int) : Prop :=
  (unsigned cs).all Char.isDigit = true ∧ FitsWord n

instance (cs : List Char) (n : Int) : Decidable (IsReadable cs n) := inferInstanceAs (Decidable (_ ∧ _))

theorem readSigned?_eq {s : String} {n : Int} (h : integer? s.toList = some n) :
    readSigned? 128 s = if IsReadable s.toList n then some n else none := by
  have hfits : (decide (-(wordHalf 128 : Int) ≤ n) && decide (n < wordHalf 128)) = true ↔
      FitsWord n := by
    rw [Bool.and_eq_true, decide_eq_true_eq, decide_eq_true_eq]
    rfl
  rw [readSigned?, intOfChars?_eq h]
  by_cases hascii : (unsigned s.toList).all Char.isDigit = true
  · rw [if_pos hascii, Option.filter_some]
    exact if_congr (hfits.trans (and_iff_right hascii).symm) rfl rfl
  · rw [if_neg hascii, if_neg fun hreadable => hascii hreadable.1]
    rfl

/-! ### Default values -/

/-- Letters that lower-casing changes do not occur in a number. -/
theorem map_toLower_of_integer? {s : String} {n : Int} (h : integer? s.toList = some n) :
    s.map Char.toLower = s := by
  have hself : ∀ c : Char, c = '-' ∨ isDecimalDigit c = true → c.toLower = c := by
    rintro c (rfl | hdigit)
    · rfl
    · by_cases hascii : c.toNat < 0x80
      · have hkept : isDecimalDigit c = true → c.toLower = c := by
          refine forall_ascii (P := fun c => isDecimalDigit c = true → c.toLower = c) ?_ hascii
          decide +kernel
        exact hkept hdigit
      · exact toLower_of_not_ascii hascii
  have hchars : ∀ c ∈ s.toList, c = '-' ∨ isDecimalDigit c = true := by
    intro c hc
    have hdigits := (digits_of_integer? h).2
    by_cases hsign : s.toList.head? = some '-'
    · obtain ⟨more, hmore⟩ := List.head?_eq_some_iff.mp hsign
      rw [unsigned, if_pos hsign] at hdigits
      rw [hmore] at hc hdigits
      exact (List.mem_cons.mp hc).imp_right (hdigits c)
    · rw [unsigned, if_neg hsign] at hdigits
      exact Or.inr (hdigits c hc)
  rw [← String.toList_inj, String.toList_map]
  exact (List.map_congr_left fun c hc => hself c (hchars c hc)).trans (List.map_id' _)

/-- The literal is what the text asks for: a truth value, an integer, or the text as a string. -/
structure Suits (text literal : String) : Prop where
  true_iff : literal = "True" ↔ text.map Char.toLower = "true"
  false_iff : literal = "False" ↔ text.map Char.toLower = "false"
  integer_iff : ∀ n, IsIntegerLiteral literal.toList n ↔ integer? text.toList = some n
  otherwise : text.map Char.toLower ≠ "true" → text.map Char.toLower ≠ "false" →
    integer? text.toList = none → Quoting.literal.read literal.toList = some (text.toList, [])

theorem defaultLiteral_of_integer? {raw : String} {n : Int}
    (h : integer? (trim raw).toList = some n) :
    defaultLiteral raw = if IsReadable (trim raw).toList n then toString n else trim raw := by
  have hword : ∀ word : String, integer? word.toList = none →
      (trim raw).map Char.toLower ≠ word := by
    intro word hnone heq
    rw [map_toLower_of_integer? h] at heq
    rw [heq, hnone] at h
    cases h
  have hlooks : looksLikeInteger (trim raw).toList = true := by
    rw [looksLikeInteger_eq, h, Option.isSome_some]
  have htrue := hword "true" (by decide +kernel)
  have hfalse := hword "false" (by decide +kernel)
  simp only [defaultLiteral, if_neg htrue, if_neg hfalse, hlooks, if_true, readSigned?_eq h]
  split_ifs <;> rfl

/-- The literal of a number suits it if and only if it is a literal of its value. -/
theorem suits_iff_of_integer? {text literal : String} {n : Int}
    (h : integer? text.toList = some n) :
    Suits text literal ↔ IsIntegerLiteral literal.toList n := by
  have hno : ∀ {s word : String}, integer? word.toList = none → integer? s.toList ≠ none →
      s ≠ word := by
    intro s word hnone hsome heq
    exact hsome (heq ▸ hnone)
  have htext : integer? (text.map Char.toLower).toList ≠ none := by
    rw [map_toLower_of_integer? h, h]
    exact Option.some_ne_none n
  constructor
  · intro hsuits
    exact (hsuits.integer_iff n).mpr h
  · intro hliteral
    have hread := hliteral.integer?_eq
    have hsome : integer? literal.toList ≠ none := by
      rw [hread]
      exact Option.some_ne_none n
    refine ⟨?_, ?_, ?_, ?_⟩
    · exact iff_of_false (hno (by decide +kernel) hsome) (hno (by decide +kernel) htext)
    · exact iff_of_false (hno (by decide +kernel) hsome) (hno (by decide +kernel) htext)
    · intro m
      constructor
      · intro hm
        rw [h, ← hread, hm.integer?_eq]
      · intro hm
        rw [h, Option.some.injEq] at hm
        rwa [← hm]
    · intro _ _ hnone
      rw [h] at hnone
      cases hnone

theorem integer?_quote (s : String) : integer? (quote s).toList = none := by
  obtain ⟨more, hmore⟩ : ∃ more, (quote s).toList = '"' :: more := by simp [quote]
  have hquote : isDecimalDigit '"' = false := by decide +kernel
  rw [hmore, integer?, numeral?, if_neg]
  · rfl
  · intro h
    have hdigit := List.all_eq_true.mp h.2 '"' (List.mem_cons_self ..)
    rw [hquote] at hdigit
    cases hdigit

/-- What denotes no integer always gets a literal that suits it. -/
theorem suits_of_integer?_eq_none {raw : String} (h : integer? (trim raw).toList = none) :
    Suits (trim raw) (defaultLiteral raw) := by
  have hlooks : looksLikeInteger (trim raw).toList = false := by
    rw [looksLikeInteger_eq, h, Option.isSome_none]
  have hinteger : ∀ literal : String, integer? literal.toList = none →
      ∀ n, IsIntegerLiteral literal.toList n ↔ integer? (trim raw).toList = some n := by
    intro literal hliteral n
    rw [h]
    refine iff_of_false ?_ (Option.some_ne_none n).symm
    intro hn
    rw [hn.integer?_eq] at hliteral
    cases hliteral
  by_cases htrue : (trim raw).map Char.toLower = "true"
  · have hvalue : defaultLiteral raw = "True" := by
      simp only [defaultLiteral, if_pos htrue]
      rfl
    have hnot : (trim raw).map Char.toLower ≠ "false" := by
      rw [htrue]
      decide
    rw [hvalue]
    exact ⟨iff_of_true rfl htrue, iff_of_false (by decide) hnot, hinteger _ (by decide +kernel),
      fun hnot => absurd htrue hnot⟩
  · by_cases hfalse : (trim raw).map Char.toLower = "false"
    · have hvalue : defaultLiteral raw = "False" := by
        simp only [defaultLiteral, if_neg htrue, if_pos hfalse]
        rfl
      rw [hvalue]
      exact ⟨iff_of_false (by decide) htrue, iff_of_true rfl hfalse, hinteger _ (by decide +kernel),
        fun _ hnot => absurd hfalse hnot⟩
    · have hvalue : defaultLiteral raw = quote (trim raw) := by
        simp only [defaultLiteral, if_neg htrue, if_neg hfalse, hlooks]
        rfl
      have hread := Quoting.read_quote (trim raw) []
      rw [List.append_nil] at hread
      have hquoted : ∀ word : String, Quoting.literal.read word.toList = none →
          quote (trim raw) ≠ word := by
        intro word hnone heq
        rw [heq, hnone] at hread
        cases hread
      rw [hvalue]
      refine ⟨iff_of_false (hquoted _ rfl) htrue, iff_of_false (hquoted _ rfl) hfalse,
        hinteger _ (integer?_quote _), ?_⟩
      exact fun _ _ _ => hread

theorem suits_defaultLiteral_iff (raw : String) : Suits (trim raw) (defaultLiteral raw) ↔
    ∀ n, integer? (trim raw).toList = some n →
      (unsigned (trim raw).toList).all Char.isDigit = true ∧
        (FitsWord n ∨ IsDecimal (unsigned (trim raw).toList)) := by
  cases h : integer? (trim raw).toList with
  | none => exact iff_of_true (suits_of_integer?_eq_none h) (by simp)
  | some n =>
    simp only [Option.some.injEq, forall_eq']
    rw [suits_iff_of_integer? h, defaultLiteral_of_integer? h]
    by_cases hreadable : IsReadable (trim raw).toList n
    · rw [if_pos hreadable]
      exact iff_of_true (isIntegerLiteral_toString n) ⟨hreadable.1, Or.inl hreadable.2⟩
    · rw [if_neg hreadable]
      constructor
      · intro hliteral
        exact ⟨List.all_eq_true.mpr hliteral.decimal.digits, Or.inr hliteral.decimal⟩
      · rintro ⟨hascii, hfits | hdecimal⟩
        · exact absurd ⟨hascii, hfits⟩ hreadable
        · rw [integer?, numeral?_of_ascii hdecimal.not_empty hdecimal.digits, Option.map_some,
            Option.some.injEq] at h
          exact ⟨hdecimal, h⟩

/-- A number in ASCII digits that 128 bits hold is written anew, and any other number is copied. The
literal suits its text if and only if a number has ASCII digits, and 128 bits hold it or it is
written without superfluous zeros. -/
theorem defaults_are_literals_iff (raw : String) :
    (∀ n, integer? (trim raw).toList = some n →
      defaultLiteral raw = if IsReadable (trim raw).toList n then toString n else trim raw) ∧
    (Suits (trim raw) (defaultLiteral raw) ↔ ∀ n, integer? (trim raw).toList = some n →
      (unsigned (trim raw).toList).all Char.isDigit = true ∧
        (FitsWord n ∨ IsDecimal (unsigned (trim raw).toList))) :=
  ⟨fun _ h => defaultLiteral_of_integer? h, suits_defaultLiteral_iff raw⟩

/-- Superfluous zeros of a number that 128 bits hold go. -/
theorem padded_number_suits : integer? (trim " -007 ").toList = some (-7) ∧
    defaultLiteral " -007 " = "-7" ∧ Suits (trim " -007 ") (defaultLiteral " -007 ") := by
  have hvalue : integer? (trim " -007 ").toList = some (-7) := by decide +kernel
  obtain ⟨hwritten, hsuits⟩ := defaults_are_literals_iff " -007 "
  refine ⟨hvalue, ?_, ?_⟩
  · rw [hwritten (-7) hvalue]
    decide +kernel
  · rw [hsuits, hvalue]
    intro n hn
    cases hn
    exact ⟨by decide +kernel, Or.inl (by decide +kernel)⟩

/-- A digit of another script is copied, and so are the zeros before a number that 128 bits do not
hold. -/
theorem copied_numbers_are_no_literals :
    ¬ Suits (trim "\u0663") (defaultLiteral "\u0663") ∧
    ¬ Suits (trim "0170141183460469231731687303715884105728")
      (defaultLiteral "0170141183460469231731687303715884105728") := by
  constructor
  · intro h
    have hdigit := (suits_defaultLiteral_iff "\u0663").mp h 3 (by decide +kernel)
    exact absurd hdigit.1 (by decide +kernel)
  · intro h
    have hdigits := (suits_defaultLiteral_iff "0170141183460469231731687303715884105728").mp h
      170141183460469231731687303715884105728 (by decide +kernel)
    rcases hdigits.2 with hfits | hdecimal
    · exact absurd hfits (by decide +kernel)
    · exact absurd (hdecimal.alone (by decide +kernel)) (by decide +kernel)

end Python

end CrudBackend
