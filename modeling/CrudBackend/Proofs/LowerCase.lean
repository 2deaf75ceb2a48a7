import CrudBackend.Text.LetterCase
import Mathlib.Data.Nat.Bitwise
import Mathlib.Tactic.SplitIfs

/-!
What lower-casing keeps. In the place of a character it puts characters that it keeps wherever they
stand, and a text that is made of these alone is in lower case already.
-/

namespace CrudBackend.Text

/-! ### Characters of ASCII -/

/-- What holds of the characters of ASCII can be checked on their codes. -/
theorem forall_ascii {P : Char → Prop} (h : ∀ n < 0x80, P (Char.ofNat n)) {c : Char}
    (hc : c.toNat < 0x80) : P c := by
  have hn := h c.toNat hc
  rwa [Char.ofNat_toNat] at hn

theorem toLower_of_not_ascii {c : Char} (h : ¬ c.toNat < 0x80) : c.toLower = c :=
  dif_neg fun hcapital =>
    h (Nat.lt_of_le_of_lt (UInt32.le_iff_toNat_le.mp hcapital.2) (by decide))

theorem toUpper_of_not_ascii {c : Char} (h : ¬ c.toNat < 0x80) : c.toUpper = c :=
  dif_neg fun hsmall =>
    h (Nat.lt_of_le_of_lt (UInt32.le_iff_toNat_le.mp hsmall.2) (by decide))

/-! ### Sets of code points -/

/-- A set of code points as a binary number: the code points are the places of its ones. -/
def placesOf (ns : List Nat) : Nat := ns.foldr (fun n places => 1 <<< n ||| places) 0

theorem testBit_placesOf {ns : List Nat} {n : Nat} : (placesOf ns).testBit n = true ↔ n ∈ ns := by
  induction ns with
  | nil => simp [placesOf]
  | cons m rest ih =>
    have hone : (1 <<< m).testBit n = true ↔ n = m := by
      rw [Nat.one_shiftLeft, Nat.testBit_two_pow]
      simp [eq_comm]
    show (1 <<< m ||| placesOf rest).testBit n = true ↔ n ∈ m :: rest
    rw [Nat.testBit_or, Bool.or_eq_true, hone, ih, List.mem_cons]

theorem disjoint_of_placesOf {ms ns : List Nat} (h : placesOf ms &&& placesOf ns = 0) :
    ∀ n ∈ ms, n ∉ ns := by
  intro n hm hn
  have hbit : (placesOf ms &&& placesOf ns).testBit n = true := by
    rw [Nat.testBit_and, testBit_placesOf.mpr hm, testBit_placesOf.mpr hn]
    rfl
  rw [h, Nat.zero_testBit] at hbit
  cases hbit

/-! ### Characters that lower-casing keeps -/

def runLetters (run : Nat × Nat × Nat × Int) : List Nat :=
  List.range' run.1 ((run.2.1 - run.1) / run.2.2.1 + 1) run.2.2.1

def capitals : List Nat := 0x130 :: lowerRuns.flatMap runLetters

def smallLetters : List Nat :=
  [0x69, 0x307, 0x3C2, 0x3C3] ++ lowerRuns.flatMap fun run =>
    (runLetters run).map fun n : Nat => ((n : Int) + run.2.2.2).toNat

theorem smallLetter_not_mem_capitals : ∀ n ∈ smallLetters, n ∉ capitals :=
  disjoint_of_placesOf (by decide +kernel)

theorem mem_of_lowerLetter? {n : Nat} {c : Char} (h : lowerLetter? n = some c) :
    n ∈ capitals ∧ ∃ m ∈ smallLetters, c = Char.ofNat m := by
  simp only [lowerLetter?, Option.map_eq_some_iff] at h
  obtain ⟨⟨first, last, step, shift⟩, hfind, rfl⟩ := h
  have hrun := List.mem_of_find?_eq_some hfind
  have hin := List.find?_some hfind
  simp only [Bool.and_eq_true, decide_eq_true_eq, beq_iff_eq] at hin
  obtain ⟨⟨hfirst, hlast⟩, hstep⟩ := hin
  have hmem : n ∈ runLetters (first, last, step, shift) := by
    have hle : (n - first) / step ≤ (last - first) / step :=
      Nat.div_le_div_right (by omega)
    have hdiv := Nat.div_add_mod (n - first) step
    refine List.mem_range'.mpr ⟨(n - first) / step, ?_, ?_⟩
    · show (n - first) / step < (last - first) / step + 1
      omega
    · show n = first + step * ((n - first) / step)
      omega
  refine ⟨List.mem_cons_of_mem _ (List.mem_flatMap.mpr ⟨_, hrun, hmem⟩), _, ?_, rfl⟩
  apply List.mem_append_right
  exact List.mem_flatMap.mpr ⟨_, hrun, List.mem_map.mpr ⟨n, hmem, rfl⟩⟩

/-- The character is its own lower case, wherever it stands. -/
structure IsLowered (c : Char) : Prop where
  kept : lowerLetter c = [c]
  not_sigma : c ≠ 'Σ'

instance (c : Char) : Decidable (IsLowered c) :=
  decidable_of_iff (lowerLetter c = [c] ∧ c ≠ 'Σ')
    ⟨fun h => ⟨h.1, h.2⟩, fun h => ⟨h.kept, h.not_sigma⟩⟩

theorem isLowered_toLower {c : Char} (h : c.toNat < 0x80) : IsLowered c.toLower := by
  refine forall_ascii (P := fun c => IsLowered c.toLower) ?_ h
  decide +kernel

theorem isLowered_of_not_mem_capitals {c : Char} (h : c.toNat ∉ capitals) : IsLowered c := by
  have hnone : lowerLetter? c.toNat = none := by
    by_contra hsome
    obtain ⟨d, hd⟩ := Option.ne_none_iff_exists'.mp hsome
    exact h (mem_of_lowerLetter? hd).1
  by_cases hascii : c.toNat < 0x80
  · have hfound : c.toLower ≠ c → (lowerLetter? c.toNat).isSome = true := by
      refine forall_ascii (P := fun c => c.toLower ≠ c → (lowerLetter? c.toNat).isSome = true) ?_
        hascii
      decide +kernel
    have hkept := mt hfound
    rw [hnone, not_not] at hkept
    rw [← hkept (by simp)]
    exact isLowered_toLower hascii
  · have hdotted : c.toNat ≠ 0x130 := by
      intro heq
      rw [heq] at h
      exact h (List.mem_cons_self ..)
    refine ⟨?_, ?_⟩
    · rw [lowerLetter, if_neg hascii, if_neg (by simpa using hdotted), hnone, Option.getD_none]
    · rintro rfl
      exact absurd h (by decide +kernel)

theorem isLowered_ofNat {n : Nat} (h : n ∈ smallLetters) : IsLowered (Char.ofNat n) := by
  apply isLowered_of_not_mem_capitals
  by_cases hvalid : n.isValidChar
  · rw [Char.ofNat, dif_pos hvalid]
    exact smallLetter_not_mem_capitals n h
  · rw [Char.ofNat, dif_neg hvalid]
    decide +kernel

theorem isLowered_of_mem_lowerLetter {c d : Char} (hsigma : c ≠ 'Σ') (h : d ∈ lowerLetter c) :
    IsLowered d := by
  unfold lowerLetter at h
  split_ifs at h with hascii hdotted
  · rw [List.mem_singleton.mp h]
    exact isLowered_toLower hascii
  · have hletter : d = 'i' ∨ d = Char.ofNat 0x307 := by simpa using h
    rcases hletter with rfl | rfl
    · exact isLowered_ofNat (by simp [smallLetters])
    · exact isLowered_ofNat (by simp [smallLetters])
  · rw [List.mem_singleton.mp h]
    cases hlower : lowerLetter? c.toNat with
    | none =>
      refine ⟨?_, hsigma⟩
      show lowerLetter c = [c]
      rw [lowerLetter, if_neg hascii, if_neg hdotted, hlower, Option.getD_none]
    | some d =>
      obtain ⟨-, n, hn, rfl⟩ := mem_of_lowerLetter? hlower
      exact isLowered_ofNat hn

/-! ### Lower-cased texts -/

theorem isLowered_of_mem_lowerAfter {before cs : List Char} :
    ∀ d ∈ lowerAfter before cs, IsLowered d := by
  induction cs generalizing before with
  | nil => exact List.forall_mem_nil _
  | cons c rest ih =>
    rw [lowerAfter]
    refine List.forall_mem_append.mpr ⟨?_, ih⟩
    intro d hd
    split_ifs at hd with hc
    · rw [List.mem_singleton.mp hd]
      exact isLowered_ofNat (by simp [smallLetters])
    · rw [List.mem_singleton.mp hd]
      exact isLowered_ofNat (by simp [smallLetters])
    · exact isLowered_of_mem_lowerLetter (by simpa using hc) hd

theorem lowerAfter_of_isLowered {before cs : List Char} (h : ∀ c ∈ cs, IsLowered c) :
    lowerAfter before cs = cs := by
  induction cs generalizing before with
  | nil => rfl
  | cons c rest ih =>
    obtain ⟨hc, hrest⟩ := List.forall_mem_cons.mp h
    rw [lowerAfter, if_neg (by simpa using hc.not_sigma), hc.kept, ih hrest]
    rfl

end CrudBackend.Text
