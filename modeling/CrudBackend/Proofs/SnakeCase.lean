import CrudBackend.Proofs.Acceptance
import CrudBackend.Proofs.LowerCase
import CrudBackend.Proofs.Stems

/-!
What snake case does to a name. The two searches, for words and for boundaries, put an underscore
before the capitals that begin a word, and whether one does is told by the characters next to it.
In a text that is in snake case no capital is left to begin a word, so the spelling is final, and a
unique constraint may name a field either way.
-/

namespace CrudBackend

/-- A capital of ASCII is not kept by lower-casing. -/
theorem Text.IsLowered.isUpper_eq_false {c : Char} (h : IsLowered c) : c.isUpper = false := by
  rw [← Bool.not_eq_true]
  intro hupper
  obtain ⟨-, hz⟩ : 'A'.val ≤ c.val ∧ c.val ≤ 'Z'.val := of_decide_eq_true hupper
  have hascii : c.toNat < 0x80 := Nat.lt_of_le_of_lt (UInt32.le_iff_toNat_le.mp hz) (by decide)
  have hchanged : c.isUpper = true → c.toLower ≠ c := by
    refine forall_ascii (P := fun c => c.isUpper = true → c.toLower ≠ c) ?_ hascii
    decide +kernel
  have hkept := h.kept
  rw [lowerLetter, if_pos hascii, List.singleton_inj] at hkept
  exact hchanged hupper hkept

namespace Naming

/-! ### Capitals that begin a word -/

/-- A capital begins a word if it comes behind a small letter or a digit, or behind any character of
its line and before a small letter. -/
def BeginsWord (before c : Char) (next : Option Char) : Prop :=
  c.isUpper = true ∧ (before.isLower = true ∨ before.isDigit = true ∨
    before ≠ '\n' ∧ next.any Char.isLower = true)

instance (before c : Char) (next : Option Char) : Decidable (BeginsWord before c next) :=
  inferInstanceAs (Decidable (_ ∧ _))

/-- A word of the name begins at the place, which is not its first. -/
def BeginsAt (cs : List Char) (i : Nat) : Prop :=
  0 < i ∧ ∃ before ∈ cs[i - 1]?, ∃ c ∈ cs[i]?, BeginsWord before c cs[i + 1]?

instance (cs : List Char) (i : Nat) : Decidable (BeginsAt cs i) :=
  inferInstanceAs (Decidable (_ ∧ _))

def spaced (cs : List Char) : List Char :=
  cs.zipIdx.flatMap fun (c, i) => if BeginsAt cs i then ['_', c] else [c]

instance (before : Option Char) (c : Char) (next : Option Char) :
    Decidable (∃ b ∈ before, BeginsWord b c next) :=
  Option.decidableExistsMem before

def spacedAfter : Option Char → List Char → List Char
  | _, [] => []
  | before, c :: rest =>
    (if ∃ b ∈ before, BeginsWord b c rest.head? then ['_', c] else [c]) ++ spacedAfter (some c) rest

theorem beginsAt_length {front rest : List Char} {c : Char} :
    BeginsAt (front ++ c :: rest) front.length ↔
      ∃ before ∈ front.getLast?, BeginsWord before c rest.head? := by
  have hc : (front ++ c :: rest)[front.length]? = some c := by simp
  have hnext : (front ++ c :: rest)[front.length + 1]? = rest.head? := by
    rw [List.getElem?_append_right (by omega)]
    cases rest <;> simp
  rw [BeginsAt, hc, hnext]
  rcases List.eq_nil_or_concat front with rfl | ⟨more, before, rfl⟩
  · simp
  · simp

theorem flatMap_zipIdx_eq (front cs : List Char) :
    ((cs.zipIdx front.length).flatMap fun (c, i) =>
      if BeginsAt (front ++ cs) i then ['_', c] else [c]) = spacedAfter front.getLast? cs := by
  induction cs generalizing front with
  | nil => rfl
  | cons c rest ih =>
    have hrest := ih (front ++ [c])
    rw [List.append_assoc, List.singleton_append, List.length_append, List.length_singleton,
      List.getLast?_concat] at hrest
    rw [List.zipIdx_cons, List.flatMap_cons, spacedAfter, ← hrest]
    simp only [beginsAt_length]

theorem spaced_eq (cs : List Char) : spaced cs = spacedAfter none cs :=
  flatMap_zipIdx_eq [] cs

/-! ### The two searches -/

theorem wordBegins_eq_true_iff {cs : List Char} : wordBegins cs = true ↔
    ∃ u l rest, cs = u :: l :: rest ∧ u.isUpper = true ∧ l.isLower = true := by
  unfold wordBegins
  split
  · next u l rest => simp
  · next h =>
    refine iff_of_false (by simp) ?_
    rintro ⟨u, l, rest, rfl, -⟩
    exact h u l rest rfl

theorem splitBoundaries_cons_cons (before c : Char) (rest : List Char) :
    splitBoundaries (before :: c :: rest) =
      before :: ((if (before.isLower || before.isDigit) && c.isUpper then ['_'] else []) ++
        splitBoundaries (c :: rest)) := by
  rw [splitBoundaries]
  split_ifs <;> rfl

/-- The search for words gives the first character back before anything else. -/
theorem exists_splitWords_cons (state : WordSearch) (c : Char) (rest : List Char) :
    ∃ more, splitWords state (c :: rest) = c :: more := by
  cases state with
  | capital => exact ⟨_, rfl⟩
  | between =>
    simp only [splitWords]
    split_ifs <;> exact ⟨_, rfl⟩
  | within =>
    simp only [splitWords]
    split_ifs <;> exact ⟨_, rfl⟩

/-- Where the letter behind a capital does not count, or the one before it does anyway, the search
for boundaries decides. -/
theorem beginsWord_iff {before c : Char} {rest : List Char}
    (h : before.isLower = true ∨ ¬ (before ≠ '\n' ∧ wordBegins (c :: rest) = true)) :
    BeginsWord before c rest.head? ↔
      ((before.isLower || before.isDigit) && c.isUpper) = true := by
  have hnext : c.isUpper = true → (wordBegins (c :: rest) = true ↔
      rest.head?.any Char.isLower = true) := by
    intro hc
    cases rest <;> simp [wordBegins, hc]
  simp only [BeginsWord, Bool.and_eq_true, Bool.or_eq_true]
  tauto

/-- The two searches together find the capitals that begin a word. A word that follows the letters
of another one is passed over by the first search and found by the second. -/
theorem splitBoundaries_splitWords (state : WordSearch) (hstate : state ≠ .capital) (c : Char)
    (rest : List Char) :
    splitBoundaries (splitWords state (c :: rest)) = c :: spacedAfter (some c) rest := by
  -- a search that goes on behind `c` without an underscore
  have hpass : ∀ next, next ≠ .capital →
      (c.isLower = true ∨ ¬ (c ≠ '\n' ∧ wordBegins rest = true)) →
      splitBoundaries (c :: splitWords next rest) = c :: spacedAfter (some c) rest := by
    intro next hnext hc
    cases rest with
    | nil => cases next <;> rfl
    | cons d rest =>
      have hd : (∃ b ∈ some c, BeginsWord b d rest.head?) ↔
          ((c.isLower || c.isDigit) && d.isUpper) = true := by
        rw [← beginsWord_iff hc]
        simp
      have hrest := splitBoundaries_splitWords next hnext d rest
      obtain ⟨more, hmore⟩ := exists_splitWords_cons next d rest
      rw [hmore] at hrest ⊢
      rw [splitBoundaries_cons_cons, hrest, spacedAfter]
      simp only [hd]
      split_ifs <;> rfl
  have hsplit : splitWords state (c :: rest) =
      if state == .within && c.isLower then c :: splitWords .within rest
      else if c != '\n' && wordBegins rest then c :: '_' :: splitWords .capital rest
      else c :: splitWords .between rest := by
    cases state with
    | capital => exact absurd rfl hstate
    | between => rfl
    | within => rfl
  rw [hsplit]
  split_ifs with hwithin hword
  · exact hpass .within (by decide) (Or.inl (by simp_all))
  · simp only [bne_iff_ne, Bool.and_eq_true] at hword
    obtain ⟨hline, hbegins⟩ := hword
    obtain ⟨u, l, more, rfl, hu, hl⟩ := wordBegins_eq_true_iff.mp hbegins
    have hl' : l.isUpper = false := by
      have hsmall : 'a'.val ≤ l.val := of_decide_eq_true (Bool.and_eq_true_iff.mp hl).1
      exact decide_eq_false fun hcapital =>
        absurd (UInt32.le_trans hsmall hcapital.2) (by decide)
    have hbehind : splitBoundaries (u :: splitWords .within (l :: more)) =
        u :: spacedAfter (some u) (l :: more) := by
      have hrest := splitBoundaries_splitWords .within (by decide) l more
      obtain ⟨tail, htail⟩ := exists_splitWords_cons .within l more
      rw [htail] at hrest ⊢
      rw [splitBoundaries_cons_cons, hrest, spacedAfter]
      simp [BeginsWord, hl']
    have hu' : ∃ b ∈ some c, BeginsWord b u (l :: more).head? :=
      ⟨c, rfl, hu, Or.inr (Or.inr ⟨hline, by simpa using hl⟩)⟩
    calc splitBoundaries (c :: '_' :: splitWords .capital (u :: l :: more))
        = c :: '_' :: splitBoundaries (u :: splitWords .within (l :: more)) := by
          rw [splitBoundaries_cons_cons]
          simp [splitWords, splitBoundaries_cons_cons]
      _ = c :: '_' :: u :: spacedAfter (some u) (l :: more) := by rw [hbehind]
      _ = c :: spacedAfter (some c) (u :: l :: more) := by
          rw [spacedAfter.eq_2 (some c), if_pos hu', List.cons_append, List.cons_append,
            List.nil_append]
  · exact hpass .between (by decide) (Or.inr (by simpa using hword))
termination_by rest.length

/-- Snake case is told by the characters of a name and their neighbours. -/
theorem snakeChars_eq (cs : List Char) :
    snakeChars cs = Text.lowered ((spaced cs).map joinHyphen) := by
  have hsplit : splitBoundaries (splitWords .between cs) = spaced cs := by
    rw [spaced_eq]
    cases cs with
    | nil => rfl
    | cons c rest =>
      rw [splitBoundaries_splitWords .between (by decide)]
      simp [spacedAfter]
  rw [snakeChars, hsplit]

/-! ### Names in snake case -/

theorem spacedAfter_of_no_capital {before : Option Char} {cs : List Char}
    (h : ∀ c ∈ cs, c.isUpper = false) : spacedAfter before cs = cs := by
  induction cs generalizing before with
  | nil => rfl
  | cons c rest ih =>
    obtain ⟨hc, hrest⟩ := List.forall_mem_cons.mp h
    have hnone : ¬ ∃ b ∈ before, BeginsWord b c rest.head? := by
      rintro ⟨b, -, hcapital, -⟩
      rw [hc] at hcapital
      cases hcapital
    rw [spacedAfter, if_neg hnone, ih hrest]
    rfl

theorem snakeChars_of_isLowered {cs : List Char} (h : ∀ c ∈ cs, Text.IsLowered c)
    (hhyphen : '-' ∉ cs) : snakeChars cs = cs := by
  have hspaced : spaced cs = cs := by
    rw [spaced_eq]
    exact spacedAfter_of_no_capital fun c hc => (h c hc).isUpper_eq_false
  have hjoin : cs.map joinHyphen = cs := by
    apply map_eq_self
    intro c hc
    rw [joinHyphen, if_neg (by simpa using ne_of_mem_of_not_mem hc hhyphen)]
  rw [snakeChars_eq, hspaced, hjoin]
  exact Text.lowerAfter_of_isLowered h

theorem snakeChars_snakeChars (cs : List Char) : snakeChars (snakeChars cs) = snakeChars cs := by
  have hjoin : '-' ∉ (spaced cs).map joinHyphen := by
    rw [List.mem_map]
    rintro ⟨c, -, hc⟩
    unfold joinHyphen at hc
    split_ifs at hc with hhyphen
    · cases hc
    · exact hhyphen (by simpa using hc)
  rw [snakeChars_eq cs]
  exact snakeChars_of_isLowered Text.isLowered_of_mem_lowerAfter
    (Text.not_mem_lowerAfter (by decide) hjoin)

theorem snakeCase_snakeCase_eq (name : String) : snakeCase (snakeCase name) = snakeCase name := by
  rw [snakeCase, snakeCase, String.toList_ofList, snakeChars_snakeChars]

end Naming

/-! ### Constraints on columns -/

/-- What a field may be called in a unique constraint: its declared name or its column. -/
def Field.IsCalled (f : Field) (name : String) : Prop := name = f.name ∨ name = f.column

instance (f : Field) (name : String) : Decidable (f.IsCalled name) :=
  inferInstanceAs (Decidable (_ ∨ _))

theorem Field.IsCalled.snakeCase_eq {f : Field} {name : String} (h : f.IsCalled name) :
    Naming.snakeCase name = f.column := by
  rcases h with rfl | rfl
  · rfl
  · exact Naming.snakeCase_snakeCase_eq f.name

theorem UniqueConstraint.columns_of_isCalled {u : UniqueDescriptor} {fs : List Field}
    (h : List.Forall₂ Field.IsCalled fs (u.columns.getD [])) :
    (ofDescriptor u).columns = fs.map Field.column := by
  show (u.columns.getD []).map Naming.snakeCase = fs.map Field.column
  generalize u.columns.getD [] = names at h
  induction h with
  | nil => rfl
  | cons hname _ ih => rw [List.map_cons, List.map_cons, hname.snakeCase_eq, ih]

namespace Naming

/-- Snake case is lower case with an underscore for each hyphen and one before each capital that
begins a word behind the first place. What is in snake case stays as it is, so a unique constraint
is on the same columns whichever of its two names each field is called by, and these exist. -/
theorem snake_case_spaces_words :
    (∀ name, snakeCase name =
      Text.lowerCase (String.ofList ((spaced name.toList).map joinHyphen))) ∧
    (∀ name, snakeCase (snakeCase name) = snakeCase name) ∧
    ∀ (e : Entity) (u : UniqueDescriptor) (fs : List Field), fs ⊆ e.fields →
      List.Forall₂ Field.IsCalled fs (u.columns.getD []) →
      (UniqueConstraint.ofDescriptor u).columns = fs.map Field.column ∧
        e.checkConstraint (UniqueConstraint.ofDescriptor u) = .ok () := by
  refine ⟨fun name => ?_, snakeCase_snakeCase_eq, fun e u fs hfs hcalled => ?_⟩
  · rw [snakeCase, snakeChars_eq, Text.lowerCase, String.toList_ofList]
  · have hcolumns := UniqueConstraint.columns_of_isCalled hcalled
    refine ⟨hcolumns, Entity.checkConstraint_eq_ok_iff.mpr ?_⟩
    rw [hcolumns, List.forall_mem_map]
    intro f hf
    exact List.mem_append_right _ (List.mem_map_of_mem (hfs hf))

def gateway : Entity where
  className := "Gateway"
  tableName := "gateways"
  moduleName := "net"
  comment := ""
  displayName := "Gateway"
  fields := [⟨"HTTPServer-Id", .string, true, none, none, none, none⟩,
    ⟨"ipV4Addr", .string, true, none, none, none, none⟩]
  uniqueConstraints := []
  apis := []
  softDelete := true
  timestamps := true

theorem gateway_columns_under_either_name :
    gateway.fields.map Field.column = ["http_server__id", "ip_v4_addr"] ∧
    (UniqueConstraint.ofDescriptor ⟨none, some ["ip_v4_addr", "HTTPServer-Id"]⟩).columns =
      ["ip_v4_addr", "http_server__id"] ∧
    gateway.checkConstraint
      (UniqueConstraint.ofDescriptor ⟨none, some ["ip_v4_addr", "HTTPServer-Id"]⟩) = .ok () := by
  have hcolumns : gateway.fields.map Field.column = ["http_server__id", "ip_v4_addr"] := by
    decide +kernel
  obtain ⟨-, -, hconstraint⟩ := snake_case_spaces_words
  obtain ⟨heq, hok⟩ := hconstraint gateway ⟨none, some ["ip_v4_addr", "HTTPServer-Id"]⟩
    gateway.fields.reverse (List.reverse_subset.mpr (List.Subset.refl _))
    (.cons (by decide +kernel) (.cons (by decide +kernel) .nil))
  refine ⟨hcolumns, ?_, hok⟩
  rw [heq, List.map_reverse, hcolumns]
  rfl

end Naming

end CrudBackend
