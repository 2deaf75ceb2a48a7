import CrudBackend.Proofs.FreeText
import CrudBackend.Proofs.Python.Tokens

/-!
Reading the module of enumerations back. A line opens a class, is a member of the class that is open,
or stands in for its members; a member is a symbol, a literal and perhaps a remark. What is read from
the text are the enumerations with all their values and labels, in order, whatever the values and
labels say.
-/

namespace CrudBackend

namespace Artifact

open Python

/-! ### Reading classes and members -/

structure EnumClass where
  name : String
  members : List EnumMember
  deriving DecidableEq, Repr

/-- The remark behind the literal of a member, if there is one. -/
def remark? : List Char → Option (List Char)
  | [] => some []
  | ' ' :: ' ' :: '#' :: ' ' :: remark => some remark
  | _ => none

def member? : List Char → Option EnumMember
  | ' ' :: ' ' :: ' ' :: ' ' :: cs =>
    match cs.dropWhile isWordChar with
    | ' ' :: '=' :: ' ' :: rest =>
      (Quoting.literal.read rest).bind fun (value, rest) =>
        (remark? rest).map fun remark =>
          ⟨String.ofList (cs.takeWhile isWordChar), String.ofList value, String.ofList remark⟩
    | _ => none
  | _ => none

/-- The members in the lines of a class. Without members the class has one line that does nothing. -/
def members? (lines : List (List Char)) : Option (List EnumMember) :=
  if lines = [(indented "pass").toList] then some []
  else if lines = [] then none
  else lines.mapM member?

def openedClass? : List Char → Option String
  | 'c' :: 'l' :: 'a' :: 's' :: 's' :: ' ' :: cs =>
    if cs.dropWhile isWordChar = "(str, Enum):".toList then
      some (String.ofList (cs.takeWhile isWordChar))
    else none
  | _ => none

/-- A comment or an import, which belongs to no class. -/
def isPreamble (line : List Char) : Bool :=
  line.head? == some '#' || "from ".toList.isPrefixOf line

/-- What is read of the last lines of a module: indented lines whose class has not been opened yet,
and the classes behind them. -/
structure Scan where
  inner : List (List Char)
  classes : List EnumClass

def Scan.readLine (line : List Char) (s : Scan) : Option Scan :=
  if line = [] then some s
  else if line.head? = some ' ' then some { s with inner := line :: s.inner }
  else
    match openedClass? line with
    | some name => (members? s.inner).map fun members => ⟨[], ⟨name, members⟩ :: s.classes⟩
    | none => if isPreamble line && s.inner.isEmpty then some s else none

def readClasses? (text : String) : Option (List EnumClass) :=
  ((text.toList.splitOnP isLineBreak).foldrM Scan.readLine ⟨[], []⟩).bind fun s =>
    if s.inner = [] then some s.classes else none

/-! ### What is written is read -/

section Reading

variable {m : EnumMember} {d : EnumDef}

theorem member?_line (hm : ∀ c ∈ m.symbol.toList, isWordChar c = true) :
    member? (indented m.line).toList = some m := by
  obtain ⟨remark, hremark, hline⟩ : ∃ remark, remark? remark = some m.remark.toList ∧
      (indented m.line).toList = ' ' :: ' ' :: ' ' :: ' ' :: (m.symbol.toList ++ ' ' :: '=' :: ' ' ::
        ((quote m.value).toList ++ remark)) := by
    by_cases hempty : m.remark = ""
    · refine ⟨[], by rw [hempty]; rfl, ?_⟩
      simp [indented, EnumMember.line, hempty]
    · refine ⟨' ' :: ' ' :: '#' :: ' ' :: m.remark.toList, rfl, ?_⟩
      simp [indented, EnumMember.line, hempty]
  generalize hrest : '=' :: ' ' :: ((quote m.value).toList ++ remark) = rest at hline
  obtain ⟨htake, hdrop⟩ := span_append hm (' ' :: rest) (fun _ h => by cases h; rfl)
  rw [hline, member?, hdrop, htake, ← hrest]
  simp only [Quoting.read_quote, Option.bind_some, hremark, Option.map_some, String.ofList_toList]

theorem openedClass?_header {name : String} (hname : IsWord name) :
    openedClass? ("class " ++ name ++ "(str, Enum):").toList = some name := by
  obtain ⟨htake, hdrop⟩ := span_append hname.all ('(' :: "str, Enum):".toList)
    (fun _ h => by cases h; rfl)
  have hline : ("class " ++ name ++ "(str, Enum):").toList =
      'c' :: 'l' :: 'a' :: 's' :: 's' :: ' ' :: (name.toList ++ '(' :: "str, Enum):".toList) := by
    simp
  have hclose : '(' :: "str, Enum):".toList = "(str, Enum):".toList := by simp
  rw [hline, openedClass?, htake, hdrop, String.ofList_toList, if_pos hclose]

theorem mapM_member? {members : List EnumMember}
    (hmembers : ∀ m ∈ members, ∀ c ∈ m.symbol.toList, isWordChar c = true) :
    (members.map fun m => (indented m.line).toList).mapM member? = some members := by
  induction members with
  | nil => rfl
  | cons m rest ih =>
    rw [List.forall_mem_cons] at hmembers
    simp [List.mapM_cons, member?_line hmembers.1, ih hmembers.2]

/-- The lines of a class behind the one that opens it. -/
theorem exists_inner_enumClass (hmembers : ∀ m ∈ membersOf d, ∀ c ∈ m.symbol.toList,
      isWordChar c = true) :
    ∃ inner : List String,
      enumClass d = ["", "", "class " ++ d.name ++ "(str, Enum):"] ++ inner.map indented ∧
      members? (inner.map fun line => (indented line).toList) = some (membersOf d) := by
  refine ⟨_, rfl, ?_⟩
  cases hd : membersOf d with
  | nil => exact if_pos rfl
  | cons m rest =>
    rw [hd] at hmembers
    have hread := mapM_member? hmembers
    have hnone : [(indented "pass").toList].mapM member? = none := by decide +kernel
    have hpass : (m :: rest).map (fun m => (indented m.line).toList) ≠ [(indented "pass").toList] := by
      intro heq
      rw [heq, hnone] at hread
      cases hread
    rw [List.map_map]
    exact ((if_neg hpass).trans (if_neg (by simp))).trans hread

theorem readLine_indented (line : String) (s : Scan) : s.readLine (indented line).toList =
    some { s with inner := (indented line).toList :: s.inner } := by
  have hline : (indented line).toList = ' ' :: ' ' :: ' ' :: ' ' :: line.toList := by
    simp [indented]
  rw [hline, Scan.readLine, if_neg (List.cons_ne_nil _ _), if_pos List.head?_cons]

theorem foldrM_indented (lines : List String) (s : Scan) :
    (lines.map fun line => (indented line).toList).foldrM Scan.readLine s =
      some { s with inner := (lines.map fun line => (indented line).toList) ++ s.inner } := by
  induction lines with
  | nil => rfl
  | cons line rest ih =>
    rw [List.map_cons, List.foldrM_cons, ih]
    exact readLine_indented line _

theorem foldrM_enumClass (hname : IsWord d.name) (hmembers : ∀ m ∈ membersOf d,
      ∀ c ∈ m.symbol.toList, isWordChar c = true) (classes : List EnumClass) :
    ((enumClass d).map String.toList).foldrM Scan.readLine ⟨[], classes⟩ =
      some ⟨[], ⟨d.name, membersOf d⟩ :: classes⟩ := by
  obtain ⟨inner, henum, hinner⟩ := exists_inner_enumClass hmembers
  have hblank : ∀ s : Scan, s.readLine "".toList = some s := fun s => if_pos rfl
  have hheader : Scan.readLine ("class " ++ d.name ++ "(str, Enum):").toList
      ⟨inner.map fun line => (indented line).toList, classes⟩ =
      some ⟨[], ⟨d.name, membersOf d⟩ :: classes⟩ := by
    have hline : ("class " ++ d.name ++ "(str, Enum):").toList =
        'c' :: ("lass " ++ d.name ++ "(str, Enum):").toList := by simp
    rw [Scan.readLine, openedClass?_header hname, hline, if_neg (List.cons_ne_nil _ _),
      if_neg (by simp)]
    simp only [hinner, Option.map_some]
  rw [henum, List.map_append, List.foldrM_append, List.map_map]
  have hindented := foldrM_indented inner ⟨[], classes⟩
  rw [List.append_nil] at hindented
  simp only [Function.comp_def, hindented, List.map_cons, List.map_nil, List.foldrM_cons,
    List.foldrM_nil, hheader, hblank, pure, bind, Option.bind_some]

/-- The symbols of a class are distinct names that no keyword has. -/
theorem symbols_membersOf (d : EnumDef) :
    ((membersOf d).map EnumMember.symbol).Nodup ∧
      ∀ m ∈ membersOf d, isIdentifier m.symbol = true ∧ isKeyword m.symbol = false := by
  have hsymbols : (membersOf d).map EnumMember.symbol =
      Naming.reserveAll [] (d.values.map fun v => Python.symbol v.value) := by
    rw [membersOf, ← List.map_uncurry_zip_eq_zipWith, List.map_map]
    exact List.map_fst_zip (by rw [Naming.length_reserveAll, List.length_map])
  have hwanted : ∀ name ∈ d.values.map fun v => Python.symbol v.value,
      isIdentifier name = true ∧ isKeyword name = false :=
    List.forall_mem_map.mpr fun v _ => ⟨isIdentifier_symbol v.value, isKeyword_symbol v.value⟩
  have hnumbered : ∀ (name : String) (k : Nat), isIdentifier name = true ∧ isKeyword name = false →
      isIdentifier (Naming.numbered name k) = true ∧ isKeyword (Naming.numbered name k) = false :=
    fun name k h =>
      have hname := Naming.isFunctionName_numbered_of_isIdentifier h.1 k
      ⟨hname.identifier, hname.not_keyword⟩
  refine ⟨hsymbols ▸ Naming.nodup_reserveAll [] _, fun m hm => ?_⟩
  have hmem : m.symbol ∈ (membersOf d).map EnumMember.symbol := List.mem_map_of_mem hm
  rw [hsymbols] at hmem
  exact Naming.forall_mem_reserveAll hnumbered hwanted m.symbol hmem

theorem map_value_membersOf (d : EnumDef) :
    (membersOf d).map (fun m => (m.value, m.remark)) =
      d.values.map fun v => (v.value, flattened v.label) := by
  have hlength : d.values.length ≤
      (Naming.reserveAll [] (d.values.map fun v => Python.symbol v.value)).length := by
    rw [Naming.length_reserveAll, List.length_map]
  rw [membersOf, List.map_zipWith]
  conv_rhs => rw [← List.map_snd_zip hlength]
  rw [List.map_map, ← List.map_uncurry_zip_eq_zipWith]
  rfl

theorem foldrM_enums {entries : List (String × EnumDef)}
    (hnames : ∀ entry ∈ entries, IsWord entry.2.name) :
    ((entries.flatMap fun (_, d) => enumClass d).map String.toList).foldrM Scan.readLine ⟨[], []⟩ =
      some ⟨[], entries.map fun (_, d) => ⟨d.name, membersOf d⟩⟩ := by
  induction entries with
  | nil => rfl
  | cons entry rest ih =>
    rw [List.forall_mem_cons] at hnames
    have hmembers : ∀ m ∈ membersOf entry.2, ∀ c ∈ m.symbol.toList, isWordChar c = true :=
      fun m hm => (isWord_of_isIdentifier ((symbols_membersOf entry.2).2 m hm).1).all
    rw [List.flatMap_cons, List.map_append, List.foldrM_append, ih hnames.2]
    exact foldrM_enumClass hnames.1 hmembers _

theorem lineBreaks_enumClass (hname : IsWord d.name) :
    ∀ line ∈ enumClass d, lineBreaks line = 0 := by
  have hheader : lineBreaks ("class " ++ d.name ++ "(str, Enum):") = 0 := by
    have hword : lineBreaks d.name = 0 := lineBreaks_eq_zero_iff.mpr fun c hc =>
      isLineBreak_eq_false (by decide) (by decide) (hname.all c hc)
    rw [lineBreaks_append, lineBreaks_append, hword]
    rfl
  unfold enumClass
  simp only [List.forall_mem_append, List.forall_mem_cons, List.forall_mem_map, lineBreaks_indented]
  refine ⟨⟨rfl, rfl, hheader, List.forall_mem_nil _⟩, ?_⟩
  cases hd : membersOf d with
  | nil => exact List.forall_mem_singleton.mpr rfl
  | cons m rest =>
    rw [List.forall_mem_map]
    exact fun m hm => (line_of_mem_membersOf d (hd ▸ hm)).1

/-- The text is split into a preamble of four lines, the lines of the classes, and nothing more. -/
theorem splitOnP_enums {s : Spec} (hnames : ∀ entry ∈ s.enums, IsWord entry.2.name) :
    (enums s).toList.splitOnP isLineBreak =
      [Ownership.marker, annotationsImport, "", "from enum import Enum"].map String.toList ++
        ((s.enums.flatMap fun (_, d) => enumClass d).map String.toList ++ [[]]) := by
  have hclosed := (closed_enums s).append [Ownership.marker, annotationsImport, ""]
  have hbreaks : ∀ line ∈ [Ownership.marker, annotationsImport, ""] ++
      "from enum import Enum" :: s.enums.flatMap fun (_, d) => enumClass d, lineBreaks line = 0 := by
    simp only [List.forall_mem_append, List.forall_mem_cons]
    refine ⟨⟨rfl, rfl, rfl, List.forall_mem_nil _⟩, rfl, fun line hline => ?_⟩
    obtain ⟨entry, hentry, hline⟩ := List.mem_flatMap.mp hline
    exact lineBreaks_enumClass (hnames entry hentry) line hline
  have hsplit := hclosed.splitOnP_source hbreaks
  rw [List.map_append, List.append_assoc] at hsplit
  exact hsplit

theorem readClasses?_enums {s : Spec} (hnames : ∀ entry ∈ s.enums, IsWord entry.2.name) :
    readClasses? (enums s) = some (s.enums.map fun (_, d) => ⟨d.name, membersOf d⟩) := by
  have hend : Scan.readLine [] ⟨[], []⟩ = some ⟨[], []⟩ := if_pos rfl
  have hpreamble : ∀ classes : List EnumClass,
      ([Ownership.marker, annotationsImport, "", "from enum import Enum"].map String.toList).foldrM
        Scan.readLine ⟨[], classes⟩ = some ⟨[], classes⟩ := fun classes => rfl
  rw [readClasses?, splitOnP_enums hnames, List.foldrM_append, List.foldrM_append]
  simp only [List.foldrM_cons, List.foldrM_nil, pure, bind, Option.bind_some, hend,
    foldrM_enums hnames, hpreamble, if_pos]

end Reading

/-- Let the name of each enumeration be made of characters that names have. The text of the module of
enumerations is read back to classes of these names, in order, each with the raw values of its
enumeration, in order, and with their labels on one line. Within a class the symbols are distinct
identifiers, and none is a keyword. -/
theorem enumerations_are_read_back (s : Spec) (hnames : ∀ entry ∈ s.enums, IsWord entry.2.name) :
    ∃ classes, readClasses? (enums s) = some classes ∧
      classes.map EnumClass.name = s.enums.map (fun (_, d) => d.name) ∧
      classes.map (fun c => c.members.map fun m => (m.value, m.remark)) =
        s.enums.map (fun (_, d) => d.values.map fun v => (v.value, flattened v.label)) ∧
      ∀ c ∈ classes, (c.members.map EnumMember.symbol).Nodup ∧
        ∀ m ∈ c.members, isIdentifier m.symbol = true ∧ isKeyword m.symbol = false := by
  refine ⟨_, readClasses?_enums hnames, ?_, ?_, ?_⟩
  · rw [List.map_map]
    rfl
  · rw [List.map_map]
    exact List.map_congr_left fun entry _ => map_value_membersOf entry.2
  · rw [List.forall_mem_map]
    exact fun entry _ => symbols_membersOf entry.2

def signsSpec : Spec where
  enums := [("Sign", ⟨"Sign", [⟨"a\"b", "first # \n  second "⟩, ⟨"a\\b", ""⟩,
      ⟨"x\nclass Y(str, Enum):", "    pass"⟩, ⟨"None", "None_ = \"None\""⟩]⟩),
    ("Empty", ⟨"Empty", []⟩)]
  entities := []

theorem signs_are_read_back :
    (∀ entry ∈ signsSpec.enums, IsWord entry.2.name) ∧
    ∃ classes, readClasses? (enums signsSpec) = some classes ∧
      classes.map EnumClass.name = ["Sign", "Empty"] ∧
      classes.map (fun c => c.members.map fun m => (m.value, m.remark)) =
        [[("a\"b", "first # second"), ("a\\b", ""), ("x\nclass Y(str, Enum):", "pass"),
          ("None", "None_ = \"None\"")], []] := by
  have hnames : ∀ entry ∈ signsSpec.enums, IsWord entry.2.name := by decide +kernel
  obtain ⟨classes, hread, hclasses, hmembers, -⟩ := enumerations_are_read_back signsSpec hnames
  refine ⟨hnames, classes, hread, hclasses, hmembers.trans ?_⟩
  decide +kernel

end Artifact

end CrudBackend
