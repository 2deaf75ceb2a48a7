import CrudBackend.Config.ImportTarget
import CrudBackend.Proofs.Acceptance
import CrudBackend.Proofs.Names

/-!
Which texts are import targets, and which targets a configuration may have. A text is one if something
stands before its first colon and in one of the pieces behind it. The target has a normal form, its
module and names without blanks, that is read as the same target. Of the three targets of a
configuration the first one that is refused is reported.
-/

namespace CrudBackend

namespace ImportTarget

/-! ### Parts of a text -/

/-- The text is a front up to its first colon, and behind that the pieces between its commas. -/
structure Parts (value front : String) (pieces : List String) : Prop where
  text_eq : value = front ++ ":" ++ ",".intercalate pieces
  no_colon : ':' ∉ front.toList
  not_empty : pieces ≠ []
  no_comma : ∀ piece ∈ pieces, ',' ∉ piece.toList

def namesIn (pieces : List String) : List String := (pieces.map Text.trim).filter (· ≠ "")

variable {key value front : String} {pieces : List String} {t : ImportTarget}

theorem toList_intercalate_comma (pieces : List String) :
    (",".intercalate pieces).toList = [','].intercalate (pieces.map String.toList) :=
  String.toList_intercalate

theorem exists_parts (h : ':' ∈ value.toList) : ∃ front pieces, Parts value front pieces := by
  obtain ⟨before, after, heq, hfirst⟩ := List.eq_append_cons_of_mem h
  refine ⟨String.ofList before, (after.splitOn ',').map String.ofList, ?_, ?_, ?_, ?_⟩
  · have hpieces : ((after.splitOn ',').map String.ofList).map String.toList =
        after.splitOn ',' := by
      simp
    rw [← String.toList_inj, String.toList_append, String.toList_append, toList_intercalate_comma,
      hpieces, List.intercalate_splitOn, String.toList_ofList, heq]
    simp
  · rwa [String.toList_ofList]
  · exact mt List.map_eq_nil_iff.mp (List.splitOn_ne_nil ',' after)
  · rw [List.forall_mem_map]
    intro piece hpiece hcomma
    rw [String.toList_ofList] at hcomma
    have hnone := Python.not_of_mem_splitOnP hpiece ',' hcomma
    cases hnone

theorem namesOf_intercalate (hne : pieces ≠ []) (hcomma : ∀ piece ∈ pieces, ',' ∉ piece.toList) :
    namesOf (",".intercalate pieces).toList = namesIn pieces := by
  have hsplit : (",".intercalate pieces).toList.splitOn ',' = pieces.map String.toList := by
    rw [toList_intercalate_comma]
    exact List.splitOn_intercalate ',' (List.forall_mem_map.mpr hcomma)
      (mt List.map_eq_nil_iff.mp hne)
  have htrim : pieces.map Text.trim =
      ((pieces.map String.toList).map Text.trimmed).map String.ofList := by
    simp only [List.map_map]
    rfl
  have hkeep : ∀ names : List (List Char), (names.filter fun name => !name.isEmpty).map String.ofList =
      (names.map String.ofList).filter (· ≠ "") := by
    intro names
    rw [List.filter_map]
    congr 1
    apply List.filter_congr
    intro name _
    cases name <;> simp
  rw [namesOf, hsplit, namesIn, htrim, hkeep]

/-! ### Reading -/

theorem parse_of_no_colon (h : ':' ∉ value.toList) (key : String) :
    parse key value = .error ⟨key, value, .noColon⟩ := by
  have hfront : ∀ c ∈ value.toList, (c != ':') = true := by
    intro c hc
    simpa using ne_of_mem_of_not_mem hc h
  have hnone := (Python.span_append hfront [] (by simp)).2
  rw [List.append_nil] at hnone
  rw [parse]
  simp only [hnone]

theorem parse_of_parts (h : Parts value front pieces) (key : String) :
    parse key value =
      if Text.trim front = "" then .error ⟨key, value, .emptyModule⟩
      else if namesIn pieces = [] then .error ⟨key, value, .noNames⟩
      else .ok ⟨Text.trim front, namesIn pieces⟩ := by
  have hchars : value.toList = front.toList ++ ':' :: (",".intercalate pieces).toList := by
    rw [h.text_eq, String.toList_append, String.toList_append]
    simp
  have hfront : ∀ c ∈ front.toList, (c != ':') = true := by
    intro c hc
    simpa using ne_of_mem_of_not_mem hc h.no_colon
  obtain ⟨htake, hdrop⟩ := Python.span_append hfront (':' :: (",".intercalate pieces).toList)
    (by simp)
  have hempty : (Text.trimmed front.toList).isEmpty = true ↔ Text.trim front = "" := by
    rw [Text.trim, String.ofList_eq_empty_iff, List.isEmpty_iff]
  have hnames : (namesIn pieces).isEmpty = true ↔ namesIn pieces = [] := List.isEmpty_iff
  rw [parse, hchars]
  simp only [htake, hdrop, namesOf_intercalate h.not_empty h.no_comma, hempty, hnames]
  rfl

theorem namesIn_ne_nil_iff : namesIn pieces ≠ [] ↔ ∃ piece ∈ pieces, Text.trim piece ≠ "" := by
  simp [namesIn]

theorem parse_eq_ok_iff : parse key value = .ok t ↔ ∃ front pieces, Parts value front pieces ∧
    Text.trim front ≠ "" ∧ (∃ piece ∈ pieces, Text.trim piece ≠ "") ∧
    t = ⟨Text.trim front, namesIn pieces⟩ := by
  constructor
  · intro h
    have hcolon : ':' ∈ value.toList := by
      by_contra hnone
      rw [parse_of_no_colon hnone] at h
      cases h
    obtain ⟨front, pieces, hparts⟩ := exists_parts hcolon
    rw [parse_of_parts hparts] at h
    split_ifs at h with hmodule hnames
    cases h
    exact ⟨front, pieces, hparts, hmodule, namesIn_ne_nil_iff.mp hnames, rfl⟩
  · rintro ⟨front, pieces, hparts, hmodule, hnames, rfl⟩
    rw [parse_of_parts hparts, if_neg hmodule, if_neg (namesIn_ne_nil_iff.mpr hnames)]

theorem key_of_parse {fault : ImportFault} (h : parse key value = .error fault) :
    fault.key = key := by
  by_cases hcolon : ':' ∈ value.toList
  · obtain ⟨front, pieces, hparts⟩ := exists_parts hcolon
    rw [parse_of_parts hparts] at h
    split_ifs at h <;> cases h <;> rfl
  · rw [parse_of_no_colon hcolon] at h
    cases h
    rfl

/-! ### Normal form -/

/-- The module and the names have no blanks around them and are not blank, the module has no colon
and the names have no comma, and there is a name. -/
structure Normal (t : ImportTarget) : Prop where
  module : Text.IsNeat t.module
  no_colon : ':' ∉ t.module.toList
  not_empty : t.names ≠ []
  names : ∀ name ∈ t.names, Text.IsNeat name ∧ ',' ∉ name.toList

theorem not_mem_trim {c : Char} {s : String} (h : c ∉ s.toList) : c ∉ (Text.trim s).toList := by
  rw [Text.trim, String.toList_ofList]
  exact fun hc => h ((List.dropWhile_suffix _).mem ((List.rdropWhile_prefix _ _).mem hc))

theorem normal_of_parse (h : parse key value = .ok t) : t.Normal := by
  obtain ⟨front, pieces, hparts, hmodule, hnames, rfl⟩ := parse_eq_ok_iff.mp h
  refine ⟨⟨hmodule, Text.trim_trim front⟩, not_mem_trim hparts.no_colon,
    namesIn_ne_nil_iff.mpr hnames, fun name hname => ?_⟩
  obtain ⟨hname, hne⟩ := List.mem_filter.mp hname
  obtain ⟨piece, hpiece, rfl⟩ := List.mem_map.mp hname
  exact ⟨⟨of_decide_eq_true hne, Text.trim_trim piece⟩, not_mem_trim (hparts.no_comma piece hpiece)⟩

/-- A target in normal form is its own target. -/
theorem Normal.parse_text (h : t.Normal) (key : String) : parse key t.text = .ok t := by
  have hparts : Parts t.text t.module t.names :=
    ⟨rfl, h.no_colon, h.not_empty, fun name hname => (h.names name hname).2⟩
  have hnames : namesIn t.names = t.names := by
    have htrim : t.names.map Text.trim = t.names :=
      map_eq_self fun name hname => (h.names name hname).1.trim_eq
    rw [namesIn, htrim, List.filter_eq_self]
    exact fun name hname => decide_eq_true (h.names name hname).1.not_empty
  rw [parse_of_parts hparts, h.module.trim_eq, hnames, if_neg h.module.not_empty,
    if_neg h.not_empty]

/-! ### Targets of a configuration -/

/-- Why a text is refused as an import target: it is malformed, or it was to name one symbol and
does not. -/
inductive Refused (key text : String) (single : Bool) : ImportFault → Prop
  | malformed {fault : ImportFault} (h : ImportTarget.parse key text = .error fault) :
      Refused key text single fault
  | notSingle {target : ImportTarget} (h : ImportTarget.parse key text = .ok target)
      (hsingle : single = true) (hnames : target.names.length ≠ 1) :
      Refused key text single ⟨key, target.text, .notSingle target.names.length⟩

/-- The text is a target, and it names one symbol if it is to. -/
def Accepted (key text : String) (single : Bool) : Prop :=
  ∃ t, parse key text = .ok t ∧ (single = true → t.names.length = 1)

variable {text : String} {single : Bool} {fault : ImportFault} {target : ImportTarget}

theorem single_eq_error (h : target.single key = .error fault) :
    target.names.length ≠ 1 ∧ fault = ⟨key, target.text, .notSingle target.names.length⟩ := by
  unfold ImportTarget.single at h
  split at h
  · cases h
  · rename_i hnames
    cases h
    refine ⟨fun hone => ?_, rfl⟩
    obtain ⟨name, hname⟩ := List.length_eq_one_iff.mp hone
    exact hnames name hname

theorem length_of_single {i : SingleImport} (h : target.single key = .ok i) :
    target.names.length = 1 := by
  unfold ImportTarget.single at h
  split at h
  · rename_i name hnames
    rw [hnames]
    rfl
  · cases h

theorem not_refused (h : ImportTarget.parse key text = .ok target)
    (hone : single = true → target.names.length = 1) : ¬ Refused key text single fault := by
  rintro (hparse | ⟨hparse, hsingle, hnames⟩)
  · rw [h] at hparse
    cases hparse
  · rw [h] at hparse
    cases hparse
    exact hnames (hone hsingle)

theorem key_of_refused (h : Refused key text single fault) : fault.key = key := by
  rcases h with hparse | ⟨-, -, -⟩
  · exact key_of_parse hparse
  · rfl

def readSingle (key text : String) : Except ImportFault SingleImport :=
  parse key text >>= fun t => t.single key

theorem exists_parse_iff : (∃ t, parse key text = .ok t) ↔ Accepted key text false := by
  simp [Accepted]

theorem parse_eq_error_iff : parse key text = .error fault ↔ Refused key text false fault := by
  constructor
  · exact Refused.malformed
  · rintro (hparse | ⟨-, hsingle, -⟩)
    · exact hparse
    · cases hsingle

theorem exists_readSingle_iff : (∃ i, readSingle key text = .ok i) ↔ Accepted key text true := by
  constructor
  · rintro ⟨i, h⟩
    obtain ⟨t, hparse, hsingle⟩ := bindExcept_eq_ok.mp h
    exact ⟨t, hparse, fun _ => length_of_single hsingle⟩
  · rintro ⟨t, hparse, hone⟩
    obtain ⟨name, hname⟩ := List.length_eq_one_iff.mp (hone rfl)
    refine ⟨⟨t.module, name⟩, bindExcept_eq_ok.mpr ⟨t, hparse, ?_⟩⟩
    rw [ImportTarget.single, hname]

theorem readSingle_eq_error_iff :
    readSingle key text = .error fault ↔ Refused key text true fault := by
  constructor
  · intro h
    rcases bindExcept_eq_error.mp h with hparse | ⟨t, hparse, hsingle⟩
    · exact .malformed hparse
    · obtain ⟨hnames, rfl⟩ := single_eq_error hsingle
      exact .notSingle hparse rfl hnames
  · rintro (hparse | ⟨hparse, -, hnames⟩)
    · exact bindExcept_eq_error.mpr (Or.inl hparse)
    · refine bindExcept_eq_error.mpr (Or.inr ⟨_, hparse, ?_⟩)
      unfold ImportTarget.single
      split
      · next name hname => exact absurd (congrArg List.length hname) hnames
      · rfl

theorem resolveImports_eq (c : Config) : c.resolveImports = (do
    let base ← readSingle "base" c.imports.base
    let deps ← parse "deps" c.imports.deps
    let res ← readSingle "res" c.imports.res
    return ⟨base, deps, res⟩) := by
  simp only [Config.resolveImports, readSingle, bind_assoc]

theorem exists_resolveImports_iff {c : Config} : (∃ imports, c.resolveImports = .ok imports) ↔
    Accepted "base" c.imports.base true ∧ Accepted "deps" c.imports.deps false ∧
      Accepted "res" c.imports.res true := by
  rw [resolveImports_eq, ← exists_readSingle_iff, ← exists_parse_iff, ← exists_readSingle_iff]
  simp only [bindExcept_eq_ok]
  constructor
  · rintro ⟨_, base, hbase, deps, hdeps, res, hres, -⟩
    exact ⟨⟨base, hbase⟩, ⟨deps, hdeps⟩, ⟨res, hres⟩⟩
  · rintro ⟨⟨base, hbase⟩, ⟨deps, hdeps⟩, ⟨res, hres⟩⟩
    exact ⟨_, base, hbase, deps, hdeps, res, hres, rfl⟩

theorem resolveImports_eq_error_iff {c : Config} : c.resolveImports = .error fault ↔
    Refused "base" c.imports.base true fault ∨
    Accepted "base" c.imports.base true ∧ (Refused "deps" c.imports.deps false fault ∨
      Accepted "deps" c.imports.deps false ∧ Refused "res" c.imports.res true fault) := by
  have hdone : ∀ imports : Imports, (pure imports : Except ImportFault Imports) ≠ .error fault := by
    rintro imports ⟨⟩
  simp only [resolveImports_eq, bindExcept_eq_error, readSingle_eq_error_iff, parse_eq_error_iff,
    hdone, and_false, exists_false, or_false, exists_and_right, exists_readSingle_iff,
    exists_parse_iff]

/-- A text is read as a target if and only if something is in front of its first colon and in a piece
behind it, and the target is what is left without blanks. A target is in normal form if and only if
its own text is read as it, and every target that is read is. The imports of a configuration are found
if and only if its targets are accepted, the base and the response with one name each, and otherwise
the first one that is refused is reported, under its key. -/
theorem import_targets_have_normal_form :
    (∀ key value t, parse key value = .ok t ↔ ∃ front pieces, Parts value front pieces ∧
      Text.trim front ≠ "" ∧ (∃ piece ∈ pieces, Text.trim piece ≠ "") ∧
      t = ⟨Text.trim front, namesIn pieces⟩) ∧
    (∀ key (t : ImportTarget), parse key t.text = .ok t ↔ t.Normal) ∧
    (∀ key value t, parse key value = .ok t → t.Normal) ∧
    (∀ key text single fault, Refused key text single fault → fault.key = key) ∧
    ∀ c : Config,
      ((∃ imports, c.resolveImports = .ok imports) ↔ Accepted "base" c.imports.base true ∧
        Accepted "deps" c.imports.deps false ∧ Accepted "res" c.imports.res true) ∧
      ∀ fault, c.resolveImports = .error fault ↔
        Refused "base" c.imports.base true fault ∨
        Accepted "base" c.imports.base true ∧ (Refused "deps" c.imports.deps false fault ∨
          Accepted "deps" c.imports.deps false ∧ Refused "res" c.imports.res true fault) := by
  refine ⟨fun key value t => parse_eq_ok_iff, fun key t => ?_, fun key value t => normal_of_parse,
    fun key text single fault => key_of_refused, fun c => ?_⟩
  · exact ⟨normal_of_parse, fun h => h.parse_text key⟩
  · exact ⟨exists_resolveImports_iff, fun fault => resolveImports_eq_error_iff⟩

def importsWith (deps res : String) : Config := { imports := ⟨"app.models.base:Base", deps, res⟩ }

/-- Blanks, pieces with nothing in them and a second colon do not keep a text from being a target, but
a second name keeps it from being the response. -/
theorem spaced_deps_are_normal :
    parse "deps" " app.deps : get_db ,, a:b,\u00a0" = .ok ⟨"app.deps", ["get_db", "a:b"]⟩ ∧
    parse "deps" "app.deps:get_db,a:b" = .ok ⟨"app.deps", ["get_db", "a:b"]⟩ ∧
    Normal ⟨"app.deps", ["get_db", "a:b"]⟩ ∧
    Refused "res" "lib: A,B" true ⟨"res", "lib:A,B", .notSingle 2⟩ ∧
    ImportFault.key ⟨"res", "lib:A,B", .notSingle 2⟩ = "res" ∧
    (∃ imports, (importsWith " app.deps : get_db ,, a:b,\u00a0" "lib: A").resolveImports =
      .ok imports) ∧
    (importsWith " app.deps : get_db ,, a:b,\u00a0" "lib: A,B").resolveImports =
      .error ⟨"res", "lib:A,B", .notSingle 2⟩ := by
  obtain ⟨-, htext, hnormal, hkey, hconfig⟩ := import_targets_have_normal_form
  have hroot : parse "base" "app.models.base:Base" = .ok ⟨"app.models.base", ["Base"]⟩ :=
    eq_ok_of_toOption (by decide +kernel)
  have hdeps : parse "deps" " app.deps : get_db ,, a:b,\u00a0" =
      .ok ⟨"app.deps", ["get_db", "a:b"]⟩ := eq_ok_of_toOption (by decide +kernel)
  have hone : parse "res" "lib: A" = .ok ⟨"lib", ["A"]⟩ := eq_ok_of_toOption (by decide +kernel)
  have htwo : parse "res" "lib: A,B" = .ok ⟨"lib", ["A", "B"]⟩ :=
    eq_ok_of_toOption (by decide +kernel)
  have hrefused : Refused "res" "lib: A,B" true ⟨"res", "lib:A,B", .notSingle 2⟩ :=
    .notSingle htwo rfl (by decide)
  have hform := hnormal _ _ _ hdeps
  have hbase : Accepted "base" "app.models.base:Base" true := ⟨_, hroot, fun _ => rfl⟩
  have haccepted : Accepted "deps" " app.deps : get_db ,, a:b,\u00a0" false := ⟨_, hdeps, nofun⟩
  exact ⟨hdeps, (htext "deps" ⟨"app.deps", ["get_db", "a:b"]⟩).mpr hform, hform, hrefused,
    hkey _ _ _ _ hrefused, (hconfig _).1.mpr ⟨hbase, haccepted, ⟨_, hone, fun _ => rfl⟩⟩,
    ((hconfig _).2 _).mpr (Or.inr ⟨hbase, Or.inr ⟨haccepted, hrefused⟩⟩)⟩

end ImportTarget

end CrudBackend
