import CrudBackend.Artifact.Endpoint
import CrudBackend.Proofs.LowerCase
import CrudBackend.Proofs.Names

/-!
Names that are derived from free text. A symbol and the name of a function are the text itself if it
is such a name already, so they are derived once and for all. Title case only drops what separates
the words of a name and changes the case of their first letters, which keeps a request model that is
named after a class and an endpoint an identifier.
-/

namespace CrudBackend

namespace Python

theorem identifierChars_of_isIdentifier {name : String} (h : isIdentifier name = true) :
    identifierChars name.toList = name.toList := by
  obtain ⟨hhead, hall⟩ := isIdentifier_iff.mp h
  have hclean : (name.toList.map fun c => if continuesIdentifier c then c else '_') =
      name.toList := by
    apply map_eq_self
    intro c hc
    rw [if_pos (hall c hc)]
  unfold identifierChars
  rw [hclean]
  cases hcs : name.toList with
  | nil =>
    rw [hcs] at hhead
    cases hhead
  | cons c rest =>
    rw [hcs] at hhead
    exact if_pos hhead

/-- The texts that are symbols already are the ones that stay as they are. -/
theorem symbol_eq_self_iff {value : String} :
    symbol value = value ↔ isIdentifier value = true ∧ isKeyword value = false := by
  constructor
  · intro h
    rw [← h]
    exact ⟨isIdentifier_symbol value, isKeyword_symbol value⟩
  · rintro ⟨hname, hkeyword⟩
    rw [symbol, identifierChars_of_isIdentifier hname, String.ofList_toList]
    exact if_neg (by simp [hkeyword])

theorem functionName_eq_self_iff {name : String} :
    functionName name = name ↔ IsFunctionName name := by
  constructor
  · intro h
    rw [← h]
    exact isFunctionName_functionName name
  · intro h
    rw [functionName, symbol_eq_self_iff.mpr ⟨h.identifier, h.not_keyword⟩]
    exact if_neg h.not_list

end Python

/-! ### Title case -/

namespace Naming

/-- The words between the separators are all of a text but the separators. -/
theorem flatten_splitOnP (p : Char → Bool) (cs : List Char) :
    (cs.splitOnP p).flatten = cs.filter fun c => !p c := by
  induction cs with
  | nil => rfl
  | cons c rest ih =>
    rw [List.splitOnP_cons_eq_if_modifyHead]
    cases hc : p c with
    | true => simp [hc, ih]
    | false =>
      obtain ⟨word, more, heq⟩ := List.exists_cons_of_ne_nil (List.splitOnP_ne_nil p rest)
      rw [heq, List.flatten_cons] at ih
      simp [hc, heq, ← ih]

theorem toLower_toUpper (c : Char) : c.toUpper.toLower = c.toLower := by
  by_cases hascii : c.toNat < 0x80
  · refine Text.forall_ascii (P := fun c => c.toUpper.toLower = c.toLower) ?_ hascii
    decide +kernel
  · rw [Text.toUpper_of_not_ascii hascii]

theorem map_toLower_capitalized (word : List Char) :
    (capitalized word).map Char.toLower = word.map Char.toLower := by
  cases word with
  | nil => rfl
  | cons c rest =>
    show c.toUpper.toLower :: rest.map Char.toLower = c.toLower :: rest.map Char.toLower
    rw [toLower_toUpper]

/-- Up to the case of letters, title case is the name without its separators. -/
theorem map_toLower_titleChars (cs : List Char) :
    (titleChars cs).map Char.toLower = (cs.filter Char.isAlphanum).map Char.toLower := by
  have hwords := flatten_splitOnP (fun c => !c.isAlphanum) cs
  simp only [Bool.not_not] at hwords
  rw [titleChars, List.map_flatMap, ← hwords, List.map_flatten]
  simp only [map_toLower_capitalized]
  rfl

theorem isAlphanum_toLower (c : Char) : c.toLower.isAlphanum = c.isAlphanum := by
  by_cases hascii : c.toNat < 0x80
  · refine Text.forall_ascii (P := fun c => c.toLower.isAlphanum = c.isAlphanum) ?_ hascii
    decide +kernel
  · rw [Text.toLower_of_not_ascii hascii]

theorem isAlphanum_of_mem_titleChars {c : Char} {cs : List Char} (h : c ∈ titleChars cs) :
    c.isAlphanum = true := by
  have hlower : c.toLower ∈ (cs.filter Char.isAlphanum).map Char.toLower := by
    rw [← map_toLower_titleChars]
    exact List.mem_map_of_mem h
  obtain ⟨d, hd, heq⟩ := List.mem_map.mp hlower
  rw [← isAlphanum_toLower, ← heq, isAlphanum_toLower]
  exact (List.mem_filter.mp hd).2

end Naming

namespace Artifact

open Naming Python

theorem isIdentifier_defaultRequestName {className : String}
    (h : isIdentifier className = true) (apiName : String) :
    isIdentifier (defaultRequestName className apiName) = true := by
  have htitle : ∀ c ∈ (titleCase apiName).toList, continuesIdentifier c = true := by
    intro c hc
    rw [titleCase, String.toList_ofList] at hc
    rw [continuesIdentifier, isAlphanum_of_mem_titleChars hc, Bool.true_or]
  have hending : ∀ c ∈ "Req".toList, continuesIdentifier c = true := by simp [continuesIdentifier]
  exact isIdentifier_append (isIdentifier_append h htitle) hending

/-- A symbol is an identifier and no keyword, and the name of a function is not that of the list
either. What is such a name stays as it is, and nothing else does, so deriving a name again changes
nothing. Title case has only letters and digits, those of the name, and the request model that an
endpoint gets by default is an identifier if the class is one. -/
theorem derived_names_are_identifiers :
    (∀ value, isIdentifier (symbol value) = true ∧ isKeyword (symbol value) = false) ∧
    (∀ name, IsFunctionName (functionName name)) ∧
    (∀ value, symbol (symbol value) = symbol value) ∧
    (∀ name, functionName (functionName name) = functionName name) ∧
    (∀ value, symbol value = value ↔ isIdentifier value = true ∧ isKeyword value = false) ∧
    (∀ name, functionName name = name ↔ IsFunctionName name) ∧
    (∀ name, (∀ c ∈ (titleCase name).toList, c.isAlphanum = true) ∧
      (titleCase name).toList.map Char.toLower =
        (name.toList.filter Char.isAlphanum).map Char.toLower) ∧
    ∀ (className : String) (a : Api) (params : List Param), isIdentifier className = true →
      a.mode = .custom none params → ∃ request, isIdentifier request = true ∧
        actionOf? className a = some (.custom (functionName a.name) request params) := by
  have hsymbol : ∀ value, isIdentifier (symbol value) = true ∧ isKeyword (symbol value) = false :=
    fun value => ⟨isIdentifier_symbol value, isKeyword_symbol value⟩
  refine ⟨hsymbol, isFunctionName_functionName, fun value => symbol_eq_self_iff.mpr (hsymbol value),
    fun name => functionName_eq_self_iff.mpr (isFunctionName_functionName name),
    fun value => symbol_eq_self_iff, fun name => functionName_eq_self_iff, fun name => ?_, ?_⟩
  · rw [titleCase, String.toList_ofList]
    exact ⟨fun c => isAlphanum_of_mem_titleChars, map_toLower_titleChars name.toList⟩
  · intro className a params hclass hmode
    refine ⟨defaultRequestName className a.name, isIdentifier_defaultRequestName hclass a.name, ?_⟩
    rw [actionOf?, hmode]
    rfl

def remindAll : Api where
  name := "remind-all_über now"
  summary := "Remind"
  path := "/remind"
  mode := .custom none []
  requiredPerms := []
  authRequired := false

theorem remindAll_request_is_identifier :
    isIdentifier "Invoice_2" = true ∧ remindAll.mode = .custom none [] ∧
    actionOf? "Invoice_2" remindAll =
      some (.custom "remind_all__ber_now" "Invoice_2RemindAllBerNowReq" []) ∧
    isIdentifier "Invoice_2RemindAllBerNowReq" = true := by
  have hclass : isIdentifier "Invoice_2" = true := by decide
  have haction : actionOf? "Invoice_2" remindAll =
      some (.custom "remind_all__ber_now" "Invoice_2RemindAllBerNowReq" []) := by decide +kernel
  obtain ⟨-, -, -, -, -, -, -, hrequest⟩ := derived_names_are_identifiers
  obtain ⟨request, hidentifier, heq⟩ := hrequest "Invoice_2" remindAll [] hclass rfl
  rw [haction] at heq
  cases heq
  exact ⟨hclass, rfl, haction, hidentifier⟩

end Artifact

end CrudBackend
