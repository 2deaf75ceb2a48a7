import CrudBackend.Permission
import Mathlib.Data.List.Basic
import Mathlib.Data.List.Infix

/-!
What owned permissions allow. A permission covers itself, the bare wildcard covers everything, and a
wildcard behind a run of scopes covers what lies within the run. The wildcards that are looked for
are put together from the leading scopes of the required permission. As colons put the scopes of a
text together again, these are the wildcards whose run the text begins with, up to its end or up to a
colon.
-/

namespace CrudBackend.Permission

/-! ### Runs of scopes -/

/-- The permission is the run of scopes itself, or goes on behind it with a colon. -/
def Within (run permission : String) : Prop :=
  permission = run ∨ ∃ rest, permission = run ++ ":" ++ rest

def text (run : List (List Char)) : String := String.ofList ([separator].intercalate run)

theorem text_scopes (permission : String) : text (scopes permission) = permission := by
  rw [text, scopes, List.intercalate_splitOn, String.ofList_toList]

theorem below_eq (run : List (List Char)) : below run = text run ++ ":*" := by
  rw [below, text, String.append_assoc]
  rfl

theorem scopes_ne_nil (permission : String) : scopes permission ≠ [] :=
  List.splitOn_ne_nil separator permission.toList

theorem scopes_append (run rest : String) :
    scopes (run ++ ":" ++ rest) = scopes run ++ scopes rest := by
  have hchars : (run ++ ":" ++ rest).toList = run.toList ++ separator :: rest.toList := by
    simp [separator]
  rw [scopes, hchars, List.splitOn_append_cons_self]
  rfl

theorem text_eq_intercalate (run : List (List Char)) :
    text run = ":".intercalate (run.map String.ofList) := by
  have hscopes : (run.map String.ofList).map String.toList = run := by simp
  rw [← String.toList_inj, String.toList_intercalate, hscopes, text, String.toList_ofList]
  rfl

theorem text_append {run more : List (List Char)} (hrun : run ≠ []) (hmore : more ≠ []) :
    text (run ++ more) = text run ++ ":" ++ text more := by
  have hrun' : run.map String.ofList ≠ [] := mt List.map_eq_nil_iff.mp hrun
  have hmore' : more.map String.ofList ≠ [] := mt List.map_eq_nil_iff.mp hmore
  rw [text_eq_intercalate, List.map_append, String.intercalate_append_of_ne_nil hrun' hmore',
    ← text_eq_intercalate, ← text_eq_intercalate]

/-- A leading run of the scopes of a permission stops at a scope boundary. -/
theorem within_of_prefix {run : List (List Char)} {permission : String} (hne : run ≠ [])
    (h : run <+: scopes permission) : Within (text run) permission := by
  obtain ⟨more, hmore⟩ := h
  by_cases hend : more = []
  · left
    rw [hend, List.append_nil] at hmore
    rw [hmore, text_scopes]
  · right
    refine ⟨text more, ?_⟩
    rw [← text_append hne hend, hmore, text_scopes]

theorem within_iff_prefix {run permission : String} :
    Within run permission ↔ scopes run <+: scopes permission := by
  constructor
  · intro h
    rcases h with heq | ⟨rest, heq⟩
    · rw [heq]
    · rw [heq, scopes_append]
      exact List.prefix_append _ _
  · intro h
    have hwithin := within_of_prefix (scopes_ne_nil run) h
    rwa [text_scopes] at hwithin

/-! ### What owned permissions cover -/

inductive Covers : String → String → Prop where
  | itself (permission : String) : Covers permission permission
  | everything (permission : String) : Covers "*" permission
  | below {run permission : String} (h : Within run permission) : Covers (run ++ ":*") permission

theorem mem_wildcardsFor_iff {owned required : String} :
    owned ∈ wildcardsFor required ↔ ∃ run, Within run required ∧ owned = run ++ ":*" := by
  have hmem : owned ∈ wildcardsFor required ↔ ∃ i, (1 ≤ i ∧ i < 1 + (scopes required).length) ∧
      below ((scopes required).take i) = owned := by
    simp [wildcardsFor, List.mem_range'_1]
  rw [hmem]
  constructor
  · rintro ⟨i, ⟨hpos, hle⟩, heq⟩
    have hne : (scopes required).take i ≠ [] := by
      apply List.ne_nil_of_length_pos
      rw [List.length_take]
      omega
    refine ⟨text ((scopes required).take i), ?_, ?_⟩
    · exact within_of_prefix hne (List.take_prefix i _)
    · rw [← heq, below_eq]
  · rintro ⟨run, hwithin, heq⟩
    have hprefix := within_iff_prefix.mp hwithin
    have hpos := List.length_pos_of_ne_nil (scopes_ne_nil run)
    have hle := hprefix.length_le
    refine ⟨(scopes run).length, ⟨by omega, by omega⟩, ?_⟩
    rw [← List.prefix_iff_eq_take.mp hprefix, below_eq, text_scopes, heq]

theorem satisfies_iff {owned : List String} {required : String} :
    satisfies owned required = true ↔ ∃ o ∈ owned, Covers o required := by
  have hany : satisfies owned required = true ↔
      required ∈ owned ∨ "*" ∈ owned ∨ ∃ w ∈ wildcardsFor required, w ∈ owned := by
    simp only [satisfies, Bool.or_eq_true, List.contains_iff_mem, List.any_eq_true, or_assoc]
    rfl
  rw [hany]
  constructor
  · intro h
    rcases h with hitself | heverything | ⟨w, hw, hin⟩
    · exact ⟨required, hitself, .itself required⟩
    · exact ⟨"*", heverything, .everything required⟩
    · obtain ⟨run, hwithin, rfl⟩ := mem_wildcardsFor_iff.mp hw
      exact ⟨run ++ ":*", hin, .below hwithin⟩
  · rintro ⟨o, hin, hcovers⟩
    cases hcovers with
    | itself => exact Or.inl hin
    | everything => exact Or.inr (Or.inl hin)
    | below hwithin =>
      exact Or.inr (Or.inr ⟨_, mem_wildcardsFor_iff.mpr ⟨_, hwithin, rfl⟩, hin⟩)

theorem isPermitted_iff {required roles owned : List String} :
    isPermitted required roles owned = true ↔
      "ADMIN" ∈ roles ∨ ∀ r ∈ required, ∃ o ∈ owned, Covers o r := by
  simp only [isPermitted, Bool.or_eq_true, List.contains_iff_mem, List.all_eq_true, satisfies_iff]
  rfl

/-- Text before a wildcard is read off the wildcard. -/
theorem covers_wildcard_iff {run required : String} :
    Covers (run ++ ":*") required ↔ Within run required := by
  constructor
  · intro h
    generalize hown : run ++ ":*" = own at h
    cases h with
    | itself =>
      exact Or.inr ⟨"*", by rw [← hown, String.append_assoc]; rfl⟩
    | everything =>
      have hlength := congrArg (fun s => s.toList.length) hown
      simp at hlength
    | @below run' _ hwithin =>
      have hchars := congrArg String.toList hown
      rw [String.toList_append, String.toList_append] at hchars
      rw [String.toList_inj.mp (List.append_cancel_right hchars)]
      exact hwithin
  · exact Covers.below

/-- What is owned satisfies what is required if and only if something owned covers it. A wildcard
covers just what its scopes are the first scopes of. The order of what is owned and repetitions do
not matter, and more roles, more owned and fewer required permissions never take a permit away. -/
theorem permissions_cover_by_scope :
    (∀ owned required, satisfies owned required = true ↔ ∃ o ∈ owned, Covers o required) ∧
    (∀ run required, satisfies [run ++ ":*"] required = true ↔ scopes run <+: scopes required) ∧
    (∀ owned owned' required, (∀ o, o ∈ owned ↔ o ∈ owned') →
      satisfies owned required = satisfies owned' required) ∧
    ∀ required required' roles roles' owned owned', required' ⊆ required → roles ⊆ roles' →
      owned ⊆ owned' → isPermitted required roles owned = true →
      isPermitted required' roles' owned' = true := by
  refine ⟨fun owned required => satisfies_iff, ?_, ?_, ?_⟩
  · intro run required
    rw [satisfies_iff, ← within_iff_prefix, ← covers_wildcard_iff]
    simp
  · intro owned owned' required hsame
    rw [Bool.eq_iff_iff, satisfies_iff, satisfies_iff]
    simp only [hsame]
  · intro required required' roles roles' owned owned' hrequired hroles howned h
    rw [isPermitted_iff] at h ⊢
    rcases h with hadmin | hall
    · exact Or.inl (hroles hadmin)
    · right
      intro r hr
      obtain ⟨o, hin, hcovers⟩ := hall r (hrequired hr)
      exact ⟨o, howned hin, hcovers⟩

/-- A wildcard reaches everything below its run, and nothing that only begins like it, also where it
is owned twice. -/
theorem widget_wildcard_stays_in_scope :
    satisfies ["biz:widget:*"] "biz:widget:remove" = true ∧
    satisfies ["biz:widget:*", "biz:widget:*"] "biz:widgets:remove" = false ∧
    isPermitted ["biz:widget:remove"] ["USER", "AUDITOR"] ["sys:*", "biz:widget:*"] = true := by
  obtain ⟨-, hscope, hset, hmono⟩ := permissions_cover_by_scope
  have hremove : satisfies ["biz:widget:*"] "biz:widget:remove" = true := by
    apply (hscope "biz:widget" "biz:widget:remove").mpr
    decide
  have hother : satisfies ["biz:widget:*"] "biz:widgets:remove" = false := by
    apply eq_false_of_ne_true
    intro h
    exact absurd ((hscope "biz:widget" "biz:widgets:remove").mp h) (by decide)
  refine ⟨hremove, ?_, ?_⟩
  · rw [← hother]
    exact hset _ _ _ (by simp)
  · apply hmono ["biz:widget:remove"] _ ["USER"] _ ["biz:widget:*"] _ (by simp) (by simp) (by simp)
    rw [isPermitted, List.all_cons, hremove]
    rfl

end CrudBackend.Permission
