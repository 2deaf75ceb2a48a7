import CrudBackend.Config.Basic
import CrudBackend.Proofs.Output.Apart
import Mathlib.Data.List.DropRight

/-!
One setting, read twice. As a path it is split at its separators, as a package its separators become
dots. Where the setting spells plain segments both readings come to the same segments: they are the
components behind the path that the setting is joined to, and the words behind the package of the
application.
-/

namespace CrudBackend

open FileTree

/-! ### Dotted names -/

def dottedName (pkg : String) (names : List String) : String := String.intercalate "." (pkg :: names)

theorem intercalate_cons (c : Char) (first : List Char) (rest : List (List Char)) :
    [c].intercalate (first :: rest) = first ++ rest.flatMap (c :: ·) := by
  induction rest generalizing first with
  | nil => simp
  | cons next rest ih =>
    rw [List.intercalate_cons_of_ne_nil (List.cons_ne_nil _ _), ih, List.flatMap_cons]
    simp

theorem toList_dottedName (pkg : String) (names : List String) :
    (dottedName pkg names).toList = pkg.toList ++ (names.map String.toList).flatMap ('.' :: ·) := by
  rw [dottedName, String.toList_intercalate, List.map_cons,
    show ".".toList = ['.'] from rfl, intercalate_cons]

/-- A name is put behind a dotted name. -/
theorem dottedName_concat (pkg : String) (names : List String) (name : String) :
    dottedName pkg names ++ "." ++ name = dottedName pkg (names ++ [name]) := by
  rw [← String.toList_inj]
  simp [toList_dottedName]

/-- Names without dots are read back from a dotted name. -/
theorem dottedName_inj {pkg : String} {names names' : List String}
    (hdot : ∀ name ∈ names, '.' ∉ name.toList) (hdot' : ∀ name ∈ names', '.' ∉ name.toList)
    (h : dottedName pkg names = dottedName pkg names') : names = names' := by
  have hread : ∀ names : List String, (∀ name ∈ names, '.' ∉ name.toList) →
      ((names.map String.toList).flatMap ('.' :: ·)).splitOn '.' = [] :: names.map String.toList := by
    intro names hdot
    rw [← List.nil_append ((names.map String.toList).flatMap ('.' :: ·)), ← intercalate_cons]
    refine List.splitOn_intercalate '.' ?_ (List.cons_ne_nil _ _)
    exact List.forall_mem_cons.mpr ⟨List.not_mem_nil, List.forall_mem_map.mpr hdot⟩
  rw [← String.toList_inj, toList_dottedName, toList_dottedName, List.append_cancel_left_eq] at h
  have hsplit := congrArg (List.splitOn '.') h
  rw [hread names hdot, hread names' hdot', List.cons_inj_right] at hsplit
  exact List.map_injective_iff.mpr (fun _ _ => String.toList_inj.mp) hsplit

/-! ### Components of a path that is continued -/

namespace Path

def front (p : Path) : List Component :=
  if p.isAbsolute then [.root] else if p.pieces.head? == some ['.'] then [.here] else []

theorem components_eq (p : Path) :
    p.components = p.front ++ (steps p).filterMap fun s => component? s.toList := by
  have hbody : ∀ pieces : List (List Char), pieces.filterMap component? =
      ((pieces.filter fun piece => !piece.isEmpty).map String.ofList).filterMap
        fun s => component? s.toList := by
    intro pieces
    induction pieces with
    | nil => rfl
    | cons piece rest ih =>
      cases piece with
      | nil => exact ih
      | cons c cs =>
        simp only [List.filter_cons, List.isEmpty_cons, Bool.not_false, if_true, List.map_cons,
          List.filterMap_cons, String.toList_ofList, ih]
  rw [components, hbody]
  rfl

variable {p : Path} {g : String}

theorem filterMap_segments {segments : List String} (h : ∀ s ∈ segments, IsSegment s) :
    (segments.filterMap fun s => component? s.toList) = segments.map .name := by
  rw [← List.filterMap_eq_map]
  refine List.filterMap_congr fun s hs => ?_
  have hsegment := h s hs
  have hne : ∀ u : String, s ≠ u → s.toList ≠ u.toList := fun u hu => mt String.toList_inj.mp hu
  have hempty : s.toList ≠ [] := hne "" hsegment.not_empty
  have hhere : s.toList ≠ ['.'] := hne "." hsegment.not_here
  have hup : s.toList ≠ ['.', '.'] := hne ".." hsegment.not_up
  rw [component?, if_neg (not_or.mpr ⟨hempty, hhere⟩), if_neg hup, String.ofList_toList]
  rfl

/-- A continuation that does not begin with a dot leaves the beginning of a path as it is. -/
theorem front_join (hrel : (Path.mk g).isAbsolute = false)
    (hdot : (Path.mk g).pieces.head? ≠ some ['.']) : (p.join g).front = p.front := by
  have hhead : ∀ cs ds : List Char,
      ((cs ++ '/' :: ds).splitOn '/').head? = (cs.splitOn '/').head? := by
    intro cs ds
    rw [List.splitOn_append_cons_self]
    obtain ⟨first, more, heq⟩ := List.exists_cons_of_ne_nil (List.splitOn_ne_nil '/' cs)
    rw [heq]
    rfl
  have hpieces : (p.join g).pieces.head? = some ['.'] ↔ p.pieces.head? = some ['.'] := by
    rcases join_cases (p := p) hrel with ⟨hp, hj⟩ | ⟨cs, hp, hj⟩ | ⟨-, hj⟩
    · have hjoin : (p.join g).pieces = (Path.mk g).pieces := by rw [pieces, hj, pieces]
      rw [hjoin]
      refine iff_of_false hdot ?_
      rw [pieces, hp]
      decide
    · rw [pieces, pieces, hj, hp, hhead, hhead]
    · rw [pieces, pieces, hj, hhead]
  rw [front, front, isAbsolute_join hrel]
  simp only [beq_iff_eq, hpieces]

theorem components_join (hrel : (Path.mk g).isAbsolute = false)
    (hg : ∀ s ∈ steps ⟨g⟩, IsSegment s) :
    (p.join g).components = p.components ++ (steps ⟨g⟩).map .name := by
  have hdot : (Path.mk g).pieces.head? ≠ some ['.'] := by
    intro hhead
    have hin : "." ∈ steps ⟨g⟩ :=
      List.mem_map.mpr ⟨['.'], List.mem_filter.mpr ⟨List.mem_of_head? hhead, rfl⟩, rfl⟩
    exact (hg _ hin).not_here rfl
  rw [components_eq, components_eq, front_join hrel hdot, steps_join hrel, List.filterMap_append,
    filterMap_segments hg, List.append_assoc]

theorem components_join_segment {s : String} (hs : IsSegment s) :
    (p.join s).components = p.components ++ [.name s] := by
  have hne : s.toList ≠ [] := fun h => hs.not_empty (String.toList_eq_nil_iff.mp h)
  have hsteps : steps ⟨s⟩ = [s] := by
    simp [steps, pieces, List.splitOn_eq_singleton hs.no_separator, hne]
  rw [components_join (isAbsolute_of_isSegment hs) (by simpa [hsteps] using hs), hsteps]
  rfl

/-- An absolute continuation begins anew. -/
theorem components_join_absolute (habs : (Path.mk g).isAbsolute = true)
    (hg : ∀ s ∈ steps ⟨g⟩, IsSegment s) :
    (p.join g).components = .root :: (steps ⟨g⟩).map .name := by
  have hjoin : p.join g = ⟨g⟩ := by rw [join, if_pos habs]
  rw [hjoin, components_eq, front, if_pos habs, filterMap_segments hg]
  rfl

end Path

/-! ### Settings -/

def bare (cs : List Char) : List Char :=
  ((cs.dropWhile (· == '/')).reverse.dropWhile (· == '/')).reverse

/-- Without separators at its ends the setting is empty, or it consists of segments that are not
empty and have no dots, with one separator between each two. -/
def IsWay (g : String) : Prop :=
  bare g.toList = [] ∨ ∀ piece ∈ (bare g.toList).splitOn '/', piece ≠ [] ∧ '.' ∉ piece

instance (g : String) : Decidable (IsWay g) :=
  inferInstanceAs (Decidable (_ ∨ ∀ piece ∈ (bare g.toList).splitOn '/', piece ≠ [] ∧ '.' ∉ piece))

theorem dotted_eq (cs : List Char) :
    dotted cs = (bare cs).map fun c => if c == '/' then '.' else c := rfl

/-- Separators at the ends of a text make no segments. -/
theorem steps_bare (cs : List Char) : steps ⟨String.ofList (bare cs)⟩ = steps ⟨String.ofList cs⟩ := by
  have hfront : ∀ cs : List Char, steps ⟨String.ofList (cs.dropWhile (· == '/'))⟩ =
      steps ⟨String.ofList cs⟩ := by
    intro cs
    induction cs with
    | nil => rfl
    | cons c rest ih =>
      by_cases hc : c = '/'
      · subst hc
        rw [List.dropWhile_cons_of_pos rfl, ih]
        exact (steps_ofList_separator [] rest).symm
      · rw [List.dropWhile_cons_of_neg (by simpa using hc)]
  have hback : ∀ cs : List Char, steps ⟨String.ofList (cs.rdropWhile (· == '/'))⟩ =
      steps ⟨String.ofList cs⟩ := by
    intro cs
    induction cs using List.reverseRecOn with
    | nil => rfl
    | append_singleton front c ih =>
      by_cases hc : c = '/'
      · subst hc
        rw [List.rdropWhile_concat_pos _ _ _ rfl, ih, steps_ofList_separator,
          steps_empty (p := ⟨String.ofList []⟩) rfl, List.append_nil]
      · rw [List.rdropWhile_concat_neg _ _ _ (by simpa using hc)]
  exact (hback _).trans (hfront cs)

namespace IsWay

variable {g : String}

/-- The segments of a setting, one after the other. -/
theorem map_toList_steps (hg : IsWay g) :
    (steps ⟨g⟩).map String.toList = if bare g.toList = [] then [] else (bare g.toList).splitOn '/' := by
  have hsteps : steps ⟨g⟩ = steps ⟨String.ofList (bare g.toList)⟩ := by
    rw [steps_bare, String.ofList_toList]
  rw [hsteps, steps, Path.pieces, String.toList_ofList, List.map_map]
  rcases hg with hnil | hpieces
  · rw [if_pos hnil, hnil]
    rfl
  · have hkeep : ((bare g.toList).splitOn '/').filter (fun piece => !piece.isEmpty) =
        (bare g.toList).splitOn '/' := by
      refine List.filter_eq_self.mpr fun piece hpiece => ?_
      simpa using (hpieces piece hpiece).1
    have hnil : bare g.toList ≠ [] := by
      intro hnil
      rw [hnil] at hpieces
      exact (hpieces [] (List.mem_cons_self ..)).1 rfl
    rw [hkeep, if_neg hnil]
    simp [Function.comp_def]

theorem isPlain_of_mem (hg : IsWay g) : ∀ s ∈ steps ⟨g⟩, IsPlain s := by
  intro s hs
  have hin : s.toList ∈ (steps ⟨g⟩).map String.toList := List.mem_map_of_mem hs
  obtain ⟨hne, hsep, -⟩ := mem_steps hs
  rw [hg.map_toList_steps] at hin
  split_ifs at hin with hnil
  · cases hin
  · exact ⟨hne, hsep, ((hg.resolve_left hnil) _ hin).2⟩

/-- Dots for separators. -/
theorem map_separator {pieces : List (List Char)} (hsep : ∀ piece ∈ pieces, '/' ∉ piece) :
    (['/'].intercalate pieces).map (fun c => if c == '/' then '.' else c) =
      ['.'].intercalate pieces := by
  have hkeep : ∀ piece ∈ pieces, piece.map (fun c => if c == '/' then '.' else c) = piece := by
    intro piece hpiece
    refine (List.map_congr_left fun c hc => ?_).trans (List.map_id piece)
    have hne : c ≠ '/' := fun h => hsep piece hpiece (h ▸ hc)
    simp [hne]
  cases pieces with
  | nil => rfl
  | cons first rest =>
    rw [List.forall_mem_cons] at hkeep
    rw [intercalate_cons, intercalate_cons, List.map_append, hkeep.1, List.map_flatMap]
    refine congrArg (first ++ ·) (List.flatMap_congr fun piece hpiece => ?_)
    rw [List.map_cons, hkeep.2 piece hpiece]
    rfl

/-- The package of a setting has its segments behind the package of the application. -/
theorem packageOf_eq (hg : IsWay g) (c : Config) :
    c.packageOf g = dottedName c.appPkg (steps ⟨g⟩) := by
  rw [← String.toList_inj, toList_dottedName, hg.map_toList_steps, Config.packageOf, dotted_eq]
  by_cases hnil : bare g.toList = []
  · rw [if_pos hnil, hnil]
    simp
  · rw [if_neg hnil]
    have hmap : (bare g.toList).map (fun c => if c == '/' then '.' else c) =
        ['.'].intercalate ((bare g.toList).splitOn '/') := by
      rw [← map_separator fun piece hpiece => (mem_splitOn_separator hpiece).1,
        List.intercalate_splitOn]
    have hpieces := hg.resolve_left hnil
    obtain ⟨first, rest, heq⟩ := List.exists_cons_of_ne_nil
      (List.splitOn_ne_nil '/' (bare g.toList))
    rw [heq] at hpieces
    have hne : ¬ String.ofList (first ++ rest.flatMap ('.' :: ·)) = "" := by
      intro h
      have hfirst := (hpieces first (List.mem_cons_self ..)).1
      simp [hfirst] at h
    rw [hmap, heq, intercalate_cons, if_neg hne]
    simp

end IsWay

end CrudBackend
