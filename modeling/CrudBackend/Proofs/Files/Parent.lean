import CrudBackend.Proofs.Files.Effects

/-!
The path above a path. It is found by cutting the text, and what counts is what the cut does to the
names: the path above has its place one name further up, and its text is a proper beginning of the
text of the path.
-/

namespace CrudBackend

open FileTree

namespace Path

def solid (piece : List Char) : Bool := !(piece.isEmpty || piece == ['.'])

theorem droppingBlank_split (pieces : List (List Char)) :
    ∃ blanks, pieces = blanks ++ droppingBlank pieces ∧ blanks.filter solid = [] := by
  refine ⟨pieces.takeWhile fun piece => piece.isEmpty || piece == ['.'], ?_, ?_⟩
  · exact List.takeWhile_append_dropWhile.symm
  · rw [List.filter_eq_nil_iff]
    intro piece hpiece
    have hblank := List.all_eq_true.mp List.all_takeWhile piece hpiece
    simp [solid, hblank]

theorem solid_of_droppingBlank {pieces more : List (List Char)} {x : List Char}
    (h : droppingBlank pieces = x :: more) : solid x = true := by
  have hhead := List.head?_dropWhile_not (fun piece : List Char => piece.isEmpty || piece == ['.'])
    pieces
  rw [droppingBlank] at h
  rw [h] at hhead
  rw [solid, hhead]
  rfl

/-- What is cut off from pieces holds one piece that counts, and so does the end of what is left. -/
theorem pieces_of_droppingBlank {body more : List (List Char)} {x : List Char}
    (h : droppingBlank body.reverse = x :: more) :
    ∃ rest, body = (droppingBlank more).reverse ++ rest ∧ rest.filter solid = [x] ∧
      ∀ front last, (droppingBlank more).reverse = front ++ [last] → solid last = true := by
  obtain ⟨blanks, hbody, hblanks⟩ := droppingBlank_split body.reverse
  obtain ⟨between, hmore, hbetween⟩ := droppingBlank_split more
  rw [h] at hbody
  refine ⟨between.reverse ++ [x] ++ blanks.reverse, ?_, ?_, ?_⟩
  · have hrev := congrArg List.reverse hbody
    rw [List.reverse_reverse] at hrev
    rw [hrev]
    conv_lhs => rw [hmore]
    simp
  · simp [List.filter_reverse, hbetween, hblanks, solid_of_droppingBlank h]
  · intro front last hlast
    have hrev := congrArg List.reverse hlast
    rw [List.reverse_reverse, List.reverse_append] at hrev
    exact solid_of_droppingBlank hrev

/-- How a path is put together from its lead and the pieces behind it. -/
structure Leads (p : Path) (start : List Char) (body : List (List Char)) : Prop where
  text_eq : p.text.toList = start ++ ['/'].intercalate body
  no_separator : ∀ piece ∈ body, '/' ∉ piece
  start_cases : start = [] ∨ start = ['/'] ∨
    start = ['.'] ∧ (body = [] ∨ ∃ rest, body = [] :: rest)

theorem leads_lead (p : Path) : p.Leads p.lead.1 p.lead.2 ∧
    (p.lead.1 = [] → p.isAbsolute = false) := by
  unfold lead
  split
  · next rest heq =>
    refine ⟨⟨?_, fun piece hpiece => (mem_splitOn_separator hpiece).1, Or.inr (Or.inl rfl)⟩, by simp⟩
    rw [heq, List.intercalate_splitOn]
    rfl
  · next heq => exact ⟨⟨heq, by simp, Or.inr (Or.inr ⟨rfl, Or.inl rfl⟩)⟩, by simp⟩
  · next rest heq =>
    refine ⟨⟨?_, ?_, Or.inr (Or.inr ⟨rfl, Or.inr ⟨_, rfl⟩⟩)⟩, by simp⟩
    · rw [heq, List.intercalate_cons_of_ne_nil (List.splitOn_ne_nil _ _), List.intercalate_splitOn]
      rfl
    · intro piece hpiece
      rcases List.mem_cons.mp hpiece with rfl | hpiece
      · simp
      · exact (mem_splitOn_separator hpiece).1
  · next hroot _ _ =>
    refine ⟨⟨?_, fun piece hpiece => (mem_splitOn_separator hpiece).1, Or.inl rfl⟩, ?_⟩
    · rw [List.intercalate_splitOn]
      rfl
    · intro _
      rw [isAbsolute, beq_eq_false_iff_ne]
      intro hhead
      cases htext : p.text.toList with
      | nil =>
        rw [htext] at hhead
        cases hhead
      | cons c rest =>
        rw [htext] at hhead
        cases hhead
        exact hroot rest htext

end Path

namespace FileTree

variable {t t' : FileTree} {p q : Path} {start : List Char} {body : List (List Char)}

theorem steps_ofList_separator (cs ds : List Char) :
    steps ⟨String.ofList (cs ++ '/' :: ds)⟩ = steps ⟨String.ofList cs⟩ ++ steps ⟨String.ofList ds⟩ :=
  steps_of_append_separator String.toList_ofList

theorem names_steps_intercalate (hsep : ∀ piece ∈ body, '/' ∉ piece) :
    names (steps ⟨String.ofList (['/'].intercalate body)⟩) =
      (body.filter Path.solid).map String.ofList := by
  by_cases hnil : body = []
  · subst hnil
    rfl
  · have hpieces : (Path.mk (String.ofList (['/'].intercalate body))).pieces = body := by
      rw [Path.pieces, String.toList_ofList, List.splitOn_intercalate '/' hsep hnil]
    have hdot : ∀ piece : List Char, decide (String.ofList piece = ".") = (piece == ['.']) := by
      intro piece
      have hiff : String.ofList piece = "." ↔ piece = ['.'] := by
        rw [← String.toList_inj, String.toList_ofList]
        rfl
      rw [decide_eq_decide.mpr hiff, beq_eq_decide]
    rw [steps, hpieces, names, List.filter_map, List.filter_filter]
    congr 1
    refine List.filter_congr fun piece _ => ?_
    simp [Path.solid, hdot, Bool.and_comm]

/-- The names of a path are its pieces that count. -/
theorem names_steps_of_leads (h : p.Leads start body) :
    names (steps p) = (body.filter Path.solid).map String.ofList := by
  have hp : p = ⟨String.ofList p.text.toList⟩ := by rw [String.ofList_toList]
  have hcut : ∀ front pieces, (∀ piece ∈ pieces, '/' ∉ piece) →
      names (steps ⟨String.ofList (front ++ '/' :: ['/'].intercalate pieces)⟩) =
        names (steps ⟨String.ofList front⟩) ++ (pieces.filter Path.solid).map String.ofList := by
    intro front pieces hsep
    rw [steps_ofList_separator, names_append,
      names_steps_intercalate hsep]
  rw [hp, h.text_eq]
  rcases h.start_cases with rfl | rfl | ⟨rfl, rfl | ⟨rest, rfl⟩⟩
  · exact names_steps_intercalate h.no_separator
  · exact hcut [] body h.no_separator
  · rfl
  · by_cases hnil : rest = []
    · subst hnil
      rfl
    · rw [List.intercalate_cons_of_ne_nil hnil]
      exact hcut ['.'] rest fun piece hpiece => h.no_separator piece (List.mem_cons_of_mem _ hpiece)

theorem intercalate_append {front back : List (List Char)} (hfront : front ≠ [])
    (hback : back ≠ []) : ['/'].intercalate (front ++ back) =
      ['/'].intercalate front ++ '/' :: ['/'].intercalate back := by
  induction front with
  | nil => exact absurd rfl hfront
  | cons x front ih =>
    by_cases hnil : front = []
    · subst hnil
      rw [List.singleton_append, List.intercalate_cons_of_ne_nil hback, List.intercalate_singleton]
      simp
    · rw [List.cons_append, List.intercalate_cons_of_ne_nil (by simp [hnil]), ih hnil,
        List.intercalate_cons_of_ne_nil hnil]
      simp

/-- A path whose pieces end with one that counts ends with a name. -/
theorem named_of_leads {front : List (List Char)} {last : List Char}
    (h : p.Leads start (front ++ [last])) (hlast : Path.solid last = true) : p.Named := by
  have hne : last ≠ [] := by
    rintro rfl
    cases hlast
  have hhere : String.ofList last ≠ "." := by
    intro heq
    have hdot : last = ['.'] := by simpa using congrArg String.toList heq
    subst hdot
    cases hlast
  have hsep := h.no_separator last (by simp)
  have hone : steps ⟨String.ofList last⟩ = [String.ofList last] := by
    simp [steps, Path.pieces, List.splitOn_eq_singleton hsep, hne]
  have hp : p = ⟨String.ofList p.text.toList⟩ := by rw [String.ofList_toList]
  have hcut : ∀ text, Path.Named ⟨String.ofList (text ++ '/' :: last)⟩ := by
    intro text
    refine ⟨steps ⟨String.ofList text⟩, String.ofList last, ?_, hhere⟩
    rw [steps_ofList_separator, hone]
  rw [hp, h.text_eq]
  by_cases hnil : front = []
  · subst hnil
    rw [List.nil_append, List.intercalate_singleton]
    rcases h.start_cases with rfl | rfl | ⟨rfl, hbody | ⟨rest, hbody⟩⟩
    · exact ⟨[], String.ofList last, hone, hhere⟩
    · exact hcut []
    · cases hbody
    · exact absurd (List.cons.inj hbody).1 hne
  · rw [intercalate_append hnil (by simp), List.intercalate_singleton, ← List.append_assoc]
    exact hcut _

structure Above (p q : Path) : Prop where
  names_eq : q.text = "" ∧ names (steps p) = [] ∨ ∃ s, names (steps p) = names (steps q) ++ [s]
  absolute : q.isAbsolute = p.isAbsolute
  begins : q.text.toList <+: p.text.toList
  shorter : q.text.length < p.text.length
  ends : names (steps q) = [] ∨ q.Named

/-- What is cut off behind a separator shortens the text. -/
theorem begins_of_leads {front back : List (List Char)} {x : List Char}
    (h : p.Leads start (front ++ back)) (hx : x ∈ back) (hsolid : Path.solid x = true) :
    start ++ ['/'].intercalate front <+: p.text.toList ∧
      (start ++ ['/'].intercalate front).length < p.text.toList.length := by
  have hback : back ≠ [] := List.ne_nil_of_mem hx
  rw [h.text_eq]
  by_cases hnil : front = []
  · subst hnil
    rw [List.nil_append, List.intercalate_nil, List.append_nil]
    refine ⟨List.prefix_append _ _, ?_⟩
    have hlong : (['/'].intercalate back) ≠ [] := by
      intro hempty
      have hback : ∀ piece ∈ back, '/' ∉ piece := fun piece hpiece =>
        h.no_separator piece (List.mem_append_right _ hpiece)
      have hnames := names_steps_intercalate hback
      rw [hempty] at hnames
      have hin := List.mem_map_of_mem (f := String.ofList) (List.mem_filter.mpr ⟨hx, hsolid⟩)
      rw [← hnames] at hin
      cases hin
    have := List.length_pos_iff.mpr hlong
    simp only [List.length_append]
    omega
  · rw [intercalate_append hnil hback, ← List.append_assoc]
    refine ⟨List.prefix_append _ _, ?_⟩
    simp only [List.length_append, List.length_cons]
    omega

theorem above_of_parent? (h : p.parent? = some q) : Above p q := by
  obtain ⟨hleads, hrelative⟩ := p.leads_lead
  unfold Path.parent? at h
  generalize p.lead = found at h hleads hrelative
  obtain ⟨start, body⟩ := found
  dsimp only at h hleads hrelative
  cases hdrop : Path.droppingBlank body.reverse with
  | nil =>
    rw [hdrop] at h
    dsimp only at h
    split_ifs at h with hdot
    cases h
    subst hdot
    have hsolid : body.filter Path.solid = [] := by
      obtain ⟨blanks, hbody, hblanks⟩ := Path.droppingBlank_split body.reverse
      rw [hdrop, List.append_nil] at hbody
      rw [← List.reverse_reverse body, hbody, List.filter_reverse, hblanks, List.reverse_nil]
    have htext := hleads.text_eq
    refine ⟨Or.inl ⟨rfl, ?_⟩, ?_, ?_, ?_, Or.inl rfl⟩
    · rw [names_steps_of_leads hleads, hsolid, List.map_nil]
    · rw [Path.isAbsolute, Path.isAbsolute, htext]
      rfl
    · exact List.nil_prefix
    · rw [← String.length_toList (s := p.text), htext]
      simp
  | cons x more =>
    rw [hdrop] at h
    dsimp only at h
    cases h
    obtain ⟨rest, hbody, hrest, hends⟩ := Path.pieces_of_droppingBlank hdrop
    generalize (Path.droppingBlank more).reverse = front at hbody hends
    subst hbody
    have hx : x ∈ rest ∧ Path.solid x = true := by
      have hin : x ∈ rest.filter Path.solid := by simp [hrest]
      exact List.mem_filter.mp hin
    obtain ⟨hbegins, hshorter⟩ := begins_of_leads hleads hx.1 hx.2
    have hq : (Path.mk (String.ofList (start ++ ['/'].intercalate front))).Leads start front := by
      refine ⟨String.toList_ofList, fun piece hpiece => hleads.no_separator piece
        (List.mem_append_left _ hpiece), ?_⟩
      refine hleads.start_cases.imp_right fun h => h.imp_right fun ⟨hdot, hhead⟩ => ⟨hdot, ?_⟩
      cases front with
      | nil => exact Or.inl rfl
      | cons y front =>
        rcases hhead with hhead | ⟨tail, hhead⟩
        · cases hhead
        · rw [List.cons_append, List.cons.injEq] at hhead
          exact Or.inr ⟨front, by rw [hhead.1]⟩
    refine ⟨Or.inr ⟨String.ofList x, ?_⟩, ?_, ?_, ?_, ?_⟩
    · rw [names_steps_of_leads hleads, names_steps_of_leads hq, List.filter_append, hrest,
        List.map_append]
      rfl
    · have habs : ∀ r : Path, r.isAbsolute = (r.text.toList.head? == some '/') := fun _ => rfl
      rcases hleads.start_cases with rfl | rfl | ⟨rfl, -⟩
      · rw [hrelative rfl, habs, String.toList_ofList]
        rw [List.nil_append] at hbegins ⊢
        have hp := hrelative rfl
        rw [habs] at hp
        obtain ⟨tail, htail⟩ := hbegins
        cases hhead : ['/'].intercalate front with
        | nil => rfl
        | cons c cs =>
          rw [hhead] at htail
          rw [← htail] at hp
          exact hp
      · rw [habs, habs, hleads.text_eq, String.toList_ofList]
        rfl
      · rw [habs, habs, hleads.text_eq, String.toList_ofList]
        rfl
    · rw [String.toList_ofList]
      exact hbegins
    · rw [← String.length_toList, ← String.length_toList, String.toList_ofList]
      exact hshorter
    · rcases List.eq_nil_or_concat front with rfl | ⟨before, last, rfl⟩
      · exact Or.inl (by rw [names_steps_of_leads hq]; rfl)
      · rw [List.concat_eq_append] at hq hends ⊢
        exact Or.inr (named_of_leads hq (hends before last rfl))

theorem names_of_parent?_eq_none (h : p.parent? = none) : names (steps p) = [] := by
  have hleads := p.leads_lead.1
  unfold Path.parent? at h
  generalize p.lead = found at h hleads
  obtain ⟨start, body⟩ := found
  dsimp only at h hleads
  cases hdrop : Path.droppingBlank body.reverse with
  | nil =>
    obtain ⟨blanks, hbody, hblanks⟩ := Path.droppingBlank_split body.reverse
    rw [hdrop, List.append_nil] at hbody
    rw [names_steps_of_leads hleads, ← List.reverse_reverse body, hbody, List.filter_reverse,
      hblanks]
    rfl
  | cons x more =>
    rw [hdrop] at h
    cases h

end FileTree

end CrudBackend
