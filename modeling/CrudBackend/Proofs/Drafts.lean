import CrudBackend.Proofs.Sparing

/-!
Drafts are hand-written from the start. The draft of a service extension is not marked and its file is
not named like a mark, so once written it is spared like a file that a person wrote.
-/

namespace CrudBackend

open FileTree Ownership

/-! ### The place of a draft -/

/-- The last segment of a path keeps an ending of the text in which there is no separator. -/
theorem FileTree.suffix_of_steps {p : Path} {cs ds : List Char} (hp : p.text.toList = cs ++ ds)
    (hsep : '/' ∉ ds) (hne : ds ≠ []) :
    ∃ before last, steps p = before ++ [last] ∧ ds <:+ last.toList := by
  by_cases hcs : '/' ∈ cs
  · obtain ⟨before, rest, rfl⟩ := List.append_of_mem hcs
    rw [List.append_assoc, List.cons_append] at hp
    have hlen : rest.length < (before ++ '/' :: rest).length := by
      rw [List.length_append, List.length_cons]
      omega
    obtain ⟨front, last, hs, hsuffix⟩ :=
      suffix_of_steps (p := ⟨String.ofList (rest ++ ds)⟩) String.toList_ofList hsep hne
    refine ⟨steps ⟨String.ofList before⟩ ++ front, last, ?_, hsuffix⟩
    rw [steps_of_append_separator hp, hs, List.append_assoc]
  · refine ⟨[], String.ofList (cs ++ ds), ?_, ?_⟩
    · have hall : '/' ∉ cs ++ ds := by simp [hcs, hsep]
      simp [steps, Path.pieces, hp, List.splitOn_eq_singleton hall, hne]
    · rw [String.toList_ofList]
      exact List.suffix_append cs ds
termination_by cs.length

/-- The file of a draft is not named like a mark. -/
theorem Layout.getLast?_place_serviceImpl (t : FileTree) (l : Layout) (e : Entity) :
    (t.place (l.entityFiles e).serviceImpl).getLast? ≠ some stampName := by
  obtain ⟨cs, hcs⟩ := suffix_join (l.servicesDir.join e.moduleName) (e.fileStem ++ "_service_impl.py")
  rw [String.toList_append, ← List.append_assoc] at hcs
  obtain ⟨before, last, hs, hsuffix⟩ := suffix_of_steps hcs (by decide) (by decide)
  have hhere : last ≠ "." := by
    rintro rfl
    revert hsuffix
    decide
  have hstamp : last ≠ stampName := by
    rintro rfl
    revert hsuffix
    decide
  change (t.place ((l.servicesDir.join e.moduleName).join _)).getLast? ≠ _
  rw [place, hs, names_append, names_cons hhere, names_nil, ← List.append_assoc,
    List.getLast?_concat]
  simpa using hstamp

/-! ### Writing a draft -/

namespace Output

variable {t t' : FileTree} {p : Path} {text : String} {piece : Piece} {pieces : List Piece}
  {outcome : Option Outcome} {outcomes : List Outcome}

theorem get?_of_put (hw : t.WellFormed) (hp : p.Straight) (h : put false p text t = .ok () t') :
    t'.get? (t'.place p) = some (.file (Text.encode text)) := by
  obtain ⟨s, -, hmade, hwrite⟩ := writeBytes_of_put hw h
  obtain ⟨dir, name, haim, -, -, -, rfl⟩ := writeBytes_eq_ok hmade.wellFormed hwrite
  rw [place_congr (put_home s _ _), haim.place_eq hp, get?_put, if_neg (by simp), if_pos rfl]

/-- What a run lists as drafted holds its draft when the run ends. -/
theorem handWritten_of_drafted (hw : t.WellFormed) (hpieces : ∀ piece ∈ pieces, piece.target.Straight)
    (h : performAll false pieces t = .ok outcomes t') (hmem : .drafted p ∈ outcomes) :
    ∃ text, .draft p text ∈ pieces ∧
      (isMarked (Text.encode text) = false → (t'.place p).getLast? ≠ some stampName →
        t'.HandWritten (t'.place p) (Text.encode text)) := by
  induction pieces generalizing t outcomes with
  | nil =>
    cases h
    cases hmem
  | cons piece rest ih =>
    obtain ⟨outcome, s, hfirst, hrest⟩ := Disk.bind_eq_ok h
    obtain ⟨more, s', hmore, hlast⟩ := Disk.bind_eq_ok hrest
    cases hlast
    have htarget := hpieces piece (List.mem_cons_self ..)
    have hrestStraight : ∀ q ∈ rest, q.target.Straight := fun q hq =>
      hpieces q (List.mem_cons_of_mem _ hq)
    have hfirstSpares : t.Spares s := Disk.after_ok hfirst ▸ spares_perform hw piece htarget
    have hrestSpares : s.Spares t' :=
      Disk.after_ok hmore ▸ spares_performAll hfirstSpares.wellFormed rest hrestStraight
    rcases List.mem_append.mp hmem with hhere | hthere
    · obtain ⟨text, rfl, hput⟩ := put_of_drafted (p := p) (by rw [hfirst, Option.mem_toList.mp hhere])
      refine ⟨text, List.mem_cons_self .., ?_⟩
      intro hunmarked hstamp
      have hget := get?_of_put hw htarget hput
      rw [place_congr hrestSpares.home] at hstamp ⊢
      exact hrestSpares.handWritten ⟨hget, hunmarked, hstamp⟩
    · obtain ⟨text, hin, hhand⟩ := ih hfirstSpares.wellFormed hrestStraight hmore hthere
      exact ⟨text, List.mem_cons_of_mem _ hin, hhand⟩

end Output

end CrudBackend
