import CrudBackend.Proofs.Files.Goal
import CrudBackend.Proofs.Output.Targets

/-!
What output does to a tree on paths of any kind, steps up included. Entries keep their kinds, and
only the file at the goal of a piece is written. A mark of another specification is read before it
could be written over, for the directory has been made a package by then and its path leads there.
-/

namespace CrudBackend

open FileTree Ownership

/-- Entries stay what they are, and files are as they were but for the one at the goal of the path. -/
structure FileTree.Grown (t t' : FileTree) (p : Path) : Prop where
  wellFormed : t'.WellFormed
  home : t'.home = t.home
  directory : ∀ k, t.get? k = some .directory → t'.get? k = some .directory
  file : ∀ k bytes, t.get? k = some (.file bytes) →
    ∃ bytes', t'.get? k = some (.file bytes') ∧ (k ≠ t.goal p → bytes' = bytes)

/-- The path leads to the directory and leaves room for the name of its mark. -/
structure FileTree.Reached (t : FileTree) (dir : Path) : Prop where
  accepted : (stampFile dir).Accepted
  leads : ∃ l, (steps dir).foldlM t.enter (t.start dir) = .ok l

variable {r s t t' : FileTree} {p dir : Path} {spec : RawPath} {text : String} {dryRun : Bool}
  {piece : Piece} {ps rest : List Piece} {made : List Path} {l : Location} {bytes : List UInt8}

namespace FileTree.Grown

theorem refl (hw : t.WellFormed) : t.Grown t p :=
  ⟨hw, rfl, fun _ h => h, fun _ bytes h => ⟨bytes, h, fun _ => rfl⟩⟩

theorem trans (h : r.Grown s p) (h' : s.Grown t p) : r.Grown t p := by
  refine ⟨h'.wellFormed, h'.home.trans h.home, fun k hk => h'.directory k (h.directory k hk), ?_⟩
  intro k bytes hk
  obtain ⟨bytes', hk', heq⟩ := h.file k bytes hk
  obtain ⟨bytes'', hk'', heq'⟩ := h'.file k bytes' hk'
  rw [goal_congr h.home] at heq'
  exact ⟨bytes'', hk'', fun hne => (heq' hne).trans (heq hne)⟩

theorem of_directoriesMade (h : t.DirectoriesMade t') : t.Grown t' p := by
  refine ⟨h.wellFormed, h.home, ?_, fun _ bytes hk => ⟨bytes, h.file_iff.mpr hk, fun _ => rfl⟩⟩
  intro k hk
  rcases h.get?_eq k with heq | ⟨hnone, -⟩
  · rw [heq, hk]
  · rw [hnone] at hk
    cases hk

theorem put_file (hw : (t.put (t.goal p) (.file bytes)).WellFormed)
    (hfree : t.get? (t.goal p) ≠ some .directory) :
    t.Grown (t.put (t.goal p) (.file bytes)) p := by
  refine ⟨hw, rfl, ?_, ?_⟩
  · intro k hk
    rw [get?_put]
    split_ifs with hroot hgoal
    · rfl
    · rw [hgoal] at hk
      exact absurd hk hfree
    · exact hk
  · intro k old hk
    rw [get?_put]
    split_ifs with hroot hgoal
    · rw [hroot] at hk
      cases hk
    · exact ⟨bytes, rfl, fun hne => absurd hgoal hne⟩
    · exact ⟨old, hk, fun _ => rfl⟩

end FileTree.Grown

/-! ### Directories that are reached -/

/-- Names are joined to a path behind the same text. -/
theorem Path.exists_join_eq (p : Path) :
    ∃ front : String, ∀ s, IsName s → p.join s = ⟨front ++ s⟩ := by
  by_cases hopen : p.text.toList.getLast?.any (· != '/') = true
  · refine ⟨p.text ++ "/", fun s hs => ?_⟩
    rw [join, if_neg (by simp [isAbsolute_of_isName hs]), if_pos hopen]
  · refine ⟨p.text, fun s hs => ?_⟩
    rw [join, if_neg (by simp [isAbsolute_of_isName hs]), if_neg hopen]

/-- The name of a mark is shorter than the file that makes a directory a package. -/
theorem Path.Accepted.stampFile (h : (Output.initFile dir).Accepted) :
    (stampFile dir).Accepted := by
  obtain ⟨front, hfront⟩ := dir.exists_join_eq
  have hinit : Output.initFile dir = ⟨front ++ "__init__.py"⟩ := hfront _ Generation.isName_initFile
  have hstamp : Ownership.stampFile dir = ⟨front ++ stampName⟩ := hfront _ Output.isName_stampName
  rw [hinit] at h
  rw [hstamp]
  obtain ⟨htext, hshort⟩ := h
  rw [textFault?_eq_none_iff] at htext
  refine ⟨textFault?_eq_none_iff.mpr ⟨?_, ?_⟩, ?_⟩
  · intro hempty
    have hchars := congrArg String.toList hempty
    rw [String.toList_append] at hchars
    exact absurd (List.append_eq_nil_iff.mp hchars).2 (by decide)
  · intro c hc
    rw [String.toList_append] at hc
    rcases List.mem_append.mp hc with hc | hc
    · exact htext.2 c (by rw [String.toList_append]; exact List.mem_append_left _ hc)
    · exact Output.isName_stampName.no_nul c hc
  · rw [String.utf8ByteSize_append] at hshort ⊢
    have hinitSize : "__init__.py".utf8ByteSize = 11 := by decide
    have hstampSize : stampName.utf8ByteSize = 8 := by decide
    omega

namespace FileTree.Reached

theorem grown (h : t.Reached dir) (hg : t.Grown t' p) : t'.Reached dir := by
  obtain ⟨l, hl⟩ := h.leads
  refine ⟨h.accepted, l, ?_⟩
  rw [start, hg.home, ← start]
  exact foldlM_enter_mono hg.directory hl

/-- Whoever looks a name up in a directory has been there. -/
theorem of_approach_join {n : String} {x : Option String} (hn : IsName n)
    (hstamp : (stampFile dir).Accepted) (h : t.approach (dir.join n) = .ok (l, x)) :
    t.Reached dir := by
  have hstart : t.start (dir.join n) = t.start dir := by
    rw [start, start, isAbsolute_join (isAbsolute_of_isName hn)]
  obtain ⟨-, hfold⟩ := (approach_eq_ok_iff (accepted_of_approach h) (steps_join_name hn)).mp h
  exact ⟨hstamp, l, hstart ▸ hfold⟩

theorem of_approach {x : Option String}
    (h : t.approach (Output.initFile dir) = .ok (l, x)) : t.Reached dir :=
  of_approach_join Generation.isName_initFile (accepted_of_approach h).stampFile h

theorem of_approach_stampFile {x : Option String}
    (h : t.approach (stampFile dir) = .ok (l, x)) : t.Reached dir :=
  of_approach_join Output.isName_stampName (accepted_of_approach h) h

theorem of_pathExists (h : t.pathExists (Output.initFile dir) = true) : t.Reached dir := by
  cases happ : t.approach (Output.initFile dir) with
  | error fault =>
    rw [pathExists, find, happ] at h
    cases h
  | ok found => exact of_approach happ

/-- The mark of a directory that is reached is looked up in it. -/
theorem approach_stampFile (h : t.Reached dir) :
    t.approach (stampFile dir) = .ok (t.goal dir, some stampName) := by
  obtain ⟨l, hl⟩ := h.leads
  have hname := Output.isName_stampName
  have hstart : t.start (stampFile dir) = t.start dir := by
    rw [start, start, stampFile, isAbsolute_join (isAbsolute_of_isName hname)]
  have hgoal : l = t.goal dir := foldlM_enter_eq_goal hl
  have hs : steps (stampFile dir) = steps dir ++ [stampName] := steps_join_name hname
  refine (approach_eq_ok_iff h.accepted hs).mpr ⟨rfl, ?_⟩
  rw [hstart, hl, hgoal]

theorem find_stampFile (h : t.Reached dir)
    (hget : t.get? (t.goal dir ++ [stampName]) = some (.file bytes)) :
    t.find (stampFile dir) = .ok (t.goal dir ++ [stampName], .file bytes) := by
  have hname := Output.isName_stampName
  have hchild : t.child (t.goal dir) stampName = .ok (t.goal dir ++ [stampName], .file bytes) :=
    child_eq_ok_iff.mpr ⟨hname.short, rfl, hget⟩
  have hclosed : endsOpen (stampFile dir) = false := endsOpen_join_name hname
  rw [find, h.approach_stampFile]
  simp only [if_neg hname.not_here, if_neg hname.not_up, hchild, hclosed, Bool.false_eq_true,
    if_false]

/-- The mark of a directory that is reached is read. -/
theorem originOfDirectory?_eq (h : t.Reached dir)
    (hget : t.get? (t.goal dir ++ [stampName]) = some (.file bytes)) :
    originOfDirectory? t dir = originInBytes? bytes := by
  have hread : t.readBytes (stampFile dir) = .ok bytes := by
    rw [readBytes, h.find_stampFile hget]
  unfold originOfDirectory? readText originInBytes?
  rw [hread]
  dsimp only
  cases Text.decode? bytes <;> rfl

end FileTree.Reached

/-! ### One piece -/

namespace Output

theorem grown_put (hw : t.WellFormed) : t.Grown ((put dryRun p text).after t) p := by
  obtain ⟨s, hmade, hafter | hwrite⟩ := after_put hw dryRun p text
  · exact hafter ▸ .of_directoriesMade hmade
  · have hw' := hmade.wellFormed.writeBytes hwrite
    obtain ⟨-, hfree, hput⟩ := writeBytes_eq_put hwrite
    rw [hput] at hw' ⊢
    exact (FileTree.Grown.of_directoriesMade hmade).trans (.put_file hw' hfree)

theorem grown_perform (hw : t.WellFormed) (piece : Piece) :
    t.Grown ((perform dryRun piece).after t) piece.target := by
  rw [after_perform]
  split_ifs
  · exact grown_put hw
  · exact .refl hw

/-- A directory has been reached in which a file has been put. -/
theorem reached_of_put {n : String} (hw : t.WellFormed) (hn : IsName n)
    (hstamp : (dir.join n).Accepted → (stampFile dir).Accepted)
    (h : put false (dir.join n) text t = .ok () t') : t'.WellFormed ∧ t'.Reached dir ∧
      t'.get? (t'.goal dir ++ [n]) = some (.file (Text.encode text)) := by
  obtain ⟨s, -, hmade, hwrite⟩ := writeBytes_of_put hw h
  have hw' := hmade.wellFormed.writeBytes hwrite
  obtain ⟨⟨d, last, happ⟩, hfree, rfl⟩ := writeBytes_eq_put hwrite
  have hgoal : s.goal (dir.join n) = s.goal dir ++ [n] := goal_join_name hn
  have hreached : s.Reached dir := .of_approach_join hn (hstamp (accepted_of_approach happ)) happ
  refine ⟨hw', hreached.grown (.put_file hw' hfree), ?_⟩
  rw [goal_congr (put_home s _ _), hgoal, get?_put, if_neg (by simp), if_pos rfl]

/-- The directory of a package that has been brought out is reached. -/
theorem reached_of_package (hw : t.WellFormed) {outcome : Option Outcome}
    (h : perform false (.package dir) t = .ok outcome t') : t'.Reached dir := by
  obtain ⟨-, ⟨-, hput⟩ | ⟨hkeep, rfl⟩⟩ := perform_eq_ok h
  · exact (reached_of_put hw Generation.isName_initFile .stampFile hput).2.1
  · exact .of_pathExists (not_not.mp hkeep)

end Output

/-! ### The order of pieces -/

def Prepared : List Path → List Piece → Prop
  | _, [] => True
  | made, .package dir :: rest => Prepared (dir :: made) rest
  | made, .mark dir _ :: rest => dir ∈ made ∧ Prepared made rest
  | made, _ :: rest => Prepared made rest

namespace Prepared

theorem append (h : Prepared made ps) (hrest : ∀ made, Prepared made rest) :
    Prepared made (ps ++ rest) := by
  induction ps generalizing made with
  | nil => exact hrest made
  | cons piece ps ih =>
    cases piece with
    | generated p text => exact ih h
    | draft p text => exact ih h
    | package dir => exact @ih (dir :: made) h
    | mark dir spec => exact ⟨h.1, ih h.2⟩

theorem take (h : Prepared made ps) (n : Nat) : Prepared made (ps.take n) := by
  induction ps generalizing made n with
  | nil => rw [List.take_nil]; trivial
  | cons piece ps ih =>
    cases n with
    | zero => trivial
    | succ n =>
      cases piece with
      | generated p text => exact ih h n
      | draft p text => exact ih h n
      | package dir => exact @ih (dir :: made) h n
      | mark dir spec => exact ⟨h.1, ih h.2 n⟩

theorem of_no_mark (h : ∀ dir spec, .mark dir spec ∉ ps) (made : List Path) :
    Prepared made ps := by
  induction ps generalizing made with
  | nil => trivial
  | cons piece ps ih =>
    have hrest := ih fun dir spec hin => h dir spec (List.mem_cons_of_mem _ hin)
    cases piece with
    | generated p text => exact hrest made
    | draft p text => exact hrest made
    | package dir => exact hrest (dir :: made)
    | mark dir spec => exact absurd (List.mem_cons_self ..) (h dir spec)

end Prepared

namespace Generation

theorem prepared_directoryPieces (marked : List (List Path.Component)) (dirs made : List Path) :
    Prepared made (directoryPieces spec marked dirs).1 := by
  induction dirs generalizing marked made with
  | nil => trivial
  | cons dir rest ih =>
    rw [directoryPieces]
    split_ifs
    · exact ih marked (dir :: made)
    · exact ⟨List.mem_cons_self .., ih (dir.components :: marked) (dir :: made)⟩

theorem prepared_entityPieces {c : Config} {l : Layout} {i : Imports}
    (marked : List (List Path.Component)) (entities : List Entity) (made : List Path) :
    Prepared made (entityPieces c l i spec marked entities) := by
  induction entities generalizing marked made with
  | nil => trivial
  | cons e rest ih =>
    change Prepared made ((directoryPieces spec marked (l.moduleDirs e)).1 ++ filePieces c l i e ++
      entityPieces c l i spec (directoryPieces spec marked (l.moduleDirs e)).2 rest)
    rw [List.append_assoc]
    refine (prepared_directoryPieces marked _ made).append fun made => ?_
    refine Prepared.append (.of_no_mark ?_ made) fun made => ih _ made
    intro dir spec hin
    simp only [filePieces, List.mem_append, List.mem_cons, reduceCtorEq, List.not_mem_nil,
      or_false, false_or] at hin
    split_ifs at hin
    · simp at hin
    · cases hin

theorem prepared_pieces (s : Spec) (c : Config) (l : Layout) (i : Imports) (spec : RawPath)
    (made : List Path) : Prepared made (pieces s c l i spec) := by
  rw [pieces, List.append_assoc, List.append_assoc]
  refine Prepared.append (.of_no_mark (by simp) made) fun made => ?_
  refine Prepared.append (.of_no_mark (by simp [sharedPieces]) made) fun made => ?_
  exact (prepared_entityPieces [] _ made).append fun made => .of_no_mark (by simp) made

/-! ### Many pieces -/

/-- The last name at the goal of a target ends like the target. -/
theorem Goes.getLast?_goal {s : Spec} {c : Config} {l : Layout} {i : Imports} {way : List String}
    (h : Goes s c l i spec dir way piece) (t : FileTree) :
    ∃ n, (t.goal piece.target).getLast? = some n ∧ piece.ending.toList <:+ n.toList := by
  obtain ⟨cs, hcs⟩ := h.suffix_target
  obtain ⟨hsep, hne, -⟩ := ending_cases piece
  obtain ⟨before, last, hs, hsuffix⟩ := suffix_of_steps hcs hsep hne
  have hdots : last ≠ "." ∧ last ≠ ".." := by
    constructor
    · rintro rfl
      revert hsuffix
      cases piece <;> simp only [Piece.ending] <;> decide
    · rintro rfl
      revert hsuffix
      cases piece <;> simp only [Piece.ending] <;> decide
  refine ⟨last, ?_, hsuffix⟩
  rw [goal_of_steps hs, follow_name hdots.1 hdots.2, List.getLast?_concat]

/-- A mark of another specification stays as it is. -/
theorem mark_stays {s : Spec} {c : Config} {l : Layout} {i : Imports} {way : List String}
    {k : Location} {owner : String} (hw : t.WellFormed) (hg : Goes s c l i spec dir way piece)
    (hreached : ∀ d spec', piece = .mark d spec' → t.Reached d)
    (hget : t.get? (k ++ [stampName]) = some (.file bytes))
    (howner : originInBytes? bytes = some owner) (hforeign : owner ≠ originOf spec) :
    ((Output.perform dryRun piece).after t).get? (k ++ [stampName]) = some (.file bytes) := by
  rw [Output.after_perform]
  split_ifs with hacts
  · have hgrown : t.Grown ((Output.put dryRun piece.target piece.text).after t) piece.target :=
      Output.grown_put hw
    obtain ⟨bytes', hget', hsame⟩ := hgrown.file _ _ hget
    rw [hget', hsame]
    intro hgoal
    obtain ⟨n, hn, hsuffix⟩ := hg.getLast?_goal t
    rw [← hgoal, List.getLast?_concat] at hn
    cases hn
    have hmark : piece.ending ≠ ".py" := by
      intro hpy
      rw [hpy] at hsuffix
      revert hsuffix
      decide
    cases hg with
    | mark hr he =>
      rw [Piece.target, stampFile, goal_join_name Output.isName_stampName] at hgoal
      rw [(List.append_inj' hgoal rfl).1] at hget
      have horigin := (hreached _ _ rfl).originOfDirectory?_eq hget
      exact hforeign (hacts owner (horigin.trans howner))
    | package hd => exact hmark rfl
    | shared hs => exact hmark rfl
    | modulePackage hr he => exact hmark rfl
    | file he hf => exact hmark rfl
    | draft he hx => exact hmark rfl
  · exact hget

/-- However far pieces get, they leave files where files were, and a mark of another specification
as it was. -/
theorem stays_after_pieces {s : Spec} {c : Config} {l : Layout} {i : Imports} {k : Location}
    {owner : String} (hw : t.WellFormed)
    (hps : ∀ piece ∈ ps, ∃ dir way, Goes s c l i spec dir way piece) (hprep : Prepared made ps)
    (hmade : ∀ d ∈ made, t.Reached d) (hget : t.get? (k ++ [stampName]) = some (.file bytes))
    (howner : originInBytes? bytes = some owner) (hforeign : owner ≠ originOf spec)
    (h : (Disk.inTurn (ps.map fun piece => Disk.quiet (Output.perform false piece))).after t = t') :
    t'.get? (k ++ [stampName]) = some (.file bytes) ∧
      ∀ k' old, t.get? k' = some (.file old) → ∃ new, t'.get? k' = some (.file new) := by
  induction ps generalizing t made with
  | nil =>
    rw [List.map_nil, Disk.inTurn] at h
    cases h
    exact ⟨hget, fun _ old hold => ⟨old, hold⟩⟩
  | cons piece rest ih =>
    obtain ⟨dir, way, hg⟩ := hps piece (List.mem_cons_self ..)
    have hgrown : t.Grown ((Output.perform false piece).after t) piece.target :=
      Output.grown_perform hw piece
    have hreached : ∀ d spec', piece = .mark d spec' → t.Reached d := by
      rintro d spec' rfl
      exact hmade d hprep.1
    have hmark : ((Output.perform false piece).after t).get? (k ++ [stampName]) =
        some (.file bytes) := mark_stays hw hg hreached hget howner hforeign
    have hfiles : ∀ k' old, t.get? k' = some (.file old) →
        ∃ new, ((Output.perform false piece).after t).get? k' = some (.file new) := by
      intro k' old hold
      obtain ⟨new, hnew, -⟩ := hgrown.file k' old hold
      exact ⟨new, hnew⟩
    rw [List.map_cons, Disk.inTurn] at h
    rcases Disk.after_bind (Disk.quiet (Output.perform false piece))
      (Disk.inTurn (rest.map fun piece => Disk.quiet (Output.perform false piece))) t with
      heq | ⟨hok, heq⟩
    · rw [heq, Disk.after_quiet] at h
      subst h
      exact ⟨hmark, hfiles⟩
    · rw [heq, Disk.after_quiet] at h
      rw [Disk.after_quiet] at hok
      have hmade' : ∀ d ∈ made, ((Output.perform false piece).after t).Reached d := fun d hd =>
        (hmade d hd).grown hgrown
      obtain ⟨made', hprep', hreached'⟩ : ∃ made', Prepared made' rest ∧
          ∀ d ∈ made', ((Output.perform false piece).after t).Reached d := by
        cases piece with
        | generated p text => exact ⟨made, hprep, hmade'⟩
        | draft p text => exact ⟨made, hprep, hmade'⟩
        | mark d spec' => exact ⟨made, hprep.2, hmade'⟩
        | package d =>
          refine ⟨d :: made, hprep, ?_⟩
          intro d' hd'
          rcases List.mem_cons.mp hd' with rfl | hd'
          · obtain ⟨outcome, s', hrun, -⟩ := Disk.bind_eq_ok hok
            rw [Disk.after_ok hrun]
            exact Output.reached_of_package hw hrun
          · exact hmade' d' hd'
      obtain ⟨hmark', hfiles'⟩ := ih hgrown.wellFormed
        (fun q hq => hps q (List.mem_cons_of_mem _ hq)) hprep' hreached' hmark h
      refine ⟨hmark', fun k' old hold => ?_⟩
      obtain ⟨new, hnew⟩ := hfiles k' old hold
      exact hfiles' k' new hnew

end Generation

end CrudBackend
