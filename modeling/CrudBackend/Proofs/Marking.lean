import CrudBackend.Proofs.Cleaning.Plan
import CrudBackend.Proofs.FirstRun
import CrudBackend.Proofs.Output.Fate
import CrudBackend.Proofs.Output.Growth
import Mathlib.Data.List.DropRight

/-!
Who a marked directory belongs to. A mark is written as a line of text and read back without the
blanks at the ends of its first line, so an origin that is one line without such blanks is read as
it was written. From then on a specification treats the directory as its own if and only if its
origin is the same. Paths that are texts without backslashes have the same origin only if they are
the same; other paths can share one.
-/

namespace CrudBackend

open FileTree Ownership

/-! ### The text of a mark -/

namespace Text

structure IsLine (s : String) : Prop where
  no_break : '\n' ∉ s.toList
  trim_eq : trim s = s

instance (s : String) : Decidable (IsLine s) :=
  decidable_of_iff ('\n' ∉ s.toList ∧ trim s = s) ⟨fun ⟨h1, h2⟩ => ⟨h1, h2⟩, fun ⟨h1, h2⟩ => ⟨h1, h2⟩⟩

variable {c : Char} {cs : List Char}

/-- Nothing is trimmed from the front but blanks. -/
theorem trimmed_blank_cons (hc : isBlank c = true) (cs : List Char) :
    trimmed (c :: cs) = trimmed cs := by
  rw [trimmed, trimmed, List.dropWhile_cons_of_pos hc]

theorem trimmed_solid_cons (hc : isBlank c = false) (cs : List Char) :
    trimmed (c :: cs) = c :: withoutTrailingBlanks cs := by
  rw [trimmed, List.dropWhile_cons_of_neg (by simp [hc]), withoutTrailingBlanks_cons hc]

theorem withoutTrailingBlanks_blank_cons (hc : isBlank c = true) (cs : List Char) :
    withoutTrailingBlanks (c :: cs) =
      if withoutTrailingBlanks cs = [] then [] else c :: withoutTrailingBlanks cs := by
  unfold withoutTrailingBlanks
  rw [List.reverse_cons, List.dropWhile_append]
  by_cases hnil : cs.reverse.dropWhile isBlank = []
  · simp [hnil, hc]
  · rw [if_neg (by simpa using hnil), if_neg (by simpa using hnil), List.reverse_append]
    rfl

/-- It does not matter whether the end has been trimmed before. -/
theorem trimmed_withoutTrailingBlanks (cs : List Char) :
    trimmed (withoutTrailingBlanks cs) = trimmed cs := by
  induction cs with
  | nil => rfl
  | cons c cs ih =>
    cases hc : isBlank c with
    | false =>
      rw [withoutTrailingBlanks_cons hc, trimmed_solid_cons hc, trimmed_solid_cons hc]
      exact congrArg (c :: ·) (List.rdropWhile_idempotent _ _)
    | true =>
      rw [withoutTrailingBlanks_blank_cons hc, trimmed_blank_cons hc, ← ih]
      split_ifs with hnil
      · rw [hnil]
      · exact trimmed_blank_cons hc _

theorem isLine_iff_trimmed {s : String} :
    IsLine s ↔ '\n' ∉ s.toList ∧ trimmed s.toList = s.toList := by
  have htrim : trim s = s ↔ trimmed s.toList = s.toList := by
    rw [trim, ← String.toList_inj, String.toList_ofList]
  exact ⟨fun h => ⟨h.no_break, htrim.mp h.trim_eq⟩, fun h => ⟨h.1, htrim.mpr h.2⟩⟩

theorem mem_of_mem_trimmed (h : c ∈ trimmed cs) : c ∈ cs :=
  (List.dropWhile_suffix _).mem ((List.rdropWhile_prefix _ _).mem h)

end Text

open Text

namespace Ownership

variable {spec : RawPath}

theorem takeWhile_append_break (cs : List Char) :
    (cs ++ ['\n']).takeWhile (· != '\n') = cs.takeWhile (· != '\n') := by
  induction cs with
  | nil => rfl
  | cons c cs ih => rw [List.cons_append, List.takeWhile_cons, List.takeWhile_cons, ih]

/-- A mark is read back as the first line of the origin, without the blanks at its ends. -/
theorem originInText?_stampText (spec : RawPath) : originInText? (stampText spec) =
    some (String.ofList (trimmed ((originOf spec).toList.takeWhile (· != '\n')))) := by
  have htext : (stampText spec).toList =
      stampLead.toList ++ ' ' :: ((originOf spec).toList ++ ['\n']) := by
    rw [stampText]
    simp only [String.toList_append, List.append_assoc]
    rfl
  have hne : stampText spec ≠ "" := by
    intro hempty
    rw [hempty] at htext
    exact absurd htext.symm (by simp)
  have hlead : stampLead.toList = 'g' :: ("enerated from".toList ++ [':']) := by decide
  have hbreak : ∀ c ∈ stampLead.toList, (c != '\n') = true := List.all_eq_true.mp (by decide)
  -- the introduction begins and ends with a letter that is not trimmed
  have hline : trimmed ((stampText spec).toList.takeWhile (· != '\n')) =
      stampLead.toList ++
        withoutTrailingBlanks (' ' :: (originOf spec).toList.takeWhile (· != '\n')) := by
    rw [htext, List.takeWhile_append_of_pos hbreak, List.takeWhile_cons_of_pos (by decide),
      takeWhile_append_break, hlead, List.cons_append, trimmed_solid_cons (by decide),
      List.append_assoc, List.singleton_append, withoutTrailingBlanks_append (by decide)]
    simp
  rw [originInText?, if_neg hne]
  dsimp only
  rw [hline, if_pos (List.isPrefixOf_iff_prefix.mpr (List.prefix_append _ _)), List.drop_left,
    trimmed_withoutTrailingBlanks, trimmed_blank_cons (by decide)]

/-- It is read back as the origin itself if and only if this is one line without such blanks. -/
theorem originInText?_stampText_iff :
    originInText? (stampText spec) = some (originOf spec) ↔ IsLine (originOf spec) := by
  rw [originInText?_stampText, Option.some_inj, ← String.toList_inj, String.toList_ofList,
    isLine_iff_trimmed]
  have htake : '\n' ∉ (originOf spec).toList →
      (originOf spec).toList.takeWhile (· != '\n') = (originOf spec).toList := fun hbreak =>
    List.takeWhile_eq_self_iff.mpr fun c hc => bne_iff_ne.mpr fun h => hbreak (h ▸ hc)
  constructor
  · intro h
    have hbreak : '\n' ∉ (originOf spec).toList := by
      intro hmem
      rw [← h] at hmem
      exact absurd (List.mem_takeWhile_imp (mem_of_mem_trimmed hmem)) (by decide)
    rw [htake hbreak] at h
    exact ⟨hbreak, h⟩
  · rintro ⟨hbreak, htrim⟩
    rw [htake hbreak, htrim]

/-- A text without backslashes is the origin of the path that it spells. -/
theorem originOf_ofText {s : String} (h : '\\' ∉ s.toList) : originOf (.ofText s) = s := by
  rw [originOf, RawPath.ofText, decodeLossy_encode, ← String.toList_inj, String.toList_ofList]
  refine (List.map_congr_left fun c hc => if_neg ?_).trans (List.map_id _)
  simpa using fun heq : c = '\\' => h (heq ▸ hc)

end Ownership

variable {t t' : FileTree} {dir : Path} {p q : RawPath} {l : Layout} {text owner : String}
  {old : List UInt8} {outcome : Option Outcome}

/-! ### The file of a mark -/

namespace FileTree

namespace Reached

/-- The directory of the mark is there already. -/
theorem makeParent (h : t.Reached dir) : Output.makeParent (stampFile dir) t = .ok () t := by
  unfold Output.makeParent
  cases hparent : (stampFile dir).parent? with
  | none => rfl
  | some above =>
    have habove := above_of_parent? hparent
    dsimp only
    rcases habove.accepted h.accepted with hempty | ha
    · -- the empty path is not found, and nothing is made of it
      have hmade : t.makeDirectories above = (t, none) := by
        rw [makeDirectories, Path.ancestors, Path.ancestorsWithin]
        split <;> rw [makeAll, if_pos hempty]
      rw [hmade]
      exact ite_self _
    · have hname := Output.isName_stampName
      have hsteps : names (steps (stampFile dir)) = names (steps dir) ++ [stampName] := by
        rw [stampFile, steps_join_name hname, names_append, names_cons hname.not_here, names_nil]
      have hsame : names (steps above) = names (steps dir) := by
        rcases habove.names_eq with ⟨hempty, -⟩ | ⟨s, hs⟩
        · exact absurd hempty (textFault?_eq_none_iff.mp ha.text_ok).1
        · rw [hsteps] at hs
          exact (List.append_inj' hs rfl).1.symm
      have hstart : t.start above = t.start dir := by
        rw [habove.start_eq, start, start, stampFile,
          isAbsolute_join (isAbsolute_of_isName hname)]
      obtain ⟨k, hk⟩ := h.leads
      have hfind : t.find above = .ok (k, .directory) := by
        refine find_of_leads ha ?_
        rw [← foldlM_enter_names, hsame, foldlM_enter_names, hstart, hk]
      rw [if_pos (by rw [pathExists, hfind]; rfl)]

/-- A mark is put over the mark that stands there. -/
theorem put_over (h : t.Reached dir)
    (hget : t.get? (t.goal dir ++ [stampName]) = some (.file old)) :
    Output.put false (stampFile dir) text t =
      .ok () (t.put (t.goal dir ++ [stampName]) (.file (Text.encode text))) := by
  have hname := Output.isName_stampName
  have hchild : t.child (t.goal dir) stampName = .ok (t.goal dir ++ [stampName], .file old) :=
    child_eq_ok_iff.mpr ⟨hname.short, rfl, hget⟩
  have hplain : ¬ (stampName = "." ∨ stampName = ".." ∨ endsOpen (stampFile dir) = true) := by
    rw [stampFile, endsOpen_join_name hname]
    decide
  have hwrite : t.writeBytes (stampFile dir) (Text.encode text) =
      .ok (t.put (t.goal dir ++ [stampName]) (.file (Text.encode text))) := by
    rw [writeBytes, h.approach_stampFile]
    dsimp only
    rw [if_neg hplain, hchild]
  refine (Disk.bind_ok h.makeParent).trans ?_
  rw [hwrite]

end Reached

end FileTree

/-- A mark that is read stands in a directory that has been reached. -/
theorem Ownership.reached_of_origin (howner : originOfDirectory? t dir = some owner) :
    t.Reached dir ∧ ∃ bytes, t.get? (t.goal dir ++ [stampName]) = some (.file bytes) ∧
      originInBytes? bytes = some owner := by
  unfold originOfDirectory? readText readBytes at howner
  cases hfind : t.find (stampFile dir) with
  | error fault =>
    rw [hfind] at howner
    cases howner
  | ok found =>
    obtain ⟨k, e⟩ := found
    rw [hfind] at howner
    cases e with
    | directory => cases howner
    | file bytes =>
      obtain ⟨rfl, hget⟩ := eq_goal_of_find hfind
      have hgoal : t.goal (stampFile dir) = t.goal dir ++ [stampName] :=
        goal_join_name Output.isName_stampName
      have hreached : t.Reached dir := by
        cases happ : t.approach (stampFile dir) with
        | error fault =>
          rw [find, happ] at hfind
          cases hfind
        | ok found => exact .of_approach_stampFile happ
      refine ⟨hreached, bytes, hgoal ▸ hget.resolve_right (by simp), ?_⟩
      rw [originInBytes?]
      dsimp only at howner
      cases hdecode : Text.decode? bytes with
      | none =>
        rw [hdecode] at howner
        cases howner
      | some s =>
        rw [hdecode] at howner
        exact howner

/-! ### Whose directory it is -/

namespace Cleaning

variable {plan : CleanPlan} {origin : String} {d : Path}

theorem modulePlan_of_foreign (howner : originOfDirectory? t dir = some owner)
    (hne : owner ≠ origin) : modulePlan t origin dir = ⟨[], [], [dir]⟩ := by
  unfold modulePlan
  rw [howner]
  exact if_neg hne

theorem mem_foreign_modulePlan : d ∈ (modulePlan t origin dir).foreign ↔
    d = dir ∧ ∃ owner, originOfDirectory? t dir = some owner ∧ owner ≠ origin := by
  unfold modulePlan
  cases originOfDirectory? t dir with
  | none => simp [CleanPlan.empty]
  | some owner =>
    dsimp only
    split_ifs with hown
    · subst hown
      cases t.find dir <;> simp [ownedPlan, CleanPlan.empty]
    · simp [hown]

/-- The directories that a plan lists as foreign carry the mark of another origin. -/
theorem mem_foreign_plan (hplan : Cleaning.plan t l q = .ok plan) : dir ∈ plan.foreign ↔
    Listed t l.moduleRoots dir ∧
      ∃ owner, originOfDirectory? t dir = some owner ∧ owner ≠ originOf q := by
  obtain ⟨more, hroots, rfl⟩ := plan_eq_ok_iff.mp hplan
  obtain ⟨listed, hlisted, -, -, hforeign⟩ := rootsPlan_eq_ok hroots
  rw [append_foreign, hforeign, List.nil_append, List.mem_flatMap]
  constructor
  · rintro ⟨part, hpart, hmem⟩
    obtain ⟨d, hd, rfl⟩ := List.mem_map.mp hpart
    obtain ⟨rfl, howner⟩ := mem_foreign_modulePlan.mp hmem
    exact ⟨(hlisted dir).mp hd, howner⟩
  · rintro ⟨hdir, howner⟩
    exact ⟨_, List.mem_map_of_mem ((hlisted dir).mpr hdir), mem_foreign_modulePlan.mpr ⟨rfl, howner⟩⟩

/-- Of a directory that is owned, at least the mark and the directory itself are in the plan. -/
theorem mem_plan_of_owned (hw : t.WellFormed) (hplan : Cleaning.plan t l q = .ok plan)
    (ho : Owned t l q dir) : stampFile dir ∈ plan.files ∧ dir ∈ plan.dirs := by
  obtain ⟨more, hroots, rfl⟩ := plan_eq_ok_iff.mp hplan
  obtain ⟨listed, hlisted, hfiles, hdirs, -⟩ := rootsPlan_eq_ok hroots
  obtain ⟨hreached, bytes, hget, -⟩ := reached_of_origin ho.marked
  obtain ⟨k, hfind⟩ := isDirectory_eq_true_iff.mp ho.directory
  obtain ⟨rfl, -⟩ := eq_goal_of_find hfind
  have hpart : modulePlan t (originOf q) dir ∈ listed.map (modulePlan t (originOf q)) :=
    List.mem_map_of_mem ((hlisted dir).mpr ⟨ho.listed, ho.directory⟩)
  rw [modulePlan_eq_ownedPlan ho.marked hfind] at hpart
  have hfile : t.isDirectory (stampFile dir) = false := by
    rw [isDirectory, hreached.find_stampFile hget]
  have hbelow : ([stampName], .file bytes) ∈ t.below (t.goal dir) :=
    (mem_below_iff hw).mpr ⟨by simp, hget⟩
  rw [append_files, append_dirs, hfiles, hdirs]
  refine ⟨List.mem_append_right _ (List.mem_flatMap.mpr ⟨_, hpart, ?_⟩),
    List.mem_append_right _ (List.mem_flatMap.mpr ⟨_, hpart, ?_⟩)⟩
  · refine List.mem_map.mpr ⟨[stampName], List.mem_mergeSort.mpr (List.mem_filter.mpr ?_), rfl⟩
    refine ⟨List.mem_map_of_mem hbelow, ?_⟩
    have hmark : goes t dir [stampName] = true := by
      change (!t.isDirectory (stampFile dir) && _) = true
      rw [hfile]
      rfl
    rw [hmark, Bool.and_true]
    exact ho.directory
  · exact List.mem_map.mpr ⟨[], List.mem_mergeSort.mpr (List.mem_cons_self ..), rfl⟩

end Cleaning

namespace Ownership

/-- A specification treats the directory as its own: it marks it once more, and a cleaning goes for
the mark, and for the directory if nothing is left in it. -/
structure Owns (t : FileTree) (dir : Path) (spec : RawPath) : Prop where
  marks : ∃ t', Output.markDirectory false dir spec t = .ok (some (.written (stampFile dir))) t'
  cleans : ∀ l plan, Cleaning.plan t l spec = .ok plan → Cleaning.Listed t l.moduleRoots dir →
    dir ∉ plan.foreign ∧ stampFile dir ∈ plan.files ∧ dir ∈ plan.dirs

/-- A specification treats the directory as that of another one: it does not mark it, and a cleaning
lists it and takes nothing from it on its account. -/
structure Disowns (t : FileTree) (dir : Path) (spec : RawPath) : Prop where
  passes : Output.markDirectory false dir spec t = .ok none t
  part : Cleaning.modulePlan t (originOf spec) dir = ⟨[], [], [dir]⟩
  lists : ∀ l plan, Cleaning.plan t l spec = .ok plan → Cleaning.Listed t l.moduleRoots dir →
    dir ∈ plan.foreign

theorem Owns.not_disowns (h : Owns t dir q) : ¬ Disowns t dir q := by
  intro h'
  obtain ⟨t', ht'⟩ := h.marks
  rw [h'.passes] at ht'
  cases ht'

/-- A mark is put over a mark of the same origin. -/
theorem exists_markDirectory (howner : originOfDirectory? t dir = some (originOf q)) :
    ∃ t', Output.markDirectory false dir q t = .ok (some (.written (stampFile dir))) t' := by
  obtain ⟨hreached, bytes, hget, -⟩ := reached_of_origin howner
  have hacts : (Piece.mark dir q).Acts t := by simp [Piece.Acts, howner]
  have hmark := Output.perform_eq false (.mark dir q) t
  rw [if_pos hacts] at hmark
  exact ⟨_, hmark.trans (Disk.bind_ok (hreached.put_over hget))⟩

theorem owns_of_origin (hw : t.WellFormed)
    (howner : originOfDirectory? t dir = some (originOf q)) : Owns t dir q := by
  refine ⟨exists_markDirectory howner, fun l plan hplan hlisted => ⟨?_, ?_⟩⟩
  · rw [Cleaning.mem_foreign_plan hplan]
    rintro ⟨-, owner, hfound, hne⟩
    rw [howner] at hfound
    exact hne (Option.some.inj hfound).symm
  · exact Cleaning.mem_plan_of_owned hw hplan ⟨hlisted.listed, hlisted.directory, howner⟩

theorem disowns_of_origin (howner : originOfDirectory? t dir = some owner)
    (hne : owner ≠ originOf q) : Disowns t dir q := by
  refine ⟨?_, Cleaning.modulePlan_of_foreign howner hne, fun l plan hplan hlisted => ?_⟩
  · refine (Output.perform_eq false (.mark dir q) t).trans ?_
    rw [if_neg fun hacts => hne (hacts owner howner)]
    rfl
  · exact (Cleaning.mem_foreign_plan hplan).mpr ⟨hlisted, owner, howner, hne⟩

/-- A directory with a mark that is read belongs to the specifications of its origin only. -/
theorem owns_iff (hw : t.WellFormed) (howner : originOfDirectory? t dir = some owner) :
    (Owns t dir q ↔ originOf q = owner) ∧ (Disowns t dir q ↔ originOf q ≠ owner) := by
  by_cases heq : originOf q = owner
  · have howns := owns_of_origin hw (heq ▸ howner)
    exact ⟨iff_of_true howns heq, iff_of_false howns.not_disowns (not_not_intro heq)⟩
  · have hdisowns := disowns_of_origin howner (Ne.symm heq)
    exact ⟨iff_of_false (fun howns => howns.not_disowns hdisowns) heq, iff_of_true hdisowns heq⟩

/-- A directory that has been marked names the origin that its mark is read back as. -/
theorem originOfDirectory?_of_mark (hw : t.WellFormed) (hfree : originOfDirectory? t dir = none)
    (hmark : Output.markDirectory false dir p t = .ok outcome t') :
    outcome = some (.written (stampFile dir)) ∧ t'.WellFormed ∧
      originOfDirectory? t' dir = originInText? (stampText p) := by
  have hacts : (Piece.mark dir p).Acts t := by simp [Piece.Acts, hfree]
  have hperform : Output.perform false (.mark dir p) t = .ok outcome t' := hmark
  obtain ⟨houtcome, hput⟩ := Output.perform_eq_ok hperform
  rcases hput with ⟨-, hput⟩ | ⟨hkeep, -⟩
  · obtain ⟨hw', hreached, hget⟩ := Output.reached_of_put hw Output.isName_stampName id hput
    refine ⟨houtcome.trans (if_pos hacts), hw', ?_⟩
    rw [hreached.originOfDirectory?_eq hget, originInBytes?, Text.decode?_encode]
    rfl
  · exact absurd hacts hkeep

/-- A directory without a readable mark that is marked for a specification whose origin is one line,
without blanks at its ends, names this origin from then on. A specification treats it as its own if
and only if it has the same origin, and as that of another one otherwise. Paths that are spelled by
texts without backslashes have these texts as their origins, and so the same origin only if they are
the same. -/
theorem marked_directory_belongs_iff (hw : t.WellFormed) (hfree : originOfDirectory? t dir = none)
    (hline : IsLine (originOf p)) (hmark : Output.markDirectory false dir p t = .ok outcome t')
    (q : RawPath) :
    outcome = some (.written (stampFile dir)) ∧
    originOfDirectory? t' dir = some (originOf p) ∧
    (Owns t' dir q ↔ originOf q = originOf p) ∧
    (Disowns t' dir q ↔ originOf q ≠ originOf p) ∧
    ∀ x y, p = .ofText x → q = .ofText y → '\\' ∉ x.toList → '\\' ∉ y.toList →
      originOf p = x ∧ originOf q = y ∧ (originOf q = originOf p ↔ q = p) := by
  obtain ⟨houtcome, hw', horigin⟩ := originOfDirectory?_of_mark hw hfree hmark
  rw [originInText?_stampText_iff.mpr hline] at horigin
  obtain ⟨howns, hdisowns⟩ := owns_iff (q := q) hw' horigin
  refine ⟨houtcome, horigin, howns, hdisowns, ?_⟩
  rintro x y rfl rfl hx hy
  rw [originOf_ofText hx, originOf_ofText hy]
  refine ⟨rfl, rfl, congrArg RawPath.ofText, fun h => ?_⟩
  have horigins := congrArg originOf h
  rwa [originOf_ofText hx, originOf_ofText hy] at horigins

def shopModule : Path := ⟨"out/app/models/shop"⟩

/-- Any specification can mark it where there is nothing. -/
theorem exists_mark_shopModule (q : RawPath) :
    ∃ outcome t', Output.markDirectory false shopModule q ⟨[], []⟩ = .ok outcome t' := by
  have hname := Output.isName_stampName
  have hopen : FileTree.Open ⟨[], []⟩ (stampFile shopModule) :=
    open_of_no_files (by decide) (by decide +kernel) (by decide +kernel) (by decide +kernel)
  have hfile : (stampFile shopModule).OfFile :=
    ⟨by decide +kernel, Cleaning.named_join_name hname, endsOpen_join_name hname⟩
  have hfree : FileTree.get? ⟨[], []⟩ (FileTree.place ⟨[], []⟩ (stampFile shopModule)) ≠
      some .directory := by decide +kernel
  have hperform : ∃ outcome t',
      Output.perform false (.mark shopModule q) ⟨[], []⟩ = .ok outcome t' :=
    Output.perform_of_open (by decide) hfile hopen fun _ _ _ => hfree
  exact hperform

theorem shop_module_belongs : ∃ outcome t',
    Output.markDirectory false shopModule (.ofText "specs/shop.json") ⟨[], []⟩ = .ok outcome t' ∧
    originOfDirectory? t' shopModule = some "specs/shop.json" ∧
    Owns t' shopModule (.ofText "specs/shop.json") ∧
    Disowns t' shopModule (.ofText "specs/crm.json") := by
  obtain ⟨outcome, t', hmark⟩ := exists_mark_shopModule (.ofText "specs/shop.json")
  have horigin : originOf (.ofText "specs/shop.json") = "specs/shop.json" :=
    originOf_ofText (by decide)
  have hline : IsLine (originOf (.ofText "specs/shop.json")) := by
    rw [horigin]
    decide +kernel
  have hbelongs := marked_directory_belongs_iff (t := ⟨[], []⟩) (by decide) (by decide +kernel)
    hline hmark
  obtain ⟨-, hnamed, howns, -⟩ := hbelongs (.ofText "specs/shop.json")
  obtain ⟨-, -, -, hdisowns, htexts⟩ := hbelongs (.ofText "specs/crm.json")
  obtain ⟨-, -, hsame⟩ := htexts _ _ rfl rfl (by decide) (by decide)
  exact ⟨_, t', hmark, hnamed.trans (congrArg some horigin), howns.mpr rfl,
    hdisowns.mpr (mt hsame.mp (by decide))⟩

/-- A directory where there is nothing is marked for a path whose mark is read back as an owner. It
belongs to the specifications of this origin. -/
theorem exists_owned_shopModule (p : RawPath) (owner : String)
    (hread : originInText? (stampText p) = some owner) :
    ∃ outcome t', Output.markDirectory false shopModule p ⟨[], []⟩ = .ok outcome t' ∧
      originOfDirectory? t' shopModule = some owner ∧
      ∀ q, (Owns t' shopModule q ↔ originOf q = owner) ∧
        (Disowns t' shopModule q ↔ originOf q ≠ owner) := by
  have hfree : originOfDirectory? ⟨[], []⟩ shopModule = none := by decide +kernel
  obtain ⟨outcome, t', hmark⟩ := exists_mark_shopModule p
  obtain ⟨-, hw, horigin⟩ := originOfDirectory?_of_mark (by decide) hfree hmark
  exact ⟨outcome, t', hmark, horigin.trans hread, fun _ => owns_iff hw (horigin.trans hread)⟩

/-- Paths that differ in their separators share their marks, and so do paths whose bytes encode no
text, even without backslashes. A path that ends with a blank does not get its own mark back. -/
theorem mark_is_shared_or_lost :
    (∃ outcome t', Output.markDirectory false shopModule (.ofText "specs\\shop.json") ⟨[], []⟩ =
        .ok outcome t' ∧
      RawPath.ofText "specs/shop.json" ≠ .ofText "specs\\shop.json" ∧
      Owns t' shopModule (.ofText "specs/shop.json")) ∧
    (∃ outcome t', Output.markDirectory false shopModule ⟨[0xff]⟩ ⟨[], []⟩ = .ok outcome t' ∧
      (⟨[0xfe]⟩ : RawPath) ≠ ⟨[0xff]⟩ ∧ Owns t' shopModule ⟨[0xfe]⟩) ∧
    ∃ outcome t', Output.markDirectory false shopModule (.ofText "shop.json ") ⟨[], []⟩ =
        .ok outcome t' ∧
      originOfDirectory? t' shopModule ≠ some (originOf (.ofText "shop.json ")) ∧
      Disowns t' shopModule (.ofText "shop.json ") := by
  refine ⟨?_, ?_, ?_⟩
  · obtain ⟨_, t', hmark, -, howner⟩ := exists_owned_shopModule (.ofText "specs\\shop.json")
      "specs/shop.json" (by decide +kernel)
    exact ⟨_, t', hmark, by decide +kernel, (howner _).1.mpr (originOf_ofText (by decide))⟩
  · obtain ⟨_, t', hmark, -, howner⟩ := exists_owned_shopModule ⟨[0xff]⟩ "\ufffd"
      (by decide +kernel)
    exact ⟨_, t', hmark, by decide, (howner _).1.mpr (by decide +kernel)⟩
  · obtain ⟨_, t', hmark, horigin, howner⟩ := exists_owned_shopModule (.ofText "shop.json ")
      "shop.json" (by decide +kernel)
    have hne : originOf (.ofText "shop.json ") ≠ "shop.json" := by
      rw [originOf_ofText (by decide)]
      decide
    refine ⟨_, t', hmark, ?_, (howner _).2.mpr hne⟩
    rw [horigin]
    exact fun h => hne (Option.some.inj h).symm

end Ownership

end CrudBackend
