import CrudBackend.Proofs.Drafts
import CrudBackend.Proofs.Files.Making

/-!
Putting a text where a path leads. A text that is put stands at the place of the path, whatever lies
above the place is a directory then, and nothing else has changed. It can be put wherever no
directory stands at the place and no file above it.
-/

namespace CrudBackend

open FileTree Ownership

/-- The path can lead to a file, and only to its place. -/
structure Path.OfFile (p : Path) : Prop where
  straight : p.Straight
  named : p.Named
  closed : endsOpen p = false

/-- The second tree is the first one with an entry at the place of a path and directories above. -/
structure FileTree.Brought (t t' : FileTree) (p : Path) (e : Option Entry) : Prop where
  wellFormed : t'.WellFormed
  home : t'.home = t.home
  no_file : ∀ l, l <+: t.place p → l ≠ t.place p → ∀ bytes, t.get? l ≠ some (.file bytes)
  get?_eq : ∀ l, t'.get? l =
    if l = t.place p then e else if l <+: t.place p then some .directory else t.get? l

/-- Nothing is in the way to the place of a path. -/
structure FileTree.Open (t : FileTree) (p : Path) : Prop where
  accepted : p.Accepted
  short : ∀ s ∈ names (steps p), s.utf8ByteSize ≤ maxNameBytes
  start : t.get? (t.start p) = some .directory
  no_file : ∀ k, k <+: t.place p → k ≠ t.place p → ∀ bytes, t.get? k ≠ some (.file bytes)

variable {s t t' : FileTree} {p q dir : Path} {l : Location} {bytes : List UInt8} {text : String}
  {e : Option Entry}

/-! ### What a path of a file leads to -/

theorem Path.ofFile_of_suffix {ds cs : List Char} (hp : p.Straight)
    (htext : p.text.toList = cs ++ ds) (hsep : '/' ∉ ds) (hne : ds ≠ []) (hdot : ds ≠ ['.']) :
    p.OfFile := by
  obtain ⟨before, last, hs, hsuffix⟩ := suffix_of_steps htext hsep hne
  refine ⟨hp, ⟨before, last, hs, ?_⟩, ?_⟩
  · rintro rfl
    obtain ⟨front, hfront⟩ := hsuffix
    cases front with
    | nil => exact hdot hfront
    | cons c front =>
      have hlen := congrArg List.length hfront
      have hpos := List.length_pos_iff.mpr hne
      simp only [List.length_append, List.length_cons] at hlen
      have : ".".toList.length = 1 := rfl
      omega
  · obtain ⟨front, c, rfl⟩ := (List.eq_nil_or_concat ds).resolve_left hne
    have hc : c ≠ '/' := fun h => hsep (by simp [h])
    simp [endsOpen, htext, hc]

namespace FileTree

/-- Whatever something lies below is a directory. -/
theorem WellFormed.directory_above {k : Location} {e : Entry} (hw : t.WellFormed)
    (hget : t.get? k = some e) (hl : l <+: k) (hne : l ≠ k) : t.get? l = some .directory := by
  obtain ⟨w, rfl⟩ := hl
  refine hw.directory_of_below hget ?_
  rintro rfl
  exact hne (List.append_nil _).symm

theorem pathExists_iff (hw : t.WellFormed) (hp : p.OfFile) :
    t.pathExists p = true ↔ p.Accepted ∧ t.get? (t.place p) ≠ none := by
  have hfind := fun l e => find_eq_ok_iff (l := l) (e := e) hw hp.straight hp.named
  constructor
  · intro h
    cases hfound : t.find p with
    | error fault =>
      rw [pathExists, hfound] at h
      cases h
    | ok found =>
      obtain ⟨ha, hl, hget, -⟩ := (hfind _ _).mp hfound
      exact ⟨ha, by rw [← hl, hget]; simp⟩
  · rintro ⟨ha, hsome⟩
    obtain ⟨e, hget⟩ := Option.ne_none_iff_exists'.mp hsome
    rw [pathExists, (hfind _ _).mpr ⟨ha, rfl, hget, fun _ => hp.closed⟩]
    rfl

theorem isGenerated_iff (hw : t.WellFormed) (hp : p.OfFile) : isGenerated t p = true ↔
    p.Accepted ∧ ∃ bytes, t.get? (t.place p) = some (.file bytes) ∧ isMarked bytes = true := by
  have hread : ∀ bytes, t.readBytes p = .ok bytes ↔ _ := fun _ =>
    readBytes_eq_ok_iff hw hp.straight
  unfold isGenerated
  constructor
  · intro h
    split at h
    · next bytes heq =>
      obtain ⟨ha, -, -, hget⟩ := (hread bytes).mp heq
      exact ⟨ha, bytes, hget, h⟩
    · cases h
  · rintro ⟨ha, bytes, hget, hmark⟩
    rw [(hread bytes).mpr ⟨ha, hp.named, hp.closed, hget⟩]
    exact hmark

theorem names_ne_nil (hn : p.Named) : names (steps p) ≠ [] := by
  obtain ⟨before, last, hs, hhere⟩ := hn
  rw [hs, names_append, names_cons hhere]
  simp

/-- Nothing is in the way to anything where there are no files. -/
theorem open_of_no_files (hfiles : ∀ x ∈ t.entries, x.2 = .directory) (ha : p.Accepted)
    (hshort : ∀ s ∈ names (steps p), s.utf8ByteSize ≤ maxNameBytes)
    (hstart : t.get? (t.start p) = some .directory) : t.Open p := by
  refine ⟨ha, hshort, hstart, ?_⟩
  intro k _ _ bytes hfile
  by_cases hk : k = []
  · rw [hk] at hfile
    cases hfile
  · cases hfiles _ (mem_entries_of_get? hk hfile)

/-- Nothing is in the way to what stands. -/
theorem open_of_stands (hw : t.WellFormed) (hp : p.Named) (ha : p.Accepted)
    (hget : t.get? (t.place p) ≠ none) : t.Open p := by
  obtain ⟨e, hget⟩ := Option.ne_none_iff_exists'.mp hget
  refine ⟨ha, ?_, hw.directory_of_below hget (names_ne_nil hp), ?_⟩
  · exact fun s hs => (hw.isName_of_get? hget s (List.mem_append_right _ hs)).short
  · intro k hk hne bytes hfile
    rw [hw.directory_above hget hk hne] at hfile
    cases hfile

end FileTree

namespace FileTree.Brought

theorem get?_place (h : t.Brought t' p e) : t'.get? (t.place p) = e := by
  rw [h.get?_eq, if_pos rfl]

theorem get?_above (h : t.Brought t' p e) (hl : l <+: t.place p) (hne : l ≠ t.place p) :
    t'.get? l = some .directory := by
  rw [h.get?_eq, if_neg hne, if_pos hl]

theorem get?_other (h : t.Brought t' p e) (hl : ¬ l <+: t.place p) : t'.get? l = t.get? l := by
  have hne : l ≠ t.place p := by
    rintro rfl
    exact hl (List.prefix_refl _)
  rw [h.get?_eq, if_neg hne, if_neg hl]

/-- Nothing has to be done where something stands. -/
theorem refl (hw : t.WellFormed) (hget : t.get? (t.place p) ≠ none) :
    t.Brought t p (t.get? (t.place p)) := by
  obtain ⟨e, hget⟩ := Option.ne_none_iff_exists'.mp hget
  refine ⟨hw, rfl, ?_, ?_⟩
  · intro l hl hne
    simp [hw.directory_above hget hl hne]
  intro l
  split_ifs with hplace habove
  · rw [hplace]
  · exact hw.directory_above hget habove hplace
  · rfl

end FileTree.Brought

namespace Output

theorem makeParent_eq_ok (hw : t.WellFormed) (hp : p.OfFile) (h : makeParent p t = .ok () s) :
    t.DirectoriesMade s ∧ ∀ l, s.get? l ≠ t.get? l → l <+: t.place p ∧ l ≠ t.place p := by
  have hmade := directoriesMade_makeParent (p := p) hw
  rw [Disk.after_ok h] at hmade
  refine ⟨hmade, ?_⟩
  intro l hne
  obtain ⟨q, hq⟩ := exists_parent? hp.named
  have habove := above_of_parent? hq
  have hlisted : (t.makeDirectories q).1.get? l ≠ t.get? l →
      l <+: t.place p ∧ l ≠ t.place p := by
    intro hne
    obtain ⟨r, hr, rfl⟩ := place_of_makeAll hw
      (fun r hr => (mem_ancestorsWithin (t := t) (habove.straight hp.straight) hr).1) hne
    obtain ⟨n, hplace⟩ := habove.place_eq hp.named t
    have hpre := (mem_ancestorsWithin (t := t) (habove.straight hp.straight) hr).2
    refine ⟨hpre.trans (habove.isPrefix_place t), ?_⟩
    intro heq
    rw [heq, hplace] at hpre
    have hlen := hpre.length_le
    simp only [List.length_append, List.length_singleton] at hlen
    omega
  simp only [makeParent, hq] at h
  split_ifs at h
  · cases h
    exact absurd rfl hne
  · split at h
    · next u heq =>
      cases h
      exact hlisted (by rw [heq]; exact hne)
    · cases h

/-- What a text that is put changes. -/
theorem put_eq_ok (hw : t.WellFormed) (hp : p.OfFile) (h : put false p text t = .ok () t') :
    t.Brought t' p (some (.file (Text.encode text))) ∧ p.Accepted ∧
      t.get? (t.place p) ≠ some .directory := by
  obtain ⟨s, hmake, hmade, hwrite⟩ := writeBytes_of_put hw h
  obtain ⟨-, honly⟩ := makeParent_eq_ok hw hp hmake
  have hw' := hmade.wellFormed.writeBytes hwrite
  obtain ⟨d, name, haim, -, -, hfree, rfl⟩ := writeBytes_eq_ok hmade.wellFormed hwrite
  have hplace := haim.place_eq hp.straight
  rw [place_congr hmade.home] at hplace
  rw [← hplace] at hfree hw' ⊢
  have hget : (s.put (t.place p) (.file (Text.encode text))).get? (t.place p) =
      some (.file (Text.encode text)) := by
    rw [get?_put, if_neg (by simp [hplace]), if_pos rfl]
  refine ⟨⟨hw', hmade.home, ?_, ?_⟩, haim.accepted, ?_⟩
  · intro l hl hne bytes hfile
    have hdir := hw'.directory_above hget hl hne
    rw [get?_put, if_neg hne, hmade.file_iff.mpr hfile] at hdir
    split_ifs at hdir with hroot
    · rw [hroot] at hfile
      cases hfile
    · cases hdir
  · intro l
    split_ifs with heq habove
    · rw [heq, hget]
    · exact hw'.directory_above hget habove heq
    · rw [get?_put, if_neg heq]
      split_ifs with hroot
      · rw [hroot, get?_root]
      · by_contra hchanged
        exact habove (honly l hchanged).1
  · intro hdir
    rcases hmade.get?_eq (t.place p) with hsame | ⟨hnone, -⟩
    · exact hfree (hsame.trans hdir)
    · rw [hnone] at hdir
      cases hdir

/-- The directory of a path is there, or can be made, if nothing is in the way. -/
theorem makeParent_of_open (hw : t.WellFormed) (hp : p.OfFile) (ho : t.Open p) :
    ∃ s, makeParent p t = .ok () s ∧ s.get? (t.place p).dropLast = some .directory := by
  obtain ⟨q, hq⟩ := exists_parent? hp.named
  have habove := above_of_parent? hq
  obtain ⟨n, hplace⟩ := habove.place_eq hp.named t
  have hno_file : ∀ k, k <+: t.place q → ∀ bytes, t.get? k ≠ some (.file bytes) := by
    intro k hk
    refine ho.no_file k (hk.trans (habove.isPrefix_place t)) ?_
    rintro rfl
    rw [hplace] at hk
    have hlen := hk.length_le
    simp only [List.length_append, List.length_singleton] at hlen
    omega
  have hstart : t.get? (t.start q) = some .directory := habove.start_eq t ▸ ho.start
  rw [hplace, List.dropLast_concat]
  simp only [makeParent, hq]
  split_ifs with hexists
  · refine ⟨t, rfl, ?_⟩
    cases hfound : t.find q with
    | error fault =>
      rw [pathExists, hfound] at hexists
      cases hexists
    | ok found =>
      obtain ⟨l, e⟩ := found
      obtain ⟨-, rfl, hget | ⟨-, hnil⟩⟩ := find_eq_ok (habove.straight hp.straight) hfound
      · cases e with
        | directory => exact hget
        | file bytes => exact absurd hget (hno_file _ (List.prefix_refl _) bytes)
      · rw [place, hnil, List.append_nil]
        exact hstart
  · have hclear : t.Clear q :=
      ⟨hstart, fun n hn => ho.short n (habove.isPrefix_names.subset hn), hno_file⟩
    obtain ⟨hok, hdir⟩ := makeDirectories_of_clear hw (habove.straight hp.straight) habove.ends
      (habove.accepted ho.accepted) hclear
    cases hmake : t.makeDirectories q with
    | mk s result =>
      rw [hmake] at hok hdir
      cases hok
      exact ⟨s, rfl, hdir⟩

theorem put_of_open (hw : t.WellFormed) (hp : p.OfFile) (ho : t.Open p)
    (hfree : t.get? (t.place p) ≠ some .directory) : ∃ t', put false p text t = .ok () t' := by
  obtain ⟨s, hmake, hdir⟩ := makeParent_of_open hw hp ho
  obtain ⟨hmade, honly⟩ := makeParent_eq_ok hw hp hmake
  have hsame : s.get? (t.place p) = t.get? (t.place p) := by
    by_contra hne
    exact (honly _ hne).2 rfl
  have hnames : ∃ before last, steps p = before ++ [last] ∧ last ≠ "." := hp.named
  obtain ⟨before, last, hs, hhere⟩ := hnames
  have hup := hp.straight
  rw [Path.Straight, hs, List.mem_append, List.mem_singleton, not_or] at hup
  have hplace : t.place p = t.start p ++ names before ++ [last] := by
    rw [place, hs, names_append, names_cons hhere, names_nil, List.append_assoc]
  rw [hplace] at hdir hsame hfree
  rw [List.dropLast_concat] at hdir
  have hstart : s.start p = t.start p := by rw [start, start, hmade.home]
  have happ : s.approach p = .ok (t.start p ++ names before, some last) := by
    refine (approach_eq_ok_iff ho.accepted hs).mpr ⟨rfl, ?_⟩
    rw [hstart]
    exact foldlM_enter_of_directory hmade.wellFormed hup.1 hdir
  have hsize : last.utf8ByteSize ≤ maxNameBytes :=
    ho.short last (by rw [hs, names_append, names_cons hhere]; simp)
  have hwrite : ∃ s', s.writeBytes p (Text.encode text) = .ok s' := by
    unfold writeBytes
    rw [happ]
    simp only [hhere, Ne.symm hup.2, hp.closed, or_self, Bool.false_eq_true, if_false]
    cases hget : s.get? (t.start p ++ names before ++ [last]) with
    | none =>
      rw [child_eq_notFound_iff.mpr ⟨hsize, hget⟩]
      dsimp only
      rw [add, if_pos hdir]
      exact ⟨_, rfl⟩
    | some e =>
      rw [child_eq_ok_iff.mpr ⟨hsize, rfl, hget⟩]
      cases e with
      | directory => exact absurd (hsame ▸ hget) hfree
      | file bytes => exact ⟨_, rfl⟩
  obtain ⟨s', hwrite⟩ := hwrite
  refine ⟨s', (Disk.bind_ok hmake).trans ?_⟩
  simp only [hwrite]

end Output

end CrudBackend
