import CrudBackend.Proofs.Cleaning.Plan
import CrudBackend.Proofs.Disk
import Mathlib.Data.String.Basic

/-!
What carrying out a list of removals does. Each removal that succeeds takes away one entry or finds
nothing to take, so the tree afterwards is the tree before without the locations that are listed as
removed. Directories that come after everything in them go as soon as only such directories are in
them.
-/

namespace CrudBackend

open FileTree

/-- The entries at some locations have been taken away, each of them once. -/
structure FileTree.Taken (t t' : FileTree) (gone : List Location) : Prop where
  wellFormed : t'.WellFormed
  home : t'.home = t.home
  get?_eq : ∀ k, t'.get? k = if k ∈ gone then none else t.get? k
  stood : ∀ k ∈ gone, t.get? k ≠ none
  nodup : gone.Nodup

namespace FileTree.Taken

variable {r s t t' : FileTree} {gone more : List Location} {k : Location} {e : Entry}

theorem refl (hw : t.WellFormed) : t.Taken t [] := ⟨hw, rfl, by simp, by simp, List.nodup_nil⟩

theorem trans (h : r.Taken s gone) (h' : s.Taken t more) : r.Taken t (gone ++ more) := by
  have hnot : ∀ k ∈ more, k ∉ gone := by
    intro k hk hgone
    have hnone := h.get?_eq k
    rw [if_pos hgone] at hnone
    exact h'.stood k hk hnone
  refine ⟨h'.wellFormed, h'.home.trans h.home, ?_, ?_, ?_⟩
  · intro k
    rw [h'.get?_eq, h.get?_eq]
    by_cases hgone : k ∈ gone <;> by_cases hmore : k ∈ more <;> simp [hgone, hmore]
  · intro k hk
    rcases List.mem_append.mp hk with hk | hk
    · exact h.stood k hk
    · have hstood := h'.stood k hk
      rwa [h.get?_eq, if_neg (hnot k hk)] at hstood
  · refine List.nodup_append.mpr ⟨h.nodup, h'.nodup, ?_⟩
    rintro k hk _ hk' rfl
    exact hnot k hk' hk

theorem erase (hw : (t.erase k).WellFormed) (hk : k ≠ []) (hget : t.get? k = some e) :
    t.Taken (t.erase k) [k] := by
  refine ⟨hw, rfl, ?_, by simp [hget], by simp⟩
  intro l
  rw [get?_erase]
  by_cases hl : l = k
  · simp [hl, hk]
  · by_cases hroot : l = []
    · simp [hroot, hk.symm]
    · simp [hl, hroot]

theorem get?_of_some (h : t.Taken t' gone) (hget : t'.get? k = some e) : t.get? k = some e := by
  rw [h.get?_eq] at hget
  split_ifs at hget
  exact hget

theorem get?_none (h : t.Taken t' gone) (hget : t.get? k = none) : t'.get? k = none := by
  rw [h.get?_eq]
  split_ifs
  · rfl
  · exact hget

theorem mem_iff (h : t.Taken t' gone) : k ∈ gone ↔ t.get? k ≠ none ∧ t'.get? k = none := by
  rw [h.get?_eq]
  constructor
  · intro hk
    exact ⟨h.stood k hk, if_pos hk⟩
  · rintro ⟨hsome, hnone⟩
    by_contra hk
    rw [if_neg hk] at hnone
    exact hsome hnone

end FileTree.Taken

namespace Cleaning

variable {s t t' : FileTree} {p dir : Path} {removed paths more : List Path}

theorem removeEach_cons_ok {remove : Path → Disk (List Path)} {here : List Path}
    (hp : remove p t = .ok here s) (hrest : removeEach remove paths s = .ok more t') :
    removeEach remove (p :: paths) t = .ok (here ++ more) t' :=
  (Disk.bind_ok hp).trans (Disk.bind_ok hrest)

theorem removeEach_append {remove : Path → Disk (List Path)}
    (h : removeEach remove (paths ++ more) t = .ok removed t') :
    ∃ first s rest, removeEach remove paths t = .ok first s ∧
      removeEach remove more s = .ok rest t' ∧ removed = first ++ rest := by
  induction paths generalizing t removed with
  | nil => exact ⟨[], t, removed, rfl, h, rfl⟩
  | cons p paths ih =>
    obtain ⟨here, s, hp, hrest⟩ := Disk.bind_eq_ok h
    obtain ⟨others, s', hothers, hlast⟩ := Disk.bind_eq_ok hrest
    cases hlast
    obtain ⟨first, s'', rest, hfirst, hmore, rfl⟩ := ih hothers
    refine ⟨here ++ first, s'', rest, ?_, hmore, (List.append_assoc ..).symm⟩
    exact removeEach_cons_ok hp hfirst

/-- A removal of the path takes away nothing, or an entry of a certain kind at the place of the
path. -/
def TakesAt (remove : Path → Disk (List Path)) (kind : Entry → Prop) (p : Path) : Prop :=
  ∀ t t' here, t.WellFormed → remove p t = .ok here t' →
    t.Taken t' (here.map t.place) ∧ ∀ k ∈ here.map t.place,
      k = t.place p ∧ p.Accepted ∧ ∃ e, t.get? k = some e ∧ kind e

/-- So do the removals of many paths, each at the place of one of them. -/
theorem taken_removeEach {remove : Path → Disk (List Path)} {kind : Entry → Prop}
    (hw : t.WellFormed) (hpaths : ∀ p ∈ paths, TakesAt remove kind p)
    (h : removeEach remove paths t = .ok removed t') :
    t.Taken t' (removed.map t.place) ∧ ∀ k ∈ removed.map t.place,
      ∃ p ∈ paths, k = t.place p ∧ p.Accepted ∧ ∃ e, t.get? k = some e ∧ kind e := by
  induction paths generalizing t removed with
  | nil =>
    cases h
    exact ⟨.refl hw, by simp⟩
  | cons p rest ih =>
    obtain ⟨here, s, hp, hrest⟩ := Disk.bind_eq_ok h
    obtain ⟨others, s', hothers, hlast⟩ := Disk.bind_eq_ok hrest
    cases hlast
    obtain ⟨htaken, hfirst⟩ := hpaths p (List.mem_cons_self ..) t s here hw hp
    obtain ⟨htaken', hmore⟩ :=
      ih htaken.wellFormed (fun q hq => hpaths q (List.mem_cons_of_mem _ hq)) hothers
    have hplace : s.place = t.place := funext fun q => place_congr htaken.home
    rw [hplace] at htaken' hmore
    rw [List.map_append]
    refine ⟨htaken.trans htaken', ?_⟩
    intro k hk
    rcases List.mem_append.mp hk with hk | hk
    · obtain ⟨hk, ha, hentry⟩ := hfirst k hk
      exact ⟨p, List.mem_cons_self .., hk, ha, hentry⟩
    · obtain ⟨q, hq, hk, ha, e, hget, hkind⟩ := hmore k hk
      exact ⟨q, List.mem_cons_of_mem _ hq, hk, ha, e, htaken.get?_of_some hget, hkind⟩

/-! ### Files -/

theorem takesAt_removeFile (hp : p.Straight) :
    TakesAt removeFile (fun e => ∃ bytes, e = .file bytes) p := by
  intro t t' here hw h
  unfold removeFile at h
  split at h
  · next t' hremove =>
    cases h
    have hw' := hw.removeFile hremove
    obtain ⟨d, name, bytes, haim, hget, rfl⟩ := removeFile_eq_ok hremove
    rw [List.map_singleton, haim.place_eq hp]
    refine ⟨.erase hw' (by simp) hget, ?_⟩
    intro k hk
    cases List.mem_singleton.mp hk
    exact ⟨rfl, haim.accepted, _, hget, bytes, rfl⟩
  · cases h
    exact ⟨.refl hw, by simp⟩
  · cases h

/-- Nothing stands where a file has been removed or not found. -/
theorem get?_none_of_removeFile (hw : t.WellFormed) (hp : p.Straight) (hn : p.Named)
    (h : removeFile p t = .ok removed t') : t'.get? (t.place p) = none := by
  unfold removeFile at h
  split at h
  · next t' hremove =>
    cases h
    obtain ⟨d, name, bytes, haim, -, rfl⟩ := removeFile_eq_ok hremove
    rw [haim.place_eq hp, get?_erase, if_neg (by simp), if_pos rfl]
  · next hnot =>
    cases h
    exact removeFile_eq_notFound hw hp hn hnot
  · cases h

theorem get?_none_of_removeFiles (hw : t.WellFormed)
    (hpaths : ∀ p ∈ paths, p.Straight ∧ p.Named)
    (h : removeEach removeFile paths t = .ok removed t') (hp : p ∈ paths) :
    t'.get? (t.place p) = none := by
  obtain ⟨before, after, rfl⟩ := List.append_of_mem hp
  have htakes : ∀ q ∈ before ++ p :: after, TakesAt removeFile (fun e => ∃ bytes, e = .file bytes) q :=
    fun q hq => takesAt_removeFile (hpaths q hq).1
  obtain ⟨_, s, _, hbefore, hrest, -⟩ := removeEach_append h
  obtain ⟨here, u, hhere, hrest⟩ := Disk.bind_eq_ok hrest
  obtain ⟨others, v, hafter, hlast⟩ := Disk.bind_eq_ok hrest
  cases hlast
  obtain ⟨hstraight, hnamed⟩ := hpaths p hp
  have htaken := (taken_removeEach hw (fun q hq => htakes q (by simp [hq])) hbefore).1
  have hu : u.get? (t.place p) = none := by
    rw [← place_congr htaken.home]
    exact get?_none_of_removeFile htaken.wellFormed hstraight hnamed hhere
  have hw' := (htakes p hp s u here htaken.wellFormed hhere).1.wellFormed
  exact (taken_removeEach hw' (fun q hq => htakes q (by simp [hq])) hafter).1.get?_none hu

/-! ### Directories -/

theorem takesAt_removeIfEmpty (hp : p.Straight) : TakesAt removeIfEmpty (· = .directory) p := by
  intro t t' here hw h
  unfold removeIfEmpty at h
  by_cases hempty : t.isEmptyDirectory p = true
  · rw [if_pos hempty] at h
    split at h
    · next t' hremove =>
      cases h
      have hw' := hw.removeDirectory hempty hremove
      obtain ⟨d, name, haim, hget, -, rfl⟩ := removeDirectory_eq_ok hremove
      rw [List.map_singleton, haim.place_eq hp]
      refine ⟨.erase hw' (by simp) hget, ?_⟩
      intro k hk
      cases List.mem_singleton.mp hk
      exact ⟨rfl, haim.accepted, _, hget, rfl⟩
    · cases h
  · rw [if_neg hempty] at h
    cases h
    exact ⟨.refl hw, by simp⟩

/-- A directory with nothing in it does not outlast its removal. -/
theorem get?_none_of_removeIfEmpty (hw : t.WellFormed) (hp : p.Straight) (hn : p.Named)
    (ha : p.Accepted) (hbelow : ∀ w e, w ≠ [] → t.get? (t.place p ++ w) ≠ some e)
    (hfile : ∀ bytes, t.get? (t.place p) ≠ some (.file bytes))
    (h : removeIfEmpty p t = .ok removed t') : t'.get? (t.place p) = none := by
  cases hget : t.get? (t.place p) with
  | none => exact (takesAt_removeIfEmpty hp _ _ _ hw h).1.get?_none hget
  | some e =>
    cases e with
    | file bytes => exact absurd hget (hfile bytes)
    | directory =>
      have hfind := (find_eq_ok_iff hw hp hn).mpr ⟨ha, rfl, hget, by simp⟩
      have hempty : t.isEmptyDirectory p = true := by
        rw [isEmptyDirectory, list, hfind, List.isEmpty_iff]
        refine List.eq_nil_iff_forall_not_mem.mpr fun name hname => ?_
        obtain ⟨e, he⟩ := (mem_namesIn_iff hw).mp hname
        exact hbelow [name] e (by simp) he
      unfold removeIfEmpty at h
      rw [if_pos hempty] at h
      split at h
      · next t' hremove =>
        cases h
        obtain ⟨d, name, haim, -, -, rfl⟩ := removeDirectory_eq_ok hremove
        rw [haim.place_eq hp, get?_erase, if_neg (by simp), if_pos rfl]
      · cases h

/-! ### Contents first -/

theorem contentsFirstLe_total (v w : List String) :
    (contentsFirstLe v w || contentsFirstLe w v) = true := by
  induction v generalizing w with
  | nil => cases w <;> rfl
  | cons a v ih =>
    cases w with
    | nil => rfl
    | cons b w =>
      simp only [contentsFirstLe]
      by_cases hab : a = b
      · rw [if_pos hab, if_pos hab.symm]
        exact ih w
      · rw [if_neg hab, if_neg (Ne.symm hab), ← Bool.decide_or, decide_eq_true_iff]
        exact lt_or_gt_of_ne hab

theorem contentsFirstLe_trans (u v w : List String) (huv : contentsFirstLe u v = true)
    (hvw : contentsFirstLe v w = true) : contentsFirstLe u w = true := by
  induction u generalizing v w with
  | nil =>
    cases v with
    | nil => exact hvw
    | cons b v => cases huv
  | cons a u ih =>
    cases w with
    | nil => rfl
    | cons c w =>
      cases v with
      | nil => cases hvw
      | cons b v =>
        simp only [contentsFirstLe] at huv hvw ⊢
        by_cases hab : a = b
        · subst hab
          rw [if_pos rfl] at huv
          by_cases hac : a = c
          · subst hac
            rw [if_pos rfl] at hvw ⊢
            exact ih v w huv hvw
          · rw [if_neg hac] at hvw ⊢
            exact hvw
        · rw [if_neg hab, decide_eq_true_iff] at huv
          by_cases hbc : b = c
          · subst hbc
            rw [if_neg hab, decide_eq_true_iff]
            exact huv
          · rw [if_neg hbc, decide_eq_true_iff] at hvw
            have hac := lt_trans huv hvw
            rw [if_neg (ne_of_lt hac), decide_eq_true_iff]
            exact hac

/-- A way does not come before one that goes on from it. -/
theorem contentsFirstLe_append (way : List String) {w : List String} (hw : w ≠ []) :
    contentsFirstLe way (way ++ w) = false := by
  induction way with
  | nil =>
    cases w with
    | nil => exact absurd rfl hw
    | cons a w => rfl
  | cons a way ih => simpa [contentsFirstLe] using ih

/-- Directories below one are removed contents first. One of them is gone in the end if nothing is
below it but such directories. -/
theorem get?_none_of_contentsFirst {ways : List (List String)} {way : List String}
    (hw : t.WellFormed) (hdir : dir.Straight) (hnamed : dir.Named)
    (hways : ∀ v ∈ ways, (∀ s ∈ v, IsName s) ∧ (down dir v).Accepted)
    (hsorted : ways.Pairwise fun v w => contentsFirstLe v w = true)
    (h : removeEach removeIfEmpty (ways.map (down dir)) t = .ok removed t') (hway : way ∈ ways)
    (hbelow : ∀ w e, t.get? (t.place dir ++ way ++ w) = some e → e = .directory ∧ way ++ w ∈ ways) :
    t'.get? (t.place dir ++ way) = none := by
  induction ways using List.reverseRecOn generalizing t' removed way with
  | nil => cases hway
  | append_singleton ways last ih =>
    rw [List.map_append] at h
    obtain ⟨first, s, rest, hfirst, hlast, -⟩ := removeEach_append h
    have hwaysLeft : ∀ v ∈ ways, (∀ s ∈ v, IsName s) ∧ (down dir v).Accepted := fun v hv =>
      hways v (List.mem_append_left _ hv)
    have htakes : ∀ p ∈ ways.map (down dir), TakesAt removeIfEmpty (· = .directory) p := by
      intro p hp
      obtain ⟨v, hv, rfl⟩ := List.mem_map.mp hp
      exact takesAt_removeIfEmpty (straight_down hdir (hwaysLeft v hv).1)
    obtain ⟨htaken, -⟩ := taken_removeEach hw htakes hfirst
    obtain ⟨hnames, ha⟩ := hways last (by simp)
    have hlastStraight := straight_down hdir hnames
    rw [List.pairwise_append] at hsorted
    have hbefore := hsorted.2.2
    -- Whatever a way of `ways` goes on to was sorted before it, and so is not `last`.
    have hnotLast : ∀ v ∈ ways, ∀ w, v ++ w ∈ ways ++ [last] → v ++ w ∈ ways := by
      intro v hv w hin
      rcases List.mem_append.mp hin with hin | hin
      · exact hin
      · by_cases hnil : w = []
        · rwa [hnil, List.append_nil]
        · have hle := hbefore v hv last (by simp)
          rw [← List.mem_singleton.mp hin, contentsFirstLe_append v hnil] at hle
          cases hle
    have hgone : ∀ v ∈ ways, (∀ w e, t.get? (t.place dir ++ v ++ w) = some e →
        e = .directory ∧ v ++ w ∈ ways ++ [last]) → s.get? (t.place dir ++ v) = none := by
      intro v hv hv'
      refine ih hwaysLeft hsorted.1 hfirst hv fun w e hget => ?_
      exact ⟨(hv' w e hget).1, hnotLast v hv w (hv' w e hget).2⟩
    have htaken' := (taken_removeEach htaken.wellFormed
      (by simpa using takesAt_removeIfEmpty hlastStraight) hlast).1
    by_cases hin : way ∈ ways
    · exact htaken'.get?_none (hgone way hin hbelow)
    · obtain rfl : way = last := by simpa [hin] using hway
      have hplace : s.place (down dir way) = t.place dir ++ way := by
        rw [place_congr htaken.home, place_down hnames]
      have hbelow' : ∀ w e, w ≠ [] → s.get? (t.place dir ++ way ++ w) ≠ some e := by
        intro w e hne hsome
        obtain ⟨-, hmem⟩ := hbelow w e (htaken.get?_of_some hsome)
        have hleft : way ++ w ∈ ways := by simpa [hne] using hmem
        have hnone := hgone (way ++ w) hleft fun u e' hget => by
          rw [← List.append_assoc, List.append_assoc _ w u] at hget
          rw [List.append_assoc]
          exact hbelow (w ++ u) e' hget
        rw [← List.append_assoc, hsome] at hnone
        cases hnone
      have hfile : ∀ bytes, s.get? (t.place dir ++ way) ≠ some (.file bytes) := by
        intro bytes hget
        have hdirectory := (hbelow [] _ (by simpa using htaken.get?_of_some hget)).1
        cases hdirectory
      rw [← hplace] at hbelow' hfile ⊢
      obtain ⟨here, s', hhere, hrest⟩ := Disk.bind_eq_ok hlast
      cases hrest
      exact get?_none_of_removeIfEmpty htaken.wellFormed hlastStraight (named_down hnamed hnames) ha
        hbelow' hfile hhere

end Cleaning

end CrudBackend
