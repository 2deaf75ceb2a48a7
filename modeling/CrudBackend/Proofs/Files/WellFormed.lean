import CrudBackend.Files.Tree
import Mathlib.Data.List.Induction

/-!
What a file system promises of its entries: every location is listed once, its names are names that
a directory can hold, and what it lies in is a directory. Putting an entry into a directory and
taking away an entry with nothing below it keep the promise.
-/

namespace CrudBackend

structure IsName (s : String) : Prop where
  not_empty : s ≠ ""
  not_here : s ≠ "."
  not_up : s ≠ ".."
  no_separator : '/' ∉ s.toList
  no_nul : ∀ c ∈ s.toList, c.toNat ≠ 0
  short : s.utf8ByteSize ≤ FileTree.maxNameBytes

-- `List.all` goes through the characters of the name; a bounded `∀ c` may be decided by going
-- through all characters there are.
instance (s : String) : Decidable (IsName s) :=
  decidable_of_iff (s ≠ "" ∧ s ≠ "." ∧ s ≠ ".." ∧ '/' ∉ s.toList ∧
      (s.toList.all fun c => c.toNat ≠ 0) = true ∧ s.utf8ByteSize ≤ FileTree.maxNameBytes)
    ⟨fun ⟨h1, h2, h3, h4, h5, h6⟩ => ⟨h1, h2, h3, h4, by simpa using h5, h6⟩,
      fun ⟨h1, h2, h3, h4, h5, h6⟩ => ⟨h1, h2, h3, h4, by simpa using h5, h6⟩⟩

namespace FileTree

/-- The promise of a file system without links. -/
structure WellFormed (t : FileTree) : Prop where
  nodup : (t.entries.map Prod.fst).Nodup
  not_root : ∀ x ∈ t.entries, x.1 ≠ []
  named : ∀ x ∈ t.entries, ∀ s ∈ x.1, IsName s
  parent : ∀ x ∈ t.entries, t.get? x.1.dropLast = some .directory

instance (t : FileTree) : Decidable t.WellFormed :=
  decidable_of_iff ((t.entries.map Prod.fst).Nodup ∧ (∀ x ∈ t.entries, x.1 ≠ []) ∧
      (∀ x ∈ t.entries, ∀ s ∈ x.1, IsName s) ∧
      ∀ x ∈ t.entries, t.get? x.1.dropLast = some .directory)
    ⟨fun ⟨h1, h2, h3, h4⟩ => ⟨h1, h2, h3, h4⟩, fun ⟨h1, h2, h3, h4⟩ => ⟨h1, h2, h3, h4⟩⟩

variable {t : FileTree} {l k w : Location} {s : String} {e : Entry}

@[simp] theorem get?_root (t : FileTree) : t.get? [] = some .directory := rfl

@[simp] theorem put_home (t : FileTree) (l : Location) (e : Entry) : (t.put l e).home = t.home :=
  rfl

theorem mem_entries_of_get? (hk : k ≠ []) (h : t.get? k = some e) : (k, e) ∈ t.entries := by
  rw [get?, if_neg hk] at h
  obtain ⟨before, after, heq, -⟩ := List.lookup_eq_some_iff.mp h
  rw [heq]
  exact List.mem_append_right _ (List.mem_cons_self ..)

theorem get?_of_mem_entries (hw : t.WellFormed) (h : (k, e) ∈ t.entries) : t.get? k = some e := by
  rw [get?, if_neg (hw.not_root _ h)]
  obtain ⟨before, after, heq⟩ := List.append_of_mem h
  have hnodup := hw.nodup
  rw [heq, List.map_append, List.map_cons, List.nodup_append] at hnodup
  refine List.lookup_eq_some_iff.mpr ⟨before, after, heq, ?_⟩
  intro x hx
  have hne : x.1 ≠ k := hnodup.2.2 x.1 (List.mem_map_of_mem hx) k (List.mem_cons_self ..)
  exact bne_iff_ne.mpr (Ne.symm hne)

namespace WellFormed

theorem parent_of_get? (hw : t.WellFormed) (h : t.get? (k ++ [s]) = some e) :
    t.get? k = some .directory := by
  have hmem := mem_entries_of_get? (by simp) h
  simpa using hw.parent _ hmem

/-- Whatever something lies in is a directory. -/
theorem directory_of_below (hw : t.WellFormed) (h : t.get? (k ++ w) = some e) (hne : w ≠ []) :
    t.get? k = some .directory := by
  induction w using List.reverseRecOn generalizing e with
  | nil => exact absurd rfl hne
  | append_singleton w s ih =>
    rw [← List.append_assoc] at h
    have hp := hw.parent_of_get? h
    by_cases hnil : w = []
    · simpa [hnil] using hp
    · exact ih hp hnil

theorem get?_below_none (hw : t.WellFormed) (h : t.get? k ≠ some .directory) (hne : w ≠ []) :
    t.get? (k ++ w) = none := by
  cases hget : t.get? (k ++ w) with
  | none => rfl
  | some e => exact absurd (hw.directory_of_below hget hne) h

theorem isName_of_get? (hw : t.WellFormed) (h : t.get? k = some e) : ∀ s ∈ k, IsName s := by
  by_cases hk : k = []
  · simp [hk]
  · exact hw.named _ (mem_entries_of_get? hk h)

theorem isName_below (hw : t.WellFormed) (h : t.get? (k ++ w) = some e) : ∀ s ∈ w, IsName s :=
  fun s hs => hw.isName_of_get? h s (List.mem_append_right _ hs)

/-- An entry is put into a directory, over nothing or over a file. -/
theorem put (hw : t.WellFormed) (hd : t.get? k = some .directory) (hs : IsName s)
    (hfree : t.get? (k ++ [s]) ≠ some .directory) : (t.put (k ++ [s]) e).WellFormed := by
  have hmem : ∀ x ∈ (t.put (k ++ [s]) e).entries,
      x = (k ++ [s], e) ∨ x ∈ t.entries ∧ x.1 ≠ k ++ [s] := by
    intro x hx
    rcases List.mem_cons.mp hx with rfl | hx
    · exact Or.inl rfl
    · exact Or.inr ⟨(List.mem_filter.mp hx).1, of_decide_eq_true (List.mem_filter.mp hx).2⟩
  have hdir : ∀ d : Location, t.get? d = some .directory →
      (t.put (k ++ [s]) e).get? d = some .directory := by
    intro d hget
    rw [get?_put]
    split_ifs with h1 h2
    · rfl
    · exact absurd (h2 ▸ hget) hfree
    · exact hget
  refine ⟨?_, ?_, ?_, ?_⟩
  · have hsub : ((t.entries.filter fun x => x.1 ≠ k ++ [s]).map Prod.fst).Nodup :=
      hw.nodup.sublist (List.filter_sublist.map _)
    refine List.nodup_cons.mpr ⟨?_, hsub⟩
    intro hin
    obtain ⟨x, hx, heq⟩ := List.mem_map.mp hin
    exact of_decide_eq_true (List.mem_filter.mp hx).2 heq
  · intro x hx
    rcases hmem x hx with rfl | ⟨hx, -⟩
    · simp
    · exact hw.not_root x hx
  · intro x hx
    rcases hmem x hx with rfl | ⟨hx, -⟩
    · intro n hn
      rcases List.mem_append.mp hn with hn | hn
      · exact hw.isName_of_get? hd n hn
      · exact List.mem_singleton.mp hn ▸ hs
    · exact hw.named x hx
  · intro x hx
    rcases hmem x hx with rfl | ⟨hx, -⟩
    · exact hdir _ (by simpa using hd)
    · exact hdir _ (hw.parent x hx)

/-- An entry with nothing below it is taken away. -/
theorem erase (hw : t.WellFormed) (hempty : ∀ s, t.get? (k ++ [s]) = none) :
    (t.erase k).WellFormed := by
  have hmem : ∀ x ∈ (t.erase k).entries, x ∈ t.entries := fun x hx => (List.mem_filter.mp hx).1
  refine ⟨hw.nodup.sublist (List.filter_sublist.map _), fun x hx => hw.not_root x (hmem x hx),
    fun x hx => hw.named x (hmem x hx), ?_⟩
  intro x hx
  have hget := hw.parent x (hmem x hx)
  rw [get?_erase]
  split_ifs with h1 h2
  · rfl
  · have hx' : x.1 = k ++ [x.1.getLast (hw.not_root x (hmem x hx))] := by
      rw [← h2]
      exact (List.dropLast_concat_getLast _).symm
    have hsome := get?_of_mem_entries hw (hmem x hx)
    rw [hx', hempty] at hsome
    exact absurd hsome (by simp)
  · exact hget

end WellFormed

/-- The ways down from a location lead to the entries whose locations begin with it. -/
theorem mem_below_iff (hw : t.WellFormed) :
    (w, e) ∈ t.below l ↔ w ≠ [] ∧ t.get? (l ++ w) = some e := by
  simp only [below, List.mem_filterMap, Prod.exists, Option.ite_none_right_eq_some,
    Bool.and_eq_true, List.isPrefixOf_iff_prefix, decide_eq_true_eq, Option.some.injEq,
    Prod.mk.injEq]
  constructor
  · rintro ⟨k, e', hmem, ⟨⟨w', rfl⟩, hlt⟩, hdrop, rfl⟩
    rw [List.drop_left] at hdrop
    subst hdrop
    refine ⟨?_, get?_of_mem_entries hw hmem⟩
    rintro rfl
    simp at hlt
  · rintro ⟨hne, hget⟩
    refine ⟨l ++ w, e, mem_entries_of_get? (by simp [hne]) hget, ⟨List.prefix_append l w, ?_⟩,
      List.drop_left, rfl⟩
    have := List.length_pos_iff.mpr hne
    simp only [List.length_append]
    omega

theorem mem_namesIn_iff (hw : t.WellFormed) : s ∈ t.namesIn l ↔ ∃ e, t.get? (l ++ [s]) = some e := by
  simp only [namesIn, List.mem_filterMap, Prod.exists]
  constructor
  · rintro ⟨way, e, hmem, hway⟩
    have hget := ((mem_below_iff hw).mp hmem).2
    split at hway
    · rw [Option.some.inj hway] at hget
      exact ⟨e, hget⟩
    · simp at hway
  · rintro ⟨e, hget⟩
    exact ⟨[s], e, (mem_below_iff hw).mpr ⟨by simp, hget⟩, rfl⟩

theorem WellFormed.isName_of_mem_namesIn (hw : t.WellFormed) (h : s ∈ t.namesIn l) : IsName s := by
  obtain ⟨e, hget⟩ := (mem_namesIn_iff hw).mp h
  exact hw.isName_below hget s (List.mem_singleton_self s)

end FileTree

end CrudBackend
