import CrudBackend.Proofs.Names
import Mathlib.Algebra.Group.Nat.Defs
import Mathlib.Data.Finset.Card

/-!
Reserving names one after the other. A name that is taken gets an ending, and the search for one
comes to an end: each try that fails is a name that is taken, and no two tries are equal before the
counter overflows. So it takes 2 ^ 31 names at least to exhaust the search. What is reserved otherwise
depends only on which names are taken, and from then on it is taken as well.
-/

namespace CrudBackend.Naming

/-- The ending is the least one, from one on, that makes the name free. -/
structure LeastFree (taken : List String) (name : String) (k : Nat) : Prop where
  pos : 1 ≤ k
  free : numbered name k ∉ taken
  least : ∀ j, 1 ≤ j → j < k → numbered name j ∈ taken

/-- The name is taken, and so are all its endings up to the number that the counter overflows at. -/
structure Exhausted (taken : List String) (name : String) : Prop where
  name_mem : name ∈ taken
  endings_mem : ∀ k, 1 ≤ k → k < 2 ^ 31 → numbered name k ∈ taken

/-- Names are reserved one after the other, and each is taken from then on, as the only one in
addition. Lists of names that are taken stand for sets. -/
inductive Calls (o : Overflow) : List String → List String → List String → List String → Prop
  | nil {taken after : List String} (hsame : ∀ x, x ∈ after ↔ x ∈ taken) : Calls o taken [] [] after
  | cons {taken next after names results : List String} {name result : String}
      (hreserves : Reserves o taken name (some result))
      (hadds : ∀ x, x ∈ next ↔ x = result ∨ x ∈ taken)
      (hrest : Calls o next names results after) :
      Calls o taken (name :: names) (result :: results) after

variable {o : Overflow} {taken taken' names : List String} {name result : String}
  {outcome : Option String} {k : Nat}

/-! ### The least free ending -/

theorem numbered_ne (name : String) (k : Nat) : numbered name k ≠ name := by
  intro h
  have hlen := congrArg String.length h
  have hbar : "_".length = 1 := rfl
  rw [numbered, String.length_append, String.length_append] at hlen
  omega

theorem freeName_of_not_mem (h : name ∉ taken) : freeName taken name = name := by
  rw [freeName, if_neg (mt List.contains_iff_mem.mp h)]

theorem exists_leastFree (h : name ∈ taken) :
    ∃ k, LeastFree taken name k ∧ freeName taken name = numbered name k := by
  have hfind : freeName taken name =
      (((List.range' 1 (taken.length + 1)).find? fun k => !taken.contains (numbered name k)).map
        (numbered name)).getD name := by
    rw [freeName, if_pos (List.contains_iff_mem.mpr h), candidates, List.find?_map]
    rfl
  cases hk : (List.range' 1 (taken.length + 1)).find? fun k => !taken.contains (numbered name k) with
  | none =>
    obtain ⟨candidate, hmem, hfree⟩ := exists_free_candidate taken name
    obtain ⟨k, hrange, rfl⟩ := List.mem_map.mp hmem
    exact absurd (List.find?_eq_none.mp hk k hrange) (by simpa using hfree)
  | some k =>
    obtain ⟨hfree, hrange, hleast⟩ := List.find?_range'_eq_some.mp hk
    refine ⟨k, ⟨(List.mem_range'_1.mp hrange).1, by simpa using hfree, fun j hpos hj => ?_⟩, ?_⟩
    · simpa using hleast j hpos hj
    · rw [hfind, hk]
      rfl

/-- A name and its endings below a number are all different, so as many are taken at least. -/
theorem le_card_of_taken (hpos : 1 ≤ k) (hname : name ∈ taken)
    (htaken : ∀ j, 1 ≤ j → j < k → numbered name j ∈ taken) : k ≤ taken.toFinset.card := by
  let tried := name :: (List.range' 1 (k - 1)).map (numbered name)
  have hnodup : tried.Nodup := by
    refine List.nodup_cons.mpr ⟨?_, List.Nodup.map (numbered_injective name) List.nodup_range'⟩
    intro hmem
    obtain ⟨j, -, hj⟩ := List.mem_map.mp hmem
    exact numbered_ne name j hj
  have htried : ∀ other ∈ tried, other ∈ taken := by
    refine List.forall_mem_cons.mpr ⟨hname, List.forall_mem_map.mpr fun j hj => ?_⟩
    obtain ⟨hpos, hlt⟩ := List.mem_range'_1.mp hj
    exact htaken j hpos (by omega)
  have hlen : tried.length = k := by
    simp only [tried, List.length_cons, List.length_map, List.length_range']
    omega
  rw [← hlen, ← List.toFinset_card_of_nodup hnodup]
  refine Finset.card_le_card fun other hother => ?_
  rw [List.mem_toFinset] at hother ⊢
  exact htried other hother

theorem LeastFree.le_card (h : LeastFree taken name k) (hname : name ∈ taken) :
    k ≤ taken.toFinset.card :=
  le_card_of_taken h.pos hname h.least

theorem Exhausted.le_card (h : Exhausted taken name) : 2 ^ 31 ≤ taken.toFinset.card :=
  le_card_of_taken (by omega) h.name_mem h.endings_mem

theorem LeastFree.lt_of_not_exhausted (h : LeastFree taken name k) (hname : name ∈ taken)
    (hroom : ¬ Exhausted taken name) : k < 2 ^ 31 := by
  by_contra! hle
  exact hroom ⟨hname, fun j hpos hj => h.least j hpos (by omega)⟩

theorem LeastFree.unique {j : Nat} (h : LeastFree taken name j) (h' : LeastFree taken name k) :
    j = k := by
  rcases Nat.lt_trichotomy j k with hlt | heq | hlt
  · exact absurd (h'.least j h.pos hlt) h.free
  · exact heq
  · exact absurd (h.least k h'.pos hlt) h'.free

/-! ### The search -/

/-- Until it overflows, the counter stands for the number that it has come to. -/
theorem counted_ofNat (name : String) (hk : k < 2 ^ 31) :
    counted name (Int32.ofNat k) = numbered name k := by
  rw [counted, Int32.toInt_ofNat_of_lt hk]
  rfl

theorem maxValue_eq : Int32.maxValue = Int32.ofNat (2 ^ 31 - 1) := by decide

theorem next_ofNat (o : Overflow) (hk : k + 1 < 2 ^ 31) :
    o.next (Int32.ofNat k) = some (Int32.ofNat (k + 1)) := by
  have hmax : Int32.ofNat k ≠ Int32.maxValue := by
    intro heq
    have hint := congrArg Int32.toInt heq
    rw [Int32.toInt_ofNat_of_lt (by omega), Int32.toInt_maxValue] at hint
    omega
  unfold Overflow.next
  rw [if_neg hmax, Int32.ofNat_add]
  rfl

theorem search_iff_of_free {k : Int32} (hfree : counted name k ∉ taken) :
    Search o taken name k outcome ↔ outcome = some (counted name k) := by
  constructor
  · rintro (- | ⟨htaken, -⟩ | htaken)
    · rfl
    · exact absurd htaken hfree
    · exact absurd htaken hfree
  · rintro rfl
    exact .found hfree

theorem search_iff_of_next {k j : Int32} (htaken : counted name k ∈ taken)
    (hnext : o.next k = some j) :
    Search o taken name k outcome ↔ Search o taken name j outcome := by
  constructor
  · rintro (hfree | ⟨-, hnext', hrest⟩ | ⟨-, hnext'⟩)
    · exact absurd htaken hfree
    · rw [hnext] at hnext'
      cases hnext'
      exact hrest
    · rw [hnext] at hnext'
      cases hnext'
  · exact .next htaken hnext

theorem search_iff_of_stopped {k : Int32} (htaken : counted name k ∈ taken)
    (hnext : o.next k = none) : Search o taken name k outcome ↔ outcome = none := by
  constructor
  · rintro (hfree | ⟨-, hnext', -⟩ | -)
    · exact absurd htaken hfree
    · rw [hnext] at hnext'
      cases hnext'
    · rfl
  · rintro rfl
    exact .stopped htaken hnext

/-- Where all endings up to a number are taken, the search goes on with that number. -/
theorem search_iff_of_taken (hpos : 1 ≤ k) (hk : k < 2 ^ 31)
    (htaken : ∀ j, 1 ≤ j → j < k → numbered name j ∈ taken) :
    Search o taken name 1 outcome ↔ Search o taken name (Int32.ofNat k) outcome := by
  induction k, hpos using Nat.le_induction with
  | base => exact Iff.rfl
  | succ k hpos ih =>
    have hmem : counted name (Int32.ofNat k) ∈ taken := by
      rw [counted_ofNat name (by omega)]
      exact htaken k hpos (by omega)
    rw [ih (by omega) fun j hj hlt => htaken j hj (by omega),
      search_iff_of_next hmem (next_ofNat o hk)]

theorem LeastFree.search_iff (h : LeastFree taken name k) (hk : k < 2 ^ 31) :
    Search o taken name 1 outcome ↔ outcome = some (numbered name k) := by
  have hfree : counted name (Int32.ofNat k) ∉ taken := counted_ofNat name hk ▸ h.free
  rw [search_iff_of_taken h.pos hk h.least, search_iff_of_free hfree, counted_ofNat name hk]

theorem reserves_iff_search (hname : name ∈ taken) :
    Reserves o taken name outcome ↔ Search o taken name 1 outcome := by
  constructor
  · rintro (hfree | ⟨-, hsearch⟩)
    · exact absurd hname hfree
    · exact hsearch
  · exact .renamed hname

/-- Unless the search is exhausted, what becomes of a counter that cannot grow does not matter. -/
theorem reserves_iff (hroom : ¬ Exhausted taken name) :
    Reserves o taken name outcome ↔ outcome = some (freeName taken name) := by
  by_cases hname : name ∈ taken
  · obtain ⟨k, hk, heq⟩ := exists_leastFree hname
    rw [heq, reserves_iff_search hname, hk.search_iff (hk.lt_of_not_exhausted hname hroom)]
  · rw [freeName_of_not_mem hname]
    constructor
    · intro h
      cases h with
      | unchanged => rfl
      | renamed htaken => exact absurd htaken hname
    · rintro rfl
      exact .unchanged hname

/-! ### Exhausted searches -/

namespace Exhausted

/-- The search comes to the last number. -/
theorem reserves_iff (h : Exhausted taken name) :
    Reserves o taken name outcome ↔ Search o taken name Int32.maxValue outcome := by
  have htaken : ∀ j, 1 ≤ j → j < 2 ^ 31 - 1 → numbered name j ∈ taken := fun j hpos hj =>
    h.endings_mem j hpos (by omega)
  rw [reserves_iff_search h.name_mem, maxValue_eq,
    search_iff_of_taken (by omega) (by omega) htaken]

theorem maxValue_mem (h : Exhausted taken name) : counted name Int32.maxValue ∈ taken := by
  rw [maxValue_eq, counted_ofNat name (by omega)]
  exact h.endings_mem _ (by omega) (by omega)

theorem reserves_stops_iff (h : Exhausted taken name) :
    Reserves .stops taken name outcome ↔ outcome = none := by
  rw [h.reserves_iff, search_iff_of_stopped h.maxValue_mem (by decide)]

theorem reserves_wraps_iff (h : Exhausted taken name) :
    Reserves .wraps taken name outcome ↔ Search .wraps taken name Int32.minValue outcome := by
  rw [h.reserves_iff, search_iff_of_next h.maxValue_mem (j := Int32.minValue) (by decide)]

end Exhausted

theorem Search.not_mem {k : Int32} (h : Search o taken name k outcome) (result : String)
    (hresult : outcome = some result) : result ∉ taken := by
  induction h with
  | found hfree =>
    cases hresult
    exact hfree
  | next _ _ _ ih => exact ih hresult
  | stopped => cases hresult

theorem Reserves.not_mem (h : Reserves o taken name (some result)) : result ∉ taken := by
  cases h with
  | unchanged hfree => exact hfree
  | renamed _ hsearch => exact hsearch.not_mem result rfl

/-- A counter that wraps does not stop the search, which ends with some ending or not at all. -/
theorem Search.exists_counted {k : Int32} (h : Search .wraps taken name k outcome) :
    ∃ j, outcome = some (counted name j) ∧ counted name j ∉ taken := by
  induction h with
  | found hfree => exact ⟨_, rfl, hfree⟩
  | next _ _ _ ih => exact ih
  | @stopped k _ hnext =>
    rw [Overflow.next] at hnext
    split_ifs at hnext

theorem Exhausted.toInt_le_of_not_mem (h : Exhausted taken name) {j : Int32}
    (hfree : counted name j ∉ taken) : j.toInt ≤ 0 := by
  by_contra! hpos
  have hlt := j.toInt_lt
  refine hfree ?_
  rw [counted, show j.toInt = (j.toInt.toNat : Int) by omega]
  exact h.endings_mem j.toInt.toNat (by omega) (by omega)

/-- The digits of a number from one on are no other number. -/
theorem counted_ne_numbered {j : Int32} (hj : j.toInt ≤ 0) (hk : 1 ≤ k) :
    counted name j ≠ numbered name k := by
  intro heq
  cases hint : j.toInt with
  | ofNat m =>
    rw [counted, hint] at heq
    have hsame : m = k := numbered_injective name heq
    rw [hint] at hj
    have hnone : (m : Int) ≤ 0 := hj
    omega
  | negSucc m =>
    rw [counted, hint] at heq
    have htext : "-" ++ (m + 1).repr = k.repr := (String.append_right_inj _).mp heq
    have hsign : '-' ∈ k.repr.toList := by
      rw [← htext, String.toList_append]
      exact List.mem_append_left _ (List.mem_singleton_self _)
    rw [Nat.toList_repr] at hsign
    exact absurd (Nat.isDigit_of_mem_toDigits (by decide) (by decide) hsign) (by decide)

theorem Exhausted.exists_counted (h : Exhausted taken name)
    (hreserves : Reserves .wraps taken name outcome) :
    ∃ j : Int32, j.toInt ≤ 0 ∧ outcome = some (counted name j) := by
  obtain ⟨j, rfl, hfree⟩ := (h.reserves_wraps_iff.mp hreserves).exists_counted
  exact ⟨j, h.toInt_le_of_not_mem hfree, rfl⟩

/-- The free name is what the search ends with unless it is exhausted, whatever its counter does. -/
theorem reserves_freeName_iff :
    (∀ outcome, Reserves o taken name outcome ↔ outcome = some (freeName taken name)) ↔
      ¬ Exhausted taken name := by
  refine ⟨fun h hall => ?_, fun hroom outcome => reserves_iff hroom⟩
  have hreserves := (h _).mpr rfl
  cases o with
  | stops => cases hall.reserves_stops_iff.mp hreserves
  | wraps =>
    obtain ⟨j, hj, hcounted⟩ := hall.exists_counted hreserves
    obtain ⟨k, hk, hnumbered⟩ := exists_leastFree hall.name_mem
    rw [hnumbered] at hcounted
    exact counted_ne_numbered hj hk.pos (Option.some.inj hcounted).symm

/-! ### One name after the other -/

theorem freeName_congr (h : ∀ x, x ∈ taken ↔ x ∈ taken') (name : String) :
    freeName taken name = freeName taken' name := by
  by_cases hname : name ∈ taken
  · obtain ⟨k, hk, heq⟩ := exists_leastFree hname
    obtain ⟨j, hj, heq'⟩ := exists_leastFree ((h name).mp hname)
    have hk' : LeastFree taken' name k :=
      ⟨hk.pos, mt (h _).mpr hk.free, fun i hpos hlt => (h _).mp (hk.least i hpos hlt)⟩
    rw [heq, heq', hk'.unique hj]
  · rw [freeName_of_not_mem hname, freeName_of_not_mem (mt (h name).mpr hname)]

theorem reserveAll_congr (h : ∀ x, x ∈ taken ↔ x ∈ taken') (names : List String) :
    reserveAll taken names = reserveAll taken' names := by
  induction names generalizing taken taken' with
  | nil => rfl
  | cons name rest ih =>
    have hmore : ∀ x, x ∈ freeName taken name :: taken ↔ x ∈ freeName taken name :: taken' := by
      intro x
      rw [List.mem_cons, List.mem_cons, h x]
    rw [reserveAll, reserveAll, ← freeName_congr h, ih hmore]

/-- Whatever becomes of the counter, what calls reserve is as much as is wanted, it is all different,
and it is taken when they are over, in addition to what was taken before. -/
theorem Calls.spec {after results : List String} (h : Calls o taken names results after) :
    results.length = names.length ∧ results.Nodup ∧ (∀ name ∈ results, name ∉ taken) ∧
      ∀ x, x ∈ after ↔ x ∈ taken ∨ x ∈ results := by
  induction h with
  | nil hsame => exact ⟨rfl, List.nodup_nil, List.forall_mem_nil _, fun x => by simpa using hsame x⟩
  | @cons taken next after names results name result hreserves hadds hrest ih =>
    obtain ⟨hlen, hnodup, hfree, hafter⟩ := ih
    refine ⟨congrArg (· + 1) hlen, List.nodup_cons.mpr ⟨fun hmem => ?_, hnodup⟩,
      List.forall_mem_cons.mpr ⟨hreserves.not_mem, fun other hother htaken => ?_⟩, fun x => ?_⟩
    · exact hfree result hmem ((hadds result).mpr (Or.inl rfl))
    · exact hfree other hother ((hadds other).mpr (Or.inr htaken))
    · rw [hafter, hadds, List.mem_cons]
      tauto

theorem not_exhausted (h : taken.toFinset.card < 2 ^ 31) : ¬ Exhausted taken name := fun hall =>
  absurd hall.le_card (by omega)

/-- As long as fewer than 2 ^ 31 names are taken, the calls reserve the free names. -/
theorem calls_iff {after results : List String}
    (hroom : taken.toFinset.card + names.length ≤ 2 ^ 31) :
    Calls o taken names results after ↔
      results = reserveAll taken names ∧ ∀ x, x ∈ after ↔ x ∈ taken ∨ x ∈ results := by
  induction names generalizing taken results with
  | nil =>
    constructor
    · rintro ⟨hsame⟩
      exact ⟨rfl, fun x => by simpa using hsame x⟩
    · rintro ⟨rfl, hafter⟩
      exact .nil fun x => by simpa [reserveAll] using hafter x
  | cons name rest ih =>
    rw [List.length_cons] at hroom
    have hfirst : ¬ Exhausted taken name := not_exhausted (by omega)
    have hmore : (freeName taken name :: taken).toFinset.card + rest.length ≤ 2 ^ 31 := by
      have hcard := Finset.card_insert_le (freeName taken name) taken.toFinset
      rw [List.toFinset_cons]
      omega
    constructor
    · intro h
      obtain ⟨-, -, -, hafter⟩ := h.spec
      rcases h with _ | ⟨hreserves, hadds, hrest⟩
      obtain rfl := Option.some.inj ((reserves_iff hfirst).mp hreserves)
      have hadds' : ∀ x, x ∈ _ ↔ x ∈ freeName taken name :: taken := fun x =>
        (hadds x).trans List.mem_cons.symm
      have hsame := List.toFinset.ext hadds'
      obtain ⟨rfl, -⟩ := (ih (hsame ▸ hmore)).mp hrest
      exact ⟨by rw [reserveAll, reserveAll_congr hadds'], hafter⟩
    · rintro ⟨rfl, hafter⟩
      refine .cons ((reserves_iff hfirst).mpr rfl) (fun x => List.mem_cons)
        ((ih hmore).mpr ⟨rfl, fun x => ?_⟩)
      rw [hafter, reserveAll, List.mem_cons, List.mem_cons]
      tauto

/-- The search for a name comes to an end with the name itself if it is free, and otherwise with the
name with the least ending that makes it free, which is no greater than the number of names taken. It
does so unless the name and all its endings that the counter comes to are taken, which takes 2 ^ 31
names at least. Then a search with a checked counter is stopped without a name, and another one can
only end with an ending that is not positive. The names that calls one after the other reserve are
always as many as are wanted, all different and none of them taken before, and they and nothing else
are taken in addition; while fewer than 2 ^ 31 names are taken, they are the free ones. -/
theorem name_reservation_is_least (o : Overflow) (taken : List String) (name : String) :
    ((∀ outcome, Reserves o taken name outcome ↔ outcome = some (freeName taken name)) ↔
      ¬ Exhausted taken name) ∧
    (freeName taken name ∉ taken ∧ (name ∉ taken → freeName taken name = name) ∧
      (name ∈ taken → ∃ k, LeastFree taken name k ∧ k ≤ taken.toFinset.card ∧
        freeName taken name = numbered name k)) ∧
    (Exhausted taken name → 2 ^ 31 ≤ taken.toFinset.card ∧
      (∀ outcome, Reserves .stops taken name outcome ↔ outcome = none) ∧
      ∀ outcome, Reserves .wraps taken name outcome →
        ∃ j : Int32, j.toInt ≤ 0 ∧ outcome = some (counted name j)) ∧
    ∀ names results after,
      (Calls o taken names results after →
        results.length = names.length ∧ results.Nodup ∧ (∀ name ∈ results, name ∉ taken) ∧
        ∀ x, x ∈ after ↔ x ∈ taken ∨ x ∈ results) ∧
      (taken.toFinset.card + names.length ≤ 2 ^ 31 → (Calls o taken names results after ↔
        results = reserveAll taken names ∧ ∀ x, x ∈ after ↔ x ∈ taken ∨ x ∈ results)) := by
  refine ⟨reserves_freeName_iff, ⟨freeName_not_mem taken name, freeName_of_not_mem, fun hname => ?_⟩,
    fun hall => ⟨hall.le_card, fun outcome => hall.reserves_stops_iff,
      fun outcome => hall.exists_counted⟩,
    fun names results after => ⟨Calls.spec, calls_iff⟩⟩
  obtain ⟨k, hk, heq⟩ := exists_leastFree hname
  exact ⟨k, hk, hk.le_card hname, heq⟩

/-- An ending that was wanted as a name is passed over later, and one that was given away is not
given again. -/
theorem wanted_endings_are_passed_over :
    "A" ∈ ["A_1", "A"] ∧ (∀ o, Reserves o ["A_1", "A"] "A" (some "A_2")) ∧
    (∃ k, LeastFree ["A_1", "A"] "A" k ∧ k ≤ 2 ∧ "A_2" = numbered "A" k) ∧
    "B" ∉ ["A_1", "A"] ∧ (∀ o, Reserves o ["A_1", "A"] "B" (some "B")) ∧
    ∀ o, Calls o [] ["A", "A", "A_1", "A"] ["A", "A_1", "A_1_1", "A_2"]
      ["A", "A_1", "A_2", "A_1_1"] := by
  have hmem : "A" ∈ ["A_1", "A"] := by decide
  have hnone : "B" ∉ ["A_1", "A"] := by decide
  have hroom : ∀ name, ¬ Exhausted ["A_1", "A"] name := fun name => not_exhausted (by decide)
  have hreserves : ∀ o name, Reserves o ["A_1", "A"] name (some (freeName ["A_1", "A"] name)) :=
    fun o name => ((name_reservation_is_least o _ name).1.mpr (hroom name) _).mpr rfl
  have hfree : freeName ["A_1", "A"] "A" = "A_2" := by decide +kernel
  have hkept : freeName ["A_1", "A"] "B" = "B" :=
    (name_reservation_is_least .stops _ "B").2.1.2.1 hnone
  have hall : reserveAll [] ["A", "A", "A_1", "A"] = ["A", "A_1", "A_1_1", "A_2"] := by
    decide +kernel
  obtain ⟨k, hk, hcard, heq⟩ := (name_reservation_is_least .stops ["A_1", "A"] "A").2.1.2.2 hmem
  refine ⟨hmem, fun o => hfree ▸ hreserves o "A", ⟨k, hk, hcard, hfree ▸ heq⟩, hnone,
    fun o => hkept ▸ hreserves o "B", fun o => ?_⟩
  obtain ⟨-, -, -, hcalls⟩ := name_reservation_is_least o [] "A"
  refine ((hcalls _ _ _).2 (by decide)).mpr ⟨hall.symm, fun x => ?_⟩
  simp only [List.mem_cons, List.not_mem_nil, or_false, false_or]
  tauto

def crowd (name : String) (n : Nat) : List String :=
  name :: (List.range' 1 n).map (numbered name)

theorem exhausted_crowd (name : String) : Exhausted (crowd name 2147483647) name := by
  refine ⟨List.mem_cons_self .., fun k hpos hk => List.mem_cons_of_mem _ ?_⟩
  exact List.mem_map_of_mem (List.mem_range'_1.mpr ⟨hpos, by omega⟩)

/-- Where a name and all endings that the counter can count to are taken, there is still a least one
that is free, and it is not found: either the search is stopped, or the name gets another ending. -/
theorem crowded_names_run_out :
    LeastFree (crowd "A" 2147483647) "A" 2147483648 ∧
    (∀ outcome, Reserves .stops (crowd "A" 2147483647) "A" outcome ↔ outcome = none) ∧
    ∀ outcome, Reserves .wraps (crowd "A" 2147483647) "A" outcome ↔
      outcome = some "A_-2147483648" := by
  have hall := exhausted_crowd "A"
  have hfree : "A_-2147483648" ∉ crowd "A" 2147483647 := by
    have hplain : ∀ k, Python.isIdentifier (numbered "A" k) = true := fun k =>
      (isFunctionName_numbered_of_isIdentifier (by decide) k).identifier
    intro hmem
    rcases List.mem_cons.mp hmem with heq | hmem
    · exact absurd heq (by decide)
    · obtain ⟨k, -, heq⟩ := List.mem_map.mp hmem
      exact absurd (heq ▸ hplain k) (by decide)
  refine ⟨⟨by omega, fun hmem => ?_, fun j hpos hj => hall.endings_mem j hpos hj⟩,
    fun outcome => hall.reserves_stops_iff, fun outcome => ?_⟩
  · rcases List.mem_cons.mp hmem with heq | hmem
    · exact numbered_ne _ _ heq
    · obtain ⟨k, hk, heq⟩ := List.mem_map.mp hmem
      have hlt := (List.mem_range'_1.mp hk).2
      have hsame := numbered_injective "A" heq
      omega
  · have hleast : counted "A" Int32.minValue = "A_-2147483648" := by decide
    rw [hall.reserves_wraps_iff, search_iff_of_free (hleast ▸ hfree), hleast]

end CrudBackend.Naming
