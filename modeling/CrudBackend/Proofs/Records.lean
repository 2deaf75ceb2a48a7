import CrudBackend.Json.Reader
import CrudBackend.Proofs.Descriptors
import Mathlib.Data.List.Perm.Basic
import Mathlib.Logic.Relation

/-!
What a record takes from an object or from an array. The objects of a text have no key twice, so each
field is filled from the one member with its key, and it does not matter in which order the members
stand or what else there is. An array is read as the object whose members are its items under the
fields of the record in order.
-/

namespace CrudBackend.Json

/-! ### Members by key -/

section Members

variable {β : Type} {key : String} {b : β} {entries entries' : List (String × β)}

theorem lookup_cons_of_ne {other : String} (h : other ≠ key) :
    ((other, b) :: entries).lookup key = entries.lookup key := by
  rw [List.lookup_cons, beq_eq_false_iff_ne.mpr h.symm]

theorem lookup_eq_some_iff_mem (h : (entries.map Prod.fst).Nodup) :
    entries.lookup key = some b ↔ (key, b) ∈ entries := by
  induction entries with
  | nil => simp
  | cons entry rest ih =>
    obtain ⟨key', b'⟩ := entry
    rw [List.map_cons, List.nodup_cons] at h
    by_cases hkey : key = key'
    · subst hkey
      rw [List.lookup_cons_self, Option.some_inj, List.mem_cons, Prod.mk.injEq]
      constructor
      · rintro rfl
        exact Or.inl ⟨rfl, rfl⟩
      · rintro (⟨-, rfl⟩ | hmem)
        · rfl
        · exact absurd (List.mem_map_of_mem hmem) h.1
    · rw [lookup_cons_of_ne (Ne.symm hkey), ih h.2]
      simp [hkey]

theorem lookup_eq_of_perm (h : (entries.map Prod.fst).Nodup) (hperm : entries.Perm entries')
    (key : String) : entries.lookup key = entries'.lookup key := by
  have h' : (entries'.map Prod.fst).Nodup := (hperm.map Prod.fst).nodup_iff.mp h
  apply Option.ext
  intro b
  rw [lookup_eq_some_iff_mem h, lookup_eq_some_iff_mem h', hperm.mem_iff]

theorem lookup_filter {p : String → Bool} (h : p key = true) (entries : List (String × β)) :
    (entries.filter fun (k, _) => p k).lookup key = entries.lookup key := by
  induction entries with
  | nil => rfl
  | cons entry rest ih =>
    obtain ⟨k, b⟩ := entry
    by_cases hk : k = key
    · subst hk
      rw [List.filter_cons_of_pos (by simpa using h), List.lookup_cons_self, List.lookup_cons_self]
    · rw [lookup_cons_of_ne hk, ← ih]
      by_cases hp : p k = true
      · rw [List.filter_cons_of_pos (by simpa using hp), lookup_cons_of_ne hk]
      · rw [List.filter_cons_of_neg (by simpa using hp)]

end Members

/-- The value that an object has under a key; a member that is missing counts as null. -/
def valueAt (key : String) (members : List (String × Json)) : Json :=
  (member? key members).getD .null

/-- The members that a record is filled from. The items of an array stand under its fields in order. -/
def entriesOf (shape : RecordShape) : Json → List (String × Json)
  | .object members => members
  | .array items => shape.fields.zip items
  | _ => []

/-! ### Texts -/

inductive Keyed : Json → Prop
  | null : Keyed .null
  | bool (b : Bool) : Keyed (.bool b)
  | number (n : Number) : Keyed (.number n)
  | string (s : String) : Keyed (.string s)
  | array {items : List Json} (hitems : ∀ v ∈ items, Keyed v) : Keyed (.array items)
  | object {members : List (String × Json)} (hkeys : (members.map Prod.fst).Nodup)
      (hvalues : ∀ m ∈ members, Keyed m.2) : Keyed (.object members)

def Frame.Keyed : Frame → Prop
  | .array items => Json.Keyed (.array items)
  | .member members _ => Json.Keyed (.object members)

def Reading.Keyed : Reading → Prop
  | .value stack => ∀ f ∈ stack, f.Keyed
  | .firstItem stack => ∀ f ∈ stack, f.Keyed
  | .firstKey stack => ∀ f ∈ stack, f.Keyed
  | .nextKey members stack => Json.Keyed (.object members) ∧ ∀ f ∈ stack, f.Keyed
  | .colon members _ stack => Json.Keyed (.object members) ∧ ∀ f ∈ stack, f.Keyed
  | .complete v stack => v.Keyed ∧ ∀ f ∈ stack, f.Keyed

variable {key : String} {v : Json} {members : List (String × Json)} {items : List Json}
  {stack : List Frame} {r r' : Reading} {t : Token}

theorem Keyed.empty : Keyed (.object []) := .object List.nodup_nil (List.forall_mem_nil _)

theorem Keyed.putMember (h : Keyed (.object members)) (hv : Keyed v) (key : String) :
    Keyed (.object (putMember members key v)) := by
  cases h with
  | object hkeys hvalues =>
    unfold Json.putMember
    split
    · refine .object ?_ ?_
      · rw [List.map_map, List.map_congr_left (g := Prod.fst)]
        · exact hkeys
        · intro m _
          dsimp only [Function.comp]
          split <;> rfl
      · rw [List.forall_mem_map]
        intro m hm
        dsimp only
        split
        · exact hv
        · exact hvalues m hm
    · next hnew =>
      refine .object ?_ ?_
      · rw [List.map_append, List.nodup_append]
        refine ⟨hkeys, by simp, ?_⟩
        intro k hk k' hk'
        obtain ⟨m, hm, rfl⟩ := List.mem_map.mp hk
        rw [List.mem_singleton.mp hk']
        rintro rfl
        exact hnew (List.any_eq_true.mpr ⟨m, hm, by simp⟩)
      · rw [List.forall_mem_append]
        exact ⟨hvalues, by simpa using hv⟩

theorem Keyed.cons (h : Keyed (.array items)) (hv : Keyed v) : Keyed (.array (v :: items)) := by
  cases h with
  | array hitems => exact .array (List.forall_mem_cons.mpr ⟨hv, hitems⟩)

theorem Keyed.reverse (h : Keyed (.array items)) : Keyed (.array items.reverse) := by
  cases h with
  | array hitems => exact .array fun v hv => hitems v (List.mem_reverse.mp hv)

namespace Reading

theorem keyed_start (hstack : ∀ f ∈ stack, f.Keyed) (h : start stack t = some r) : r.Keyed := by
  unfold start at h
  split at h
  · cases h
    exact ⟨.null, hstack⟩
  · cases h
    exact ⟨.bool _, hstack⟩
  · cases h
    exact ⟨.number _, hstack⟩
  · cases h
    exact ⟨.string _, hstack⟩
  · split_ifs at h
    cases h
    exact hstack
  · split_ifs at h
    cases h
    exact hstack
  · cases h

theorem keyed_proceed (hv : v.Keyed) (hstack : ∀ f ∈ stack, f.Keyed)
    (h : proceed v stack t = some r) : r.Keyed := by
  unfold proceed at h
  split at h
  · cases h
    obtain ⟨hitems, hstack⟩ := List.forall_mem_cons.mp hstack
    exact List.forall_mem_cons.mpr ⟨Json.Keyed.cons hitems hv, hstack⟩
  · cases h
    obtain ⟨hitems, hstack⟩ := List.forall_mem_cons.mp hstack
    exact ⟨Json.Keyed.reverse (Json.Keyed.cons hitems hv), hstack⟩
  · cases h
    obtain ⟨hmembers, hstack⟩ := List.forall_mem_cons.mp hstack
    exact ⟨Json.Keyed.putMember hmembers hv _, hstack⟩
  · cases h
    obtain ⟨hmembers, hstack⟩ := List.forall_mem_cons.mp hstack
    exact ⟨Json.Keyed.putMember hmembers hv _, hstack⟩
  · cases h

/-- What one token is read on keeps its keys apart. -/
theorem keyed_step (hr : r.Keyed) (h : step r t = some r') : r'.Keyed := by
  have hnone := Json.Keyed.empty
  have hempty : Json.Keyed (.array []) := .array (List.forall_mem_nil _)
  unfold step at h
  split at h
  · exact keyed_start hr h
  · cases h
    exact ⟨hempty, hr⟩
  · have hframe : Frame.Keyed (.array []) := hempty
    exact keyed_start (List.forall_mem_cons.mpr ⟨hframe, hr⟩) h
  · cases h
    exact ⟨hnone, hr⟩
  · cases h
    exact ⟨hnone, hr⟩
  · cases h
    exact hr
  · cases h
    exact List.forall_mem_cons.mpr hr
  · exact keyed_proceed hr.1 hr.2 h
  · cases h

theorem keyed_foldlM {tokens : List Token} (hr : r.Keyed) (h : tokens.foldlM step r = some r') :
    r'.Keyed := by
  induction tokens generalizing r with
  | nil =>
    cases h
    exact hr
  | cons t rest ih =>
    rw [List.foldlM_cons] at h
    obtain ⟨next, hnext, h⟩ := Option.bind_eq_some_iff.mp h
    exact ih (keyed_step hr hnext) h

end Reading

/-- The objects of a text have no key twice. -/
theorem keyed_of_parse? {text : String} (h : parse? text = some v) : v.Keyed := by
  obtain ⟨tokens, -, h⟩ := Option.bind_eq_some_iff.mp h
  obtain ⟨r, hfold, h⟩ := Option.bind_eq_some_iff.mp h
  have hstart : (Reading.value []).Keyed := List.forall_mem_nil _
  have hr := Reading.keyed_foldlM hstart hfold
  split at h
  · cases h
    exact hr.1
  · cases h

/-! ### Changes of an object -/

theorem Keyed.valueAt (h : Keyed (.object members)) (key : String) : Keyed (valueAt key members) := by
  cases h with
  | object hkeys hvalues =>
    unfold Json.valueAt
    cases hmember : member? key members with
    | none => exact .null
    | some v => exact hvalues _ ((lookup_eq_some_iff_mem hkeys).mp hmember)

/-- A change of an object that leaves alone what stands under a key, or, if a key within is given,
what stands under that key in the object that stands there. Another key gets a value or is taken out,
or the members change places. An object within that is missing or null counts as an empty one. -/
inductive Edit : String → Option String → List (String × Json) → List (String × Json) → Prop
  | put {key other : String} {within? : Option String} {members : List (String × Json)} {v : Json}
      (hother : other ≠ key) (hv : v.Keyed) :
      Edit key within? members (Json.putMember members other v)
  | remove {key other : String} {within? : Option String} {members : List (String × Json)}
      (hother : other ≠ key) : Edit key within? members (members.filter fun m => m.1 ≠ other)
  | reorder {key : String} {within? : Option String} {members members' : List (String × Json)}
      (hperm : members.Perm members') : Edit key within? members members'
  | within {key inside : String} {members inner inner' : List (String × Json)}
      (hinner : valueAt key members = .object inner ∨ valueAt key members = .null ∧ inner = [])
      (hedit : Edit inside none inner inner') :
      Edit key (some inside) members (Json.putMember members key (.object inner'))

variable {members' inner : List (String × Json)} {other : String} {within? : Option String}

theorem lookup_map_value (members : List (String × Json)) (key k : String) (v : Json) :
    (members.map fun (k, old) => if k == key then (k, v) else (k, old)).lookup k =
      (members.lookup k).map fun old => if k = key then v else old := by
  induction members with
  | nil => rfl
  | cons m rest ih =>
    obtain ⟨k', old⟩ := m
    have hhead : (if k' == key then (k', v) else (k', old)) = (k', if k' = key then v else old) := by
      by_cases hk : k' = key <;> simp [hk]
    rw [List.map_cons]
    dsimp only
    rw [hhead]
    by_cases hk : k' = k
    · subst hk
      rw [List.lookup_cons_self, List.lookup_cons_self, Option.map_some]
    · rw [lookup_cons_of_ne hk, lookup_cons_of_ne hk, ih]

theorem member?_putMember (members : List (String × Json)) (key k : String) (v : Json) :
    member? k (putMember members key v) = if k = key then some v else member? k members := by
  unfold member? putMember
  split
  · next hany =>
    rw [lookup_map_value]
    split_ifs with hk
    · subst hk
      obtain ⟨m, hm, hkey⟩ := List.any_eq_true.mp hany
      cases hlookup : members.lookup k with
      | none =>
        have hne := List.lookup_eq_none_iff.mp hlookup m hm
        simp [beq_iff_eq.mp hkey] at hne
      | some old => rfl
    · rw [Option.map_id']
  · next hnew =>
    rw [List.lookup_append]
    split_ifs with hk
    · subst hk
      have hnone : members.lookup k = none := by
        rw [List.lookup_eq_none_iff]
        intro m hm
        exact bne_iff_ne.mpr fun heq => hnew (List.any_eq_true.mpr ⟨m, hm, by simp [heq]⟩)
      rw [hnone, List.lookup_cons_self]
      rfl
    · rw [lookup_cons_of_ne (Ne.symm hk)]
      simp

theorem Edit.keyed (h : Edit key within? members members') (hmembers : Keyed (.object members)) :
    Keyed (.object members') := by
  induction h with
  | put _ hv => exact hmembers.putMember hv _
  | remove _ =>
    cases hmembers with
    | object hkeys hvalues =>
      exact .object (hkeys.sublist (List.filter_sublist.map _))
        fun m hm => hvalues m (List.mem_of_mem_filter hm)
  | reorder hperm =>
    cases hmembers with
    | object hkeys hvalues =>
      exact .object ((hperm.map Prod.fst).nodup_iff.mp hkeys)
        fun m hm => hvalues m (hperm.mem_iff.mpr hm)
  | @within key _ _ _ _ hinner _ ih =>
    refine hmembers.putMember (ih ?_) _
    rcases hinner with hobject | ⟨-, rfl⟩
    · rw [← hobject]
      exact hmembers.valueAt key
    · exact .empty

/-- The value at the key is the same after an edit. -/
theorem Edit.valueAt_eq (h : Edit key none members members') (hmembers : Keyed (.object members)) :
    valueAt key members' = valueAt key members := by
  cases h with
  | put hother _ => rw [valueAt, member?_putMember, if_neg hother.symm, valueAt]
  | @remove _ other _ _ hother =>
    have hkept := lookup_filter (p := fun k => decide (k ≠ other)) (by simpa using hother.symm) members
    exact congrArg (Option.getD · Json.null) hkept
  | reorder hperm =>
    cases hmembers with
    | object hkeys _ =>
      exact congrArg (Option.getD · Json.null) (lookup_eq_of_perm hkeys hperm key).symm

/-- The value at the key within is the same after an edit. -/
theorem Edit.valueAt_within_eq {inside : String} (h : Edit key (some inside) members members')
    (hmembers : Keyed (.object members)) (shape : RecordShape) :
    valueAt inside (entriesOf shape (valueAt key members')) =
      valueAt inside (entriesOf shape (valueAt key members)) := by
  cases h with
  | put hother hv =>
    rw [Edit.valueAt_eq (.put hother hv) hmembers]
  | remove hother =>
    rw [Edit.valueAt_eq (.remove hother) hmembers]
  | reorder hperm =>
    rw [Edit.valueAt_eq (.reorder hperm) hmembers]
  | @within _ _ _ inner inner' hinner hedit =>
    have hnew : valueAt key (Json.putMember members key (.object inner')) = .object inner' := by
      rw [valueAt, member?_putMember, if_pos rfl]
      rfl
    have hold : entriesOf shape (valueAt key members) = inner ∧ Keyed (.object inner) := by
      rcases hinner with hobject | ⟨hnull, rfl⟩
      · rw [hobject]
        exact ⟨rfl, hobject ▸ hmembers.valueAt key⟩
      · rw [hnull]
        exact ⟨rfl, .empty⟩
    rw [hnew, hold.1]
    exact hedit.valueAt_eq hold.2

/-- What no edit changes is the same after any number of them. -/
theorem Edit.eq_of_edits {β : Type} {f : List (String × Json) → β}
    (hstep : ∀ {members members'}, Keyed (.object members) → Edit key within? members members' →
      f members' = f members)
    (hmembers : Keyed (.object members))
    (h : Relation.ReflTransGen (Edit key within?) members members') : f members' = f members := by
  -- the keys must stay apart on the way, or a later step could not be taken
  have hall : Keyed (.object members') ∧ f members' = f members := by
    induction h with
    | refl => exact ⟨hmembers, rfl⟩
    | tail _ hedit ih => exact ⟨hedit.keyed ih.1, (hstep ih.1 hedit).trans ih.2⟩
  exact hall.2

/-! ### Records -/

section Records

variable {α β : Type} {shape : RecordShape} {blank r r' : α}
  {put : α → String → Json → Except ShapeFault α} {read : Json → Except ShapeFault β}
  {get : α → Option β} {entries : List (String × Json)}

/-- The key gives this field of the record its value, which may be null, and no other key does. -/
def Fills (put : α → String → Json → Except ShapeFault α) (key : String)
    (read : Json → Except ShapeFault β) (get : α → Option β) : Prop :=
  ∀ r k v r', put r k v = .ok r' →
    if k = key then optional read v = .ok (get r') else get r' = get r

/-- A value that is read for one key and put into a record is compared with one of its fields. -/
theorem fills_of_bind {γ : Type} {k : String} {value : Except ShapeFault γ} {set : γ → α}
    (hset : ∀ x, value = .ok x →
      if k = key then optional read v = .ok (get (set x)) else get (set x) = get r)
    (h : (value >>= fun x => pure (set x)) = .ok r') :
    if k = key then optional read v = .ok (get r') else get r' = get r := by
  obtain ⟨x, hx, h⟩ := bindExcept_eq_ok.mp h
  cases h
  exact hset x hx

/-- A field is filled from the member with its key, wherever it stands. -/
theorem Fills.foldlM (hfills : Fills put key read get) (hkeys : (entries.map Prod.fst).Nodup)
    (h : entries.foldlM (fun r (key, v) => put r key v) r = .ok r') :
    match entries.lookup key with
    | some v => optional read v = .ok (get r')
    | none => get r' = get r := by
  induction entries generalizing r with
  | nil =>
    cases h
    rfl
  | cons entry rest ih =>
    obtain ⟨k, v⟩ := entry
    rw [List.map_cons, List.nodup_cons] at hkeys
    rw [List.foldlM_cons] at h
    obtain ⟨next, hput, h⟩ := bindExcept_eq_ok.mp h
    have hnext := hfills r k v next hput
    have hrest := ih hkeys.2 h
    by_cases hk : k = key
    · subst hk
      have hlookup : rest.lookup k = none := by
        rw [List.lookup_eq_none_iff]
        intro m hm
        exact bne_iff_ne.mpr fun heq => hkeys.1 (List.mem_map.mpr ⟨m, hm, heq.symm⟩)
      rw [hlookup] at hrest
      rw [if_pos rfl] at hnext
      rw [List.lookup_cons_self]
      dsimp only at hrest ⊢
      rw [hrest, hnext]
    · rw [if_neg hk] at hnext
      rw [lookup_cons_of_ne hk]
      cases hlookup : rest.lookup key with
      | some w =>
        rw [hlookup] at hrest
        exact hrest
      | none =>
        rw [hlookup] at hrest
        exact hrest.trans hnext

/-- Whether a record is written as an object or as an array, a field has the value at its key. -/
theorem Fills.of_asRecord (hfills : Fills put key read get) (hkey : key ∈ shape.fields)
    (hfields : shape.fields.Nodup) (hblank : get blank = none) (hv : v.Keyed)
    (h : asRecord shape blank put v = .ok r) :
    optional read (valueAt key (entriesOf shape v)) = .ok (get r) := by
  have hfilled : ∀ entries : List (String × Json), (entries.map Prod.fst).Nodup →
      entries.foldlM (fun r (key, v) => put r key v) blank = .ok r →
      optional read ((entries.lookup key).getD .null) = .ok (get r) := by
    intro entries hkeys hfold
    have hfield := hfills.foldlM hkeys hfold
    cases hlookup : entries.lookup key with
    | some w =>
      rw [hlookup] at hfield
      exact hfield
    | none =>
      rw [hlookup] at hfield
      exact congrArg Except.ok (hfield.trans hblank).symm
  cases v with
  | object members =>
    rw [asRecord] at h
    obtain ⟨filled, hfold, h⟩ := bindExcept_eq_ok.mp h
    split at h
    · cases h
    · cases h
      cases hv with
      | object hkeys _ =>
        have hknown := hfilled _ (hkeys.sublist (List.filter_sublist.map _)) hfold
        rwa [lookup_filter (p := shape.fields.contains) (List.contains_iff_mem.mpr hkey)] at hknown
  | array items =>
    rw [asRecord] at h
    obtain ⟨filled, hfold, h⟩ := bindExcept_eq_ok.mp h
    split_ifs at h with hfew hmany
    cases h
    refine hfilled (shape.fields.zip items) ?_ hfold
    rw [List.map_fst_zip (Nat.not_lt.mp hfew)]
    exact hfields
  | _ => cases h

/-- So it is for a record that may be null, in which case all of its fields are. -/
theorem Fills.of_optional (hfills : Fills put key read get) (hkey : key ∈ shape.fields)
    (hfields : shape.fields.Nodup) (hblank : get blank = none) (hv : v.Keyed) {o : Option α}
    (h : optional (asRecord shape blank put) v = .ok o) :
    optional read (valueAt key (entriesOf shape v)) = .ok (get (o.getD blank)) := by
  unfold optional at h
  split at h
  · cases h
    exact congrArg Except.ok hblank.symm
  · cases hread : asRecord shape blank put v with
    | error fault =>
      rw [hread] at h
      cases h
    | ok r =>
      rw [hread] at h
      cases h
      exact hfills.of_asRecord hkey hfields hblank hv hread

end Records

end CrudBackend.Json
