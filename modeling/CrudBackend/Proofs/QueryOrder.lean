import CrudBackend.Artifact.Service
import CrudBackend.OrderBy
import CrudBackend.Proofs.Names
import CrudBackend.Proofs.Reading
import Mathlib.Data.List.TakeWhile

/-!
The order that an input asks for: a column, alone or with a word for the direction behind one space.
What is honoured is more than that. Two letters outside ASCII pass for the ASCII letters that they
equal up to case, in the name of a column and in the word, and a word that is spelled with one of
them never means descending. The default order goes by the columns of an entity, while its service
goes by a flag, and a declared column sets the two apart.
-/

namespace CrudBackend

namespace OrderBy

open Text

/-! ### Forms of input -/

/-- A letter outside ASCII that equals an ASCII letter up to case is spelled like that letter. -/
def spelled (c : Char) : Char :=
  if c.toNat = 0x17F then 's' else if c.toNat = 0x212A then 'k' else c

def IsWord (word text : String) : Prop := text.map Char.toLower = word

instance (word text : String) : Decidable (IsWord word text) :=
  inferInstanceAs (Decidable (_ = _))

/-- The text asks for a column and a direction if it is read in a spelling. The column and the word
for descending are looked at as they are written. -/
inductive Asks (spelling : Char → Char) : String → String → Direction → Prop where
  | column {name : String} (hname : Python.isIdentifier (name.map spelling) = true) :
      Asks spelling name name .ascending
  | directed {name word : String} (hname : Python.isIdentifier (name.map spelling) = true)
      (hword : IsWord "asc" (word.map spelling) ∨ IsWord "desc" (word.map spelling)) :
      Asks spelling (name ++ " " ++ word) name
        (if IsWord "desc" word then .descending else .ascending)

theorem startsColumn_eq (c : Char) : startsColumn c = Python.startsIdentifier (spelled c) := by
  unfold startsColumn foldsToAscii spelled Python.startsIdentifier
  by_cases hs : c.toNat = 0x17F
  · simp [hs]
  · by_cases hk : c.toNat = 0x212A <;> simp [hs, hk]

theorem continuesColumn_eq (c : Char) : continuesColumn c = Python.continuesIdentifier (spelled c) := by
  unfold continuesColumn foldsToAscii spelled Python.continuesIdentifier
  by_cases hs : c.toNat = 0x17F
  · simp [hs]
  · by_cases hk : c.toNat = 0x212A <;> simp [hs, hk]

theorem foldCase_eq (c : Char) : foldCase c = (spelled c).toLower := by
  unfold foldCase spelled
  by_cases hs : c.toNat = 0x17F
  · simp [hs]
  · by_cases hk : c.toNat = 0x212A <;> simp [hs, hk]

def IsColumn (cs : List Char) : Prop :=
  cs.head?.any startsColumn = true ∧ ∀ c ∈ cs, continuesColumn c = true

theorem isColumn_iff {name : String} :
    IsColumn name.toList ↔ Python.isIdentifier (name.map spelled) = true := by
  rw [Python.isIdentifier_iff, String.toList_map, IsColumn]
  cases name.toList <;> simp [startsColumn_eq, continuesColumn_eq]

def IsDirection (cs : List Char) : Prop :=
  cs.map foldCase = ['a', 's', 'c'] ∨ cs.map foldCase = ['d', 'e', 's', 'c']

theorem map_foldCase_eq_iff {word : String} {cs : List Char} :
    word.toList.map foldCase = cs ↔ IsWord (String.ofList cs) (word.map spelled) := by
  rw [IsWord, ← String.toList_inj, String.toList_map, String.toList_map, String.toList_ofList,
    List.map_map]
  exact Eq.congr_left (List.map_congr_left fun c _ => foldCase_eq c)

theorem directionOf_eq (word : String) :
    directionOf (some word.toList) = if IsWord "desc" word then .descending else .ascending := by
  have hword : sameAsciiLetters word.toList ['d', 'e', 's', 'c'] = true ↔ IsWord "desc" word := by
    rw [sameAsciiLetters, beq_iff_eq, IsWord, ← String.toList_inj, String.toList_map]
    rfl
  rw [directionOf]
  exact if_congr hword rfl rfl

/-- What is split is put together of a column and, if there is one, a word behind one space. -/
theorem split?_eq_some_iff {cs column : List Char} {word : Option (List Char)} :
    split? cs = some (column, word) ↔ IsColumn column ∧ (word = none ∧ cs = column ∨
      ∃ w, word = some w ∧ cs = column ++ ' ' :: w ∧ IsDirection w) := by
  have hspace : continuesColumn ' ' = false := rfl
  constructor
  · intro h
    have hall : ∀ c ∈ cs.takeWhile continuesColumn, continuesColumn c = true :=
      List.all_eq_true.mp List.all_takeWhile
    have hcs := List.takeWhile_append_dropWhile (p := continuesColumn) (l := cs)
    unfold split? at h
    dsimp only at h
    split_ifs at h with hstart
    rw [Bool.not_eq_true, Bool.not_eq_false'] at hstart
    split at h
    · next hrest =>
      cases h
      rw [hrest, List.append_nil] at hcs
      exact ⟨⟨hstart, hall⟩, Or.inl ⟨rfl, hcs.symm⟩⟩
    · next w hrest =>
      split_ifs at h with hword
      cases h
      rw [hrest] at hcs
      refine ⟨⟨hstart, hall⟩, Or.inr ⟨w, rfl, hcs.symm, ?_⟩⟩
      simpa [IsDirection] using hword
    · cases h
  · rintro ⟨⟨hstart, hall⟩, ⟨rfl, rfl⟩ | ⟨w, rfl, rfl, hword⟩⟩
    · have htake : cs.takeWhile continuesColumn = cs := List.takeWhile_eq_self_iff.mpr hall
      have hdrop : cs.dropWhile continuesColumn = [] := List.dropWhile_eq_nil_iff.mpr hall
      simp only [split?, htake, hdrop, hstart]
      rfl
    · obtain ⟨htake, hdrop⟩ := Python.span_append hall (' ' :: w) (fun _ h => by cases h; exact hspace)
      have hbool : (w.map foldCase == ['a', 's', 'c'] || w.map foldCase == ['d', 'e', 's', 'c']) =
          true := by simpa [IsDirection] using hword
      simp only [split?, htake, hdrop, hstart, hbool]
      rfl

theorem asks_iff {text name : String} {direction : Direction} :
    Asks spelled text name direction ↔
      ∃ word, split? text.toList = some (name.toList, word) ∧ direction = directionOf word := by
  constructor
  · rintro (hname | ⟨hname, hword⟩)
    · exact ⟨none, split?_eq_some_iff.mpr ⟨isColumn_iff.mpr hname, Or.inl ⟨rfl, rfl⟩⟩, rfl⟩
    · next word =>
      refine ⟨some word.toList, split?_eq_some_iff.mpr ⟨isColumn_iff.mpr hname, Or.inr
        ⟨word.toList, rfl, by simp, ?_⟩⟩, (directionOf_eq word).symm⟩
      exact hword.imp map_foldCase_eq_iff.mpr map_foldCase_eq_iff.mpr
  · rintro ⟨word, hsplit, rfl⟩
    obtain ⟨hcolumn, ⟨rfl, htext⟩ | ⟨w, rfl, htext, hword⟩⟩ := split?_eq_some_iff.mp hsplit
    · rw [String.toList_inj.mp htext]
      exact .column (isColumn_iff.mp hcolumn)
    · obtain ⟨word, rfl⟩ : ∃ word : String, w = word.toList := ⟨_, String.toList_ofList.symm⟩
      have htext : text = name ++ " " ++ word := String.toList_inj.mp (by simp [htext])
      rw [htext, directionOf_eq]
      exact .directed (isColumn_iff.mp hcolumn)
        (hword.imp map_foldCase_eq_iff.mp map_foldCase_eq_iff.mp)

/-- What is honoured asks for one of the columns, letters being taken as they are spelled. -/
theorem honoured?_eq_some_iff {input : String} {columns : List String} {order : QueryOrder} :
    honoured? input columns = some order ↔
      ∃ name direction, Asks spelled (trim input) name direction ∧ name ∈ columns ∧
        order = .by name direction := by
  simp only [honoured?, Option.bind_eq_some_iff, Prod.exists, asks_iff, trim, String.toList_ofList]
  constructor
  · rintro ⟨column, word, hsplit, horder⟩
    split_ifs at horder with hin
    cases horder
    exact ⟨String.ofList column, directionOf word, ⟨word, by rwa [String.toList_ofList], rfl⟩,
      List.contains_iff_mem.mp hin, rfl⟩
  · rintro ⟨name, direction, ⟨word, hsplit, rfl⟩, hin, rfl⟩
    refine ⟨name.toList, word, hsplit, ?_⟩
    rw [String.ofList_toList, if_pos (List.contains_iff_mem.mpr hin)]

/-! ### What is honoured -/

variable {spelling : Char → Char} {input : Option String} {columns : List String}

def Ignored (spelling : Char → Char) (input : Option String) (columns : List String) : Prop :=
  ∀ text name direction, input = some text → Asks spelling (trim text) name direction →
    name ∉ columns

/-- An input that asks for one of the columns in this spelling is honoured, and any other one, also
an absent one, is ignored. -/
structure HonouredIn (spelling : Char → Char) (input : Option String) (columns : List String) :
    Prop where
  asked : ∀ text name direction, input = some text → Asks spelling (trim text) name direction →
    name ∈ columns → resolve input columns = .by name direction
  ignored : Ignored spelling input columns → resolve input columns =
    if "created_at" ∈ columns then .by "created_at" .descending else .unordered

theorem honouredIn_spelled (input : Option String) (columns : List String) :
    HonouredIn spelled input columns := by
  constructor
  · rintro text name direction rfl hasks hin
    have hhonoured := honoured?_eq_some_iff.mpr ⟨name, direction, hasks, hin, rfl⟩
    rw [resolve, Option.bind_some, hhonoured, Option.getD_some]
  · intro hignored
    have hnone : (input.bind fun text => honoured? text columns) = none := by
      refine Option.eq_none_iff_forall_ne_some.mpr fun order horder => ?_
      obtain ⟨text, rfl, hhonoured⟩ := Option.bind_eq_some_iff.mp horder
      obtain ⟨name, direction, hasks, hin, -⟩ := honoured?_eq_some_iff.mp hhonoured
      exact hignored text name direction rfl hasks hin
    rw [resolve, hnone, Option.getD_none, fallback]
    exact if_congr List.contains_iff_mem rfl rfl

/-! ### Exactness -/

theorem map_spelled_of_kind {kind : Char → Bool} (hs : kind '\u017f' = false)
    (hk : kind '\u212a' = false) {text : String} (h : ∀ c ∈ text.toList, kind c = true) :
    text.map spelled = text := by
  have hself : ∀ c ∈ text.toList, spelled c = c := by
    intro c hc
    have hkind := h c hc
    have hne : ∀ d : Char, kind d = false → c.toNat ≠ d.toNat := by
      rintro d hd heq
      rw [Char.toNat_inj.mp heq, hd] at hkind
      cases hkind
    have hlong : c.toNat ≠ 0x17F := hne _ hs
    have hkelvin : c.toNat ≠ 0x212A := hne _ hk
    rw [spelled, if_neg hlong, if_neg hkelvin]
  rw [← String.toList_inj, String.toList_map, List.map_congr_left hself, List.map_id']

theorem map_spelled_of_isIdentifier {name : String} (h : Python.isIdentifier name = true) :
    name.map spelled = name :=
  map_spelled_of_kind rfl rfl (Python.isIdentifier_iff.mp h).2

theorem map_spelled_of_isWord {word text : String} (hs : '\u017f' ∉ word.toList)
    (hk : '\u212a' ∉ word.toList) (h : IsWord word text) : text.map spelled = text := by
  have hletters : ∀ c ∈ text.toList, word.toList.contains c.toLower = true := by
    intro c hc
    rw [List.contains_iff_mem, ← h, String.toList_map]
    exact List.mem_map_of_mem hc
  refine map_spelled_of_kind ?_ ?_ hletters
  · simpa using hs
  · simpa using hk

/-- What is asked for as it is written is asked for as it is spelled. -/
theorem Asks.spelled {text name : String} {direction : Direction} (h : Asks id text name direction) :
    Asks spelled text name direction := by
  rcases h with hname | ⟨hname, hword⟩
  · rw [String.map_id] at hname
    exact .column (by rwa [map_spelled_of_isIdentifier hname])
  · rw [String.map_id] at hname hword
    refine .directed (by rwa [map_spelled_of_isIdentifier hname]) ?_
    rcases hword with hword | hword
    · rw [map_spelled_of_isWord (by decide) (by decide) hword]
      exact Or.inl hword
    · rw [map_spelled_of_isWord (by decide) (by decide) hword]
      exact Or.inr hword

theorem Asks.unique {text name name' : String} {direction direction' : Direction}
    (h : Asks OrderBy.spelled text name direction)
    (h' : Asks OrderBy.spelled text name' direction') : name = name' ∧ direction = direction' := by
  obtain ⟨word, hsplit, hdirection⟩ := asks_iff.mp h
  obtain ⟨word', hsplit', hdirection'⟩ := asks_iff.mp h'
  rw [hsplit, Option.some.injEq, Prod.mk.injEq] at hsplit'
  obtain ⟨hname, rfl⟩ := hsplit'
  exact ⟨String.toList_inj.mp hname, hdirection.trans hdirection'.symm⟩

/-- Descending order is asked for by a word that is written as it is spelled. -/
theorem Asks.as_written {text name : String} (h : Asks OrderBy.spelled text name .descending)
    (hname : Python.isIdentifier name = true) : Asks id text name .descending := by
  generalize hdescending : Direction.descending = direction at h
  rcases h with - | ⟨-, -⟩
  · cases hdescending
  · next word =>
    split_ifs at hdescending with hword
    have hasks : Asks id (name ++ " " ++ word) name _ :=
      .directed (by rwa [String.map_id]) (Or.inr (by rwa [String.map_id]))
    rwa [if_pos hword] at hasks ⊢

/-- An input is honoured just where it asks for a column, taken as it is written, if and only if it
asks for a column in no other spelling. -/
theorem honouredIn_id_iff (input : Option String) (columns : List String) :
    HonouredIn id input columns ↔ ∀ text name direction, input = some text →
      Asks spelled (trim text) name direction → name ∈ columns →
      Asks id (trim text) name direction := by
  have hspelled := honouredIn_spelled input columns
  constructor
  · rintro hid text name direction rfl hasks hin
    by_contra hnot
    have hignored : Ignored id (some text) columns := by
      rintro text' name' direction' heq hasks' -
      cases heq
      obtain ⟨rfl, rfl⟩ := hasks.unique hasks'.spelled
      exact hnot hasks'
    have horder := (hspelled.asked text name direction rfl hasks hin).symm.trans
      (hid.ignored hignored)
    split_ifs at horder
    cases horder
    exact hnot (hasks.as_written (by decide))
  · intro hwritten
    refine ⟨fun text name direction heq hasks => hspelled.asked text name direction heq hasks.spelled,
      fun hignored => hspelled.ignored fun text name direction heq hasks hin => ?_⟩
    exact hignored text name direction heq (hwritten text name direction heq hasks hin) hin

/-- What is honoured is what asks for a column as letters are spelled. Only what asks for a column as
it is written should be, and the two come to the same for an input if and only if it asks for a
column in no other way. -/
theorem input_is_honoured_exactly_iff (input : Option String) (columns : List String) :
    HonouredIn spelled input columns ∧
    (HonouredIn id input columns ↔ ∀ text name direction, input = some text →
      Asks spelled (trim text) name direction → name ∈ columns →
      Asks id (trim text) name direction) :=
  ⟨honouredIn_spelled input columns, honouredIn_id_iff input columns⟩

/-- A word with a long s is taken for a direction, and not for the one that it spells. -/
theorem long_s_is_honoured : ¬ HonouredIn id (some "title de\u017fc") ["title"] ∧
    resolve (some "title de\u017fc") ["title"] = .by "title" .ascending := by
  have horder : resolve (some "title de\u017fc") ["title"] = .by "title" .ascending := by
    decide +kernel
  refine ⟨fun h => ?_, horder⟩
  have hdefault := h.ignored ?_
  · rw [horder] at hdefault
    simp at hdefault
  rintro text name direction heq hasks hin
  cases heq
  obtain rfl : name = "title" := List.mem_singleton.mp hin
  generalize htext : trim "title de\u017fc" = text at hasks
  rcases hasks with - | ⟨-, hword⟩
  · exact absurd htext (by decide +kernel)
  · next word =>
    have htrim : trim "title de\u017fc" = "title" ++ " " ++ "de\u017fc" := by decide +kernel
    rw [htrim, ← String.toList_inj, String.toList_append, String.toList_append (s := _ ++ _)] at htext
    rw [← String.toList_inj.mp (List.append_cancel_left htext)] at hword
    exact absurd hword (by decide +kernel)

/-! ### The default order -/

def settings (name : String) (lines : List String) : List String :=
  lines.filterMap fun line =>
    let lead := (Artifact.indented (name ++ " = ")).toList
    if lead.isPrefixOf line.toList then some (String.ofList (line.toList.drop lead.length)) else none

/-- The service gives one value to the flag for times, that of the entity. -/
theorem exists_settings_service (e : Entity) (l : Layout) (extended : Bool) :
    ∃ lines, Artifact.service e l extended = Artifact.generated lines ∧
      settings "timestamps" lines = [Python.bool e.timestamps] := by
  refine ⟨_, rfl, ?_⟩
  cases extended <;> simp [settings, Artifact.indented]

theorem createdAt_mem_columnNames_iff {e : Entity} : "created_at" ∈ e.columnNames ↔
    e.timestamps = true ∨ ∃ f ∈ e.fields, f.column = "created_at" := by
  have hshared : "created_at" ∈ e.sharedColumns ↔ e.timestamps = true := by
    unfold Entity.sharedColumns
    cases e.timestamps <;> cases e.softDelete <;> decide
  rw [Entity.columnNames, List.mem_append, hshared, List.mem_map]

/-- The order of input that is ignored and the flag in the lines of the service agree. -/
structure DefaultsAgree (e : Entity) (lines : List String) : Prop where
  newest_first : ∀ input, Ignored spelled input e.columnNames →
    (resolve input e.columnNames = .by "created_at" .descending ↔
      settings "timestamps" lines = ["True"])
  unordered : ∀ input, Ignored spelled input e.columnNames →
    settings "timestamps" lines ≠ ["True"] → resolve input e.columnNames = .unordered

theorem ignored_none (columns : List String) : Ignored spelled none columns := by
  rintro text name direction heq
  cases heq

theorem defaultsAgree_iff {e : Entity} {lines : List String}
    (hlines : settings "timestamps" lines = [Python.bool e.timestamps]) : DefaultsAgree e lines ↔
      (e.timestamps = false → ∀ f ∈ e.fields, f.column ≠ "created_at") := by
  have hflag : settings "timestamps" lines = ["True"] ↔ e.timestamps = true := by
    rw [hlines]
    cases e.timestamps <;> decide
  have hdefault := fun input => (honouredIn_spelled input e.columnNames).ignored
  have hnewest : ∀ input, Ignored spelled input e.columnNames →
      (resolve input e.columnNames = .by "created_at" .descending ↔
        e.timestamps = true ∨ ∃ f ∈ e.fields, f.column = "created_at") := by
    intro input hignored
    rw [hdefault input hignored, ← createdAt_mem_columnNames_iff]
    split_ifs with hin <;> simp [hin]
  constructor
  · intro h hoff f hf hcolumn
    have horder := (hnewest none (ignored_none _)).mpr (Or.inr ⟨f, hf, hcolumn⟩)
    rw [(h.newest_first none (ignored_none _)).trans hflag, hoff] at horder
    cases horder
  · intro hfree
    have hiff : (e.timestamps = true ∨ ∃ f ∈ e.fields, f.column = "created_at") ↔
        e.timestamps = true := by
      refine or_iff_left_of_imp ?_
      rintro ⟨f, hf, hcolumn⟩
      by_contra hoff
      exact hfree (Bool.not_eq_true _ ▸ hoff) f hf hcolumn
    refine ⟨fun input hignored => (hnewest input hignored).trans (hiff.trans hflag.symm),
      fun input hignored hoff => ?_⟩
    rw [hdefault input hignored]
    exact if_neg fun hin => hoff (hflag.mpr (hiff.mp (createdAt_mem_columnNames_iff.mp hin)))

/-- The rule goes by the columns and the service by its flag. They take the same default order if
and only if no field of an entity without times has the column of the time of creation. -/
theorem default_orders_agree_iff (e : Entity) (l : Layout) (extended : Bool) :
    ∃ lines, Artifact.service e l extended = Artifact.generated lines ∧
      settings "timestamps" lines = [Python.bool e.timestamps] ∧
      (DefaultsAgree e lines ↔
        (e.timestamps = false → ∀ f ∈ e.fields, f.column ≠ "created_at")) := by
  obtain ⟨lines, htext, hlines⟩ := exists_settings_service e l extended
  exact ⟨lines, htext, hlines, defaultsAgree_iff hlines⟩

def logSpecText : String :=
  "[\x7b\"className\": \"Log\", \"tableName\": \"logs\", \"timestamps\": false, " ++
    "\"fields\": [\x7b\"name\": \"createdAt\", \"type\": \"LocalDateTime\"\x7d]\x7d]"

def log : Entity :=
  ⟨"Log", "logs", "biz", "", "Log",
    [⟨"createdAt", .localDateTime, false, none, none, none, none⟩], [], [], true, false⟩

/-- The rule takes a declared time of creation for the default order, and the service does not. -/
theorem declared_time_orders_by_default : Spec.parse logSpecText = .ok ⟨[], [log]⟩ ∧
    ∃ lines, Artifact.service log (Layout.of ⟨"out"⟩ {}) false = Artifact.generated lines ∧
      settings "timestamps" lines = ["False"] ∧
      resolve none log.columnNames = .by "created_at" .descending ∧ ¬ DefaultsAgree log lines := by
  obtain ⟨lines, htext, hlines⟩ := exists_settings_service log (Layout.of ⟨"out"⟩ {}) false
  refine ⟨eq_ok_of_toOption (by decide +kernel), lines, htext, hlines, by decide +kernel, ?_⟩
  rw [defaultsAgree_iff hlines]
  decide +kernel

end OrderBy

end CrudBackend
