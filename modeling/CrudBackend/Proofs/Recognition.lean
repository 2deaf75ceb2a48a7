import CrudBackend.Generation
import Mathlib.Data.List.TakeWhile

/-!
Which files are recognized as generated. Bytes of any kind can be read as a text, with encoded
characters as they are and replacement characters for what encodes none. What the text begins with, the
bytes begin with as well, so a marker behind blanks is found in the text if and only if it is found in
the bytes. All that is generated begins with the marker, and drafts begin with something else.
-/

namespace CrudBackend

namespace Text

variable {bytes rest : List UInt8} {c d : Char} {cs : List Char}

/-! ### Trimming -/

/-- Trimming the end stops at the last character that is not blank. -/
theorem withoutTrailingBlanks_append (hc : isBlank c = false) (cs ds : List Char) :
    withoutTrailingBlanks (cs ++ c :: ds) = cs ++ c :: withoutTrailingBlanks ds := by
  unfold withoutTrailingBlanks
  rw [List.reverse_append, List.reverse_cons, List.append_assoc, List.dropWhile_append]
  split_ifs with hnil
  · rw [List.isEmpty_iff.mp hnil]
    simp [hc]
  · simp

theorem withoutTrailingBlanks_cons (hc : isBlank c = false) (cs : List Char) :
    withoutTrailingBlanks (c :: cs) = c :: withoutTrailingBlanks cs :=
  withoutTrailingBlanks_append hc [] cs

/-! ### Encoded characters -/

theorem length_encodeChar_le (c : Char) : (String.utf8EncodeChar c).length ≤ 4 :=
  String.length_utf8EncodeChar c ▸ c.utf8Size_le_four

theorem firstChar?_encodeChar_append (c : Char) (rest : List UInt8) :
    firstChar? (String.utf8EncodeChar c ++ rest) = some c := by
  rw [firstChar?, List.take_append, List.take_of_length_le (length_encodeChar_le c),
    List.toByteArray_append, ByteArray.utf8DecodeChar?_utf8EncodeChar_append]

theorem firstChar?_eq_some_iff :
    firstChar? bytes = some c ↔ String.utf8EncodeChar c <+: bytes := by
  constructor
  · intro h
    obtain ⟨rest, hrest⟩ := ByteArray.exists_of_utf8DecodeChar?_eq_some h
    have hbytes := congrArg (·.data.toList) hrest
    have hfour : String.utf8EncodeChar c <+: bytes.take 4 :=
      ⟨rest.data.toList, by simpa using hbytes.symm⟩
    exact hfour.trans (List.take_prefix 4 bytes)
  · rintro ⟨rest, rfl⟩
    exact firstChar?_encodeChar_append c rest

/-- No encoded character begins another one. -/
theorem eq_of_prefix_encodeChar (hc : String.utf8EncodeChar c <+: bytes)
    (hd : String.utf8EncodeChar d <+: bytes) : c = d := by
  rw [← firstChar?_eq_some_iff] at hc hd
  exact Option.some.inj (hc.symm.trans hd)

theorem encodeChars_cons (c : Char) (cs : List Char) :
    encodeChars (c :: cs) = String.utf8EncodeChar c ++ encodeChars cs := List.flatMap_cons

theorem encodeChars_append (cs ds : List Char) :
    encodeChars (cs ++ ds) = encodeChars cs ++ encodeChars ds := List.flatMap_append

theorem encodeChar_prefix_of_cons (h : encodeChars (c :: cs) <+: bytes) :
    String.utf8EncodeChar c <+: bytes := by
  rw [encodeChars_cons] at h
  exact (List.prefix_append _ _).trans h

/-! ### What a text begins with -/

theorem decodeLossy_encodeChar_append (c : Char) (rest : List UInt8) :
    decodeLossy (String.utf8EncodeChar c ++ rest) = c :: decodeLossy rest := by
  obtain ⟨first, more, hmore⟩ := List.exists_cons_of_ne_nil (String.utf8EncodeChar_ne_nil (c := c))
  have hfirst := firstChar?_encodeChar_append c rest
  have hlen : more.length = c.utf8Size - 1 := by
    rw [← String.length_utf8EncodeChar, hmore]
    rfl
  rw [hmore, List.cons_append] at hfirst ⊢
  rw [decodeLossy, hfirst]
  dsimp only
  rw [← hlen, List.drop_left]

/-- Encoded characters are read as they are. -/
theorem decodeLossy_encodeChars_append (cs : List Char) (rest : List UInt8) :
    decodeLossy (encodeChars cs ++ rest) = cs ++ decodeLossy rest := by
  induction cs with
  | nil => rfl
  | cons c cs ih =>
    rw [encodeChars_cons, List.append_assoc, decodeLossy_encodeChar_append, ih, List.cons_append]

theorem decodeLossy_encode (s : String) : decodeLossy (encode s) = s.toList := by
  have h := decodeLossy_encodeChars_append s.toList []
  rwa [List.append_nil, decodeLossy, List.append_nil] at h

/-- Where no encoded character begins, no other character is read. -/
theorem head?_decodeLossy_of_none (h : firstChar? bytes = none) (hc : c ≠ '\ufffd') :
    (decodeLossy bytes).head? ≠ some c := by
  cases bytes with
  | nil => simp [decodeLossy]
  | cons first rest =>
    rw [decodeLossy, h]
    simpa using hc.symm

/-- Characters that are not replaced begin a text if and only if they begin its bytes. -/
theorem prefix_decodeLossy_iff (h : '\ufffd' ∉ cs) :
    cs <+: decodeLossy bytes ↔ encodeChars cs <+: bytes := by
  induction cs generalizing bytes with
  | nil => exact iff_of_true List.nil_prefix List.nil_prefix
  | cons c cs ih =>
    obtain ⟨hc, hcs⟩ := not_or.mp (mt List.mem_cons.mpr h)
    cases hfirst : firstChar? bytes with
    | none =>
      refine iff_of_false ?_ ?_
      · rintro ⟨more, hmore⟩
        refine head?_decodeLossy_of_none hfirst (Ne.symm hc) ?_
        rw [← hmore]
        rfl
      · intro hbytes
        have hsome := firstChar?_eq_some_iff.mpr (encodeChar_prefix_of_cons hbytes)
        rw [hfirst] at hsome
        cases hsome
    | some d =>
      obtain ⟨rest, rfl⟩ := firstChar?_eq_some_iff.mp hfirst
      rw [decodeLossy_encodeChar_append, List.cons_prefix_cons, ih hcs]
      constructor
      · rintro ⟨rfl, hrest⟩
        rw [encodeChars_cons]
        exact (List.prefix_append_right_inj _).mpr hrest
      · intro hbytes
        obtain rfl := eq_of_prefix_encodeChar (encodeChar_prefix_of_cons hbytes)
          (List.prefix_append _ rest)
        rw [encodeChars_cons] at hbytes
        exact ⟨rfl, (List.prefix_append_right_inj _).mp hbytes⟩

example : decodeLossy [0x41, 0xe2, 0x82, 0x41, 0xf0, 0x80, 0xc3, 0xa9, 0xf4, 0x8f, 0xbf] =
    ['A', '\ufffd', 'A', '\ufffd', '\ufffd', 'é', '\ufffd'] := by decide +kernel

/-- A beginning that is not blank is found once the blanks are dropped if and only if it stands behind
some blanks. -/
theorem cons_prefix_dropWhile_iff {ds : List Char} (hc : isBlank c = false) :
    c :: cs <+: ds.dropWhile isBlank ↔
      ∃ front, (∀ b ∈ front, isBlank b = true) ∧ front ++ c :: cs <+: ds := by
  constructor
  · rintro ⟨more, hmore⟩
    refine ⟨ds.takeWhile isBlank, fun b hb => List.mem_takeWhile_imp hb, more, ?_⟩
    rw [List.append_assoc, hmore, List.takeWhile_append_dropWhile]
  · rintro ⟨front, hfront, more, rfl⟩
    rw [List.append_assoc, List.dropWhile_append_of_pos hfront, List.cons_append,
      List.dropWhile_cons_of_neg (by simp [hc])]
    exact ⟨more, rfl⟩

end Text

namespace Ownership

open Text

/-- The bytes begin with the encodings of blanks, of any number, and those of the marker right behind
them, and the marker ends within the first 512 bytes. -/
def BeginsMarked (bytes : List UInt8) : Prop :=
  ∃ front : List Char, (∀ c ∈ front, c ∈ blanks) ∧
    encodeChars front ++ encode marker <+: bytes ∧
    (encodeChars front ++ encode marker).length ≤ 512

variable {bytes : List UInt8}

theorem marker_toList : ∃ cs, marker.toList = '#' :: cs := ⟨marker.toList.tail, by decide⟩

/-- The marker is found behind blanks in the text that the bytes of the window are read as, whatever
they are, if and only if the bytes begin so. -/
theorem beginsMarked_iff : BeginsMarked bytes ↔
    marker.toList <+: (decodeLossy (bytes.take 512)).dropWhile isBlank := by
  have hhash : isBlank '#' = false := by decide
  have hmarker : '\ufffd' ∉ marker.toList := by decide
  have hblanks : '\ufffd' ∉ blanks := by decide
  obtain ⟨cs, hcs⟩ := marker_toList
  rw [BeginsMarked, encode, hcs, cons_prefix_dropWhile_iff hhash]
  refine exists_congr fun front => ?_
  simp only [isBlank, List.contains_iff_mem]
  refine and_congr_right fun hfront => ?_
  have hplain : '\ufffd' ∉ front ++ '#' :: cs := by
    rw [List.mem_append, ← hcs]
    exact not_or.mpr ⟨fun hmem => hblanks (hfront _ hmem), hmarker⟩
  rw [prefix_decodeLossy_iff hplain, encodeChars_append, List.prefix_take_iff]

theorem isMarked_iff : isMarked bytes = true ↔ BeginsMarked bytes :=
  List.isPrefixOf_iff_prefix.trans beginsMarked_iff.symm

/-- Blanks in front use up the window. -/
theorem beginsMarked_behind {front : List Char} (hfront : ∀ c ∈ front, isBlank c = true)
    (hlen : (encodeChars front).length ≤ 512) : BeginsMarked (encodeChars front ++ bytes) ↔
      marker.toList <+:
        (decodeLossy (bytes.take (512 - (encodeChars front).length))).dropWhile isBlank := by
  rw [beginsMarked_iff, List.take_append, List.take_of_length_le hlen,
    decodeLossy_encodeChars_append, List.dropWhile_append_of_pos hfront]

theorem encodeChars_spaces (n : Nat) :
    encodeChars (List.replicate n ' ') = List.replicate n 32 := by
  rw [encodeChars, List.flatMap_replicate]
  exact List.flatten_replicate_singleton

theorem isMarked_of_isPrefix {s : String} (hs : marker.toList <+: s.toList) :
    isMarked (encode s) = true := by
  obtain ⟨rest, hrest⟩ := hs
  refine isMarked_iff.mpr ⟨[], List.forall_mem_nil _, ⟨encodeChars rest, ?_⟩, by decide⟩
  rw [encode, encode, ← hrest, encodeChars_append]
  rfl

/-- A text that begins with this letter is not marked. -/
theorem isMarked_encode_eq_false {s : String} {cs : List Char} (hs : s.toList = 'f' :: cs) :
    isMarked (encode s) = false := by
  have hletter : String.utf8EncodeChar 'f' <+: encode s := by
    rw [encode, hs]
    exact List.prefix_append _ _
  obtain ⟨ds, hds⟩ := marker_toList
  rw [← Bool.not_eq_true, isMarked_iff]
  rintro ⟨front, hfront, hbytes, -⟩
  rw [encode, hds, ← encodeChars_append] at hbytes
  cases front with
  | nil => exact absurd (eq_of_prefix_encodeChar (encodeChar_prefix_of_cons hbytes) hletter) (by decide)
  | cons b front =>
    have hblank := (List.forall_mem_cons.mp hfront).1
    rw [eq_of_prefix_encodeChar (encodeChar_prefix_of_cons hbytes) hletter] at hblank
    exact absurd hblank (by decide)

theorem isGenerated_eq_true_iff {t : FileTree} {p : Path} : isGenerated t p = true ↔
    ∃ k bytes, t.find p = .ok (k, .file bytes) ∧ isMarked bytes = true := by
  unfold isGenerated FileTree.readBytes
  cases t.find p with
  | error fault => simp
  | ok found =>
    obtain ⟨k, e⟩ := found
    cases e with
    | directory => simp
    | file bytes =>
      constructor
      · exact fun h => ⟨k, bytes, rfl, h⟩
      · rintro ⟨_, _, heq, h⟩
        cases heq
        exact h

end Ownership

open Ownership

/-! ### Generated texts and drafts -/

theorem Artifact.isMarked_generated (lines : List String) :
    isMarked (Text.encode (generated lines)) = true := by
  have hmarker : marker.toList = marker.toList.dropLast ++ ['T'] := by decide
  refine isMarked_of_isPrefix ?_
  rw [generated, source, String.intercalate_cons_cons, Text.trimEnd, String.toList_append,
    String.toList_ofList, String.toList_append, String.toList_append, List.append_assoc, hmarker,
    List.append_assoc, List.singleton_append, Text.withoutTrailingBlanks_append (by decide),
    List.append_assoc, List.cons_append]
  exact ⟨_, (List.append_cons _ _ _).symm⟩

theorem Output.isMarked_initText : isMarked (Text.encode initText) = true := by
  refine isMarked_of_isPrefix ?_
  rw [initText, String.toList_append]
  exact List.prefix_append _ _

theorem Artifact.isMarked_serviceImpl (e : Entity) (l : Layout) :
    isMarked (Text.encode (serviceImpl e l)) = false := by
  have hhead : annotationsImport.toList = 'f' :: annotationsImport.toList.tail := by decide
  have hlines : ∀ lines : List String, ∃ cs,
      (source (annotationsImport :: "" :: lines)).toList = 'f' :: cs := by
    intro lines
    rw [source, String.intercalate_cons_cons, Text.trimEnd, String.toList_append,
      String.toList_ofList, String.toList_append, String.toList_append, hhead, List.cons_append,
      List.cons_append, Text.withoutTrailingBlanks_cons (by decide), List.cons_append]
    exact ⟨_, rfl⟩
  obtain ⟨cs, hcs⟩ := hlines _
  exact isMarked_encode_eq_false hcs

/-- A text that a generated file is given: a shared one, that of an entity, or that of a package. -/
inductive GeneratedText : String → Prop
  | enums (s : Spec) : GeneratedText (Artifact.enums s)
  | mixins : GeneratedText Artifact.mixins
  | common : GeneratedText Artifact.common
  | serviceBase : GeneratedText Artifact.serviceBase
  | perm : GeneratedText Artifact.perm
  | router (mounts : List Artifact.Mount) : GeneratedText (Artifact.router mounts)
  | model (e : Entity) (l : Layout) (i : Imports) : GeneratedText (Artifact.model e l i)
  | schema (e : Entity) (l : Layout) : GeneratedText (Artifact.schema e l)
  | service (e : Entity) (l : Layout) (extended : Bool) :
      GeneratedText (Artifact.service e l extended)
  | api (e : Entity) (l : Layout) (i : Imports) (r : RouteTemplates) :
      GeneratedText (Artifact.api e l i r)
  | package : GeneratedText Output.initText

namespace Ownership

theorem isMarked_of_generatedText {text : String} (h : GeneratedText text) :
    isMarked (Text.encode text) = true := by
  cases h with
  | package => exact Output.isMarked_initText
  | _ => exact Artifact.isMarked_generated _

/-- A path is recognized as generated if and only if it leads to a file whose bytes begin with the
marker, behind encoded blanks or at once, within the first 512. Whatever the bytes are, this is so if
and only if the text that those 512 are read as begins with the marker once its blanks are dropped.
Every text that is generated is recognized, and no draft is. -/
theorem generated_files_are_recognized_exactly :
    (∀ (t : FileTree) (p : Path), isGenerated t p = true ↔
      ∃ k bytes, t.find p = .ok (k, .file bytes) ∧ BeginsMarked bytes) ∧
    (∀ bytes, BeginsMarked bytes ↔
      marker.toList <+: (Text.decodeLossy (bytes.take 512)).dropWhile Text.isBlank) ∧
    (∀ text, GeneratedText text → BeginsMarked (Text.encode text)) ∧
    ∀ e l, ¬ BeginsMarked (Text.encode (Artifact.serviceImpl e l)) := by
  refine ⟨fun t p => ?_, fun bytes => beginsMarked_iff, fun text htext => ?_, fun e l => ?_⟩
  · simp only [isGenerated_eq_true_iff, isMarked_iff]
  · exact isMarked_iff.mp (isMarked_of_generatedText htext)
  · rw [← isMarked_iff, Artifact.isMarked_serviceImpl]
    exact Bool.false_ne_true

/-- The marker behind blanks of three bytes and of one, and then a byte that encodes nothing. -/
def looseBytes : List UInt8 := Text.encode "\u3000\n" ++ Text.encode marker ++ [0xff]

theorem loose_file_is_recognized :
    isGenerated ⟨[(["loose.py"], .file looseBytes)], []⟩ ⟨"loose.py"⟩ = true ∧
    BeginsMarked (List.replicate 487 32 ++ Text.encode marker ++ [0xff]) ∧
    ¬ BeginsMarked (List.replicate 488 32 ++ Text.encode marker) ∧
    GeneratedText Output.initText ∧ BeginsMarked (Text.encode Output.initText) := by
  obtain ⟨hfiles, hread, htexts, -⟩ := generated_files_are_recognized_exactly
  have hfind : FileTree.find ⟨[(["loose.py"], .file looseBytes)], []⟩ ⟨"loose.py"⟩ =
      .ok (["loose.py"], .file looseBytes) := by decide +kernel
  have hloose : BeginsMarked looseBytes := (hread _).mpr (by decide +kernel)
  have hspaces : ∀ n, ∀ c ∈ List.replicate n ' ', Text.isBlank c = true := fun n c hc =>
    (List.mem_replicate.mp hc).2 ▸ by decide
  refine ⟨(hfiles _ _).mpr ⟨_, _, hfind, hloose⟩, ?_, ?_, .package, htexts _ .package⟩
  · rw [List.append_assoc, ← encodeChars_spaces, beginsMarked_behind (hspaces 487)] <;>
      rw [encodeChars_spaces, List.length_replicate]
    · decide +kernel
    · omega
  · rw [← encodeChars_spaces, beginsMarked_behind (hspaces 488)] <;>
      rw [encodeChars_spaces, List.length_replicate]
    · decide +kernel
    · omega

end Ownership
end CrudBackend
