/-!
Texts as bytes in UTF-8.
-/

namespace CrudBackend.Text

def encodeChars (cs : List Char) : List UInt8 := cs.flatMap String.utf8EncodeChar

def encode (s : String) : List UInt8 := encodeChars s.toList

def decode? (bytes : List UInt8) : Option String := String.fromUTF8? bytes.toByteArray

/-- The character that the bytes begin with, if they begin with an encoded one. No character takes
more than four bytes. -/
def firstChar? (bytes : List UInt8) : Option Char := (bytes.take 4).toByteArray.utf8DecodeChar? 0

/-- The second byte goes on with a character of three or four bytes that begins with the first. -/
def goesOn (first second : UInt8) : Bool :=
  if first = 0xe0 then 0xa0 ≤ second && second ≤ 0xbf
  else if first = 0xed then 0x80 ≤ second && second ≤ 0x9f
  else if first = 0xf0 then 0x90 ≤ second && second ≤ 0xbf
  else if first = 0xf4 then 0x80 ≤ second && second ≤ 0x8f
  else 0xe1 ≤ first && first ≤ 0xf3 && 0x80 ≤ second && second ≤ 0xbf

/-- How many bytes one replacement character stands for, where no encoded character begins: as many
as a character may begin with, or a single one. -/
def brokenLength : List UInt8 → Nat
  | first :: second :: rest =>
    if goesOn first second then
      if first < 0xf0 then 2
      else if rest.head?.any fun third => 0x80 ≤ third && third ≤ 0xbf then 3
      else 2
    else 1
  | _ => 1

/-- The text that bytes are read as, whatever they are: what encodes no character is replaced. -/
def decodeLossy (bytes : List UInt8) : List Char :=
  match bytes with
  | [] => []
  | first :: rest =>
    match firstChar? (first :: rest) with
    | some c => c :: decodeLossy (rest.drop (c.utf8Size - 1))
    | none => '\ufffd' :: decodeLossy (rest.drop (brokenLength (first :: rest) - 1))
termination_by bytes.length
decreasing_by all_goals simp only [List.length_drop, List.length_cons]; omega

end CrudBackend.Text
