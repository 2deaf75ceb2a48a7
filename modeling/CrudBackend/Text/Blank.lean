/-!
White space in the sense of the Unicode property White_Space, and the trimming that goes by it.
Trimming never touches the characters between the first and the last one that is not blank.
-/

namespace CrudBackend.Text

/-- The characters with the Unicode property White_Space. Zero-width characters and the
information separators below U+0020 do not have it. -/
def blanks : List Char :=
  ['\t', '\n', '\x0b', '\x0c', '\r', ' ', '\u0085', '\u00a0', '\u1680', '\u2000', '\u2001',
   '\u2002', '\u2003', '\u2004', '\u2005', '\u2006', '\u2007', '\u2008', '\u2009', '\u200a',
   '\u2028', '\u2029', '\u202f', '\u205f', '\u3000']

def isBlank (c : Char) : Bool := blanks.contains c

def withoutTrailingBlanks (cs : List Char) : List Char :=
  (cs.reverse.dropWhile isBlank).reverse

def trimmed (cs : List Char) : List Char :=
  withoutTrailingBlanks (cs.dropWhile isBlank)

def trim (s : String) : String := String.ofList (trimmed s.toList)

def trimEnd (s : String) : String := String.ofList (withoutTrailingBlanks s.toList)

def nonBlank? (s : String) : Option String :=
  let t := trim s
  if t = "" then none else some t

/-- The trimmed text of an optional text; a blank text counts as absent. -/
def filled? (s : Option String) : Option String := s.bind nonBlank?

end CrudBackend.Text
