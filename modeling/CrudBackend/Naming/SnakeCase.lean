import CrudBackend.Text.LetterCase

/-!
Snake case: the spelling of table columns, file stems and database enum names. Underscores go in
before the capitals that begin a word, hyphens become underscores, and everything is lower-cased.
-/

namespace CrudBackend.Naming

/-- Where the search for words stands: between words, at the capital that begins one, or among the
small letters that follow it. -/
inductive WordSearch where
  | between
  | capital
  | within
  deriving DecidableEq, Repr

def wordBegins : List Char → Bool
  | u :: l :: _ => u.isUpper && l.isLower
  | _ => false

/-- Puts an underscore before each word, a capital with the small letters after it, that follows
another character of its line. The search goes on behind the word, whose letters cannot be the
character before another one. -/
def splitWords : WordSearch → List Char → List Char
  | _, [] => []
  | .capital, c :: rest => c :: splitWords .within rest
  | state, c :: rest =>
    if state == .within && c.isLower then c :: splitWords .within rest
    else if c != '\n' && wordBegins rest then c :: '_' :: splitWords .capital rest
    else c :: splitWords .between rest

/-- Puts an underscore between a small letter or digit and the capital that follows it. -/
def splitBoundaries : List Char → List Char
  | [] => []
  | c :: rest =>
    match rest with
    | u :: _ =>
      if (c.isLower || c.isDigit) && u.isUpper then c :: '_' :: splitBoundaries rest
      else c :: splitBoundaries rest
    | [] => [c]

def joinHyphen (c : Char) : Char := if c == '-' then '_' else c

def snakeChars (cs : List Char) : List Char :=
  Text.lowered ((splitBoundaries (splitWords .between cs)).map joinHyphen)

def snakeCase (name : String) : String := String.ofList (snakeChars name.toList)

end CrudBackend.Naming
