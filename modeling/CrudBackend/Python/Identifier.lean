/-!
Python names. Any text can be turned into an ASCII identifier that is not a keyword, and a text
that already is one stays as it is.
-/

namespace CrudBackend.Python

def keywords : List String :=
  ["False", "None", "True", "and", "as", "assert", "async", "await", "break", "class",
   "continue", "def", "del", "elif", "else", "except", "finally", "for", "from", "global", "if",
   "import", "in", "is", "lambda", "nonlocal", "not", "or", "pass", "raise", "return", "try",
   "while", "with", "yield"]

def isKeyword (name : String) : Bool := keywords.contains name

def startsIdentifier (c : Char) : Bool := c.isAlpha || c == '_'

def continuesIdentifier (c : Char) : Bool := c.isAlphanum || c == '_'

def isIdentifier (name : String) : Bool :=
  match name.toList with
  | [] => false
  | c :: rest => startsIdentifier c && rest.all continuesIdentifier

/-- The characters with everything that cannot stand in an identifier replaced by an underscore,
and a lead put before what cannot begin one. -/
def identifierChars (cs : List Char) : List Char :=
  let cleaned := cs.map fun c => if continuesIdentifier c then c else '_'
  match cleaned with
  | c :: _ => if startsIdentifier c then cleaned else 'V' :: '_' :: cleaned
  | [] => ['V', '_']

/-- The symbol of an enum member: an identifier for any raw value. Keywords get an underscore. -/
def symbol (value : String) : String :=
  let name := String.ofList (identifierChars value.toList)
  if isKeyword name then name ++ "_" else name

/-- The name of a function or method. The built-in `list`, which the generated classes use, is
treated like a keyword. -/
def functionName (name : String) : String :=
  let base := symbol name
  if base = "list" then "list_" else base

end CrudBackend.Python
