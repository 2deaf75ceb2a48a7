import CrudBackend.Text.Blank
import CrudBackend.Text.Digits

/-!
Python literals and comments. A string literal is written in double quotes on one line, whatever
the text; a comment is flattened to one line; a default value becomes a literal of the type that
its text suggests.
-/

namespace CrudBackend.Python

def escapedChar (c : Char) : List Char :=
  if c == '\\' then ['\\', '\\']
  else if c == '"' then ['\\', '"']
  else if c == '\n' then ['\\', 'n']
  else if c == '\r' then ['\\', 'r']
  else if c == '\t' then ['\\', 't']
  else [c]

def escaped (s : String) : String := String.ofList (s.toList.flatMap escapedChar)

def quote (s : String) : String := "\"" ++ escaped s ++ "\""

/-- The text on one line: its lines trimmed, blank ones dropped, joined by single spaces. -/
def flattened (s : String) : String :=
  let lines := s.toList.splitOnP fun c => c == '\r' || c == '\n'
  String.ofList ([' '].intercalate ((lines.map Text.trimmed).filter fun line => !line.isEmpty))

/-- One character of a docstring whose text is already on one line. -/
def docChar (c : Char) : List Char :=
  if c == '\\' then ['\\', '\\'] else if c == '"' then ['\\', '"'] else [c]

def docText (s : String) : String := String.ofList ((flattened s).toList.flatMap docChar)

def bool (b : Bool) : String := if b then "True" else "False"

/-- Decimal digits of any script after an optional minus sign. -/
def looksLikeInteger : List Char → Bool
  | '-' :: cs => !cs.isEmpty && cs.all Text.isDecimalDigit
  | cs => !cs.isEmpty && cs.all Text.isDecimalDigit

/-- The literal of a default value. True and false are recognised in any ASCII case. Digits become
an integer without superfluous zeros if 128 bits hold it and stay as written otherwise. Anything
else is a string. -/
def defaultLiteral (raw : String) : String :=
  let text := Text.trim raw
  let word := text.map Char.toLower
  if word = "true" then bool true
  else if word = "false" then bool false
  else if looksLikeInteger text.toList then
    match Text.readSigned? 128 text with
    | some n => toString n
    | none => text
  else quote text

end CrudBackend.Python
