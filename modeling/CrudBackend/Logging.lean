import CrudBackend.Text.Blank
import CrudBackend.Text.LetterCase

/-!
How the program logs. Level and format come from the environment; words that are not known stand
for the defaults.
-/

namespace CrudBackend.Logging

inductive Level where
  | trace
  | debug
  | info
  | warn
  | error
  deriving DecidableEq, Repr

inductive Format where
  | pretty
  | compact
  | json
  deriving DecidableEq, Repr

def word (s : String) : String := Text.lowerCase (Text.trim s)

def Format.parse (s : String) : Format :=
  if word s = "pretty" then .pretty else if word s = "json" then .json else .compact

def Level.parse (s : String) : Level :=
  if word s = "trace" then .trace
  else if word s = "debug" then .debug
  else if word s = "info" then .info
  else if word s = "error" then .error
  else .warn

structure Settings where
  levelText : String
  format : Format
  deriving DecidableEq, Repr

def Settings.level (s : Settings) : Level := Level.parse s.levelText

def Settings.ofEnvironment (level format : Option String) : Settings where
  levelText := level.getD "warn"
  format := Format.parse (format.getD "compact")

end CrudBackend.Logging
