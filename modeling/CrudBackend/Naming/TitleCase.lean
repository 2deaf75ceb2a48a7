/-!
Title case: the spelling of request-model names. Runs of anything but ASCII letters and digits
separate the words of a name; each word begins with a capital and keeps the rest of its letters.
-/

namespace CrudBackend.Naming

def capitalized : List Char → List Char
  | [] => []
  | c :: rest => c.toUpper :: rest

def titleChars (cs : List Char) : List Char :=
  (cs.splitOnP fun c => !c.isAlphanum).flatMap capitalized

def titleCase (name : String) : String := String.ofList (titleChars name.toList)

end CrudBackend.Naming
