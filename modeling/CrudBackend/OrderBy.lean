import CrudBackend.Spec.Basic
import CrudBackend.Text.LetterCase

/-!
The order of query results. A caller may name a column and a direction; input of any other form, or
that names no column of the entity, is ignored and the default order holds.
-/

namespace CrudBackend

inductive Direction where
  | ascending
  | descending
  deriving DecidableEq, Repr

inductive QueryOrder where
  | by (column : String) (direction : Direction)
  | unordered
  deriving DecidableEq, Repr

namespace OrderBy

/-- The pattern of accepted input, as the generated service states it. Case does not count. -/
def pattern : String := "([A-Za-z_][A-Za-z0-9_]*)(?: (asc|desc))?"

/-- The characters outside ASCII that equal an ASCII letter up to case: the long s and the sign for
the kelvin. -/
def foldsToAscii (c : Char) : Bool := c.toNat == 0x17F || c.toNat == 0x212A

def startsColumn (c : Char) : Bool := c.isAlpha || c == '_' || foldsToAscii c

def continuesColumn (c : Char) : Bool := c.isAlphanum || c == '_' || foldsToAscii c

/-- The small ASCII letter that a character equals up to case, if there is one. -/
def foldCase (c : Char) : Char :=
  if c.toNat == 0x17F then 's' else if c.toNat == 0x212A then 'k' else c.toLower

def split? (cs : List Char) : Option (List Char × Option (List Char)) :=
  let column := cs.takeWhile continuesColumn
  if !(column.head?.any startsColumn) then none
  else match cs.dropWhile continuesColumn with
    | [] => some (column, none)
    | ' ' :: word =>
      if word.map foldCase == ['a', 's', 'c'] || word.map foldCase == ['d', 'e', 's', 'c'] then
        some (column, some word)
      else none
    | _ => none

/-- The direction that a word stands for. Only a word of ASCII letters means descending. -/
def directionOf : Option (List Char) → Direction
  | some word => if Text.sameAsciiLetters word ['d', 'e', 's', 'c'] then .descending else .ascending
  | none => .ascending

/-- The order without usable input: the newest first, if the time of creation is a column. -/
def fallback (columns : List String) : QueryOrder :=
  if columns.contains createdAtColumn then .by createdAtColumn .descending else .unordered

def honoured? (input : String) (columns : List String) : Option QueryOrder :=
  (split? (Text.trimmed input.toList)).bind fun (column, word) =>
    let name := String.ofList column
    if columns.contains name then some (.by name (directionOf word)) else none

def resolve (input : Option String) (columns : List String) : QueryOrder :=
  (input.bind fun s => honoured? s columns).getD (fallback columns)

end OrderBy

end CrudBackend
