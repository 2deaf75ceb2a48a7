import CrudBackend.Text.LetterCase.Table
import CrudBackend.Text.Ranges

/-!
Lower-casing by the full Unicode mapping. It works letter by letter with two exceptions: a capital
I with a dot becomes two characters, and a capital sigma at the end of a word becomes the final
form of sigma.
-/

namespace CrudBackend.Text

def lowerLetter? (n : Nat) : Option Char :=
  (lowerRuns.find? fun (first, last, step, _) => first ≤ n && n ≤ last && (n - first) % step == 0)
    |>.map fun (_, _, _, shift) => Char.ofNat ((n : Int) + shift).toNat

def lowerLetter (c : Char) : List Char :=
  if c.toNat < 0x80 then [c.toLower]
  else if c.toNat == 0x130 then ['i', Char.ofNat 0x307]
  else [(lowerLetter? c.toNat).getD c]

/-- Whether the nearest character that is not skipped is a cased one. -/
def meetsCased (cs : List Char) : Bool :=
  match cs.dropWhile fun c => inRanges caseIgnorableRanges c.toNat with
  | [] => false
  | c :: _ => inRanges casedRanges c.toNat

/-- The lower case of the characters after `before`, which is given last character first. A capital
sigma ends a word if a cased letter comes before it and none comes after it. -/
def lowerAfter (before : List Char) : List Char → List Char
  | [] => []
  | c :: rest =>
    (if c == 'Σ' then
      [if meetsCased before && !meetsCased rest then 'ς' else 'σ']
    else lowerLetter c) ++ lowerAfter (c :: before) rest

def lowered (cs : List Char) : List Char := lowerAfter [] cs

def lowerCase (s : String) : String := String.ofList (lowered s.toList)

def sameAsciiLetters (s t : List Char) : Bool := s.map Char.toLower == t.map Char.toLower

end CrudBackend.Text
