import CrudBackend.Json.Value
import CrudBackend.Decimal.Shortest

/-!
The text of JSON values. Integers are decimal, floating-point numbers have the fewest digits that
read back, and everything else is compact: no spaces, members in order.
-/

namespace CrudBackend.Json

/-- Floating-point numbers are positional while the first digit stands at a power of ten from this
one on, -/
def leastPositional : Int := -5

/-- and before this one. -/
def scientificFrom : Int := 16

/-- The digits of a positive number around the decimal point, with a fraction in any case. -/
def positional (digits : List Char) (point : Int) : List Char :=
  let n : Int := digits.length
  if n ≤ point then digits ++ List.replicate (point - n).toNat '0' ++ ['.', '0']
  else if 0 < point then digits.take point.toNat ++ '.' :: digits.drop point.toNat
  else '0' :: '.' :: (List.replicate (-point).toNat '0' ++ digits)

/-- The digits of a positive number in scientific form; the exponent always has a sign. -/
def scientific (digits : List Char) (exponent : Int) : List Char :=
  let mantissa := match digits with
    | [d] => [d]
    | d :: rest => d :: '.' :: rest
    | [] => []
  let sign := if exponent < 0 then '-' else '+'
  mantissa ++ 'e' :: sign :: Nat.toDigits 10 exponent.natAbs

def floatText (x : Decimal.Binary64) : String :=
  let magnitude :=
    if x.mantissa = 0 then ['0', '.', '0']
    else
      let (n, p) := Decimal.shortest x.mantissa x.exponent
      let digits := Nat.toDigits 10 n
      let exponent := (digits.length : Int) - 1 + p
      if leastPositional ≤ exponent && exponent < scientificFrom then
        positional digits (exponent + 1)
      else scientific digits exponent
  String.ofList (if x.negative then '-' :: magnitude else magnitude)

def Number.text : Number → String
  | .integer n => toString n
  | .float x => floatText x

def escapeCode (n : Nat) : List Char :=
  ['0', '0', Nat.digitChar (n / 16), Nat.digitChar (n % 16)]

def stringChar (c : Char) : List Char :=
  if c == '"' then ['\\', '"']
  else if c == '\\' then ['\\', '\\']
  else if c.toNat == 8 then ['\\', 'b']
  else if c.toNat == 12 then ['\\', 'f']
  else if c == '\n' then ['\\', 'n']
  else if c == '\r' then ['\\', 'r']
  else if c == '\t' then ['\\', 't']
  else if c.toNat < 0x20 then '\\' :: 'u' :: escapeCode c.toNat
  else [c]

def stringText (s : String) : String :=
  String.ofList ('"' :: (s.toList.flatMap stringChar ++ ['"']))

mutual

def compact : Json → String
  | .null => "null"
  | .bool b => if b then "true" else "false"
  | .number n => n.text
  | .string s => stringText s
  | .array items => "[" ++ String.intercalate "," (compactItems items) ++ "]"
  | .object members => "\x7b" ++ String.intercalate "," (compactMembers members) ++ "\x7d"

def compactItems : List Json → List String
  | [] => []
  | v :: rest => compact v :: compactItems rest

def compactMembers : List (String × Json) → List String
  | [] => []
  | (k, v) :: rest => (stringText k ++ ":" ++ compact v) :: compactMembers rest

end

/-- A value as plain text: a string as it is, null as nothing, anything else as JSON. -/
def plainText : Json → String
  | .string s => s
  | .null => ""
  | v => compact v

end CrudBackend.Json
