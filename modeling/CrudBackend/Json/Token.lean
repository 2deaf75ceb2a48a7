import CrudBackend.Json.Value
import CrudBackend.Text.Digits

/-!
The tokens of a JSON text. Strings are decoded and numbers evaluated here, so an escape that is no
character and a number that is too large for a floating-point number make the text invalid.
-/

namespace CrudBackend.Json

inductive Token where
  | openArray
  | closeArray
  | openObject
  | closeObject
  | comma
  | colon
  | null
  | bool (b : Bool)
  | number (n : Number)
  | string (s : String)
  deriving DecidableEq, Repr

def isSpace (c : Char) : Bool := c == ' ' || c == '\t' || c == '\r' || c == '\n'

def punctuation? (c : Char) : Option Token :=
  if c == '[' then some .openArray
  else if c == ']' then some .closeArray
  else if c == '\x7b' then some .openObject
  else if c == '\x7d' then some .closeObject
  else if c == ',' then some .comma
  else if c == ':' then some .colon
  else none

def word? (cs : List Char) : Option Token :=
  if cs = ['n', 'u', 'l', 'l'] then some .null
  else if cs = ['t', 'r', 'u', 'e'] then some (.bool true)
  else if cs = ['f', 'a', 'l', 's', 'e'] then some (.bool false)
  else none

def hexValue? (c : Char) : Option Nat :=
  if c.isDigit then some (c.toNat - 48)
  else if 'a' ≤ c && c ≤ 'f' then some (c.toNat - 87)
  else if 'A' ≤ c && c ≤ 'F' then some (c.toNat - 55)
  else none

def hexValue4? (a b c d : Char) : Option Nat := do
  return (((← hexValue? a) * 16 + (← hexValue? b)) * 16 + (← hexValue? c)) * 16 + (← hexValue? d)

def escape? (c : Char) : Option Char :=
  if c == '"' || c == '\\' || c == '/' then some c
  else if c == 'b' then some (Char.ofNat 8)
  else if c == 'f' then some (Char.ofNat 12)
  else if c == 'n' then some '\n'
  else if c == 'r' then some '\r'
  else if c == 't' then some '\t'
  else none

/-- The first half of a code that is written in two. -/
def isLeadingHalf (n : Nat) : Bool := 0xD800 ≤ n && n < 0xDC00

def isTrailingHalf (n : Nat) : Bool := 0xDC00 ≤ n && n < 0xE000

def joinHalves (n m : Nat) : Nat := 0x10000 + (n - 0xD800) * 0x400 + (m - 0xDC00)

def before (c : Char) : Option (List Char × List Char) → Option (List Char × List Char)
  | some (s, rest) => some (c :: s, rest)
  | none => none

/-- The characters of a string up to its closing quote, and what follows the quote. -/
def stringBody : List Char → Option (List Char × List Char)
  | [] => none
  | c :: rest =>
    if c == '"' then some ([], rest)
    else if c == '\\' then
      match rest with
      | 'u' :: x₁ :: x₂ :: x₃ :: x₄ :: rest =>
        match hexValue4? x₁ x₂ x₃ x₄ with
        | none => none
        | some n =>
          if isLeadingHalf n then
            match rest with
            | '\\' :: 'u' :: y₁ :: y₂ :: y₃ :: y₄ :: rest =>
              match hexValue4? y₁ y₂ y₃ y₄ with
              | none => none
              | some m =>
                if isTrailingHalf m then before (Char.ofNat (joinHalves n m)) (stringBody rest)
                else none
            | _ => none
          else if isTrailingHalf n then none
          else before (Char.ofNat n) (stringBody rest)
      | e :: rest =>
        match escape? e with
        | some x => before x (stringBody rest)
        | none => none
      | [] => none
    else if c.toNat < 0x20 then none
    else before c (stringBody rest)

theorem before_eq_some {c : Char} {r : Option (List Char × List Char)} {s rest : List Char}
    (h : before c r = some (s, rest)) : ∃ t, r = some (t, rest) := by
  cases r with
  | none => simp [before] at h
  | some p =>
    obtain ⟨t, more⟩ := p
    simp only [before, Option.some.injEq, Prod.mk.injEq] at h
    exact ⟨t, by rw [h.2]⟩

/-- A string uses up at least its closing quote. -/
theorem length_stringBody {cs s rest : List Char} (h : stringBody cs = some (s, rest)) :
    rest.length < cs.length := by
  fun_induction stringBody cs generalizing s rest with
  | case2 =>
    simp only [Option.some.injEq, Prod.mk.injEq] at h
    simp [← h.2]
  | case5 | case9 | case10 | case14 =>
    rename_i ih
    obtain ⟨t, ht⟩ := before_eq_some h
    have hlt := ih ht
    simp only [List.length_cons]
    omega
  | _ => simp at h

def isNumberChar (c : Char) : Bool :=
  c.isDigit || c == '-' || c == '+' || c == '.' || c == 'e' || c == 'E'

def maxWord : Nat := Nat.pow 2 64 - 1

/-- Digits taken up while a 64-bit word holds the number they form: that number, and how many
digits were left over. -/
def takeDigits (n : Nat) : List Char → Nat × Nat
  | [] => (n, 0)
  | c :: rest =>
    let next := 10 * n + (c.toNat - 48)
    if next ≤ maxWord then takeDigits next rest else (n, rest.length + 1)

def exponent? : List Char → Option Int
  | [] => some 0
  | c :: rest =>
    if c == 'e' || c == 'E' then
      let (negative, digits) := match rest with
        | '-' :: ds => (true, ds)
        | '+' :: ds => (false, ds)
        | ds => (false, ds)
      if digits.isEmpty || !digits.all Char.isDigit then none
      else
        let n : Nat := digits.foldl (fun n d => 10 * n + (d.toNat - 48)) 0
        some (if negative then -(n : Int) else (n : Int))
    else none

/-- A number without its sign. Digits that a 64-bit word cannot hold are dropped: those before the
point still count in the power of ten. -/
def magnitude? (negative : Bool) (cs : List Char) : Option Number :=
  let whole := cs.takeWhile Char.isDigit
  let rest := cs.dropWhile Char.isDigit
  let (n, dropped) := takeDigits 0 whole
  if whole.isEmpty || (whole.head? == some '0' && 1 < whole.length) then none
  else match rest with
    | [] =>
      if dropped = 0 ∧ !negative then some (.integer n)
      else if dropped = 0 ∧ n ≠ 0 ∧ n ≤ Text.wordHalf 64 then some (.integer (-(n : Int)))
      else (Decimal.Binary64.ofDecimal? negative n dropped).map .float
    | '.' :: rest =>
      let fraction := rest.takeWhile Char.isDigit
      let (m, lost) := takeDigits n fraction
      if fraction.isEmpty then none
      else do
        let e ← exponent? (rest.dropWhile Char.isDigit)
        let places : Int := (fraction.length : Int) - lost
        (Decimal.Binary64.ofDecimal? negative m ((dropped : Int) - places + e)).map .float
    | rest => do
      let e ← exponent? rest
      (Decimal.Binary64.ofDecimal? negative n ((dropped : Int) + e)).map .float

def number? : List Char → Option Number
  | '-' :: cs => magnitude? true cs
  | cs => magnitude? false cs

def tokens (cs : List Char) : Option (List Token) :=
  match cs with
  | [] => some []
  | c :: rest =>
    if isSpace c then tokens rest
    else if c == '"' then
      match _h : stringBody rest with
      | some (s, more) => do return .string (String.ofList s) :: (← tokens more)
      | none => none
    else match punctuation? c with
      | some t => do return t :: (← tokens rest)
      | none =>
        if c.isAlpha then do
          let t ← word? (c :: rest.takeWhile Char.isAlpha)
          return t :: (← tokens (rest.dropWhile Char.isAlpha))
        else if isNumberChar c then do
          let n ← number? (c :: rest.takeWhile isNumberChar)
          return .number n :: (← tokens (rest.dropWhile isNumberChar))
        else none
termination_by cs.length
decreasing_by
  all_goals simp only [List.length_cons]
  · omega
  · have := length_stringBody ‹_›
    omega
  · omega
  · have := (List.dropWhile_sublist (l := rest) Char.isAlpha).length_le
    omega
  · have := (List.dropWhile_sublist (l := rest) isNumberChar).length_le
    omega

end CrudBackend.Json
