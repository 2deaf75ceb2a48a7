/-!
Finite binary floating-point numbers of 64 bits, as exact values: a sign, a whole number and a
power of two. Rounding is to the nearest such number, a tie goes to the even one, and a value
beyond the largest is not rounded at all.
-/

namespace CrudBackend.Decimal

/-- The number `mantissa * 2 ^ exponent` with its sign. Zero has a sign too. -/
structure Binary64 where
  negative : Bool
  mantissa : Nat
  exponent : Int
  deriving DecidableEq, Repr

def leastExponent : Int := -1074

/-- The exponent of the largest numbers, whose mantissa has 53 bits. -/
def greatestExponent : Int := 971

/-- The least mantissa of 53 bits. Only the smallest numbers have fewer bits. -/
def leastFull : Nat := Nat.pow 2 52

def twoPower (e : Int) : Nat × Nat := (Nat.pow 2 e.toNat, Nat.pow 2 (-e).toNat)

/-- The greatest `e` with `2 ^ e ≤ num / den`, for a positive fraction. -/
def floorLog2 (num den : Nat) : Int :=
  let e : Int := (num.log2 : Int) - (den.log2 : Int)
  let (up, down) := twoPower e
  if den * up ≤ num * down then e else e - 1

/-- A quotient rounded to the nearest whole number, a tie to the even one. -/
def roundQuotient (num den : Nat) : Nat :=
  let q := num / den
  let r := num % den
  if den < 2 * r || (2 * r == den && q % 2 == 1) then q + 1 else q

/-- Mantissa and exponent of the number nearest to a fraction; none beyond the largest number. -/
def nearest? (num den : Nat) : Option (Nat × Int) :=
  if num = 0 then some (0, leastExponent)
  else
    let e := max (floorLog2 num den - 52) leastExponent
    let (up, down) := twoPower e
    let m := roundQuotient (num * down) (den * up)
    let (m, e) := if m = 2 * leastFull then (leastFull, e + 1) else (m, e)
    if greatestExponent < e then none else some (m, e)

def tens (k : Nat) : Nat := Nat.pow 10 k

def tenPower (k : Nat) : Option (Nat × Int) := nearest? (tens k) 1

def product? (x y : Nat × Int) : Option (Nat × Int) :=
  let (up, down) := twoPower (x.2 + y.2)
  nearest? (x.1 * y.1 * up) down

def quotient? (x y : Nat × Int) : Option (Nat × Int) :=
  let (up, down) := twoPower (x.2 - y.2)
  nearest? (x.1 * up) (y.1 * down)

def tenPowerLimit : Nat := 308

/-- A magnitude divided by the largest power of ten as often as `steps` says, and then by another
power of ten. Once it is zero it stays so. -/
def dividedDown (rest : Nat) : Nat → Nat × Int → Option (Nat × Int)
  | 0, x => do quotient? x (← tenPower rest)
  | steps + 1, x =>
    if x.1 = 0 then some x
    else do dividedDown rest steps (← quotient? x (← tenPower tenPowerLimit))

/-- A magnitude divided by a power of ten, in as few steps as the largest power of ten allows. -/
def scaledDown (x : Nat × Int) (k : Nat) : Option (Nat × Int) :=
  let steps := (k - 1) / tenPowerLimit
  dividedDown (k - steps * tenPowerLimit) steps x

def scaledUp (x : Nat × Int) (k : Nat) : Option (Nat × Int) :=
  if k ≤ tenPowerLimit then do product? x (← tenPower k)
  else if x.1 = 0 then some x
  else none

/-- The number written with the given digits and a power of ten. The digits are rounded first, and
the product or quotient with the power of ten is rounded again. -/
def Binary64.ofDecimal? (negative : Bool) (digits : Nat) (exponent : Int) : Option Binary64 := do
  let x ← nearest? digits 1
  let (m, e) ←
    if 0 ≤ exponent then scaledUp x exponent.toNat else scaledDown x (-exponent).toNat
  return ⟨negative, m, e⟩

end CrudBackend.Decimal
