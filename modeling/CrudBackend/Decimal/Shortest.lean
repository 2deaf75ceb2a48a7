import CrudBackend.Decimal.Binary64

/-!
The fewest decimal digits that read back as a binary floating-point number. On each decimal grid
the two neighbours of the number are tested against the interval of values that round to it; the
coarsest grid with a hit wins, and of two hits the nearer.
-/

namespace CrudBackend.Decimal

/-- The interval of fractions over a common denominator that round to a positive magnitude: lower
end, the magnitude itself, upper end, denominator. -/
structure Rounding where
  lower : Nat
  value : Nat
  upper : Nat
  den : Nat
  /-- The ends round to the magnitude too. -/
  closed : Bool

/-- The values that round to `m * 2 ^ e`. Below a power of two the numbers lie closer together. -/
def rounding (m : Nat) (e : Int) : Rounding :=
  let (up, down) := twoPower e
  let below := if m = leastFull ∧ leastExponent < e then 1 else 2
  { lower := (4 * m - below) * up
    value := 4 * m * up
    upper := (4 * m + 2) * up
    den := 4 * down
    closed := m % 2 == 0 }

/-- Scaling that makes every positive magnitude exceed one. -/
def magnitudeShift : Nat := 400

/-- The least `k` such that the fraction is below `10 ^ k`. -/
def decimalMagnitude (num den : Nat) : Int :=
  ((Nat.toDigits 10 (num * tens magnitudeShift / den)).length : Int) - magnitudeShift

/-- The multiple of `10 ^ p` that lies in the interval and is nearest to the magnitude. -/
def onGrid? (r : Rounding) (p : Int) : Option Nat :=
  let up := tens p.toNat
  let down := tens (-p).toNat
  let unit := up * r.den
  let value := r.value * down
  let q := value / unit
  let inLower := if r.closed then r.lower * down ≤ q * unit else r.lower * down < q * unit
  let inUpper := if r.closed then (q + 1) * unit ≤ r.upper * down else (q + 1) * unit < r.upper * down
  match decide inLower, decide inUpper with
  | true, true => some (roundQuotient value unit)
  | true, false => some q
  | false, true => some (q + 1)
  | false, false => none

def withoutZeros : Nat → Nat → Int → Nat × Int
  | 0, n, p => (n, p)
  | fuel + 1, n, p => if n ≠ 0 ∧ n % 10 = 0 then withoutZeros fuel (n / 10) (p + 1) else (n, p)

/-- The digits and the power of ten of the shortest decimal that rounds to `m * 2 ^ e`. Seventeen
digits always suffice. -/
def shortest (m : Nat) (e : Int) : Nat × Int :=
  let r := rounding m e
  let k := decimalMagnitude r.value r.den
  let grids := (List.range' 1 17).map fun n : Nat => k - (n : Int)
  match grids.findSome? fun p => (onGrid? r p).map fun d => (d, p) with
  | some (d, p) => withoutZeros 20 d p
  | none => (m, 0)

end CrudBackend.Decimal
