import BlockScript.Decimal.Digits

/-!
# Shortest decimals

The decimal with the fewest digits among all that are read back as a given binary fraction, and of
those the one nearest to it. Everything is exact arithmetic on natural numbers: a fraction is
`mantissa * 2 ^ exponent`, a decimal `digits * 10 ^ exponent`, and both are compared by cross
multiplication.
-/

namespace BlockScript.Decimal

/-- The value `mantissa * 2 ^ exponent`. -/
structure Binary where
  mantissa : Nat
  exponent : Int
  /-- The next value below is only half as far away as the next one above. -/
  tight : Bool
deriving DecidableEq, Repr

/-- The value `digits * 10 ^ exponent`. -/
structure Scaled where
  digits : Nat
  exponent : Int
deriving DecidableEq, Repr

/-- The magnitude of a finite 64-bit float, from its bits; the sign bit is ignored. -/
def Binary.ofBits (bits : UInt64) : Binary :=
  let biased := ((bits >>> 52) &&& 0x7FF).toNat
  let fraction := (bits &&& 0xFFFFFFFFFFFFF).toNat
  if biased = 0 then ⟨fraction, -1074, false⟩
  else ⟨4503599627370496 + fraction, (biased : Int) - 1075, fraction == 0 && 1 < biased⟩

/-- How `a * 10 ^ i` compares with `n * 2 ^ j`. -/
def compareScaled (a : Nat) (i : Int) (n : Nat) (j : Int) : Ordering :=
  compare (a * Nat.pow 10 i.toNat * Nat.pow 2 (-j).toNat)
    (n * Nat.pow 2 j.toNat * Nat.pow 10 (-i).toNat)

namespace Binary

/-- Whether a decimal lies between the two points halfway to the neighbours of `x`. The points
themselves belong to `x` when its mantissa is even. -/
def isReadFrom (x : Binary) (d : Scaled) : Bool :=
  let low := if x.tight then 4 * x.mantissa - 1 else 4 * x.mantissa - 2
  let high := 4 * x.mantissa + 2
  let closed := x.mantissa % 2 == 0
  let below := compareScaled d.digits d.exponent low (x.exponent - 2)
  let above := compareScaled d.digits d.exponent high (x.exponent - 2)
  (below == .gt || (closed && below == .eq)) && (above == .lt || (closed && above == .eq))

/-- The exponent of the leading decimal digit of a positive value. -/
def leadingExponent (x : Binary) : Int :=
  let numerator := x.mantissa * Nat.pow 2 x.exponent.toNat
  let denominator := Nat.pow 2 (-x.exponent).toNat
  let estimate : Int := (Digits.digits numerator).length - (Digits.digits denominator).length
  if compareScaled 1 estimate x.mantissa x.exponent == .gt then estimate - 1 else estimate

/-- The decimal on the grid of multiples of `10 ^ step` that is read back as `x` and nearest to it,
if the grid has one. Halfway between two of them the larger is taken. -/
def onGrid? (x : Binary) (step : Int) : Option Scaled :=
  let numerator := x.mantissa * Nat.pow 2 x.exponent.toNat * Nat.pow 10 (-step).toNat
  let denominator := Nat.pow 2 (-x.exponent).toNat * Nat.pow 10 step.toNat
  let low : Scaled := ⟨numerator / denominator, step⟩
  let high : Scaled := ⟨numerator / denominator + 1, step⟩
  match x.isReadFrom low, x.isReadFrom high with
  | true, true =>
    if 2 * numerator < (low.digits + high.digits) * denominator then some low else some high
  | true, false => some low
  | false, true => some high
  | false, false => none

def exact (x : Binary) : Scaled :=
  if x.exponent < 0 then ⟨x.mantissa * Nat.pow 5 (-x.exponent).toNat, x.exponent⟩
  else ⟨x.mantissa * Nat.pow 2 x.exponent.toNat, 0⟩

/-- The shortest decimal that is read back as a positive value: grids are tried from the coarsest
on, and seventeen digits are enough for every 64-bit float. -/
def shortest (x : Binary) : Scaled :=
  let leading := x.leadingExponent
  ((List.range 17).findSome? fun (n : Nat) => x.onGrid? (leading - n)).getD x.exact

end Binary

end BlockScript.Decimal
