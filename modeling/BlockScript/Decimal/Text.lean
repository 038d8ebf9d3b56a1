import BlockScript.Decimal.Shortest

/-!
# Decimals as text

Writing: the fewest digits that are read back, in positional notation with at least one digit after
the point when the magnitude is zero or lies in `[1e-4, 1e16)`, otherwise with an exponent.

Reading: an optional sign, digits with an optional point among them, an optional exponent. At least
one digit must stand before or after the point and in the exponent. A literal too large for a finite
number is refused; one too small is zero.
-/

namespace BlockScript.Decimal

def trimZeros (digits : List Char) : List Char := (digits.reverse.dropWhile (· == '0')).reverse

/-- Lays out `0.d₁d₂… * 10 ^ point` with the point among the digits. -/
def positional (digits : List Char) (point : Int) : List Char :=
  if point ≤ 0 then '0' :: '.' :: (List.replicate (-point).toNat '0' ++ digits)
  else
    let whole := point.toNat
    if digits.length ≤ whole then
      digits ++ List.replicate (whole - digits.length) '0' ++ ['.', '0']
    else digits.take whole ++ '.' :: digits.drop whole

/-- Lays out digits with the point after the first and the exponent of that first digit. -/
def exponential (digits : List Char) (exponent : Int) : List Char :=
  let fraction := digits.drop 1
  digits.take 1 ++ (if fraction.isEmpty then [] else '.' :: fraction) ++
    'e' :: (Digits.intText exponent).toList

/-- The text of a magnitude, given by the bits of a finite float. -/
def magnitudeText (bits : UInt64) : List Char :=
  let x := Binary.ofBits bits
  if x.mantissa = 0 then ['0', '.', '0']
  else
    let shortest := x.shortest
    let digits := Digits.digits shortest.digits
    let exponent := shortest.exponent + digits.length - 1
    if -4 ≤ exponent ∧ exponent < 16 then positional (trimZeros digits) (exponent + 1)
    else exponential (trimZeros digits) exponent

def text (x : Float) : String :=
  if x.isNaN then "NaN"
  else
    let sign := if x.toBits >>> 63 = 1 then ['-'] else []
    String.ofList (sign ++ if x.isInf then ['i', 'n', 'f'] else magnitudeText x.toBits)

/-- A leading sign, and whether it is a minus. -/
def splitSign : List Char → Bool × List Char
  | '-' :: rest => (true, rest)
  | '+' :: rest => (false, rest)
  | rest => (false, rest)

/-- A decimal literal: `± whole . fraction * 10 ^ exponent`. -/
structure Literal where
  negative : Bool
  whole : List Char
  fraction : List Char
  exponent : Int
deriving DecidableEq, Repr

/-- An exponent without its mark: an optional sign and at least one digit, to the end. -/
def readExponent? (cs : List Char) : Option Int :=
  let (negative, digits) := splitSign cs
  if digits.isEmpty || !digits.all Digits.isDigit then none
  else some (if negative then -(Digits.value digits : Int) else Digits.value digits)

/-- The digits behind a leading point, and what follows them; all of it when there is no point. -/
def splitFraction : List Char → List Char × List Char
  | '.' :: rest => (rest.takeWhile Digits.isDigit, rest.dropWhile Digits.isDigit)
  | rest => ([], rest)

def Literal.read? (cs : List Char) : Option Literal :=
  let (negative, body) := splitSign cs
  let whole := body.takeWhile Digits.isDigit
  let (fraction, afterFraction) := splitFraction (body.dropWhile Digits.isDigit)
  if whole.isEmpty && fraction.isEmpty then none
  else
    match afterFraction with
    | [] => some ⟨negative, whole, fraction, 0⟩
    | mark :: rest =>
      if mark == 'e' || mark == 'E' then (readExponent? rest).map (⟨negative, whole, fraction, ·⟩)
      else none

/-- The float nearest to a literal; infinite when the literal is too large. Exponents far outside
the range of a float are decided without computing the power. -/
def Literal.toFloat (l : Literal) : Float :=
  let mantissa := Digits.value (l.whole ++ l.fraction)
  let exponent := l.exponent - l.fraction.length
  let size : Int := (Digits.digits mantissa).length + exponent
  let magnitude : Float :=
    if mantissa = 0 ∨ size < -400 then 0.0
    else if 400 < size then Float.ofBits 0x7FF0000000000000
    else Float.ofScientific mantissa (exponent < 0) exponent.natAbs
  if l.negative then -magnitude else magnitude

def read? (cs : List Char) : Option Float :=
  (Literal.read? cs).bind fun literal =>
    let x := literal.toFloat
    if x.isFinite then some x else none

end BlockScript.Decimal
