/-!
# Decimal text of numbers

A positive rational number is rounded to a given number of significant decimal digits in exact
integer arithmetic.  Of two equally near results the one with the even last digit is taken.

A style fixes how many significant digits a number shows, for which exponents it is written
positionally and how an exponent is spelled.  Zeros at the end of the fraction are left out, and
with them the point when no digit is left behind it.
-/

namespace Columnar.Decimal

/-! ## Rounding -/

/-- The quotient rounded to the nearest integer, and to the even one of two equally near. -/
def roundQuotient (numerator denominator : Nat) : Nat :=
  let quotient := numerator / denominator
  let twiceRest := 2 * (numerator % denominator)
  if twiceRest < denominator then quotient
  else if denominator < twiceRest then quotient + 1
  else quotient + quotient % 2

/-- `numerator / denominator` multiplied by a power of ten, again as a quotient. -/
def scale (power : Int) (numerator denominator : Nat) : Nat × Nat :=
  (numerator * Nat.pow 10 power.toNat, denominator * Nat.pow 10 (-power).toNat)

/-- The exponent of the first significant digit of `numerator / denominator`: the largest power
of ten that is not above it. -/
def leadingExponent (numerator denominator : Nat) : Int :=
  let estimate : Int :=
    (Nat.toDigits 10 numerator).length - (Nat.toDigits 10 denominator).length
  let (scaledNumerator, scaledDenominator) := scale (-estimate) numerator denominator
  if scaledDenominator ≤ scaledNumerator then estimate else estimate - 1

/-- A number of the form `d.ddd… · 10 ^ exponent`, its digits read as one natural number. -/
structure Rounded where
  digits : Nat
  exponent : Int
deriving DecidableEq, Repr

/-- `numerator / denominator` to `precision` significant digits. Rounding up to the next power of
ten moves the exponent. -/
def round (precision numerator denominator : Nat) : Rounded :=
  let exponent := leadingExponent numerator denominator
  let (scaledNumerator, scaledDenominator) :=
    scale (precision - 1 - exponent) numerator denominator
  let digits := roundQuotient scaledNumerator scaledDenominator
  if digits = Nat.pow 10 precision then
    ⟨Nat.pow 10 (precision - 1), exponent + 1⟩
  else
    ⟨digits, exponent⟩

/-! ## Spelling -/

/-- How numbers are spelled. -/
structure Style where
  /-- Significant digits before zeros at the end are left out. -/
  precision : Nat
  /-- Numbers with a smaller exponent are written with an exponent. -/
  leastPositional : Int
  /-- Numbers with this or a larger exponent are written with an exponent. -/
  positionalEnd : Int
  /-- The exponent is padded with zeros to this many digits. -/
  exponentDigits : Nat

/-- The digits of a number in base ten, padded with zeros on the left. -/
def paddedDigits (width value : Nat) : List Char :=
  let digits := Nat.toDigits 10 value
  List.replicate (width - digits.length) '0' ++ digits

/-- The text without the zeros at its end. -/
def dropFinalZeros (digits : List Char) : List Char :=
  (digits.reverse.dropWhile (· = '0')).reverse

/-- A point and the fraction, or nothing when only zeros are left. -/
def fraction (digits : List Char) : List Char :=
  match dropFinalZeros digits with
  | [] => []
  | kept => '.' :: kept

/-- The sign and the padded digits of an exponent. -/
def exponentText (width : Nat) (exponent : Int) : List Char :=
  (if exponent < 0 then '-' else '+') :: paddedDigits width exponent.natAbs

/-- The text of a rounded number. -/
def Rounded.text (style : Style) (value : Rounded) : String :=
  let digits := paddedDigits style.precision value.digits
  if value.exponent < style.leastPositional ∨ style.positionalEnd ≤ value.exponent then
    String.ofList (digits.take 1 ++ fraction (digits.drop 1) ++
      'e' :: exponentText style.exponentDigits value.exponent)
  else if value.exponent < 0 then
    let zeros := List.replicate (-value.exponent - 1).toNat '0'
    String.ofList ('0' :: fraction (zeros ++ digits))
  else
    let whole := value.exponent.toNat + 1
    String.ofList (digits.take whole ++ fraction (digits.drop whole))

/-- The text of `numerator / denominator`; zero is the digit alone. -/
def text (style : Style) (numerator denominator : Nat) : String :=
  if numerator = 0 then "0" else (round style.precision numerator denominator).text style

end Columnar.Decimal
