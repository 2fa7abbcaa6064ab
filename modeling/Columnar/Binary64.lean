import Columnar.Decimal

/-!
# Floating-point values

Floating-point values are stored and listed, never computed with, so a value is its 64 bits:
a sign, eleven bits of exponent and fifty-two of fraction.  All of them are kept, those of a
not-a-number too.
-/

namespace Columnar

/-- A floating-point value by its bits. -/
structure Binary64 where
  bits : UInt64
deriving DecidableEq, Repr

namespace Binary64

/-- Whether the sign bit is set. -/
def isNegative (value : Binary64) : Bool :=
  value.bits >>> 63 = 1

/-- The exponent field. -/
def exponentField (value : Binary64) : Nat :=
  ((value.bits >>> 52) &&& 0x7ff).toNat

/-- The fraction field. -/
def fractionField (value : Binary64) : Nat :=
  (value.bits &&& 0xfffffffffffff).toNat

/-- The magnitude of a finite value as a quotient. Subnormal values have no leading one and the
least exponent. -/
def magnitude (value : Binary64) : Nat × Nat :=
  if value.exponentField = 0 then
    (value.fractionField, 1 <<< 1074)
  else
    let significand := 0x10000000000000 + value.fractionField
    (significand <<< (value.exponentField - 1075), 1 <<< (1075 - value.exponentField))

/-- Listed values show six significant digits, and an exponent of at least two digits below
`10 ^ -4` and from `10 ^ 6` on. -/
def listingStyle : Decimal.Style where
  precision := 6
  leastPositional := -4
  positionalEnd := 6
  exponentDigits := 2

/-- The text of the value without its sign. -/
def magnitudeText (value : Binary64) : String :=
  if value.exponentField = 0x7ff then
    if value.fractionField = 0 then "inf" else "nan"
  else
    let (numerator, denominator) := value.magnitude
    Decimal.text listingStyle numerator denominator

/-- The text of a value in listings. Zero and not-a-number show their sign as well. -/
def text (value : Binary64) : String :=
  if value.isNegative then "-" ++ value.magnitudeText else value.magnitudeText

end Binary64

end Columnar
