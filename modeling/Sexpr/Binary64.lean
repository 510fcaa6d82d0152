import Sexpr.Decimal.Layout

/-!
# Binary floating-point numbers of 64 bits

A number is its bit pattern: a sign, eleven bits of exponent and 52 bits of fraction. Comparison
is that of the IEEE standard, so a number that is not a number differs from itself and the two
zeros agree. The text is the shortest decimal that reads back as the same number.
-/

namespace Sexpr

/-- A floating-point number by its bits. -/
structure Binary64 where
  bits : UInt64
deriving DecidableEq

namespace Binary64

/-- Whether the sign bit is set. -/
def negative (x : Binary64) : Bool := Nat.pow 2 63 ≤ x.bits.toNat

/-- The eleven bits of the exponent. -/
def exponentBits (x : Binary64) : Nat := x.bits.toNat / Nat.pow 2 52 % Nat.pow 2 11

/-- The 52 bits of the fraction. -/
def fraction (x : Binary64) : Nat := x.bits.toNat % Nat.pow 2 52

/-- Whether the pattern is no number. -/
def isNaN (x : Binary64) : Bool := x.exponentBits == 2047 && x.fraction != 0

/-- Whether the number is one of the two infinities. -/
def isInfinite (x : Binary64) : Bool := x.exponentBits == 2047 && x.fraction == 0

/-- Whether the number is one of the two zeros. -/
def isZero (x : Binary64) : Bool := x.exponentBits == 0 && x.fraction == 0

/-- Equality of numbers. -/
def equal (x y : Binary64) : Bool :=
  !x.isNaN && !y.isNaN && (x.bits == y.bits || (x.isZero && y.isZero))

/-- The reals that round to the absolute value of a finite number other than zero. -/
def rounding (x : Binary64) : Decimal.Rounding :=
  if x.exponentBits = 0 then .ofBinary x.fraction (-1074) false
  else
    .ofBinary (Nat.pow 2 52 + x.fraction) (x.exponentBits - 1075)
      (x.fraction == 0 && x.exponentBits != 1)

/-- The text of a number. -/
def text (x : Binary64) : String :=
  if x.isNaN then "NaN"
  else
    let magnitude :=
      if x.isInfinite then "inf"
      else if x.isZero then "0.0"
      else Decimal.Layout.standard.text x.rounding.shortest
    if x.negative then "-" ++ magnitude else magnitude

end Binary64

end Sexpr
