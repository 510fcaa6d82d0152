/-!
# Decimal numerals

Whole numbers as they are written in texts and messages: decimal digits without padding, and a
minus sign before a negative number.
-/

namespace Sexpr.Decimal

/-- The decimal digits of `n`, without padding. -/
def digits (n : Nat) : List Char := Nat.toDigits 10 n

/-- The numeral of a natural number. -/
def natural (n : Nat) : String := String.ofList (digits n)

/-- The numeral of an integer. -/
def integer : Int → String
  | .ofNat n => natural n
  | .negSucc n => "-" ++ natural (n + 1)

end Sexpr.Decimal
