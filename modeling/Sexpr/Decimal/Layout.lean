import Sexpr.Decimal.Numeral
import Sexpr.Decimal.Shortest

/-!
# Layout of decimals

Where the digits of a decimal stand. Numbers of middling size are written with a point between
the digits, and always with a digit after it; very large and very small ones with an exponent.
-/

namespace Sexpr.Decimal

/-- The leading exponents that are written without an exponent part. -/
structure Layout where
  /-- The least exponent that is written plainly. -/
  least : Int
  /-- The least exponent above it that is not. -/
  bound : Int

/-- Numbers from `1e-4` up to, and without, `1e16` are written plainly. -/
def Layout.standard : Layout := ⟨-4, 16⟩

/-- The digits with a point after the first `places`, with zeros in the gaps. -/
def pointed (ds : List Char) (places : Int) : List Char :=
  if places ≤ 0 then
    '0' :: '.' :: List.replicate (-places).toNat '0' ++ ds
  else
    let whole := places.toNat
    if ds.length ≤ whole then
      ds ++ List.replicate (whole - ds.length) '0' ++ ['.', '0']
    else ds.take whole ++ '.' :: ds.drop whole

/-- The digits with a point after the first, if there are more, and the exponent after an `e`. -/
def scientific (ds : List Char) (exponent : Int) : List Char :=
  let mantissa :=
    match ds with
    | [] => ['0']
    | [d] => [d]
    | d :: rest => d :: '.' :: rest
  mantissa ++ 'e' :: (integer exponent).toList

/-- The text of a positive decimal. -/
def Layout.text (layout : Layout) (d : Scaled) : String :=
  let ds := digits d.digits
  let lead := d.exponent + ds.length - 1
  String.ofList <|
    if layout.least ≤ lead ∧ lead < layout.bound then pointed ds (lead + 1)
    else scientific ds lead

end Sexpr.Decimal
