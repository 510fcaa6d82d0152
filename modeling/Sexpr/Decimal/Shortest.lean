/-!
# Shortest decimals

A positive number `m * 2 ^ q` of a binary format stands for all reals that round to it. Among the
decimals in that interval, `shortest` takes one with the fewest digits, and of those the one
nearest to the number. All arithmetic is exact, on fractions of natural numbers.
-/

namespace Sexpr.Decimal

/-- The number `digits * 10 ^ exponent`. -/
structure Scaled where
  digits : Nat
  exponent : Int
deriving DecidableEq

/-- A positive number with the ends of the interval that rounds to it, over one denominator. -/
structure Rounding where
  low : Nat
  value : Nat
  high : Nat
  denominator : Nat
  /-- Whether the ends themselves round to the number. -/
  closed : Bool

/-- `n * 2 ^ q` as a numerator, for the common denominator `2 ^ (-q)`. -/
def shifted (n : Nat) (q : Int) : Nat := n * Nat.pow 2 q.toNat

/-- The interval of `m * 2 ^ q`. `narrow` says that the next smaller number is only half as far
away as the next larger one, as it is below a power of two. A tie rounds to an even `m`. -/
def Rounding.ofBinary (m : Nat) (q : Int) (narrow : Bool) : Rounding :=
  let quarter := q - 2
  { low := shifted (4 * m - (if narrow then 1 else 2)) quarter
    value := shifted (4 * m) quarter
    high := shifted (4 * m + 2) quarter
    denominator := Nat.pow 2 (-quarter).toNat
    closed := m % 2 == 0 }

/-- Whether `c * 10 ^ e` rounds to the number. -/
def Rounding.contains (r : Rounding) (c : Nat) (e : Int) : Bool :=
  let point := c * Nat.pow 10 e.toNat * r.denominator
  let scale := Nat.pow 10 (-e).toNat
  if r.closed then r.low * scale ≤ point && point ≤ r.high * scale
  else r.low * scale < point && point < r.high * scale

/-- The exponent of the leading decimal digit of a positive fraction. -/
def leadingExponent (numerator denominator : Nat) : Int :=
  if denominator ≤ numerator then
    (Nat.toDigits 10 (numerator / denominator)).length - 1
  else
    let places := (Nat.toDigits 10 (denominator / numerator)).length
    if numerator * Nat.pow 10 (places - 1) < denominator then -places else -(places - 1)

/-- The decimal of the grid `10 ^ e` that rounds to the number and is nearest to it, if the grid
has one. Of two at the same distance the larger is taken. -/
def Rounding.onGrid? (r : Rounding) (e : Int) : Option Nat :=
  let numerator := r.value * Nat.pow 10 (-e).toNat
  let unit := r.denominator * Nat.pow 10 e.toNat
  let below := numerator / unit
  let remainder := numerator % unit
  match r.contains below e, r.contains (below + 1) e with
  | true, true => some (if 2 * remainder < unit then below else below + 1)
  | true, false => some below
  | false, true => some (below + 1)
  | false, false => none

/-- Without the zeros at its end. -/
def stripZeros (fuel : Nat) (d : Scaled) : Scaled :=
  match fuel with
  | 0 => d
  | fuel + 1 =>
    if d.digits % 10 = 0 then stripZeros fuel ⟨d.digits / 10, d.exponent + 1⟩ else d

/-- The first of the grids with `count`, `count + 1`, … digits that has a decimal in the interval,
looking at `tries` of them. -/
def Rounding.search (r : Rounding) (lead : Int) : Nat → Nat → Option Scaled
  | 0, _ => none
  | tries + 1, count =>
    let e := lead + 1 - count
    match r.onGrid? e with
    | some c => some (stripZeros (count + 1) ⟨c, e⟩)
    | none => r.search lead tries (count + 1)

/-- A decimal with the fewest digits that rounds to the number, and the nearest of those.
Seventeen digits suffice for a number of 53 bits. -/
def Rounding.shortest (r : Rounding) : Scaled :=
  (r.search (leadingExponent r.value r.denominator) 17 1).getD ⟨0, 0⟩

end Sexpr.Decimal
