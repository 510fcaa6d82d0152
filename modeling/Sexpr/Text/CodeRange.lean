/-!
# Ranges of code points

A character class is carried as a list of closed ranges of code points, ascending and apart.
Membership walks the list and stops at the first range that begins above the character.
-/

namespace Sexpr.Text

/-- The code points from `first` to `last`, both included. -/
structure CodeRange where
  first : Nat
  last : Nat
deriving DecidableEq

/-- Whether `code` lies in one of `ranges`, which are ascending. -/
def CodeRange.cover (ranges : List CodeRange) (code : Nat) : Bool :=
  match ranges with
  | [] => false
  | range :: rest =>
    if code < range.first then false
    else if code ≤ range.last then true
    else cover rest code

/-- Whether every range is non-empty and the next one begins above it. -/
def CodeRange.ascending : List CodeRange → Bool
  | [] => true
  | [range] => range.first ≤ range.last
  | range :: next :: rest =>
    range.first ≤ range.last && range.last < next.first && ascending (next :: rest)

end Sexpr.Text
