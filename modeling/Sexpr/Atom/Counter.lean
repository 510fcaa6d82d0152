import Sexpr.Text.Quoted

/-!
# Counter for fresh names

Fresh names are numbered by a counter that walks through the 64-bit words in a fixed, scattered
order. It never stands at zero: where the walk would reach zero it begins again at its seed.
-/

namespace Sexpr.Counter

/-- Where the counter begins. -/
def seed : UInt64 := 97531

/-- The number after `n`. -/
def next (n : UInt64) : UInt64 :=
  let word := (n + 0x9e3779b9) * 1000003
  if word = 0 then seed else word

/-- The stem of a fresh name when none is given. -/
def defaultStem : String := "<gensym>"

/-- The name with the given stem that carries the number `n`. -/
def freshName (stem : Option String) (n : UInt64) : String :=
  stem.getD defaultStem ++ "#" ++ String.ofList (Text.hexDigits n.toNat)

end Sexpr.Counter
