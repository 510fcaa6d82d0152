/-!
# Names of types

The eight names under which a value's type is reported. They appear in descriptions of values
and in the messages of faults.
-/

namespace Sexpr

/-- The type of a value, as it is reported. -/
inductive TypeName where
  | nil
  | bool
  | int
  | float
  | str
  | symbol
  | keyword
  | pair
deriving DecidableEq

/-- The word for a type. -/
def TypeName.text : TypeName → String
  | .nil => "nil"
  | .bool => "bool"
  | .int => "int"
  | .float => "float"
  | .str => "str"
  | .symbol => "symbol"
  | .keyword => "keyword"
  | .pair => "pair"

end Sexpr
