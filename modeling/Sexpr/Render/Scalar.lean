import Sexpr.Atom.Quoted
import Sexpr.Value

/-!
# Texts of scalars

Scalars have two texts. The structural text tells all scalars apart: a text is quoted and an
atom shows its kind. The plain text is for reading: a text is itself and an atom its name. As
items of a list, texts are quoted there too, so that they are not taken for names.
-/

namespace Sexpr.Scalar

/-- The text of a boolean. -/
def boolText : Bool → String
  | true => "true"
  | false => "false"

/-- The structural text. -/
def structural : Scalar → String
  | nil => "nil"
  | bool b => boolText b
  | int n => Decimal.integer n
  | float x => x.text
  | text s => Text.literal s
  | atom a => a.structural

/-- The plain text. -/
def plain : Scalar → String
  | nil => "nil"
  | bool b => boolText b
  | int n => Decimal.integer n
  | float x => x.text
  | text s => s
  | atom a => a.name

/-- The text as an item of a list. -/
def item : Scalar → String
  | text s => Text.listed s
  | other => other.plain

end Sexpr.Scalar
