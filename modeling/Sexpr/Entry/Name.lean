/-!
# Host entry points by name

A host calls the library by name with untyped argument lists. The twelve entry points are
listed here in the order in which they are announced; `Entry.named?` finds one by its name.
-/

namespace Sexpr

/-- An entry point that a host can call. -/
inductive Entry where
  | symbol
  | keyword
  | gensym
  | split
  | rsplit
  | pair
  | nil
  | cons
  | car
  | cdr
  | setcar
  | setcdr
deriving DecidableEq

namespace Entry

/-- The name under which a host calls the entry point. -/
def name : Entry → String
  | symbol => "symbol"
  | keyword => "keyword"
  | gensym => "gensym"
  | split => "split"
  | rsplit => "rsplit"
  | pair => "pair"
  | nil => "nil"
  | cons => "cons"
  | car => "car"
  | cdr => "cdr"
  | setcar => "setcar"
  | setcdr => "setcdr"

/-- All entry points, in the order in which they are announced. -/
def all : List Entry :=
  [symbol, keyword, gensym, split, rsplit, pair, nil, cons, car, cdr, setcar, setcdr]

/-- The entry point called `wanted`, if there is one. -/
def named? (wanted : String) : Option Entry :=
  all.find? fun entry => entry.name == wanted

end Entry

end Sexpr
