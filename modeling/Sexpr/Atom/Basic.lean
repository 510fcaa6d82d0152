/-!
# Atoms

An atom is a name with an identity. Symbols keep the name they are given; keywords lose the
colons around it. A handle on an atom carries its identity next to its kind and name, both of
which never change, so that two handles are the same atom exactly if their identities agree.
-/

namespace Sexpr

/-- The two kinds of atom. -/
inductive AtomKind where
  | symbol
  | keyword
deriving DecidableEq

namespace AtomKind

/-- The word for a kind. -/
def text : AtomKind → String
  | symbol => "symbol"
  | keyword => "keyword"

/-- The name under which an atom of this kind is filed, as characters. Keywords lose all colons
at both ends. -/
def trim : AtomKind → List Char → List Char
  | symbol, raw => raw
  | keyword, raw => ((raw.dropWhile (· == ':')).reverse.dropWhile (· == ':')).reverse

/-- The name under which an atom of this kind is filed. -/
def normalize (kind : AtomKind) (raw : String) : String :=
  String.ofList (kind.trim raw.toList)

end AtomKind

/-- A handle on an atom: `id` is its identity. -/
structure Atom where
  id : Nat
  kind : AtomKind
  name : String
deriving DecidableEq

/-- The number of different atoms. -/
def Atom.countDistinct (atoms : List Atom) : Nat := (atoms.map Atom.id).eraseDups.length

end Sexpr
