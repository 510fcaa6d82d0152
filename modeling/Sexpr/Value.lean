import Sexpr.Atom.Basic
import Sexpr.Binary64
import Sexpr.Fault
import Sexpr.TypeName

/-!
# Values

A value is a scalar or a reference to a pair. Scalars hold all that a value can be without the
heap; nil is a scalar of its own and not a degenerate pair. A reference to a pair is its
identity, so a value by itself says nothing about what the pair holds.

Atoms and pairs are equal if they are the same atom or pair; there is no comparison of what two
pairs hold.
-/

namespace Sexpr

/-- The identity of a pair. -/
structure PairId where
  index : Nat
deriving DecidableEq

/-- A value that is not a pair. -/
inductive Scalar where
  | nil
  | bool (value : Bool)
  | int (value : Int)
  | float (value : Binary64)
  | text (value : String)
  | atom (value : Atom)
deriving DecidableEq

/-- What a slot of a pair can hold. -/
inductive Value where
  | scalar (value : Scalar)
  | pair (id : PairId)
deriving DecidableEq

/-- The type that atoms of a kind have. -/
def AtomKind.typeName : AtomKind → TypeName
  | symbol => .symbol
  | keyword => .keyword

namespace Scalar

/-- The type of a scalar. -/
def typeName : Scalar → TypeName
  | nil => .nil
  | bool _ => .bool
  | int _ => .int
  | float _ => .float
  | text _ => .str
  | atom a => a.kind.typeName

/-- Equality of scalars: atoms by identity, floating-point numbers by value. -/
def equal : Scalar → Scalar → Bool
  | nil, nil => true
  | bool a, bool b => a == b
  | int a, int b => a == b
  | float a, float b => a.equal b
  | text a, text b => a == b
  | atom a, atom b => a.id == b.id
  | _, _ => false

end Scalar

namespace Value

/-- The end of a proper list. -/
def nil : Value := .scalar .nil

/-- An atom as a value. -/
def atom (a : Atom) : Value := .scalar (.atom a)

/-- An integer as a value. -/
def int (n : Int) : Value := .scalar (.int n)

/-- The type of a value. -/
def typeName : Value → TypeName
  | scalar s => s.typeName
  | pair _ => .pair

/-- Whether the value is nil. -/
def isNil : Value → Bool
  | scalar .nil => true
  | _ => false

/-- The pair that a value refers to. -/
def pair? : Value → Option PairId
  | pair p => some p
  | scalar _ => none

/-- The atom that a value is. -/
def atom? : Value → Option Atom
  | scalar (.atom a) => some a
  | _ => none

/-- Whether the value is a pair. -/
def isPair (v : Value) : Bool := v.pair?.isSome

/-- Nil and `false` count as false, all else as true. -/
def isTruthy : Value → Bool
  | scalar .nil => false
  | scalar (.bool false) => false
  | _ => true

/-- Equality of values. Pairs are equal if they are the same pair. -/
def equal : Value → Value → Bool
  | scalar a, scalar b => a.equal b
  | pair a, pair b => a == b
  | _, _ => false

/-- The number of items: two in a pair and none in nil. -/
def length : Value → Except Fault Nat
  | pair _ => .ok 2
  | scalar .nil => .ok 0
  | v => .error (.noLength v.typeName)

/-- Whether there are no items. -/
def isEmpty (v : Value) : Except Fault Bool := v.length.map (· == 0)

end Value

end Sexpr
