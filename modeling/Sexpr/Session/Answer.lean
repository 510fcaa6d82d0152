import Sexpr.Atom.Quoted
import Sexpr.Event
import Sexpr.Fault
import Sexpr.Heap.Basic
import Sexpr.Text.Digest
import Sexpr.Value

/-!
# Answers

What a step reports. A value is reported by a description, which holds its type and both of its
texts, and an atom by its kind, name and text. No identity enters an answer, so it stays true when
the value itself has changed or died.
-/

namespace Sexpr

/-- A value in words. -/
structure Description where
  type : TypeName
  /-- The list text. -/
  listing : String
  /-- The structural text. -/
  structural : String

/-- An atom in words. -/
structure AtomDescription where
  kind : AtomKind
  name : String
  /-- The structural text. -/
  structural : String

/-- The description of an atom. -/
def Atom.description (a : Atom) : AtomDescription := ⟨a.kind, a.name, a.structural⟩

/-- What can be asked of a value without looking at its slots. -/
structure Inspection where
  type : TypeName
  isNil : Bool
  isPair : Bool
  atom : Option AtomDescription
  isTruthy : Bool
  length : Except Fault Nat
  isEmpty : Except Fault Bool

/-- What can be asked of a value without looking at its slots. -/
def Value.inspection (value : Value) : Inspection :=
  { type := value.typeName
    isNil := value.isNil
    isPair := value.isPair
    atom := value.atom?.map Atom.description
    isTruthy := value.isTruthy
    length := value.length
    isEmpty := value.isEmpty }

/-- Both slots of a pair, and the pair itself. -/
structure SlotsView where
  head : Description
  tail : Description
  headTruthy : Bool
  tailTruthy : Bool
  whole : Description

/-- A chain that was followed to its end. -/
structure Descent where
  /-- The number of pairs visited. -/
  depth : Nat
  /-- The number of pairs visited that have a position. -/
  positioned : Nat
  /-- The position of the last pair. -/
  lastPosition : Option Position
  /-- What stands behind the last pair. -/
  stop : Description

/-- What a step reports. -/
inductive Answer where
  | described (value : Description)
  | typed (type : TypeName)
  /-- Whether there was something to drop. -/
  | dropped (existed : Bool)
  | inspected (inspection : Inspection)
  /-- Whether two values are equal. -/
  | compared (equal : Bool)
  | slots (view : SlotsView)
  /-- Whether two pairs are the same. -/
  | identified (same : Bool)
  /-- Whether the tails of a pair never end. -/
  | endless (endless : Bool)
  | digested (listing structural : Text.Digest)
  | descended (descent : Descent)
  /-- A new cursor. -/
  | cursor (remaining : Nat) (exhausted : Bool)
  /-- The next item of a cursor, and the cursor behind it. -/
  | item (value : Option Description) (remaining : Nat) (exhausted : Bool)
  /-- A new weak reference. -/
  | weak (type : TypeName)
  /-- What a weak reference leads to; for an atom, also the text of the reference. -/
  | upgraded (value : Option Description) (reference : Option String)
  | position (position : Option Position)
  | positions (positions : List (Option Position))
  | interned (interned : Bool)
  /-- The number of different atoms. -/
  | distinct (count : Nat)
  | pieces (atoms : List AtomDescription)
  /-- A fresh symbol and the names of the candidates up to it. -/
  | drawn (candidates : List String) (value : Description)
  /-- There is no entry point of that name. -/
  | unknownEntry
  | collected (report : Report)
  | tracked (count : Nat)
  /-- The number of different atoms that several threads got for one name, and the first. -/
  | agreed (count : Nat) (atom : AtomDescription)

end Sexpr
