import Sexpr.Atom.Basic
import Sexpr.Decimal.Numeral

/-!
# Events

What happens to atoms and pairs leaves a trace. Each new atom, each removed entry and each
collection is an event. Events are reported as one line of text, with the exception of the
creation of a fresh symbol, which is not reported.
-/

namespace Sexpr

/-- The outcome of a collection. -/
structure Report where
  /-- The pairs that were alive before. -/
  tracked : Nat
  /-- The pairs among them that a holder outside the heap leads to. -/
  reachable : Nat
  /-- The pairs whose slots were cleared. -/
  collected : Nat
deriving DecidableEq

/-- Something that happened to atoms or pairs. -/
inductive Event where
  /-- An atom was made for a name. -/
  | interned (kind : AtomKind) (name : String)
  /-- A symbol was made for a fresh name. -/
  | drawn (name : String)
  /-- The entry of an atom went away with the atom. -/
  | evicted (kind : AtomKind) (name : String)
  /-- Unreachable pairs were collected. -/
  | collected (report : Report)
deriving DecidableEq

namespace Event

/-- Whether the event is the removal of an entry. -/
def isEviction : Event → Bool
  | evicted _ _ => true
  | _ => false

/-- The line that reports an event. -/
def line? : Event → Option String
  | interned kind name =>
    some ("TRACE event=atom_intern module=interner kind=" ++ kind.text ++ " name=" ++ name)
  | drawn _ => none
  | evicted kind name =>
    some ("TRACE event=atom_evict module=interner kind=" ++ kind.text ++ " name=" ++ name)
  | collected report =>
    some ("DEBUG event=gc_collect module=gc tracked=" ++ Decimal.natural report.tracked ++
      " reachable=" ++ Decimal.natural report.reachable ++
      " collected=" ++ Decimal.natural report.collected)

end Event

end Sexpr
