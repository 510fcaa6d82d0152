import Sexpr.Store.Slots

/-!
# Cursors

A cursor goes over the two slots of one pair: first the head, then the tail, then nothing. It
reads each slot when it comes to it, holds one handle on the pair until it has read the tail, and
gives it up in that move. The cursor over nil is finished from the start.
-/

namespace Sexpr

/-- A walk over the slots of a pair. -/
inductive Cursor where
  /-- The head is next. -/
  | atHead (p : PairId)
  /-- The tail is next. -/
  | atTail (p : PairId)
  /-- Nothing is left. -/
  | finished
deriving DecidableEq

namespace Cursor

/-- The number of items that are left. -/
def remaining : Cursor → Nat
  | atHead _ => 2
  | atTail _ => 1
  | finished => 0

/-- Whether the cursor has let go of its pair. -/
def isExhausted : Cursor → Bool
  | finished => true
  | _ => false

/-- The pair that the cursor holds. -/
def held : Cursor → List Value
  | atHead p => [.pair p]
  | atTail p => [.pair p]
  | finished => []

/-- A cursor over a value, with a handle of its own on the pair. -/
def start (value : Value) (store : Store) : Except Fault Cursor × Store :=
  match value with
  | .pair p => (.ok (.atHead p), store.retain (.pair p))
  | .scalar .nil => (.ok .finished, store)
  | .scalar s => (.error (.notIterable s.typeName), store)

/-- The next item, if there is one, and the cursor behind it. -/
def next (cursor : Cursor) (store : Store) : (Option Value × Cursor) × Store :=
  match cursor with
  | atHead p =>
    let (value, store) := store.read p .head
    ((some value, .atTail p), store)
  | atTail p =>
    let (value, store) := store.read p .tail
    ((some value, .finished), store.release (.pair p))
  | finished => ((none, .finished), store)

end Cursor

end Sexpr
