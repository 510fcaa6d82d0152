import Sexpr.Store.Basic

/-!
# Reading and writing slots

A value that is read comes with a handle of its own. A value that is written goes into the slot
with its handle, and the value that stood there is released. When a write is refused the store
stays as it was, apart from the release of the value that was to be written.
-/

namespace Sexpr.Store

/-- The value in a slot. -/
def read (p : PairId) (slot : Slot) (store : Store) : Value × Store :=
  let value := store.heap.read p slot
  (value, store.retain value)

/-- Puts a value into a slot and releases the one that stood there. -/
def write (p : PairId) (slot : Slot) (value : Value) (store : Store) : Store :=
  let previous := store.heap.read p slot
  (store.mapHeap (·.write p slot value)).release previous

/-! ## By name -/

/-- The slot of a value, which must be a pair. -/
def slotOf (slot : Slot) (value : Value) (store : Store) : Except Fault Value × Store :=
  match value with
  | .pair p =>
    let (value, store) := store.read p slot
    (.ok value, store)
  | .scalar .nil => (.error (.slotOfNil .get slot), store)
  | .scalar s => (.error (.slotOfOther slot s.typeName), store)

/-- Puts a value into the slot of another, which must be a pair. -/
def setSlotOf (slot : Slot) (target value : Value) (store : Store) :
    Except Fault Unit × Store :=
  match target with
  | .pair p => (.ok (), store.write p slot value)
  | .scalar .nil => (.error (.slotOfNil .set slot), store.release value)
  | .scalar s => (.error (.slotOfOther slot s.typeName), store.release value)

/-! ## By index -/

/-- The value at an index of a pair. -/
def pairItem (p : PairId) (index : Int) (store : Store) : Except Fault Value × Store :=
  match Slot.atIndex? index with
  | some slot =>
    let (value, store) := store.read p slot
    (.ok value, store)
  | none => (.error .pairIndex, store)

/-- Puts a value at an index of a pair. -/
def setPairItem (p : PairId) (index : Int) (value : Value) (store : Store) :
    Except Fault Unit × Store :=
  match Slot.atIndex? index with
  | some slot => (.ok (), store.write p slot value)
  | none => (.error .pairIndex, store.release value)

/-- The value at an index of a value. -/
def item (target : Value) (index : Int) (store : Store) : Except Fault Value × Store :=
  match target with
  | .pair p => store.pairItem p index
  | .scalar .nil => (.error .nilItems, store)
  | .scalar s => (.error (.notIndexed s.typeName), store)

/-- Puts a value at an index of another. -/
def setItem (target : Value) (index : Int) (value : Value) (store : Store) :
    Except Fault Unit × Store :=
  match target with
  | .pair p => store.setPairItem p index value
  | .scalar .nil => (.error .nilItems, store.release value)
  | .scalar s => (.error (.notIndexed s.typeName), store.release value)

end Sexpr.Store
