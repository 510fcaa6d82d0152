import Sexpr.PairSet
import Sexpr.Slot

/-!
# The heap of pairs

Every pair that was ever made has a place in the heap, found by its identity. The place of a
live pair holds its cell: two slots, a source position, and the number of handles on the pair,
counting both the slots that hold it and the holders outside the heap. The place of a dead pair
is empty, and identities are not used again.

`get?` is the view of a heap: each operation comes with the lemma that says what it does to
every `get?`.
-/

namespace Sexpr

/-- A place in a source text. -/
structure Position where
  line : UInt32
  column : UInt32
deriving DecidableEq

/-- What the heap keeps for a live pair. -/
structure Cell where
  head : Value
  tail : Value
  position : Option Position
  /-- The number of handles on the pair. -/
  handles : Nat
deriving DecidableEq

namespace Cell

/-- The value in a slot. -/
def get (cell : Cell) : Slot → Value
  | .head => cell.head
  | .tail => cell.tail

/-- The cell with another value in a slot. -/
def put (cell : Cell) : Slot → Value → Cell
  | .head, value => { cell with head := value }
  | .tail, value => { cell with tail := value }

/-- The pairs in the two slots, the head's first. -/
def children (cell : Cell) : List PairId := [cell.head, cell.tail].filterMap Value.pair?

end Cell

/-- The cells of all pairs by identity; dead pairs have none. -/
structure Heap where
  cells : Array (Option Cell)
deriving DecidableEq

namespace Heap

/-- The heap before any pair was made. -/
def empty : Heap := ⟨#[]⟩

/-- The number of pairs that were ever made. -/
def size (heap : Heap) : Nat := heap.cells.size

/-- The cell of a live pair. -/
def get? (heap : Heap) (p : PairId) : Option Cell := (heap.cells[p.index]?).join

/-- Whether the pair is alive. -/
def isLive (heap : Heap) (p : PairId) : Bool := (heap.get? p).isSome

/-- The two slots of a pair. A dead pair reads as a pair of nils. -/
def slots (heap : Heap) (p : PairId) : Value × Value :=
  match heap.get? p with
  | some cell => (cell.head, cell.tail)
  | none => (.nil, .nil)

/-- The value in a slot of a pair. -/
def read (heap : Heap) (p : PairId) : Slot → Value
  | .head => (heap.slots p).1
  | .tail => (heap.slots p).2

/-- The source position of a pair. -/
def position? (heap : Heap) (p : PairId) : Option Position := (heap.get? p).bind Cell.position

/-- The number of live pairs. -/
def liveCount (heap : Heap) : Nat := heap.cells.countP Option.isSome

/-! ## Operations -/

/-- A new pair with one handle on it. The handles on the two values go over into its slots. -/
def allocate (heap : Heap) (head tail : Value) : PairId × Heap :=
  (⟨heap.cells.size⟩, ⟨heap.cells.push (some ⟨head, tail, none, 1⟩)⟩)

/-- The heap with the cell of a live pair changed by `f`. -/
def modify (heap : Heap) (p : PairId) (f : Cell → Cell) : Heap :=
  ⟨heap.cells.modify p.index (Option.map f)⟩

/-- The heap in which a pair is dead. -/
def free (heap : Heap) (p : PairId) : Heap := ⟨heap.cells.setIfInBounds p.index none⟩

/-- The heap with another value in a slot. No handle is counted. -/
def write (heap : Heap) (p : PairId) (slot : Slot) (value : Value) : Heap :=
  heap.modify p (·.put slot value)

/-- The heap with the position of a pair set or removed. -/
def setPosition (heap : Heap) (p : PairId) (position : Option Position) : Heap :=
  heap.modify p fun cell => { cell with position }

/-- The heap with one more handle on a pair. -/
def retain (heap : Heap) (p : PairId) : Heap :=
  heap.modify p fun cell => { cell with handles := cell.handles + 1 }

/-- The heap with one handle fewer on a pair. If it was the last one the pair dies, and the
values that its slots held are handed over with their handles. -/
def drop (heap : Heap) (p : PairId) : Option (Value × Value) × Heap :=
  match heap.get? p with
  | none => (none, heap)
  | some cell =>
    if cell.handles ≤ 1 then (some (cell.head, cell.tail), heap.free p)
    else (none, heap.modify p fun cell => { cell with handles := cell.handles - 1 })

/-! ## What the operations do to the view -/

@[simp] theorem get?_empty (p : PairId) : empty.get? p = none := by
  simp [get?, empty]

theorem lt_size_of_get? {heap : Heap} {p : PairId} {cell : Cell}
    (found : heap.get? p = some cell) : p.index < heap.size := by
  by_cases small : p.index < heap.cells.size
  · exact small
  · simp [get?, small] at found

theorem lt_size_of_isLive {heap : Heap} {p : PairId} (live : heap.isLive p = true) :
    p.index < heap.size := by
  obtain ⟨cell, found⟩ := Option.isSome_iff_exists.1 live
  exact lt_size_of_get? found

theorem get?_allocate (heap : Heap) (head tail : Value) (q : PairId) :
    (heap.allocate head tail).2.get? q =
      if (heap.allocate head tail).1 = q then some ⟨head, tail, none, 1⟩ else heap.get? q := by
  cases q with | mk index
  simp only [get?, allocate, Array.getElem?_push, PairId.mk.injEq]
  by_cases last : index = heap.cells.size
  · simp [last]
  · simp [last, Ne.symm last]

theorem get?_modify (heap : Heap) (p : PairId) (f : Cell → Cell) (q : PairId) :
    (heap.modify p f).get? q = if p = q then (heap.get? q).map f else heap.get? q := by
  cases p with | mk place
  cases q with | mk index
  simp only [get?, modify, Array.getElem?_modify, PairId.mk.injEq]
  split
  · cases heap.cells[index]? with
    | none => rfl
    | some cell => cases cell <;> rfl
  · rfl

theorem get?_free (heap : Heap) (p q : PairId) :
    (heap.free p).get? q = if p = q then none else heap.get? q := by
  cases p with | mk place
  cases q with | mk index
  simp only [get?, free, Array.getElem?_setIfInBounds, PairId.mk.injEq]
  split
  · split <;> rfl
  · rfl

@[simp] theorem size_modify (heap : Heap) (p : PairId) (f : Cell → Cell) :
    (heap.modify p f).size = heap.size := by
  simp [size, modify]

@[simp] theorem size_setPosition (heap : Heap) (p : PairId) (position : Option Position) :
    (heap.setPosition p position).size = heap.size :=
  size_modify ..

/-! ## Live pairs -/

/-- A pair that dies leaves one live pair fewer. -/
theorem liveCount_free_lt {heap : Heap} {p : PairId} {cell : Cell}
    (found : heap.get? p = some cell) : (heap.free p).liveCount < heap.liveCount := by
  have small : p.index < heap.cells.size := lt_size_of_get? found
  have held : heap.cells[p.index] = some cell := by
    simpa [get?, small] using found
  have positive : 0 < heap.cells.countP Option.isSome :=
    Array.countP_pos_iff.2 ⟨some cell, held ▸ Array.getElem_mem small, rfl⟩
  simp only [liveCount, free, Array.setIfInBounds, small, dif_pos, Array.countP_set, held,
    Option.isSome_some, Option.isSome_none, if_true, Bool.false_eq_true, if_false]
  omega

theorem countP_isSome_modify (cells : List (Option Cell)) (index : Nat) (f : Cell → Cell) :
    (cells.modify index (Option.map f)).countP Option.isSome = cells.countP Option.isSome := by
  induction cells generalizing index with
  | nil => simp
  | cons cell cells ih =>
    cases index with
    | zero => simp [List.countP_cons]
    | succ index => simp [List.countP_cons, ih]

/-- A change of cells keeps the number of live pairs. -/
@[simp] theorem liveCount_modify (heap : Heap) (p : PairId) (f : Cell → Cell) :
    (heap.modify p f).liveCount = heap.liveCount := by
  simp only [liveCount, modify, ← Array.countP_toList, Array.toList_modify]
  exact countP_isSome_modify ..

end Heap

end Sexpr
