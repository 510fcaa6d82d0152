import Sexpr.Heap.Reach
import Sexpr.Store.Basic

/-!
# Collection

Counting handles does not free a cycle of pairs that nobody else holds. A collection finds those
pairs. The handles on a pair that are not slots of registered pairs are held outside the heap; a
pair with such a handle is a root. The slots of every pair that no root leads to are cleared, and
releasing what they held kills those pairs.
-/

namespace Sexpr

namespace Heap

/-- The counts of references to pairs, with the slots of one more pair. -/
def countSlots (heap : Heap) (counts : Array Nat) (p : PairId) : Array Nat :=
  match heap.get? p with
  | some cell => cell.children.foldl (fun counts q => counts.modify q.index (· + 1)) counts
  | none => counts

/-- For each pair, the number of slots of the given pairs that hold it. -/
def slotHandles (heap : Heap) (pairs : List PairId) : Array Nat :=
  pairs.foldl heap.countSlots (Array.replicate heap.size 0)

/-- The number of handles on a pair. -/
def handlesOf (heap : Heap) (p : PairId) : Nat :=
  match heap.get? p with
  | some cell => cell.handles
  | none => 0

/-- Those of the given pairs that have a handle outside the slots of these pairs. -/
def roots (heap : Heap) (pairs : List PairId) : List PairId :=
  let counts := heap.slotHandles pairs
  pairs.filter fun p => (counts[p.index]?).getD 0 < heap.handlesOf p

/-- The heap with both slots of a pair set to nil. -/
def clear (heap : Heap) (p : PairId) : Heap :=
  heap.modify p fun cell => { cell with head := .nil, tail := .nil }

end Heap

namespace Store

/-- Clears the slots of every registered pair that no holder outside the heap leads to. The values
that stood in them are handed over with their handles. -/
def sweep (store : Store) : (Report × List Value) × Store :=
  match store with
  | ⟨heap, registry, atoms, counter, trace⟩ =>
    let registry := registry.prune heap.isLive
    let live := registry.pairs
    let reached := heap.reachable (heap.roots live)
    let garbage := live.filter (!reached.contains ·)
    let freed := garbage.flatMap fun p => [heap.read p .head, heap.read p .tail]
    let report : Report :=
      ⟨live.length, live.countP reached.contains, garbage.length⟩
    ((report, freed), ⟨garbage.foldl Heap.clear heap, registry, atoms, counter, trace⟩)

/-- Clears what no holder outside the heap leads to and releases what it held. -/
def collect (store : Store) : Report × Store :=
  let ((report, freed), store) := store.sweep
  (report, (store.releaseAll freed).note (.collected report))

/-- Does the work of `step` on a thread of its own. -/
def onThread {α : Type} (step : Store → α × Store) (store : Store) : α × Store :=
  let thread := store.registry.thread
  let (answer, store) := step (store.mapRegistry Registry.startThread)
  (answer, store.mapRegistry (Registry.resumeThread thread))

end Store

end Sexpr
