import Sexpr.Atom.Counter
import Sexpr.Atom.Table
import Sexpr.Event
import Sexpr.Heap.Basic
import Sexpr.Registry

/-!
# The store

The store is all that values refer to: the heap of pairs, the registry in which the collector
finds them, the table of atoms, the counter for fresh names, and the trace of events.

Handles are counted. Whoever keeps a value holds one handle on the pair or atom in it: `retain`
takes one and `release` gives one up. When the last handle on a pair goes, the pair dies and its
two slots give up theirs. `tearDown` works this off from a stack of pairs rather than by nested
calls, and ends because each step either takes a pair off the stack or kills one.
-/

namespace Sexpr

/-- All that values refer to. -/
structure Store where
  heap : Heap
  registry : Registry
  atoms : AtomTable
  /-- The number that the next fresh name carries. -/
  counter : UInt64
  /-- All events so far, the first one first. -/
  trace : Array Event

namespace Store

/-- The store before any pair or atom was made. -/
def empty : Store := ⟨.empty, .empty, .empty, Counter.seed, #[]⟩

/-- Applies a step of the heap. -/
@[inline] def onHeap {α : Type} (step : Heap → α × Heap) (store : Store) : α × Store :=
  match store with
  | ⟨heap, registry, atoms, counter, trace⟩ =>
    let (answer, heap) := step heap
    (answer, ⟨heap, registry, atoms, counter, trace⟩)

/-- Changes the heap and nothing else. -/
@[inline] def mapHeap (change : Heap → Heap) (store : Store) : Store :=
  match store with
  | ⟨heap, registry, atoms, counter, trace⟩ => ⟨change heap, registry, atoms, counter, trace⟩

/-- Changes the registry and nothing else. -/
@[inline] def mapRegistry (change : Registry → Registry) (store : Store) : Store :=
  match store with
  | ⟨heap, registry, atoms, counter, trace⟩ => ⟨heap, change registry, atoms, counter, trace⟩

/-- Changes the table of atoms and nothing else. -/
@[inline] def mapAtoms (change : AtomTable → AtomTable) (store : Store) : Store :=
  match store with
  | ⟨heap, registry, atoms, counter, trace⟩ => ⟨heap, registry, change atoms, counter, trace⟩

/-- Adds an event to the trace. -/
@[inline] def note (event : Event) (store : Store) : Store :=
  match store with
  | ⟨heap, registry, atoms, counter, trace⟩ => ⟨heap, registry, atoms, counter, trace.push event⟩

/-! ## Handles -/

/-- Takes one more handle on what a value refers to. -/
def retain (value : Value) (store : Store) : Store :=
  match value with
  | .pair p => store.mapHeap (·.retain p)
  | .scalar (.atom a) => store.mapAtoms (·.retain a)
  | .scalar _ => store

/-- Takes one more handle for each of the values. -/
def retainAll (values : List Value) (store : Store) : Store :=
  values.foldl (fun store value => store.retain value) store

/-- Gives up one handle on an atom. -/
def releaseAtom (a : Atom) (store : Store) : Store :=
  match store with
  | ⟨heap, registry, atoms, counter, trace⟩ =>
    let (removed, atoms) := atoms.release a
    ⟨heap, registry, atoms, counter,
      if removed then trace.push (.evicted a.kind a.name) else trace⟩

/-- Gives up one handle on what a value refers to, and no more. The values whose handles are now
to be given up are those of a pair that died. -/
def drop (value : Value) (store : Store) : List Value × Store :=
  match value with
  | .pair p =>
    match store.onHeap (·.drop p) with
    | (some (head, tail), store) => ([head, tail], store)
    | (none, store) => ([], store)
  | .scalar (.atom a) => ([], store.releaseAtom a)
  | .scalar _ => ([], store)

/-- A step frees two values at most, and only by the death of a pair. -/
theorem drop_measure (value : Value) (store : Store) :
    (store.drop value).1.length + 2 * (store.drop value).2.heap.liveCount ≤
      2 * store.heap.liveCount := by
  cases value with
  | scalar s => cases s <;> simp [drop, releaseAtom]
  | pair p =>
    simp only [drop, onHeap, Heap.drop]
    cases found : store.heap.get? p with
    | none => simp
    | some cell =>
      by_cases last : cell.handles ≤ 1
      · have fewer := Heap.liveCount_free_lt found
        simp only [last, if_true, List.length_cons, List.length_nil]
        omega
      · simp [last]

/-- Takes the pairs out of the slots of a dead pair and puts them on top of those that are pending,
one after the other. Nil takes their place. -/
def takePairs (slots : List Value) (pending : List PairId) : List Scalar × List PairId :=
  match slots with
  | [] => ([], pending)
  | .pair p :: slots =>
    let (left, pending) := takePairs slots (p :: pending)
    (.nil :: left, pending)
  | .scalar s :: slots =>
    let (left, pending) := takePairs slots pending
    (s :: left, pending)

/-- Gives up the handles on the atoms that are left in the slots of a dead pair. -/
def releaseLeft (left : List Scalar) (store : Store) : Store :=
  left.foldl (fun store s => (store.drop (.scalar s)).2) store

@[simp] theorem heap_releaseLeft (left : List Scalar) (store : Store) :
    (store.releaseLeft left).heap = store.heap := by
  induction left generalizing store with
  | nil => rfl
  | cons s left ih =>
    refine (ih _).trans ?_
    cases s <;> rfl

theorem length_takePairs_le (slots : List Value) (pending : List PairId) :
    (takePairs slots pending).2.length ≤ slots.length + pending.length := by
  induction slots generalizing pending with
  | nil => simp [takePairs]
  | cons value slots ih =>
    cases value with
    | pair p =>
      have rest := ih (p :: pending)
      simp only [takePairs, List.length_cons] at rest ⊢
      omega
    | scalar s =>
      have rest := ih pending
      simp only [takePairs, List.length_cons]
      omega

/-- Gives up one handle on each of the pending pairs, the top one first. A pair is opened only if
the handle was its last one: the pairs in its slots are pending from then on, and what is left in
its slots goes with it. -/
def tearDown (store : Store) (pending : List PairId) : Store :=
  match pending with
  | [] => store
  | p :: rest =>
    match _dropped : store.drop (.pair p) with
    | (slots, after) =>
      match _taken : takePairs slots rest with
      | (left, pending) => (after.releaseLeft left).tearDown pending
termination_by pending.length + 2 * store.heap.liveCount
decreasing_by
  have measure := drop_measure (.pair p) store
  have few := length_takePairs_le slots rest
  simp only [_dropped, _taken] at measure few
  simp only [heap_releaseLeft, List.length_cons]
  omega

/-- Gives up one handle on what a value refers to, and what that frees in turn. If a pair dies,
what is left in its own slots goes last. -/
def release (value : Value) (store : Store) : Store :=
  match store.drop value with
  | (slots, after) =>
    match takePairs slots [] with
    | (left, pending) => (after.tearDown pending).releaseLeft left

/-- Gives up one handle on each of the values, in turn. -/
def releaseAll (store : Store) (work : List Value) : Store :=
  match work with
  | [] => store
  | value :: work => (store.release value).releaseAll work

/-! ## Views -/

/-- The number of registered pairs that are alive. -/
def trackedCount (store : Store) : Nat := store.registry.pairs.countP store.heap.isLive

/-- Whether what a value refers to is alive. -/
def isLive (store : Store) : Value → Bool
  | .pair p => store.heap.isLive p
  | .scalar (.atom a) => store.atoms.isAlive a
  | .scalar _ => true

end Store

end Sexpr
