import Mathlib.Data.List.Perm.Basic
import Mathlib.Data.List.Nodup
import Sexpr.Store.Collect

/-!
# What the slots of a heap hold

`Heap.slotValues` lists what stands in the slots of live pairs, once for each slot. Every heap
operation changes it in a way that is said up to the order of the list:

* `slotValues_perm_of_get?` takes the two slots of one live pair out of it;
* `slotValues_modify`, `slotValues_allocate` say what a changed and a new pair put into it.

`Heap.Counted` says that the handles on every pair are as many as a list of holdings has
references to it, and that no live pair is without one. The list is meant to be the slots together
with what is held outside the heap; how `Counted` changes with each handle that is taken or given
up does not depend on where the handle is.
-/

namespace Sexpr.Heap

variable {heap : Heap} {p q : PairId} {cell : Cell}

/-! ## Liveness and handles under the operations -/

theorem isLive_eq_true_iff : heap.isLive p = true ↔ ∃ cell, heap.get? p = some cell :=
  Option.isSome_iff_exists

theorem isLive_eq_false_iff : heap.isLive p = false ↔ heap.get? p = none := by
  simp [isLive]

theorem isLive_allocate (heap : Heap) (head tail : Value) (q : PairId) :
    (heap.allocate head tail).2.isLive q =
      (decide ((heap.allocate head tail).1 = q) || heap.isLive q) := by
  unfold isLive
  rw [get?_allocate]
  split <;> simp [*]

@[simp] theorem isLive_modify (heap : Heap) (p : PairId) (f : Cell → Cell) (q : PairId) :
    (heap.modify p f).isLive q = heap.isLive q := by
  unfold isLive
  rw [get?_modify]
  split <;> simp

theorem isLive_free (heap : Heap) (p q : PairId) :
    (heap.free p).isLive q = (decide (p ≠ q) && heap.isLive q) := by
  unfold isLive
  rw [get?_free]
  split <;> simp [*]

/-- A new pair was not alive before. -/
theorem not_isLive_allocated (heap : Heap) (head tail : Value) :
    heap.isLive (heap.allocate head tail).1 = false := by
  rw [Bool.eq_false_iff]
  intro live
  have small := lt_size_of_isLive live
  exact Nat.lt_irrefl _ small

theorem handlesOf_eq (heap : Heap) (p : PairId) :
    heap.handlesOf p = ((heap.get? p).map Cell.handles).getD 0 := by
  unfold handlesOf
  cases heap.get? p <;> rfl

theorem handlesOf_of_get? (found : heap.get? p = some cell) : heap.handlesOf p = cell.handles := by
  simp [handlesOf, found]

theorem handlesOf_of_not_isLive (dead : heap.isLive p = false) : heap.handlesOf p = 0 := by
  simp [handlesOf, isLive_eq_false_iff.1 dead]

theorem isLive_of_handlesOf_pos (held : 0 < heap.handlesOf p) : heap.isLive p = true := by
  by_contra dead
  rw [handlesOf_of_not_isLive (Bool.eq_false_iff.2 dead)] at held
  exact Nat.lt_irrefl 0 held

theorem handlesOf_modify (found : heap.get? p = some cell) (f : Cell → Cell) (q : PairId) :
    (heap.modify p f).handlesOf q = if p = q then (f cell).handles else heap.handlesOf q := by
  rw [handlesOf_eq, handlesOf_eq, get?_modify]
  split
  case isTrue same =>
    subst same
    rw [found]
    rfl
  case isFalse => rfl

theorem handlesOf_free (heap : Heap) (p q : PairId) :
    (heap.free p).handlesOf q = if p = q then 0 else heap.handlesOf q := by
  rw [handlesOf_eq, handlesOf_eq, get?_free]
  split <;> rfl

theorem handlesOf_allocate (heap : Heap) (head tail : Value) (q : PairId) :
    (heap.allocate head tail).2.handlesOf q =
      if (heap.allocate head tail).1 = q then 1 else heap.handlesOf q := by
  rw [handlesOf_eq, handlesOf_eq, get?_allocate]
  split <;> rfl

/-! ## Slots -/

/-- Heaps with as many pairs and the same cells are equal. -/
theorem ext_get? {first second : Heap} (size : first.size = second.size)
    (same : ∀ p, first.get? p = second.get? p) : first = second := by
  obtain ⟨cells⟩ := first
  obtain ⟨cells'⟩ := second
  congr 1
  apply Array.ext size
  intro index small small'
  have cell := same ⟨index⟩
  simpa [get?, small, small'] using cell

theorem read_of_get? (found : heap.get? p = some cell) (slot : Slot) :
    heap.read p slot = cell.get slot := by
  cases slot <;> simp [read, slots, found, Cell.get]

theorem read_congr {heap other : Heap} (same : heap.get? p = other.get? p) (slot : Slot) :
    heap.read p slot = other.read p slot := by
  cases slot <;> simp [read, slots, same]

/-- A dead pair reads as a pair of nils. -/
theorem read_of_not_isLive (dead : heap.isLive p = false) (slot : Slot) :
    heap.read p slot = .nil := by
  cases slot <;> simp [read, slots, isLive_eq_false_iff.1 dead]

/-- The live pairs, by ascending identity. -/
def livePairs (heap : Heap) : List PairId :=
  ((List.range heap.size).map PairId.mk).filter heap.isLive

/-- The values in the two slots of a pair. -/
def slotsOf (heap : Heap) (p : PairId) : List Value := [heap.read p .head, heap.read p .tail]

/-- What stands in the slots of live pairs, once for each slot. -/
def slotValues (heap : Heap) : List Value := heap.livePairs.flatMap heap.slotsOf

@[simp] theorem mem_livePairs : p ∈ heap.livePairs ↔ heap.isLive p = true := by
  simp only [livePairs, List.mem_filter, List.mem_map, List.mem_range, and_iff_right_iff_imp]
  intro live
  exact ⟨p.index, lt_size_of_isLive live, rfl⟩

theorem nodup_livePairs (heap : Heap) : heap.livePairs.Nodup := by
  refine List.Nodup.filter _ (List.Nodup.map ?_ List.nodup_range)
  intro a b same
  exact congrArg PairId.index same

/-- A list that has each live pair once and nothing else is the list of live pairs in some
order. -/
theorem livePairs_perm {pairs : List PairId} (nodup : pairs.Nodup)
    (exact : ∀ p, p ∈ pairs ↔ heap.isLive p = true) : heap.livePairs.Perm pairs := by
  rw [List.perm_ext_iff_of_nodup heap.nodup_livePairs nodup]
  intro p
  rw [mem_livePairs, exact]

theorem mem_slotValues {value : Value} :
    value ∈ heap.slotValues ↔ ∃ p slot, heap.isLive p = true ∧ heap.read p slot = value := by
  simp only [slotValues, slotsOf, List.mem_flatMap, mem_livePairs, List.mem_cons,
    List.not_mem_nil, or_false]
  constructor
  · intro held
    rcases held with ⟨p, live, rfl | rfl⟩
    · exact ⟨p, .head, live, rfl⟩
    · exact ⟨p, .tail, live, rfl⟩
  · intro held
    obtain ⟨p, slot, live, rfl⟩ := held
    refine ⟨p, live, ?_⟩
    cases slot
    · exact Or.inl rfl
    · exact Or.inr rfl

theorem slotsOf_of_get? (found : heap.get? p = some cell) :
    heap.slotsOf p = [cell.head, cell.tail] := by
  simp only [slotsOf, read_of_get? found, Cell.get]

theorem slotsOf_congr {heap other : Heap} (same : heap.get? p = other.get? p) :
    heap.slotsOf p = other.slotsOf p := by
  simp only [slotsOf, read_congr same]

/-- What a live pair holds, apart from what the other pairs hold. -/
theorem slotValues_perm_of_get? (found : heap.get? p = some cell) :
    heap.slotValues.Perm (cell.head :: cell.tail :: (heap.free p).slotValues) := by
  have live : heap.isLive p = true := isLive_eq_true_iff.2 ⟨cell, found⟩
  have absent : p ∉ (heap.free p).livePairs := by
    simp [isLive_free]
  have split : heap.livePairs.Perm (p :: (heap.free p).livePairs) := by
    refine livePairs_perm (List.nodup_cons.2 ⟨absent, nodup_livePairs _⟩) fun q => ?_
    rw [List.mem_cons, mem_livePairs, isLive_free]
    by_cases same : p = q
    · subst same
      simp [live]
    · simp [same, Ne.symm same]
  have others : (heap.free p).livePairs.flatMap heap.slotsOf = (heap.free p).slotValues := by
    refine List.flatMap_congr fun q member => slotsOf_congr ?_
    have different : p ≠ q := fun same => absent (same ▸ member)
    rw [get?_free, if_neg different]
  have opened := split.flatMap_right heap.slotsOf
  rw [List.flatMap_cons, slotsOf_of_get? found, others] at opened
  exact opened

theorem slotValues_perm_of_agree {heap other : Heap}
    (live : ∀ p, other.isLive p = heap.isLive p)
    (slots : ∀ p, other.slotsOf p = heap.slotsOf p) :
    heap.slotValues.Perm other.slotValues := by
  have pairs : heap.livePairs.Perm other.livePairs :=
    livePairs_perm other.nodup_livePairs fun p => by rw [mem_livePairs, live]
  have same : other.livePairs.flatMap heap.slotsOf = other.slotValues :=
    List.flatMap_congr fun p _ => (slots p).symm
  rw [← same]
  exact pairs.flatMap_right heap.slotsOf

theorem slotValues_perm_of_get?_eq {heap other : Heap} (same : ∀ p, heap.get? p = other.get? p) :
    heap.slotValues.Perm other.slotValues :=
  slotValues_perm_of_agree (fun p => by rw [isLive, isLive, same]) fun p =>
    slotsOf_congr (same p).symm

theorem slotValues_modify (found : heap.get? p = some cell) (f : Cell → Cell) :
    (heap.modify p f).slotValues.Perm
      ((f cell).head :: (f cell).tail :: (heap.free p).slotValues) := by
  have changed : (heap.modify p f).get? p = some (f cell) := by
    rw [get?_modify, if_pos rfl, found]
    rfl
  have rest : ((heap.modify p f).free p).slotValues.Perm (heap.free p).slotValues := by
    refine slotValues_perm_of_get?_eq fun q => ?_
    rw [get?_free, get?_free, get?_modify]
    split <;> rfl
  exact (slotValues_perm_of_get? changed).trans ((rest.cons _).cons _)

/-- A change that leaves the slots of a pair alone. -/
theorem slotValues_modify_of_slots (heap : Heap) (p : PairId) {f : Cell → Cell}
    (keeps : ∀ cell, (f cell).head = cell.head ∧ (f cell).tail = cell.tail) :
    (heap.modify p f).slotValues.Perm heap.slotValues := by
  cases found : heap.get? p with
  | none =>
    refine slotValues_perm_of_get?_eq fun q => ?_
    rw [get?_modify]
    split
    case isTrue same =>
      subst same
      rw [found]
      rfl
    case isFalse => rfl
  | some cell =>
    have changed := slotValues_modify found f
    rw [(keeps cell).1, (keeps cell).2] at changed
    exact changed.trans (slotValues_perm_of_get? found).symm

theorem slotValues_allocate (heap : Heap) (head tail : Value) :
    (heap.allocate head tail).2.slotValues.Perm (head :: tail :: heap.slotValues) := by
  have found : (heap.allocate head tail).2.get? (heap.allocate head tail).1 =
      some ⟨head, tail, none, 1⟩ := by
    rw [get?_allocate, if_pos rfl]
  refine (slotValues_perm_of_get? found).trans (((slotValues_perm_of_get?_eq ?_).cons _).cons _)
  intro q
  rw [get?_free, get?_allocate]
  split
  case isTrue same =>
    rw [← same]
    exact (isLive_eq_false_iff.1 (heap.not_isLive_allocated head tail)).symm
  case isFalse => rfl

/-- Clearing a live pair frees what its slots held. -/
theorem slotValues_clear (found : heap.get? p = some cell) :
    (heap.clear p).slotValues.Perm (.nil :: .nil :: (heap.free p).slotValues) :=
  slotValues_modify found _

/-! ## Heaps that differ in positions -/

/-- The same pairs are alive and hold the same, with the same handles on them; their positions may
be others. -/
structure AgreesButPosition (heap later : Heap) : Prop where
  size : later.size = heap.size
  cells : ∀ p, (later.get? p).map (fun cell => (cell.head, cell.tail, cell.handles)) =
    (heap.get? p).map fun cell => (cell.head, cell.tail, cell.handles)

namespace AgreesButPosition

variable {heap middle later : Heap}

theorem refl (heap : Heap) : heap.AgreesButPosition heap := ⟨rfl, fun _ => rfl⟩

theorem trans (first : heap.AgreesButPosition middle) (second : middle.AgreesButPosition later) :
    heap.AgreesButPosition later :=
  ⟨second.size.trans first.size, fun p => (second.cells p).trans (first.cells p)⟩

theorem modify (heap : Heap) (p : PairId) {f : Cell → Cell}
    (keeps : ∀ cell, (f cell).head = cell.head ∧ (f cell).tail = cell.tail ∧
      (f cell).handles = cell.handles) : heap.AgreesButPosition (heap.modify p f) := by
  refine ⟨size_modify .., fun q => ?_⟩
  rw [get?_modify]
  split
  · cases heap.get? q with
    | none => rfl
    | some cell =>
      obtain ⟨head, tail, handles⟩ := keeps cell
      simp [head, tail, handles]
  · rfl

theorem isLive (same : heap.AgreesButPosition later) (p : PairId) :
    later.isLive p = heap.isLive p := by
  have cells := congrArg Option.isSome (same.cells p)
  simpa [Heap.isLive] using cells

theorem handlesOf (same : heap.AgreesButPosition later) (p : PairId) :
    later.handlesOf p = heap.handlesOf p := by
  have cells := congrArg (fun cell => (cell.map fun view => view.2.2).getD 0) (same.cells p)
  simpa [handlesOf_eq, Function.comp_def] using cells

theorem slots (same : heap.AgreesButPosition later) (p : PairId) :
    later.slots p = heap.slots p := by
  have cells := same.cells p
  unfold Heap.slots
  cases before : heap.get? p <;> cases after : later.get? p <;> simp_all

theorem read (same : heap.AgreesButPosition later) (p : PairId) (slot : Slot) :
    later.read p slot = heap.read p slot := by
  cases slot <;> simp [Heap.read, same.slots]

theorem slotValues_perm (same : heap.AgreesButPosition later) :
    heap.slotValues.Perm later.slotValues :=
  slotValues_perm_of_agree same.isLive fun p => by simp only [slotsOf, same.read]

end AgreesButPosition

/-! ## Counted handles -/

/-- Every pair has as many handles as `holdings` has references to it, and every live pair has
one. -/
structure Counted (heap : Heap) (holdings : List Value) : Prop where
  exact : ∀ p, heap.handlesOf p = holdings.count (.pair p)
  positive : ∀ p, heap.isLive p = true → 0 < heap.handlesOf p

namespace Counted

variable {holdings others : List Value}

theorem of_empty : Heap.empty.Counted [] where
  exact := fun p => handlesOf_of_not_isLive (isLive_eq_false_iff.2 (get?_empty p))
  positive := fun p live => by simp [isLive] at live

/-- Only the number of references to each pair matters. -/
theorem congr (counted : heap.Counted holdings)
    (same : ∀ p, holdings.count (.pair p) = others.count (.pair p)) : heap.Counted others :=
  ⟨fun p => (counted.exact p).trans (same p), counted.positive⟩

theorem perm (counted : heap.Counted holdings) (same : holdings.Perm others) :
    heap.Counted others :=
  counted.congr fun p => same.count_eq (.pair p)

/-- Nothing dangles, and what nobody refers to is dead. -/
theorem isLive_iff (counted : heap.Counted holdings) :
    heap.isLive p = true ↔ .pair p ∈ holdings := by
  rw [← List.count_pos_iff, ← counted.exact]
  exact ⟨counted.positive p, isLive_of_handlesOf_pos⟩

theorem get?_of_mem (counted : heap.Counted holdings) (held : .pair p ∈ holdings) :
    ∃ cell, heap.get? p = some cell ∧ cell.handles = holdings.count (.pair p) := by
  obtain ⟨cell, found⟩ := isLive_eq_true_iff.1 (counted.isLive_iff.2 held)
  exact ⟨cell, found, by rw [← counted.exact, handlesOf_of_get? found]⟩

/-- A change of cells that leaves the handles alone. -/
theorem modify (counted : heap.Counted holdings) (p : PairId) {f : Cell → Cell}
    (keeps : ∀ cell, (f cell).handles = cell.handles) : (heap.modify p f).Counted holdings := by
  have same : ∀ q, (heap.modify p f).handlesOf q = heap.handlesOf q := by
    intro q
    rw [handlesOf_eq, handlesOf_eq, get?_modify]
    split
    · cases heap.get? q with
      | none => rfl
      | some cell => exact keeps cell
    · rfl
  constructor
  · intro q
    rw [same, counted.exact]
  · intro q live
    rw [isLive_modify] at live
    rw [same]
    exact counted.positive q live

theorem retain (counted : heap.Counted holdings) (live : heap.isLive p = true) :
    (heap.retain p).Counted (.pair p :: holdings) := by
  obtain ⟨cell, found⟩ := isLive_eq_true_iff.1 live
  have handles : ∀ q, (heap.retain p).handlesOf q =
      heap.handlesOf q + if p = q then 1 else 0 := by
    intro q
    unfold Heap.retain
    rw [handlesOf_modify found]
    split
    case isTrue same =>
      subst same
      rw [handlesOf_of_get? found]
    case isFalse => rfl
  constructor
  · intro q
    rw [handles, counted.exact, List.count_cons]
    simp
  · intro q alive
    rw [Heap.retain, isLive_modify] at alive
    have before := counted.positive q alive
    rw [handles]
    omega

theorem handlesOf_cons (counted : heap.Counted (.pair p :: holdings)) (q : PairId) :
    heap.handlesOf q = holdings.count (.pair q) + if p = q then 1 else 0 := by
  rw [counted.exact, List.count_cons]
  simp

/-- Giving up one of several handles. -/
theorem drop_shared (counted : heap.Counted (.pair p :: holdings))
    (found : heap.get? p = some cell) (shared : ¬cell.handles ≤ 1) :
    (heap.modify p fun cell => { cell with handles := cell.handles - 1 }).Counted holdings := by
  constructor
  · intro q
    rw [handlesOf_modify found]
    have handles := counted.handlesOf_cons q
    split at handles
    case isTrue same =>
      subst same
      rw [handlesOf_of_get? found] at handles
      rw [if_pos rfl]
      simp only
      omega
    case isFalse different =>
      rw [if_neg different, handles]
      omega
  · intro q alive
    rw [isLive_modify] at alive
    have positive := counted.positive q alive
    rw [handlesOf_modify found]
    split
    · simp only
      omega
    · exact positive

/-- Giving up the last handle. -/
theorem drop_last (counted : heap.Counted (.pair p :: holdings))
    (found : heap.get? p = some cell) (last : cell.handles ≤ 1) :
    (heap.free p).Counted holdings := by
  constructor
  · intro q
    rw [handlesOf_free]
    have handles := counted.handlesOf_cons q
    split at handles
    case isTrue same =>
      subst same
      rw [handlesOf_of_get? found] at handles
      rw [if_pos rfl]
      omega
    case isFalse different =>
      rw [if_neg different, handles]
      omega
  · intro q alive
    rw [isLive_free, Bool.and_eq_true, decide_eq_true_eq] at alive
    rw [handlesOf_free, if_neg alive.1]
    exact counted.positive q alive.2

/-- A new pair comes with one handle on it. -/
theorem allocate (counted : heap.Counted holdings) (head tail : Value) :
    (heap.allocate head tail).2.Counted (.pair (heap.allocate head tail).1 :: holdings) := by
  have absent : heap.handlesOf (heap.allocate head tail).1 = 0 :=
    handlesOf_of_not_isLive (heap.not_isLive_allocated head tail)
  constructor
  · intro q
    rw [handlesOf_allocate, List.count_cons]
    split
    case isTrue same =>
      rw [← same, ← counted.exact, absent]
      simp
    case isFalse different =>
      rw [counted.exact]
      simp [different]
  · intro q alive
    rw [handlesOf_allocate]
    split
    case isTrue => exact Nat.one_pos
    case isFalse different =>
      rw [isLive_allocate, decide_eq_false different, Bool.false_or] at alive
      exact counted.positive q alive

end Counted

end Sexpr.Heap
