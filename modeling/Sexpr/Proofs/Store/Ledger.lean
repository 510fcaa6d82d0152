import Sexpr.Proofs.Atom.Filing
import Sexpr.Proofs.Registration
import Sexpr.Proofs.Store.Releases
import Sexpr.Session.Expr
import Sexpr.Store.Name
import Sexpr.Store.Build

/-!
# A store with its holders

A `Ledger` is a store together with what is held outside of it: `outside` has one entry for each
handle that a register, a cursor or a temporary keeps, and `weaks` are the references that keep
nothing alive.

`Ledger.Sound` is the invariant of all that happens to a store. The handles on each pair and the
holders of each atom are exactly the entries of `outside` together with the slots of live pairs;
the table files the atoms that are held and no others; and every live pair is registered once.

* `Sound.releaseAll`: giving up handles, with all that this frees in turn, keeps the invariant.
  The counts alone are kept without any registry (`Store.Balanced.releaseAll`).
* `Sound.retain`, `Sound.pair`, `Sound.write`, `Sound.intern`: so do the operations that take
  handles, make pairs and atoms, and change slots.

`Heap.Thinned` says what releasing leaves of the heap: the pairs that survive hold what they held.
-/

namespace Sexpr

/-! ## Views of the store -/

namespace Store

variable (store : Store)

@[simp] theorem heap_mapHeap (change : Heap → Heap) :
    (store.mapHeap change).heap = change store.heap := rfl

@[simp] theorem registry_mapHeap (change : Heap → Heap) :
    (store.mapHeap change).registry = store.registry := rfl

@[simp] theorem atoms_mapHeap (change : Heap → Heap) :
    (store.mapHeap change).atoms = store.atoms := rfl

@[simp] theorem heap_releaseAtom (a : Atom) : (store.releaseAtom a).heap = store.heap := rfl

@[simp] theorem registry_releaseAtom (a : Atom) :
    (store.releaseAtom a).registry = store.registry := rfl

@[simp] theorem atoms_releaseAtom (a : Atom) :
    (store.releaseAtom a).atoms = (store.atoms.release a).2 := rfl

@[simp] theorem heap_internAll (kind : AtomKind) (raws : List String) :
    (store.internAll kind raws).2.heap = store.heap := by
  induction raws generalizing store with
  | nil => rfl
  | cons raw raws ih => exact ih _

@[simp] theorem registry_internAll (kind : AtomKind) (raws : List String) :
    (store.internAll kind raws).2.registry = store.registry := by
  induction raws generalizing store with
  | nil => rfl
  | cons raw raws ih => exact ih _

end Store

/-! ## Ledgers -/

/-- A store, the values that are held outside of it, once for each handle, and the weak references
that are left. -/
structure Ledger where
  store : Store
  outside : List Value
  weaks : List Weak

namespace Ledger

/-- Before anything was made. -/
def empty : Ledger := ⟨.empty, [], []⟩

/-- All values that are held, once for each handle: outside the store and in slots. -/
def holdings (ledger : Ledger) : List Value := ledger.outside ++ ledger.store.heap.slotValues

/-- The atoms that weak references are to. -/
def known (ledger : Ledger) : List Atom := ledger.weaks.filterMap fun weak => weak.value.atom?

/-- Whether a value is held outside the store or stands in a slot of a live pair. -/
def Holds (ledger : Ledger) (value : Value) : Prop :=
  value ∈ ledger.outside ∨
    ∃ p slot, ledger.store.heap.isLive p = true ∧ ledger.store.heap.read p slot = value

theorem mem_holdings {ledger : Ledger} {value : Value} :
    value ∈ ledger.holdings ↔ ledger.Holds value := by
  rw [holdings, List.mem_append, Heap.mem_slotValues]
  rfl

/-- Handles are counted exactly, held atoms are filed, and live pairs are registered. -/
structure Sound (ledger : Ledger) : Prop where
  pairs : ledger.store.heap.Counted ledger.holdings
  atoms : ledger.store.atoms.Exact ledger.holdings ledger.known
  registered : ledger.store.registry.Covers ledger.store.heap

end Ledger

/-! ## What releasing leaves -/

/-- The pairs that are alive later hold what they held, at their old positions. -/
def Heap.Thinned (heap later : Heap) : Prop :=
  ∀ p cell', later.get? p = some cell' → ∃ cell, heap.get? p = some cell ∧
    cell'.head = cell.head ∧ cell'.tail = cell.tail ∧ cell'.position = cell.position

namespace Heap.Thinned

variable {heap middle later : Heap} {p : PairId}

theorem refl (heap : Heap) : heap.Thinned heap :=
  fun _ cell' found => ⟨cell', found, rfl, rfl, rfl⟩

theorem trans (first : heap.Thinned middle) (second : middle.Thinned later) :
    heap.Thinned later := by
  intro p cell'' found''
  obtain ⟨cell', found', head', tail', position'⟩ := second p cell'' found''
  obtain ⟨cell, found, head, tail, position⟩ := first p cell' found'
  exact ⟨cell, found, head'.trans head, tail'.trans tail, position'.trans position⟩

theorem isLive (thinned : heap.Thinned later) (live : later.isLive p = true) :
    heap.isLive p = true := by
  obtain ⟨cell', found'⟩ := isLive_eq_true_iff.1 live
  obtain ⟨cell, found, _⟩ := thinned p cell' found'
  exact isLive_eq_true_iff.2 ⟨cell, found⟩

theorem slots (thinned : heap.Thinned later) (live : later.isLive p = true) :
    later.slots p = heap.slots p := by
  obtain ⟨cell', found'⟩ := isLive_eq_true_iff.1 live
  obtain ⟨cell, found, head, tail, _⟩ := thinned p cell' found'
  simp [Heap.slots, found, found', head, tail]

theorem read (thinned : heap.Thinned later) (live : later.isLive p = true) (slot : Slot) :
    later.read p slot = heap.read p slot := by
  cases slot <;> simp [Heap.read, thinned.slots live]

theorem position? (thinned : heap.Thinned later) (live : later.isLive p = true) :
    later.position? p = heap.position? p := by
  obtain ⟨cell', found'⟩ := isLive_eq_true_iff.1 live
  obtain ⟨cell, found, _, _, position⟩ := thinned p cell' found'
  simp [Heap.position?, found, found', position]

end Heap.Thinned

namespace Store

theorem drop_shared {store : Store} {p : PairId} {cell : Cell} (found : store.heap.get? p = some cell)
    (shared : ¬cell.handles ≤ 1) : store.drop (.pair p) = ([], store.mapHeap
      (·.modify p fun cell => { cell with handles := cell.handles - 1 })) := by
  simp [drop, onHeap, mapHeap, Heap.drop, found, shared]

theorem drop_last {store : Store} {p : PairId} {cell : Cell} (found : store.heap.get? p = some cell)
    (last : cell.handles ≤ 1) :
    store.drop (.pair p) = ([cell.head, cell.tail], store.mapHeap (·.free p)) := by
  simp [drop, onHeap, mapHeap, Heap.drop, found, last]

/-- Of the heap and the registry nothing is touched but pairs and the handles on them. -/
def Thins (store later : Store) : Prop :=
  store.heap.Thinned later.heap ∧ later.heap.size = store.heap.size ∧
    later.registry = store.registry

/-- Giving up one handle takes a handle off a pair or kills it; nothing else is touched. -/
theorem thinned_drop (value : Value) (store : Store) : store.Thins (store.drop value).2 := by
  cases value with
  | scalar s => cases s <;> exact ⟨.refl _, rfl, rfl⟩
  | pair p =>
    simp only [drop, onHeap, Heap.drop]
    cases found : store.heap.get? p with
    | none => exact ⟨.refl _, rfl, rfl⟩
    | some cell =>
      by_cases last : cell.handles ≤ 1
      · simp only [last, if_true]
        refine ⟨fun q cell' found' => ?_, Array.size_setIfInBounds, rfl⟩
        rw [Heap.get?_free] at found'
        split at found'
        · cases found'
        · exact ⟨cell', found', rfl, rfl, rfl⟩
      · simp only [last, if_false]
        refine ⟨fun q cell' found' => ?_, Heap.size_modify .., rfl⟩
        rw [Heap.get?_modify] at found'
        split at found'
        · obtain ⟨before, found, rfl⟩ := Option.map_eq_some_iff.1 found'
          exact ⟨before, found, rfl, rfl, rfl⟩
        · exact ⟨cell', found', rfl, rfl, rfl⟩

theorem Thins.drop {store now : Store} (thins : store.Thins now) (value : Value) :
    store.Thins (now.drop value).2 := by
  have step := thinned_drop value now
  exact ⟨thins.1.trans step.1, step.2.1.trans thins.2.1, step.2.2.trans thins.2.2⟩

theorem thinned_release_of_drop (value : Value) (store : Store) :
    (store.drop value).2.Thins (store.release value) :=
  @release_induction_of_drop store value [] (fun now _ => (store.drop value).2.Thins now)
    (fun _ thins => thins) (fun thins => thins.drop _) ⟨.refl _, rfl, rfl⟩

theorem thinned_releaseAll (store : Store) (work : List Value) :
    store.Thins (store.releaseAll work) :=
  @releaseAll_induction store [] work (fun now _ => store.Thins now) (fun _ thins => thins)
    (fun thins => thins.drop _) ⟨.refl _, rfl, rfl⟩

end Store

/-! ## Counts alone -/

/-- The handles are counted exactly and the held atoms are filed, whether or not the pairs are
registered. -/
structure Store.Balanced (store : Store) (outside : List Value) (known : List Atom) : Prop where
  pairs : store.heap.Counted (outside ++ store.heap.slotValues)
  atoms : store.atoms.Exact (outside ++ store.heap.slotValues) known

namespace Store.Balanced

variable {store after : Store} {outside outside' : List Value} {known known' : List Atom}
  {value : Value}

theorem perm (balanced : store.Balanced outside known) (same : outside.Perm outside') :
    store.Balanced outside' known where
  pairs := balanced.pairs.perm (same.append_right _)
  atoms := balanced.atoms.perm (same.append_right _)

/-- A change of the store that leaves the heap alone. -/
theorem of_atoms (balanced : store.Balanced outside known) (heap : after.heap = store.heap)
    (pairs : ∀ p, outside'.count (.pair p) = outside.count (.pair p))
    (atoms : after.atoms.Exact (outside' ++ store.heap.slotValues) known') :
    after.Balanced outside' known' where
  pairs := by
    rw [heap]
    refine balanced.pairs.congr fun p => ?_
    simp only [List.count_append, pairs]
  atoms := by
    rw [heap]
    exact atoms

/-- A change of the heap that leaves the atoms alone. -/
theorem of_heap (balanced : store.Balanced outside known) (atoms : after.atoms = store.atoms)
    (same : ∀ a, (outside' ++ after.heap.slotValues).count (.atom a) =
      (outside ++ store.heap.slotValues).count (.atom a))
    (pairs : after.heap.Counted (outside' ++ after.heap.slotValues)) :
    after.Balanced outside' known where
  pairs := pairs
  atoms := by
    rw [atoms]
    exact balanced.atoms.congr fun a => (same a).symm

/-- One handle is given up; the slots of a pair that dies take its place. -/
theorem drop (balanced : store.Balanced (value :: outside) known) :
    (store.drop value).2.Balanced ((store.drop value).1 ++ outside) known := by
  cases value with
  | scalar s =>
    cases s with
    | atom a =>
      refine balanced.of_atoms (store.heap_releaseAtom a) ?_ ?_
      · intro p
        simp [Store.drop]
      · exact balanced.atoms.release
    | _ =>
      refine balanced.of_atoms rfl ?_ (balanced.atoms.congr ?_)
      · intro p
        simp [Store.drop]
      · intro a
        simp [Store.drop, Value.atom]
  | pair p =>
    obtain ⟨cell, found, _⟩ := balanced.pairs.get?_of_mem List.mem_cons_self
    by_cases last : cell.handles ≤ 1
    · rw [drop_last found last]
      -- The two slots leave the heap and join the handles that are to be given up.
      have moved : (outside ++ store.heap.slotValues).Perm
          (([cell.head, cell.tail] ++ outside) ++ (store.heap.free p).slotValues) := by
        refine ((Heap.slotValues_perm_of_get? found).append_left outside).trans ?_
        rw [List.append_assoc]
        exact (List.perm_append_comm_assoc outside [cell.head, cell.tail] _)
      refine balanced.of_heap rfl ?_ ((balanced.pairs.perm (moved.cons _)).drop_last found last)
      intro a
      refine (moved.count_eq _).symm.trans ?_
      simp [Value.atom]
    · rw [drop_shared found last]
      have moved := (store.heap.slotValues_modify_of_slots p
        (f := fun cell => { cell with handles := cell.handles - 1 })
        fun _ => ⟨rfl, rfl⟩).append_left outside
      refine balanced.of_heap rfl ?_ ((balanced.pairs.drop_shared found last).perm moved.symm)
      intro a
      rw [List.nil_append, Store.heap_mapHeap, moved.count_eq]
      simp [Value.atom]

/-- Counts stay exact when a handle is given up besides others that are due. -/
theorem drop_due {due : List Value} (balanced : store.Balanced ((value :: due) ++ outside) known) :
    (store.drop value).2.Balanced ((store.drop value).1 ++ due ++ outside) known := by
  rw [List.append_assoc]
  exact drop balanced

theorem perm_due {due due' : List Value} (same : due.Perm due')
    (balanced : store.Balanced (due ++ outside) known) :
    store.Balanced (due' ++ outside) known :=
  balanced.perm (same.append_right outside)

theorem releaseAll {work : List Value} (balanced : store.Balanced (work ++ outside) known) :
    (store.releaseAll work).Balanced outside known := by
  refine @releaseAll_induction store [] work (fun now due => now.Balanced (due ++ outside) known)
    perm_due drop_due ?_
  rwa [List.append_nil]

end Store.Balanced

namespace Ledger.Sound

variable {store : Store} {outside others : List Value} {weaks : List Weak} {value : Value}

theorem of_empty : Ledger.empty.Sound where
  pairs := .of_empty
  atoms := .of_empty
  registered := .of_empty

/-- The order of the outside handles means nothing. -/
theorem perm (sound : Sound ⟨store, outside, weaks⟩) (same : outside.Perm others) :
    Sound ⟨store, others, weaks⟩ where
  pairs := sound.pairs.perm (same.append_right _)
  atoms := sound.atoms.perm (same.append_right _)
  registered := sound.registered

theorem balanced {ledger : Ledger} (sound : ledger.Sound) :
    ledger.store.Balanced ledger.outside ledger.known :=
  ⟨sound.pairs, sound.atoms⟩

/-! ## Handles -/

/-- A change of the store that leaves the heap alone. -/
theorem of_atoms {after : Store} {outside' : List Value} {weaks' : List Weak}
    (sound : Sound ⟨store, outside, weaks⟩) (heap : after.heap = store.heap)
    (registry : after.registry = store.registry)
    (pairs : ∀ p, outside'.count (.pair p) = outside.count (.pair p))
    (atoms : after.atoms.Exact (outside' ++ store.heap.slotValues)
      (weaks'.filterMap fun weak => weak.value.atom?)) :
    Sound ⟨after, outside', weaks'⟩ := by
  have balanced := sound.balanced.of_atoms heap pairs atoms
  refine ⟨balanced.pairs, balanced.atoms, ?_⟩
  rw [heap, registry]
  exact sound.registered

/-- A change of the heap and the registry that leaves the atoms alone. -/
theorem of_heap {after : Store} {outside' : List Value}
    (sound : Sound ⟨store, outside, weaks⟩) (atoms : after.atoms = store.atoms)
    (same : ∀ a, (outside' ++ after.heap.slotValues).count (.atom a) =
      (outside ++ store.heap.slotValues).count (.atom a))
    (pairs : after.heap.Counted (outside' ++ after.heap.slotValues))
    (registered : after.registry.Covers after.heap) :
    Sound ⟨after, outside', weaks⟩ := by
  have balanced := sound.balanced.of_heap atoms same pairs
  exact ⟨balanced.pairs, balanced.atoms, registered⟩

theorem drop (sound : Sound ⟨store, value :: outside, weaks⟩) :
    Sound ⟨(store.drop value).2, (store.drop value).1 ++ outside, weaks⟩ := by
  have fewer := store.thinned_drop value
  have registered : (store.drop value).2.registry.Covers (store.drop value).2.heap := by
    rw [fewer.2.2]
    exact sound.registered.of_le (Nat.le_of_eq fewer.2.1.symm) fun p => fewer.1.isLive
  have balanced := sound.balanced.drop
  exact ⟨balanced.pairs, balanced.atoms, registered⟩

/-- Handles are given up together with all that this frees in turn. -/
theorem releaseAll {work : List Value} (sound : Sound ⟨store, work ++ outside, weaks⟩) :
    Sound ⟨store.releaseAll work, outside, weaks⟩ := by
  have fewer := store.thinned_releaseAll work
  have balanced := sound.balanced.releaseAll
  refine ⟨balanced.pairs, balanced.atoms, ?_⟩
  rw [fewer.2.2]
  exact sound.registered.of_le (Nat.le_of_eq fewer.2.1.symm) fun p => fewer.1.isLive

theorem release (sound : Sound ⟨store, value :: outside, weaks⟩) :
    Sound ⟨store.release value, outside, weaks⟩ :=
  @releaseAll store outside weaks [value] sound

/-- A handle is taken on a value that is held already. -/
theorem retain (sound : Sound ⟨store, outside, weaks⟩)
    (held : value ∈ holdings ⟨store, outside, weaks⟩) :
    Sound ⟨store.retain value, value :: outside, weaks⟩ := by
  cases value with
  | scalar s =>
    cases s with
    | atom a =>
      refine sound.of_atoms rfl rfl ?_ (sound.atoms.retain held)
      intro p
      simp
    | _ =>
      refine sound.of_atoms rfl rfl ?_ (sound.atoms.congr ?_)
      · intro p
        simp
      · intro a
        simp [holdings, Value.atom]
  | pair p =>
    have moved := (store.heap.slotValues_modify_of_slots p
      (f := fun cell => { cell with handles := cell.handles + 1 })
      fun _ => ⟨rfl, rfl⟩).append_left (.pair p :: outside)
    have live := sound.pairs.isLive_iff.2 held
    refine sound.of_heap rfl ?_ ((sound.pairs.retain live).perm moved.symm) ?_
    · intro a
      rw [Store.retain, Store.heap_mapHeap, Heap.retain, moved.count_eq]
      simp [Value.atom]
    · refine sound.registered.of_le (Nat.le_of_eq (Heap.size_modify ..).symm) fun q live => ?_
      rwa [Store.retain, Store.heap_mapHeap, Heap.retain, Heap.isLive_modify] at live

/-- A value that is neither a pair nor an atom needs no handle. -/
theorem literal (sound : Sound ⟨store, outside, weaks⟩) (written : Literal) :
    Sound ⟨store, written.value :: outside, weaks⟩ := by
  refine sound.of_atoms rfl rfl ?_ (sound.atoms.congr ?_)
  · intro p
    cases written <;> simp [Literal.value]
  · intro a
    cases written <;> simp [holdings, Literal.value, Value.atom]

/-! ## Weak references -/

theorem weaken {weak : Weak} (sound : Sound ⟨store, outside, weaks⟩)
    (held : weak.value ∈ outside) : Sound ⟨store, outside, weak :: weaks⟩ := by
  refine sound.of_atoms rfl rfl (fun _ => rfl) ?_
  cases weak with
  | pair p => exact sound.atoms
  | atom a => exact sound.atoms.know (List.mem_append_left _ held)

theorem forget {fewer : List Weak} (sound : Sound ⟨store, outside, weaks⟩)
    (less : fewer ⊆ weaks) : Sound ⟨store, outside, fewer⟩ :=
  sound.of_atoms rfl rfl (fun _ => rfl) (sound.atoms.forget (List.filterMap_subset _ less))

/-- A weak reference that still leads to something leads to what is held. -/
theorem mem_holdings_of_isLive {weak : Weak} (sound : Sound ⟨store, outside, weaks⟩)
    (kept : weak ∈ weaks) (live : store.isLive weak.value = true) :
    weak.value ∈ holdings ⟨store, outside, weaks⟩ := by
  cases weak with
  | pair p => exact sound.pairs.isLive_iff.1 live
  | atom a =>
    have seen : a ∈ known ⟨store, outside, weaks⟩ := List.mem_filterMap.2 ⟨.atom a, kept, rfl⟩
    exact sound.atoms.mem_of_isAlive seen live

/-- An atom is filed under its name exactly if it is held. -/
theorem filed?_eq_some_iff {ledger : Ledger} {a : Atom} (sound : ledger.Sound) {kind : AtomKind}
    {name : String} : ledger.store.atoms.filed? kind name = some a ↔
      ledger.Holds (.atom a) ∧ a.kind = kind ∧ a.name = name := by
  constructor
  · intro entry
    obtain ⟨held, sameKind, sameName⟩ := sound.atoms.keyed kind name a entry
    exact ⟨mem_holdings.1 held, sameKind, sameName⟩
  · intro found
    obtain ⟨held, rfl, rfl⟩ := found
    exact sound.atoms.filed a (mem_holdings.2 held)

/-! ## Pairs -/

/-- The two values go over into the slots of the new pair. -/
theorem pair {head tail : Value} (sound : Sound ⟨store, head :: tail :: outside, weaks⟩) :
    Sound ⟨(store.pair head tail).2, .pair (store.pair head tail).1 :: outside, weaks⟩ := by
  have moved : (outside ++ (store.heap.allocate head tail).2.slotValues).Perm
      (head :: tail :: outside ++ store.heap.slotValues) := by
    refine ((store.heap.slotValues_allocate head tail).append_left outside).trans ?_
    exact List.perm_append_comm_assoc outside [head, tail] _
  refine sound.of_heap rfl ?_ ?_ (sound.registered.allocate head tail)
  · intro a
    rw [← moved.count_eq]
    simp [Store.pair, Value.atom]
  · exact (sound.pairs.allocate head tail).perm (moved.symm.cons _)

/-- The value that stood in the slot takes the place of the one that is written. -/
theorem put {p : PairId} {slot : Slot} (sound : Sound ⟨store, value :: outside, weaks⟩)
    (held : .pair p ∈ outside) :
    Sound ⟨store.mapHeap (·.write p slot value), store.heap.read p slot :: outside, weaks⟩ := by
  obtain ⟨cell, found, _⟩ := sound.pairs.get?_of_mem
    (List.mem_append_left _ (List.mem_cons_of_mem value held))
  have moved : (store.heap.read p slot :: outside ++
      (store.heap.write p slot value).slotValues).Perm (value :: outside ++
      store.heap.slotValues) := by
    have before := Heap.slotValues_perm_of_get? found
    have after := Heap.slotValues_modify found (·.put slot value)
    rw [Heap.read_of_get? found]
    rw [List.perm_iff_count]
    intro other
    have countBefore := before.count_eq other
    have countAfter := after.count_eq other
    cases slot <;>
      simp only [Heap.write, Cell.get, Cell.put, List.count_append, List.count_cons]
        at countBefore countAfter ⊢ <;>
      omega
  have kept : (store.heap.write p slot value).Counted (value :: outside ++
      store.heap.slotValues) := by
    refine sound.pairs.modify p fun cell => ?_
    cases slot <;> rfl
  refine sound.of_heap rfl (fun a => moved.count_eq _) (kept.perm moved.symm) ?_
  refine sound.registered.of_le (Nat.le_of_eq (Heap.size_modify ..).symm) fun q live => ?_
  rwa [Store.heap_mapHeap, Heap.write, Heap.isLive_modify] at live

theorem write {p : PairId} {slot : Slot} (sound : Sound ⟨store, value :: outside, weaks⟩)
    (held : .pair p ∈ outside) : Sound ⟨store.write p slot value, outside, weaks⟩ := by
  unfold Store.write
  exact release (put sound held)

/-! ## Atoms -/

theorem intern (sound : Sound ⟨store, outside, weaks⟩) (kind : AtomKind) (raw : String) :
    Sound ⟨(store.intern kind raw).2, .atom (store.intern kind raw).1 :: outside, weaks⟩ := by
  refine sound.of_atoms rfl rfl (fun p => ?_) (sound.atoms.intern kind raw)
  simp [Value.atom]

/-- Giving up the one handle on an atom. -/
theorem releaseAtom {a : Atom} (sound : Sound ⟨store, .atom a :: outside, weaks⟩) :
    Sound ⟨store.releaseAtom a, outside, weaks⟩ :=
  drop sound

/-! ## Positions and threads -/

/-- A change of the heap that keeps the slots and the handles of every pair. -/
theorem of_positions {change : Heap → Heap} (sound : Sound ⟨store, outside, weaks⟩)
    (same : store.heap.AgreesButPosition (change store.heap)) :
    Sound ⟨store.mapHeap change, outside, weaks⟩ := by
  have moved := same.slotValues_perm.append_left outside
  refine sound.of_heap rfl (fun a => (moved.count_eq _).symm) ?_ ?_
  · refine (Heap.Counted.perm ?_ moved)
    exact ⟨fun p => by rw [Store.heap_mapHeap, same.handlesOf]; exact sound.pairs.exact p,
      fun p live => by
        rw [Store.heap_mapHeap, same.isLive] at live
        rw [Store.heap_mapHeap, same.handlesOf]
        exact sound.pairs.positive p live⟩
  · exact sound.registered.of_le (Nat.le_of_eq same.size.symm) fun p live =>
      (same.isLive p).symm.trans live

theorem mapRegistry (sound : Sound ⟨store, outside, weaks⟩) (change : Registry → Registry)
    (registered : (change store.registry).Covers store.heap) :
    Sound ⟨store.mapRegistry change, outside, weaks⟩ :=
  ⟨sound.pairs, sound.atoms, registered⟩

end Ledger.Sound

end Sexpr
