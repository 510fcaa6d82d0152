import Sexpr.Proofs.Heap.Tails
import Sexpr.Proofs.Store.Sweep

/-!
# Pairs that are put together

The builders make one pair after another. `Heap.Extends` says that a heap has grown and that the
places it had are as they were. `Store.Strung` says what a builder leaves: a chain of new pairs,
registered and without positions, in a store that is otherwise the old one.

* `strung_chain`: a chain is put together from its last pair to its first.
* `strung_ahead`: a first pair that waits for its tail gets a chain of later pairs as its tail.
-/

namespace Sexpr

/-! ## Heaps that have grown -/

/-- The later heap has all places of the earlier one, with what was in them. -/
structure Heap.Extends (heap later : Heap) : Prop where
  size : heap.size ≤ later.size
  kept : ∀ p : PairId, p.index < heap.size → later.get? p = heap.get? p

namespace Heap

variable {heap middle later : Heap} {p : PairId}

theorem Extends.refl (heap : Heap) : heap.Extends heap := ⟨Nat.le_refl _, fun _ _ => rfl⟩

theorem Extends.trans (first : heap.Extends middle) (second : middle.Extends later) :
    heap.Extends later where
  size := Nat.le_trans first.size second.size
  kept p old := by
    rw [second.kept p (Nat.lt_of_lt_of_le old first.size), first.kept p old]

theorem size_allocate (heap : Heap) (head tail : Value) :
    (heap.allocate head tail).2.size = heap.size + 1 :=
  Array.size_push ..

theorem get?_allocated (heap : Heap) (head tail : Value) :
    (heap.allocate head tail).2.get? ⟨heap.size⟩ = some ⟨head, tail, none, 1⟩ :=
  (get?_allocate ..).trans (if_pos rfl)

theorem extends_allocate (heap : Heap) (head tail : Value) :
    heap.Extends (heap.allocate head tail).2 where
  size := by
    rw [size_allocate]
    exact Nat.le_succ _
  kept p old := by
    rw [get?_allocate, if_neg]
    intro same
    rw [← same] at old
    exact Nat.lt_irrefl heap.size old

/-- A pair that was not there before can be changed. -/
theorem Extends.modify (grown : heap.Extends later) (new : heap.size ≤ p.index) (f : Cell → Cell) :
    heap.Extends (later.modify p f) where
  size := by
    rw [size_modify]
    exact grown.size
  kept q old := by
    rw [get?_modify, if_neg, grown.kept q old]
    intro same
    rw [same] at new
    omega

theorem liveCount_allocate (heap : Heap) (head tail : Value) :
    (heap.allocate head tail).2.liveCount = heap.liveCount + 1 := by
  simp [liveCount, allocate]

end Heap

namespace Store

variable {store : Store} {member last : Value} {heads : List Value}

/-! ## Chains of new pairs -/

/-- What was made is a chain of new pairs with the given heads in front of `last`, and all else is
as it was before. -/
structure Strung (before : Store) (made : Value × Store) (pairs : List PairId)
    (heads : List Value) (last : Value) : Prop where
  links : made.2.heap.Links last pairs heads made.1
  distinct : pairs.Nodup
  /-- No pair that was ever made before has one of these identities. -/
  new : ∀ p ∈ pairs, before.heap.size ≤ p.index
  unplaced : ∀ p ∈ pairs, made.2.heap.position? p = none
  /-- Every pair that was there before has kept its slots, its position and its handles. -/
  kept : before.heap.Extends made.2.heap
  tracked : made.2.trackedCount = before.trackedCount + pairs.length

theorem covers_pair (covers : store.registry.Covers store.heap) (head tail : Value) :
    (store.pair head tail).2.registry.Covers (store.pair head tail).2.heap :=
  covers.allocate head tail

theorem trackedCount_pair (covers : store.registry.Covers store.heap) (head tail : Value) :
    (store.pair head tail).2.trackedCount = store.trackedCount + 1 := by
  rw [trackedCount_of_covers (covers_pair covers head tail), trackedCount_of_covers covers]
  exact store.heap.liveCount_allocate head tail

/-- A change of cells keeps the number of live pairs that are registered. -/
theorem trackedCount_modify (store : Store) (p : PairId) (f : Cell → Cell) :
    (store.mapHeap (·.modify p f)).trackedCount = store.trackedCount := by
  simp only [trackedCount, registry_mapHeap, heap_mapHeap]
  exact List.countP_congr fun q _ => by rw [Heap.isLive_modify]

theorem covers_chain (covers : store.registry.Covers store.heap) (heads : List Value)
    (last : Value) :
    (store.chain heads last).2.registry.Covers (store.chain heads last).2.heap := by
  induction heads with
  | nil => exact covers
  | cons head heads ih => exact covers_pair ih head _

theorem strung_chain (covers : store.registry.Covers store.heap) (heads : List Value)
    (last : Value) : ∃ pairs, store.Strung (store.chain heads last) pairs heads last := by
  induction heads with
  | nil => exact ⟨[], .stop, List.nodup_nil, by simp, by simp, .refl _, rfl⟩
  | cons head heads ih =>
    obtain ⟨pairs, strung⟩ := ih
    have behind := covers_chain covers heads last
    set rest := store.chain heads last
    have found := rest.2.heap.get?_allocated head rest.1
    have grown := rest.2.heap.extends_allocate head rest.1
    have old : ∀ p ∈ pairs, p.index < rest.2.heap.size := fun p member =>
      Heap.lt_size_of_isLive (strung.links.isLive member)
    refine ⟨⟨rest.2.heap.size⟩ :: pairs, ?_, ?_, ?_, ?_, strung.kept.trans grown, ?_⟩
    · exact .pair found (strung.links.congr fun p member => grown.kept p (old p member))
    · refine List.nodup_cons.2 ⟨fun member => ?_, strung.distinct⟩
      exact Nat.lt_irrefl _ (old _ member)
    · intro p member
      rcases List.mem_cons.1 member with rfl | member
      · exact strung.kept.size
      · exact strung.new p member
    · intro p member
      rcases List.mem_cons.1 member with rfl | member
      · exact congrArg (Option.bind · Cell.position) found
      · have same := congrArg (Option.bind · Cell.position) (grown.kept p (old p member))
        exact same.trans (strung.unplaced p member)
    · refine (trackedCount_pair behind head rest.1).trans ?_
      rw [strung.tracked, List.length_cons, Nat.add_assoc]

/-! ## A first pair before the others -/

/-- A new pair stands at the end of the heap and waits for its tail. -/
structure Opens (before : Store) (member : Value) (opened : Store) : Prop where
  size : opened.heap.size = before.heap.size + 1
  first : ∃ handles, opened.heap.get? ⟨before.heap.size⟩ = some ⟨member, .nil, none, handles⟩
  kept : before.heap.Extends opened.heap
  covers : opened.registry.Covers opened.heap
  tracked : opened.trackedCount = before.trackedCount + 1

theorem opens_pair (covers : store.registry.Covers store.heap) (member : Value) :
    store.Opens member (store.pair member .nil).2 where
  size := store.heap.size_allocate member .nil
  first := ⟨1, store.heap.get?_allocated member .nil⟩
  kept := store.heap.extends_allocate member .nil
  covers := covers_pair covers member .nil
  tracked := trackedCount_pair covers member .nil

/-- One more handle can be taken on the pair that waits. -/
theorem Opens.retain {opened : Store} (opens : store.Opens member opened) :
    store.Opens member (opened.retain (.pair ⟨store.heap.size⟩)) where
  size := (Heap.size_modify ..).trans opens.size
  first := by
    obtain ⟨handles, found⟩ := opens.first
    refine ⟨handles + 1, ?_⟩
    rw [Store.retain, heap_mapHeap, Heap.retain, Heap.get?_modify, if_pos rfl, found]
    rfl
  kept := opens.kept.modify (Nat.le_refl _) _
  covers := by
    refine opens.covers.of_le (Nat.le_of_eq (Heap.size_modify ..).symm) fun p live => ?_
    exact (Heap.isLive_modify ..).symm.trans live
  tracked := (trackedCount_modify ..).trans opens.tracked

/-- The pair that waits becomes the first of a chain. -/
theorem strung_ahead {opened : Store} (opens : store.Opens member opened) (heads : List Value)
    (last : Value) : ∃ pairs, store.Strung (.pair ⟨store.heap.size⟩,
      (opened.chain heads last).2.mapHeap
        (·.write ⟨store.heap.size⟩ .tail (opened.chain heads last).1))
      (⟨store.heap.size⟩ :: pairs) (member :: heads) last := by
  obtain ⟨pairs, strung⟩ := strung_chain opens.covers heads last
  obtain ⟨handles, found⟩ := opens.first
  set rest := opened.chain heads last
  have later : ∀ p ∈ pairs, (⟨store.heap.size⟩ : PairId) ≠ p := by
    intro p member same
    have new := strung.new p member
    rw [← same, opens.size] at new
    exact Nat.not_succ_le_self _ new
  have waiting : rest.2.heap.get? ⟨store.heap.size⟩ = some ⟨member, .nil, none, handles⟩ := by
    refine (strung.kept.kept _ ?_).trans found
    rw [opens.size]
    exact Nat.lt_succ_self _
  have tied : (rest.2.heap.write ⟨store.heap.size⟩ .tail rest.1).get? ⟨store.heap.size⟩ =
      some ⟨member, rest.1, none, handles⟩ := by
    rw [Heap.write, Heap.get?_modify, if_pos rfl, waiting]
    rfl
  have others : ∀ p ∈ pairs, (rest.2.heap.write ⟨store.heap.size⟩ .tail rest.1).get? p =
      rest.2.heap.get? p := by
    intro p member
    rw [Heap.write, Heap.get?_modify, if_neg (later p member)]
  refine ⟨pairs, .pair tied (strung.links.congr others), ?_, ?_, ?_, ?_, ?_⟩
  · exact List.nodup_cons.2 ⟨fun member => later _ member rfl, strung.distinct⟩
  · intro p member
    rcases List.mem_cons.1 member with rfl | member
    · exact Nat.le_refl _
    · exact Nat.le_trans opens.kept.size (strung.new p member)
  · intro p member
    rcases List.mem_cons.1 member with rfl | member
    · exact congrArg (Option.bind · Cell.position) tied
    · have same := congrArg (Option.bind · Cell.position) (others p member)
      exact same.trans (strung.unplaced p member)
  · exact (opens.kept.trans strung.kept).modify (Nat.le_refl _) _
  · refine (trackedCount_modify ..).trans ?_
    rw [strung.tracked, opens.tracked, List.length_cons, Nat.add_assoc, Nat.add_comm 1]

end Store

end Sexpr
