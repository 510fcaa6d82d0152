import Sexpr.Proofs.Store.Runs

/-!
# What is alive

A pair lives as long as something holds it, and no longer. So nothing that can be asked for is dead,
and a live pair is there for a reason: an outside holder leads to it, or a cycle of pairs that hold
each other does. `KeepsAlive` says this of a ledger, with the exact number of handles on each pair;
`Reached.keepsAlive` proves it of every ledger that operations lead to.

The reason is found by going back from a pair to one that holds it, and so on. There are finitely
many live pairs, so the way back leads outside or comes round.
-/

namespace Sexpr.Ledger

/-- The live pairs form no cycle. -/
def Acyclic (ledger : Ledger) : Prop := ∀ p, ¬Relation.TransGen ledger.store.heap.Child p p

/-- What is held is alive, handles are counted, and what is alive is held for a reason. -/
structure KeepsAlive (ledger : Ledger) : Prop where
  /-- Nothing that is held outside or by a live pair is dead. -/
  holds : ∀ value, ledger.Holds value → ledger.store.isLive value = true
  /-- The handles on a live pair are those outside and the slots of live pairs that hold it. -/
  counts : ∀ p, ledger.store.heap.isLive p = true →
    ledger.store.heap.handlesOf p =
      ledger.outside.count (.pair p) + ledger.store.heap.slotValues.count (.pair p) ∧
    0 < ledger.store.heap.handlesOf p
  /-- An outside holder or a cycle leads to every live pair. -/
  traces : ∀ p, ledger.store.heap.isLive p = true →
    ledger.Reaches p ∨
      ∃ c, Relation.TransGen ledger.store.heap.Child c c ∧ ledger.store.heap.Leads c p
  /-- Without cycles, no collection is needed. -/
  settles : ledger.Acyclic → ∀ p, ledger.store.heap.isLive p = true ↔ ledger.Reaches p
  /-- A weak reference gives a handle on its pair exactly if the pair is alive. -/
  upgrades : ∀ p, ((Weak.pair p).upgrade ledger.store).1 = some (.pair p) ↔
    ledger.store.heap.isLive p = true

namespace Sound

variable {ledger : Ledger} {p : PairId}

theorem isLive_of_holds {value : Value} (sound : ledger.Sound) (held : ledger.Holds value) :
    ledger.store.isLive value = true := by
  have listed := mem_holdings.2 held
  match value with
  | .pair p => exact sound.pairs.isLive_iff.2 listed
  | .scalar (.atom a) => exact AtomTable.isAlive_eq_true_iff.2 (sound.atoms.holdersAt_pos listed)
  | .scalar .nil | .scalar (.bool _) | .scalar (.int _) | .scalar (.float _) | .scalar (.text _) =>
    rfl

theorem handlesOf_eq_add (sound : ledger.Sound) (p : PairId) : ledger.store.heap.handlesOf p =
    ledger.outside.count (.pair p) + ledger.store.heap.slotValues.count (.pair p) := by
  rw [sound.pairs.exact, holdings, List.count_append]

/-- A live pair that is not held outside stands in a slot. -/
theorem exists_child (sound : ledger.Sound) (live : ledger.store.heap.isLive p = true)
    (inner : .pair p ∉ ledger.outside) : ∃ r, ledger.store.heap.Child r p := by
  rcases mem_holdings.1 (sound.pairs.isLive_iff.1 live) with outer | ⟨r, slot, _, read⟩
  · exact absurd outer inner
  · exact ⟨r, slot, read⟩

theorem reaches_or_cycle (sound : ledger.Sound) (live : ledger.store.heap.isLive p = true) :
    ledger.Reaches p ∨
      ∃ c, Relation.TransGen ledger.store.heap.Child c c ∧ ledger.store.heap.Leads c p := by
  by_cases reaches : ledger.Reaches p
  · exact Or.inl reaches
  · refine Or.inr (Heap.exists_cycle live fun q alive leads => ?_)
    exact sound.exists_child alive fun outer => reaches ⟨q, outer, leads⟩

theorem isLive_iff_reaches (sound : ledger.Sound) (acyclic : ledger.Acyclic) :
    ledger.store.heap.isLive p = true ↔ ledger.Reaches p := by
  constructor
  · intro live
    rcases sound.reaches_or_cycle live with reaches | ⟨c, again, _⟩
    · exact reaches
    · exact absurd again (acyclic c)
  · exact sound.isLive_of_reaches

end Sound

theorem upgrade_pair_eq_some_iff (store : Store) (p : PairId) :
    ((Weak.pair p).upgrade store).1 = some (.pair p) ↔ store.heap.isLive p = true := by
  have live : store.isLive (Weak.pair p).value = store.heap.isLive p := rfl
  rw [Weak.upgrade, live]
  cases store.heap.isLive p <;> simp [Weak.value]

/-- In every run, after every operation, what is alive is what is held. -/
theorem Reached.keepsAlive {ledger : Ledger} (reached : Reached ledger) : ledger.KeepsAlive := by
  have sound := reached.sound
  refine ⟨fun value => sound.isLive_of_holds, fun p live => ⟨sound.handlesOf_eq_add p, ?_⟩,
    fun p => sound.reaches_or_cycle, fun acyclic p => sound.isLive_iff_reaches acyclic,
    upgrade_pair_eq_some_iff _⟩
  exact sound.pairs.positive p live

/-- A pair is held outside and by another pair, and a ring is given up: the pair has two handles,
and the ring lives on although no outside holder leads to it. -/
theorem keepsAlive_of_ring :
    let first := Store.empty.pair (.int 1) .nil
    let second := (first.2.retain (.pair first.1)).pair (.int 2) (.pair first.1)
    let ring := second.2.cons [.int 3] true
    let store := ring.2.release ring.1
    Reached ⟨store, [.pair second.1, .pair first.1], []⟩ ∧
      KeepsAlive ⟨store, [.pair second.1, .pair first.1], []⟩ ∧
      store.heap.handlesOf first.1 = 2 ∧
      ring.1 = .pair ⟨2⟩ ∧ store.heap.isLive ⟨2⟩ = true ∧
      ¬Reaches ⟨store, [.pair second.1, .pair first.1], []⟩ ⟨2⟩ := by
  intro first second ring store
  have made : Reached ⟨first.2, [.pair first.1], []⟩ :=
    ((Reached.step .refl (.literal .nil)).step (.literal (.int 1))).step .pair
  have shared : Reached ⟨second.2, [.pair second.1, .pair first.1], []⟩ :=
    ((made.step (.copy (by simp))).step (.literal (.int 2))).step .pair
  have ready : Reached ⟨second.2, [.int 3] ++ [.pair second.1, .pair first.1], []⟩ :=
    shared.step (.literal (.int 3))
  have closed : Reached ⟨ring.2, [ring.1, .pair second.1, .pair first.1], []⟩ := ready.cons
  have reached : Reached ⟨store, [.pair second.1, .pair first.1], []⟩ := closed.step .release
  refine ⟨reached, reached.keepsAlive, ?_, ?_, ?_, fun reaches => ?_⟩
  · decide +kernel
  · decide +kernel
  · decide +kernel
  · have marked := reached.sound.contains_marked.2 reaches
    revert marked
    decide +kernel

end Sexpr.Ledger
