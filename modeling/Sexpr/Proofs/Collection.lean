import Sexpr.Proofs.Store.Runs

/-!
# Collections are exact

A collection keeps what the holders outside the store lead to, and nothing else. `CollectsExactly`
says what that means for the slots, the pairs and the atoms, and what the report has to say;
`Reached.collectsExactly` proves it of every ledger that operations lead to, whatever its pairs
look like.
-/

namespace Sexpr.Ledger

/-- What outside holders lead to is left as it is, all else goes, and the report says so. -/
structure CollectsExactly (ledger : Ledger) : Prop where
  /-- The slots of a live pair are cleared exactly if no outside holder leads to it. -/
  clears : ∀ p cell, ledger.store.heap.get? p = some cell →
    (ledger.Reaches p → ledger.store.sweep.2.heap.get? p = some cell) ∧
    (¬ledger.Reaches p →
      ledger.store.sweep.2.heap.get? p = some { cell with head := .nil, tail := .nil })
  keeps : ∀ p, ledger.Reaches p →
    ledger.store.collect.2.heap.read p .head = ledger.store.heap.read p .head ∧
    ledger.store.collect.2.heap.read p .tail = ledger.store.heap.read p .tail ∧
    ledger.store.collect.2.heap.position? p = ledger.store.heap.position? p
  /-- Afterwards a weak reference leads to a pair exactly if an outside holder does. -/
  lives : ∀ p, ledger.store.collect.2.isLive (Weak.pair p).value = true ↔ ledger.Reaches p
  files : ∀ a, ledger.store.collect.2.atoms.filed? a.kind a.name = some a ↔
    .atom a ∈ ledger.outside ∨
      ∃ p slot, ledger.Reaches p ∧ ledger.store.heap.read p slot = .atom a
  counts : ledger.store.collect.2.trackedCount = ledger.store.collect.1.reachable
  reports : ledger.store.collect.1.tracked = ledger.store.heap.liveCount ∧
    ledger.store.collect.1.tracked =
      ledger.store.collect.1.reachable + ledger.store.collect.1.collected
  /-- A second collection finds nothing that the first has left. -/
  settles : ledger.store.collect.2.collect.1.collected = 0 ∧
    ledger.store.collect.2.collect.1.tracked = ledger.store.collect.2.collect.1.reachable ∧
    ledger.store.collect.2.collect.1.tracked = ledger.store.collect.1.reachable

namespace Sound

variable {ledger : Ledger} {p : PairId}

theorem get?_sweep_of_not_reaches {cell : Cell} (sound : ledger.Sound)
    (found : ledger.store.heap.get? p = some cell) (unreached : ¬ledger.Reaches p) :
    ledger.store.sweep.2.heap.get? p = some { cell with head := .nil, tail := .nil } := by
  have live : ledger.store.heap.isLive p = true := Heap.isLive_eq_true_iff.2 ⟨cell, found⟩
  have member : p ∈ ledger.garbage := sound.mem_garbage_iff.2 ⟨live, unreached⟩
  have cleared := Heap.get?_foldl_clear ledger.garbage ledger.store.heap p
  rw [if_pos member, found] at cleared
  exact cleared

/-- After a collection, what is held is held outside or by a pair that outside holders lead to. -/
theorem holds_collect_iff (sound : ledger.Sound) {value : Value} :
    Holds ⟨ledger.store.collect.2, ledger.outside, ledger.weaks⟩ value ↔ value ∈ ledger.outside ∨
      ∃ p slot, ledger.Reaches p ∧ ledger.store.heap.read p slot = value := by
  refine or_congr_right (exists_congr fun p => exists_congr fun slot => ?_)
  constructor
  · intro held
    obtain ⟨live, read⟩ := held
    have reaches := sound.isLive_collect_iff.1 live
    exact ⟨reaches, (sound.read_collect reaches slot).symm.trans read⟩
  · intro held
    obtain ⟨reaches, read⟩ := held
    exact ⟨sound.isLive_collect_iff.2 reaches, (sound.read_collect reaches slot).trans read⟩

/-- What a collection has left is what the next one counts. -/
theorem tracked_collect_collect (sound : ledger.Sound) :
    ledger.store.collect.2.collect.1.tracked = ledger.store.collect.1.reachable := by
  have next : Sound ⟨ledger.store.collect.2, ledger.outside, ledger.weaks⟩ := sound.collect
  calc ledger.store.collect.2.collect.1.tracked
    _ = ledger.store.collect.2.heap.liveCount := next.tracked_collect
    _ = ledger.store.collect.2.trackedCount := next.trackedCount_eq.symm
    _ = ledger.store.collect.1.reachable := sound.trackedCount_collect

end Sound

/-- Every collection in every run is exact. -/
theorem Reached.collectsExactly {ledger : Ledger} (reached : Reached ledger) :
    ledger.CollectsExactly := by
  have sound := reached.sound
  refine ⟨fun p cell found => ⟨fun reaches => ?_, sound.get?_sweep_of_not_reaches found⟩,
    fun p reaches => ?_, fun p => sound.isLive_collect_iff, fun a => ?_,
    sound.trackedCount_collect, ⟨sound.tracked_collect, Sound.tracked_eq_add ledger⟩, ?_⟩
  · exact (sound.get?_cleared_of_reaches reaches).trans found
  · exact ⟨sound.read_collect reaches .head, sound.read_collect reaches .tail,
      sound.position?_collect reaches⟩
  · rw [← sound.holds_collect_iff, sound.collect.filed?_eq_some_iff]
    exact and_iff_left ⟨rfl, rfl⟩
  · have none := sound.collected_collect
    have total := Sound.tracked_eq_add ⟨ledger.store.collect.2, ledger.outside, ledger.weaks⟩
    simp only [none, Nat.add_zero] at total
    exact ⟨none, total, sound.tracked_collect_collect⟩

/-- A ring with a symbol in it is given up, a pair is made and held: the ring goes with its symbol,
and the pair stays. -/
theorem collectsExactly_of_ring :
    let named := Store.empty.intern .symbol "x"
    let ring := named.2.cons [.atom named.1, .int 2] true
    let made := (ring.2.release ring.1).pair (.int 3) .nil
    Reached ⟨made.2, [.pair made.1], []⟩ ∧ CollectsExactly ⟨made.2, [.pair made.1], []⟩ ∧
      made.2.heap.liveCount = 3 ∧ made.2.collect.1.collected = 2 ∧
      made.2.atoms.isInterned .symbol "x" = true ∧
      made.2.collect.2.atoms.isInterned .symbol "x" = false := by
  intro named ring made
  have filed : Reached ⟨named.2, [.atom named.1], []⟩ := .single (.intern .symbol "x")
  have members : Reached ⟨named.2, [.atom named.1, .int 2], []⟩ :=
    (filed.step (.literal (.int 2))).perm (.swap ..)
  have closed : Reached ⟨ring.2, [ring.1], []⟩ := members.cons
  have dropped : Reached ⟨ring.2.release ring.1, [], []⟩ := closed.step .release
  have reached : Reached ⟨made.2, [.pair made.1], []⟩ :=
    ((dropped.step (.literal .nil)).step (.literal (.int 3))).step .pair
  refine ⟨reached, reached.collectsExactly, ?_, ?_, ?_, ?_⟩ <;> decide +kernel

end Sexpr.Ledger
