import Sexpr.Proofs.Store.Runs
import Sexpr.Proofs.Store.Unwinding

/-!
# Releasing a pair

Giving up a handle on a pair can free any number of pairs, which may be shared, held twice by one
pair, or tied into cycles. `Store.release` does with a stack of pending pairs what is plainly said
as a recursion: take the handle off, and if it was the last one give up what the two slots hold.

`Heap.Frees` says which pairs die, without any order: the least set that contains the pair if the
handle was its last one, and every pair all of whose handles are slots of pairs in the set.
`TearsDown` says that the loop ends, that it agrees with the recursion and with every other order of
taking sub-releases, and that it frees exactly this set, each pair once. It asks for nothing but
exact counts (`Store.Balanced.tearsDown`).
-/

namespace Sexpr

/-- The pairs that die when a handle on `p` is given up. -/
inductive Heap.Frees (heap : Heap) (p : PairId) : PairId → Prop
  /-- The handle was the last one. -/
  | last : heap.handlesOf p = 1 → Frees heap p p
  /-- All handles on the pair are slots, and these belong to pairs that die. -/
  | orphan {q : PairId} : 0 < heap.handlesOf q →
    heap.handlesOf q = heap.slotValues.count (.pair q) →
    (∀ r slot, heap.read r slot = .pair q → Frees heap p r) → Frees heap p q

namespace Heap.Counted

variable {heap : Heap} {p q : PairId} {outside : List Value}

theorem handlesOf_eq_add (counted : heap.Counted (.pair p :: outside ++ heap.slotValues))
    (q : PairId) : heap.handlesOf q =
      outside.count (.pair q) + heap.slotValues.count (.pair q) + if p = q then 1 else 0 := by
  rw [← List.count_append]
  exact handlesOf_cons counted q

/-- If anything falls, the handle that is given up was the last one: going back from a pair that
falls to the pairs that hold it ends at one that stands in no slot. -/
theorem handlesOf_eq_one_of_falls (counted : heap.Counted (.pair p :: outside ++ heap.slotValues))
    (falls : heap.Falls outside q) : heap.handlesOf p = 1 := by
  induction falls with
  | @intro q live absent _ ih =>
    by_cases held : ∃ r slot, heap.read r slot = .pair q
    · obtain ⟨r, slot, read⟩ := held
      exact ih r slot read
    · have unheld : .pair q ∉ heap.slotValues := by
        intro member
        obtain ⟨r, slot, _, read⟩ := Heap.mem_slotValues.1 member
        exact held ⟨r, slot, read⟩
      have handles := counted.handlesOf_eq_add q
      have positive := counted.positive q live
      rw [List.count_eq_zero.2 absent, List.count_eq_zero.2 unheld] at handles
      by_cases same : p = q
      · subst same
        rw [if_pos rfl] at handles
        exact handles
      · rw [if_neg same] at handles
        omega

/-- What nobody holds any more is what the handle on `p` frees. -/
theorem falls_iff_frees (counted : heap.Counted (.pair p :: outside ++ heap.slotValues)) :
    heap.Falls outside q ↔ heap.Frees p q := by
  constructor
  · intro falls
    have last := counted.handlesOf_eq_one_of_falls falls
    induction falls with
    | @intro q live absent _ ih =>
      by_cases same : p = q
      · subst same
        exact .last last
      · refine .orphan (counted.positive q live) ?_ ih
        have outer := counted.handlesOf_eq_add q
        rw [List.count_eq_zero.2 absent, if_neg same] at outer
        omega
  · intro frees
    induction frees with
    | last one =>
      have outer := counted.handlesOf_eq_add p
      rw [if_pos rfl] at outer
      refine .intro (isLive_of_handlesOf_pos (by omega)) ?_ ?_
      · exact List.count_eq_zero.1 (by omega)
      · intro r slot read
        have none : .pair p ∉ heap.slotValues := List.count_eq_zero.1 (by omega)
        exact absurd (Heap.mem_slotValues.2 ⟨r, slot, Heap.Child.isLive ⟨slot, read⟩, read⟩) none
    | @orphan q positive inner _ ih =>
      have outer := counted.handlesOf_eq_add q
      refine .intro (isLive_of_handlesOf_pos positive) ?_ ih
      exact List.count_eq_zero.1 (by omega)

end Heap.Counted

namespace Store

open Teardown

variable {store : Store} {p : PairId} {outside : List Value} {known : List Atom}

/-- What becomes of a store when a handle on `p` is given up and `outside` is held besides. -/
structure TearsDown (store : Store) (p : PairId) (outside : List Value) : Prop where
  /-- Whichever pending handle is given up next, there is an end to it, and it is not reached while
  a handle is pending. -/
  ends : Acc (fun next now => Step now next) ⟨store, [.pair p], []⟩
  proceeds : ∀ now, Run ⟨store, [.pair p], []⟩ now → now.pending ≠ [] → ∃ next, Step now next
  /-- The loop over pending pairs does what the recursive rule says. -/
  recurs : ∃ freed, Unwinds store (.pair p) freed (store.release (.pair p))
  /-- The recursive rule, with either slot first at every pair, is one of the orders. -/
  orders : ∀ freed after, Unwinds store (.pair p) freed after →
    Run ⟨store, [.pair p], []⟩ ⟨after, [], freed⟩
  /-- All orders end in the same pairs with the same slots, positions and handles, in the same
  table, and with the same evictions. -/
  agrees : ∀ freed after, Run ⟨store, [.pair p], []⟩ ⟨after, [], freed⟩ →
    after.heap = (store.release (.pair p)).heap ∧
    after.atoms = (store.release (.pair p)).atoms ∧
    after.registry = (store.release (.pair p)).registry ∧
    after.counter = (store.release (.pair p)).counter ∧
    ∃ more others, after.trace.toList = store.trace.toList ++ more ∧
      (store.release (.pair p)).trace.toList = store.trace.toList ++ others ∧ more.Perm others
  /-- Each pair that dies does so once. -/
  frees : ∀ freed after, Run ⟨store, [.pair p], []⟩ ⟨after, [], freed⟩ →
    freed.Nodup ∧ ∀ q, q ∈ freed ↔ store.heap.Frees p q
  lives : ∀ q, (store.release (.pair p)).heap.isLive q = true ↔
    store.heap.isLive q = true ∧ ¬store.heap.Frees p q
  /-- The others hold what they held, and their handles are counted. -/
  keeps : ∀ q, (store.release (.pair p)).heap.isLive q = true →
    (∀ slot, (store.release (.pair p)).heap.read q slot = store.heap.read q slot) ∧
    (store.release (.pair p)).heap.position? q = store.heap.position? q ∧
    (store.release (.pair p)).heap.handlesOf q =
      outside.count (.pair q) + (store.release (.pair p)).heap.slotValues.count (.pair q)
  /-- The atoms that go are those that were held by such pairs only. -/
  evicts : ∃ more, (store.release (.pair p)).trace.toList = store.trace.toList ++ more ∧
    (∀ event ∈ more, event.isEviction = true) ∧
    ∀ a, .atom a ∈ outside ++ store.heap.slotValues →
      (.evicted a.kind a.name ∈ more ↔
        .atom a ∉ outside ∧ ∀ q slot, store.heap.read q slot = .atom a → store.heap.Frees p q)

/-- An eviction is noted for an atom that was held exactly if it is held no more. -/
theorem Sheds.mem_iff {after : Store} {more : List Event} {holdings later : List Value} {a : Atom}
    {known' : List Atom} (sheds : store.Sheds more after) (exact : store.atoms.Exact holdings known)
    (exact' : after.atoms.Exact later known') (held : .atom a ∈ holdings) :
    .evicted a.kind a.name ∈ more ↔ .atom a ∉ later := by
  have entry := exact.filed a held
  have entry' : after.atoms.filed? a.kind a.name = some a ↔ .atom a ∈ later := by
    rw [exact'.filed?_eq_some_iff]
    exact and_iff_left ⟨rfl, rfl⟩
  rw [← List.count_pos_iff, Event.count_evicted, ← entry']
  rcases sheds.entries a.kind a.name with ⟨none, kept⟩ | ⟨one, _, removed⟩
  · rw [none, kept, entry]
    simp
  · rw [one, removed]
    simp

/-- Wherever handles are counted exactly, giving one up is a matter of counting alone. -/
theorem Balanced.tearsDown (balanced : store.Balanced (.pair p :: outside) known) :
    store.TearsDown p outside := by
  have start : Since store outside known ⟨store, [.pair p], []⟩ := .of_start balanced
  obtain ⟨freed, unwinds⟩ := balanced.exists_unwinds
  have final := start.run (unwinds.run (.refl _))
  have lives : ∀ q, (store.release (.pair p)).heap.isLive q = true ↔
      store.heap.isLive q = true ∧ ¬store.heap.Frees p q := by
    intro q
    rw [final.isLive_iff, balanced.pairs.falls_iff_frees]
  refine ⟨acc_step _, fun now run left => exists_step (start.run run).balanced left,
    ⟨freed, unwinds⟩, fun freed after unwinds => unwinds.run (.refl _), ?_, ?_, lives, ?_, ?_⟩
  · intro freed' after run
    have since := start.run run
    obtain ⟨heap, atoms⟩ := since.store_eq final
    obtain ⟨more, sheds⟩ := since.sheds
    obtain ⟨others, sheds'⟩ := final.sheds
    exact ⟨heap, atoms, since.registry.trans final.registry.symm,
      since.counter.trans final.counter.symm, more, others, sheds.trace, sheds'.trace,
      sheds.perm sheds' atoms⟩
  · intro freed' after run
    have since := start.run run
    refine ⟨since.nodup, fun q => ?_⟩
    rw [since.mem_freed_iff, balanced.pairs.falls_iff_frees]
  · intro q alive
    refine ⟨final.thinned.read alive, final.thinned.position? alive, ?_⟩
    rw [final.balanced.pairs.exact, List.nil_append, List.count_append]
  · obtain ⟨more, sheds⟩ := final.sheds
    refine ⟨more, sheds.trace, sheds.evictions, fun a held => ?_⟩
    rw [sheds.mem_iff balanced.atoms final.balanced.atoms (List.mem_cons_of_mem _ held),
      List.nil_append, final.not_mem_iff (by simp [Value.atom, Value.nil])]
    simp only [balanced.pairs.falls_iff_frees]

/-- A pair holds another one twice and is held next to a ring; the pair above them holds a symbol. It
is given up: three pairs die and the symbol with them, the pair that was held twice stays with its one
outside handle, and the ring stays although nobody outside leads to it. -/
theorem tearsDown_of_doubled :
    let named := Store.empty.intern .symbol "x"
    let inner := named.2.pair (.int 1) .nil
    let copied := (inner.2.retain (.pair inner.1)).retain (.pair inner.1)
    let doubled := copied.pair (.pair inner.1) (.pair inner.1)
    let ring := doubled.2.cons [.int 2] true
    let middle := ring.2.pair ring.1 (.pair doubled.1)
    let top := middle.2.pair (.pair middle.1) (.atom named.1)
    let after := top.2.release (.pair top.1)
    top.2.Balanced [.pair top.1, .pair inner.1] [] ∧ top.2.TearsDown top.1 [.pair inner.1] ∧
      top.2.heap.liveCount = 5 ∧ after.heap.livePairs = [inner.1, ⟨2⟩] ∧
      top.2.heap.handlesOf inner.1 = 3 ∧ after.heap.handlesOf inner.1 = 1 ∧
      ring.1 = .pair ⟨2⟩ ∧ after.trace.toList = [.interned .symbol "x", .evicted .symbol "x"] := by
  intro named inner copied doubled ring middle top after
  have filed : Ledger.Reached ⟨named.2, [.atom named.1], []⟩ := .single (.intern .symbol "x")
  have first : Ledger.Reached ⟨inner.2, [.pair inner.1, .atom named.1], []⟩ :=
    ((filed.step (.literal .nil)).step (.literal (.int 1))).step .pair
  have second : Ledger.Reached ⟨doubled.2, [.pair doubled.1, .pair inner.1, .atom named.1], []⟩ :=
    ((first.step (.copy List.mem_cons_self)).step (.copy List.mem_cons_self)).step .pair
  have ready : Ledger.Reached ⟨doubled.2,
      [.int 2] ++ [.pair doubled.1, .pair inner.1, .atom named.1], []⟩ :=
    second.step (.literal (.int 2))
  have closed : Ledger.Reached ⟨ring.2,
      [ring.1, .pair doubled.1, .pair inner.1, .atom named.1], []⟩ := ready.cons
  have third : Ledger.Reached ⟨middle.2, [.pair middle.1, .pair inner.1, .atom named.1], []⟩ :=
    closed.step .pair
  have built : Ledger.Reached ⟨top.2, [.pair top.1, .pair inner.1], []⟩ :=
    (third.perm ((List.Perm.swap ..).cons _)).step .pair
  have balanced : top.2.Balanced [.pair top.1, .pair inner.1] [] := built.sound.balanced
  refine ⟨balanced, balanced.tearsDown, ?_, ?_, ?_, ?_, ?_, ?_⟩ <;> decide +kernel

end Store

end Sexpr
