import Sexpr.Proofs.Lifetime
import Sexpr.Proofs.Session.Runs
import Sexpr.Proofs.Store.Unwinding

/-!
# Cursors amid other holders

A cursor shares the store with others, who may do whatever they like between two of its moves: write
to its pair and to other pairs, give up all their handles, go over pairs with cursors of their own,
collect. `Cursor.Amid` says what this can come to: the others take one `Ledger.Step` after another
with the handles that they have, and the cursor moves on now and then.

What others do with their handles they do in the same way beside any further handles
(`Ledger.Step.beside`). So the cursor's handle is never lost, and the ledger of all handles together
is always one that operations lead to. `Amid.yieldsSlots` draws the conclusions: the cursor yields
what the slots hold when it comes to them, keeps its pair and all that the pair leads to alive and
out of the reach of collections, and lets go of the pair with its second move.
-/

namespace Sexpr

open Ledger

/-! ## Handles that a step does not touch -/

/-- What can be done with some handles can be done beside others. -/
theorem Ledger.Step.beside {store later : Store} {outside others : List Value}
    {weaks weaks' : List Weak} (kept : List Value)
    (step : Step ⟨store, outside, weaks⟩ ⟨later, others, weaks'⟩) :
    Step ⟨store, outside ++ kept, weaks⟩ ⟨later, others ++ kept, weaks'⟩ := by
  cases step with
  | regroup same less => exact .regroup (same.append_right kept) less
  | literal written => exact .literal written
  | copy held => exact .copy (List.mem_append_left _ held)
  | release => exact .release
  | weaken held => exact .weaken (List.mem_append_left _ held)
  | upgrade known live => exact .upgrade known live
  | pair => exact .pair
  | read slot held => exact .read slot (List.mem_append_left _ held)
  | write slot held => exact .write slot (List.mem_append_left _ held)
  | assignPosition p position follow => exact .assignPosition p position follow
  | fillPosition p position follow => exact .fillPosition p position follow
  | intern kind raw => exact .intern kind raw
  | fresh drawn => exact .fresh drawn
  | startThread => exact .startThread
  | resumeThread thread => exact .resumeThread thread
  | collect => exact .collect

theorem Ledger.Reached.beside {store later : Store} {outside others kept : List Value}
    {weaks weaks' : List Weak} (reached : Reached ⟨store, kept ++ outside, weaks⟩)
    (step : Step ⟨store, outside, weaks⟩ ⟨later, others, weaks'⟩) :
    Reached ⟨later, kept ++ others, weaks'⟩ := by
  have moved : Reached ⟨store, outside ++ kept, weaks⟩ := reached.perm List.perm_append_comm
  exact (moved.step (step.beside kept)).perm List.perm_append_comm

/-! ## The last handle -/

theorem Heap.pair_mem_slotValues {heap : Heap} {p : PairId} :
    .pair p ∈ heap.slotValues ↔ ∃ q, heap.Child q p := by
  rw [mem_slotValues]
  constructor
  · rintro ⟨q, slot, _, read⟩
    exact ⟨q, slot, read⟩
  · rintro ⟨q, slot, read⟩
    exact ⟨q, slot, Child.isLive ⟨slot, read⟩, read⟩

/-- A pair outlives a handle on it exactly if something else holds it. -/
theorem Ledger.Sound.isLive_release_iff {store : Store} {outside : List Value} {weaks : List Weak}
    {p : PairId} (sound : Sound ⟨store, .pair p :: outside, weaks⟩) :
    (store.release (.pair p)).heap.isLive p = true ↔
      .pair p ∈ outside ∨ ∃ q, store.heap.Child q p := by
  rw [← Heap.pair_mem_slotValues, ← List.mem_append, ← List.count_pos_iff]
  obtain ⟨cell, found, counted⟩ := sound.pairs.get?_of_mem List.mem_cons_self
  have handles : cell.handles = (outside ++ store.heap.slotValues).count (.pair p) + 1 :=
    counted.trans List.count_cons_self
  by_cases last : cell.handles ≤ 1
  · -- The pair dies before anything else does, and nothing comes back to life.
    have dead : (store.release (.pair p)).heap.isLive p = false := by
      rw [Bool.eq_false_iff]
      intro alive
      have before := (store.thinned_release_of_drop (.pair p)).1.isLive alive
      rw [Store.drop_last found last, Store.heap_mapHeap, Heap.isLive_free] at before
      simp at before
    rw [dead]
    apply iff_of_false Bool.false_ne_true
    omega
  · have live : (store.release (.pair p)).heap.isLive p = true := by
      rw [Store.release_of_drop (Store.drop_shared found last), Store.heap_mapHeap,
        Heap.isLive_modify]
      exact Heap.isLive_eq_true_iff.2 ⟨cell, found⟩
    apply iff_of_true live
    omega

theorem Store.read_retain (store : Store) (value : Value) (q : PairId) (slot : Slot) :
    (store.retain value).heap.read q slot = store.heap.read q slot := by
  match value with
  | .pair p =>
    have slots : (store.heap.retain p).slots q = store.heap.slots q := by
      rw [Heap.slots, Heap.slots, Heap.retain, Heap.get?_modify]
      by_cases same : p = q
      · rw [if_pos same]
        cases store.heap.get? q <;> rfl
      · rw [if_neg same]
    rw [retain, heap_mapHeap]
    cases slot
    · exact congrArg Prod.fst slots
    · exact congrArg Prod.snd slots
  | .scalar (.atom a) => rfl
  | .scalar .nil | .scalar (.bool _) | .scalar (.int _) | .scalar (.float _) | .scalar (.text _) =>
    rfl

namespace Cursor

/-! ## Runs -/

/-- A cursor over the pair after a number of moves. -/
def past (p : PairId) : Nat → Cursor
  | 0 => .atHead p
  | 1 => .atTail p
  | _ => .finished

/-- A cursor over the pair that has made a number of moves, amid others who hold what the ledger says
and have done anything that they could do in the meantime. -/
inductive Amid (p : PairId) : Nat → Cursor → Ledger → Prop
  /-- The cursor takes a handle of its own on a pair that somebody holds. -/
  | start {store after : Store} {others : List Value} {weaks : List Weak} {cursor : Cursor} :
    Reached ⟨store, others, weaks⟩ → .pair p ∈ others →
    Cursor.start (.pair p) store = (.ok cursor, after) → Amid p 0 cursor ⟨after, others, weaks⟩
  /-- A holder hands its handle over to the cursor. -/
  | handOver {store : Store} {others : List Value} {weaks : List Weak} :
    Reached ⟨store, .pair p :: others, weaks⟩ → Amid p 0 (.atHead p) ⟨store, others, weaks⟩
  | others {moves : Nat} {cursor : Cursor} {ledger later : Ledger} :
    Amid p moves cursor ledger → Ledger.Step ledger later → Amid p moves cursor later
  /-- The cursor moves on, and somebody gets the item. -/
  | next {moves : Nat} {cursor : Cursor} {store : Store} {others : List Value}
      {weaks : List Weak} : Amid p moves cursor ⟨store, others, weaks⟩ →
    Amid p (moves + 1) (cursor.next store).1.2
      ⟨(cursor.next store).2, (cursor.next store).1.1.toList ++ others, weaks⟩

variable {p : PairId} {moves : Nat} {cursor : Cursor} {ledger : Ledger}

theorem next_past (p : PairId) (moves : Nat) (store : Store) :
    ((past p moves).next store).1.2 = past p (moves + 1) := by
  match moves with
  | 0 => rfl
  | 1 => rfl
  | _ + 2 => rfl

theorem Amid.eq_past (amid : Amid p moves cursor ledger) : cursor = past p moves := by
  induction amid with
  | start _ _ started =>
    cases started
    rfl
  | handOver => rfl
  | others _ _ same => exact same
  | next _ same =>
    subst same
    exact next_past ..

/-- The handles of the cursor and of the others together are always accounted for. -/
theorem Amid.reached (amid : Amid p moves cursor ledger) :
    Reached ⟨ledger.store, cursor.held ++ ledger.outside, ledger.weaks⟩ := by
  induction amid with
  | start reached held started =>
    cases started
    exact reached.step (.copy held)
  | handOver reached => exact reached
  | others _ step reached => exact reached.beside step
  | next _ reached => exact (reached_next reached).perm (List.perm_append_comm_assoc ..)

/-! ## What a cursor yields -/

/-- What a cursor yields after so many moves, what it keeps alive, and when it lets go. -/
structure YieldsSlots (p : PairId) (moves : Nat) (cursor : Cursor) (ledger : Ledger) : Prop where
  remains : cursor.remaining = 2 - moves
  exhausts : cursor.isExhausted = true ↔ 2 ≤ moves
  first : moves = 0 → (cursor.next ledger.store).1 =
    (some (ledger.store.heap.read p .head), .atTail p)
  second : moves = 1 → (cursor.next ledger.store).1 =
    (some (ledger.store.heap.read p .tail), .finished)
  /-- Later moves yield nothing and change nothing. -/
  ends : 2 ≤ moves → cursor.next ledger.store = ((none, cursor), ledger.store)
  /-- Until the second move all that the pair leads to is alive, and no collection clears it. -/
  keeps : moves < 2 → ∀ q, ledger.store.heap.Leads p q →
    ledger.store.heap.isLive q = true ∧
    ledger.store.sweep.2.heap.get? q = ledger.store.heap.get? q ∧
    ledger.store.collect.2.heap.isLive q = true ∧
    ∀ slot, ledger.store.collect.2.heap.read q slot = ledger.store.heap.read q slot
  /-- The cursor has one handle on the pair until the second move, and none from then on. -/
  holds : cursor.held = if moves < 2 then [.pair p] else []
  counts : ∀ q, ledger.store.heap.handlesOf q = cursor.held.count (.pair q) +
    ledger.outside.count (.pair q) + ledger.store.heap.slotValues.count (.pair q)
  /-- With the second move the pair dies, unless somebody else or a slot holds it. -/
  frees : moves = 1 → ((cursor.next ledger.store).2.heap.isLive p = true ↔
    .pair p ∈ ledger.outside ∨ ∃ q, ledger.store.heap.Child q p)

theorem remaining_past (p : PairId) (moves : Nat) : (past p moves).remaining = 2 - moves := by
  match moves with
  | 0 => rfl
  | 1 => rfl
  | moves + 2 => exact (Nat.sub_eq_zero_of_le (Nat.le_add_left 2 moves)).symm

theorem held_past (p : PairId) (moves : Nat) :
    (past p moves).held = if moves < 2 then [.pair p] else [] := by
  match moves with
  | 0 => rfl
  | 1 => rfl
  | moves + 2 => exact (if_neg (by omega)).symm

/-- The second move leaves the pair alive exactly if it is held elsewhere. The item that it yields
does not count: if it is the pair itself, the tail of the pair holds it already. -/
theorem isLive_next_iff {store : Store} {others : List Value} {weaks : List Weak}
    (sound : Sound ⟨store, .pair p :: others, weaks⟩) :
    ((atTail p).next store).2.heap.isLive p = true ↔
      .pair p ∈ others ∨ ∃ q, store.heap.Child q p := by
  have read : Sound ⟨(store.read p .tail).2, (store.read p .tail).1 :: .pair p :: others, weaks⟩ :=
    (Step.read .tail List.mem_cons_self).sound sound
  have live : ((atTail p).next store).2.heap.isLive p = true ↔
      .pair p ∈ store.heap.read p .tail :: others ∨
        ∃ q, (store.retain (store.heap.read p .tail)).heap.Child q p :=
    (read.perm (.swap ..)).isLive_release_iff
  have children : ∀ q, (store.retain (store.heap.read p .tail)).heap.Child q p ↔
      store.heap.Child q p := by
    intro q
    unfold Heap.Child
    simp only [Store.read_retain]
  rw [live, exists_congr children, List.mem_cons]
  constructor
  · rintro ((item | outer) | inner)
    · exact Or.inr ⟨p, .tail, item.symm⟩
    · exact Or.inl outer
    · exact Or.inr inner
  · rintro (outer | inner)
    · exact Or.inl (Or.inr outer)
    · exact Or.inr inner

/-- Whatever others do, a cursor yields what its pair holds when it comes to it. -/
theorem Amid.yieldsSlots (p : PairId) (moves : Nat) (cursor : Cursor) (ledger : Ledger)
    (amid : Amid p moves cursor ledger) : YieldsSlots p moves cursor ledger := by
  obtain rfl := amid.eq_past
  obtain ⟨store, others, weaks⟩ := ledger
  have sound : Sound ⟨store, (past p moves).held ++ others, weaks⟩ := amid.reached.sound
  constructor
  case remains => exact remaining_past p moves
  case exhausts =>
    match moves with
    | 0 | 1 => simp [past, isExhausted]
    | _ + 2 => simp [past, isExhausted]
  case first =>
    rintro rfl
    rfl
  case second =>
    rintro rfl
    rfl
  case ends =>
    intro many
    obtain ⟨more, rfl⟩ := Nat.exists_eq_add_of_le' many
    rfl
  case keeps =>
    intro few q leads
    have outer : .pair p ∈ (past p moves).held ++ others := by
      rw [held_past, if_pos few]
      exact List.mem_cons_self
    have reaches : Reaches ⟨store, (past p moves).held ++ others, weaks⟩ q := ⟨p, outer, leads⟩
    exact ⟨sound.isLive_of_reaches reaches, sound.get?_cleared_of_reaches reaches,
      sound.isLive_collect_iff.2 reaches, sound.read_collect reaches⟩
  case holds => exact held_past p moves
  case counts =>
    intro q
    have handles := sound.handlesOf_eq_add q
    rw [List.count_append] at handles
    exact handles
  case frees =>
    rintro rfl
    exact isLive_next_iff sound

/-- The only other holder writes to the pair and lets go of it, and there is a collection: the cursor
yields the new head, then the tail, and the pair dies with that move. -/
theorem yieldsSlots_of_abandoned_pair :
    let made := Store.empty.pair (.int 1) .nil
    let written := (made.2.retain (.pair made.1)).write made.1 .head (.int 5)
    let alone := (written.release (.pair made.1)).collect.2
    let first := (atHead made.1).next alone
    let second := (atTail made.1).next first.2
    Amid made.1 0 (.atHead made.1) ⟨alone, [], []⟩ ∧
      Amid made.1 1 (.atTail made.1) ⟨first.2, [.int 5], []⟩ ∧
      first.1 = (some (.int 5), .atTail made.1) ∧ first.2.heap.isLive made.1 = true ∧
      second.1 = (some .nil, .finished) ∧ second.2.heap.isLive made.1 = false := by
  intro made written alone first second
  have reached : Reached ⟨made.2, [.pair made.1], []⟩ :=
    ((Reached.step .refl (.literal .nil)).step (.literal (.int 1))).step .pair
  have opened : Amid made.1 0 (.atHead made.1) ⟨made.2.retain (.pair made.1), [.pair made.1], []⟩ :=
    .start reached List.mem_cons_self rfl
  have changed : Amid made.1 0 (.atHead made.1) ⟨written, [.pair made.1], []⟩ :=
    (opened.others (.literal (.int 5))).others (.write .head List.mem_cons_self)
  have left : Amid made.1 0 (.atHead made.1) ⟨alone, [], []⟩ :=
    (changed.others .release).others .collect
  have head : alone.heap.read made.1 .head = .int 5 := by decide +kernel
  have item : first.1.1 = some (.int 5) := congrArg some head
  have moved : Amid made.1 1 (.atTail made.1) ⟨first.2, [.int 5], []⟩ := by
    have next := left.next
    rw [show ((atHead made.1).next alone).1.1 = some (.int 5) from item] at next
    exact next
  have unheld : ¬(.pair made.1 ∈ [Value.int 5] ∨ ∃ q, first.2.heap.Child q made.1) := by
    rw [← Heap.pair_mem_slotValues]
    decide +kernel
  have tail : first.2.heap.read made.1 .tail = .nil := by decide +kernel
  -- From here on the store is not evaluated any more.
  clear_value alone
  have before := Amid.yieldsSlots _ _ _ _ left
  have behind := Amid.yieldsSlots _ _ _ _ moved
  refine ⟨left, moved, ?_, ?_, ?_, ?_⟩
  · exact (before.first rfl).trans (by rw [head])
  · exact (behind.keeps (by decide) _ (.refl _)).1
  · exact (behind.second rfl).trans (by rw [tail])
  · exact Bool.eq_false_iff.2 fun alive => unheld ((behind.frees rfl).1 alive)

end Cursor

end Sexpr
