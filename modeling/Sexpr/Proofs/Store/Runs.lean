import Sexpr.Entry.Call
import Sexpr.Proofs.Store.Steps

/-!
# Operations built from steps

Chains, lists, rings and splitting take many steps at once. Each lemma follows one such operation
from step to step: given a reached ledger in which the handles that it takes over come first, it
leads to a reached ledger in which what it makes comes first.
-/

namespace Sexpr.Ledger

variable {store : Store} {outside : List Value} {weaks : List Weak} {value : Value}

/-- The value is held outside, or needs no handle. -/
def Available (outside : List Value) (value : Value) : Prop :=
  value ∈ outside ∨ ∃ written : Literal, written.value = value

theorem Available.mono {more : List Value} (available : Available outside value)
    (less : outside ⊆ more) : Available more value :=
  available.imp_left (@less value)

theorem Available.cons (available : Available outside value) (first : Value) :
    Available (first :: outside) value :=
  available.mono (List.subset_cons_self ..)

/-- Only literals are available without being held. -/
theorem Available.mem_of_weak {weak : Weak} (available : Available outside weak.value) :
    weak.value ∈ outside := by
  rcases available with held | ⟨written, same⟩
  · exact held
  · cases weak <;> cases written <;> cases same

theorem Available.mem_of_pair {p : PairId} (available : Available outside (.pair p)) :
    .pair p ∈ outside :=
  @mem_of_weak _ (.pair p) available

namespace Reached

theorem step {ledger later : Ledger} (reached : Reached ledger) (step : Step ledger later) :
    Reached later :=
  Relation.ReflTransGen.tail reached step

theorem perm {others : List Value} (reached : Reached ⟨store, outside, weaks⟩)
    (same : outside.Perm others) : Reached ⟨store, others, weaks⟩ :=
  reached.step (.regroup same (List.Subset.refl _))

theorem retain (reached : Reached ⟨store, outside, weaks⟩) (available : Available outside value) :
    Reached ⟨store.retain value, value :: outside, weaks⟩ := by
  rcases available with held | ⟨written, rfl⟩
  · exact reached.step (.copy held)
  · have kept : store.retain written.value = store := by cases written <;> rfl
    rw [kept]
    exact reached.step (.literal written)

theorem retainAll {values : List Value} (reached : Reached ⟨store, outside, weaks⟩)
    (available : ∀ value ∈ values, Available outside value) :
    Reached ⟨store.retainAll values, values ++ outside, weaks⟩ := by
  induction values generalizing store outside with
  | nil => exact reached
  | cons value values ih =>
    have first := reached.retain (available value List.mem_cons_self)
    have rest := ih first fun other member =>
      (available other (List.mem_cons_of_mem _ member)).cons value
    exact rest.perm List.perm_middle

theorem literals {values : List Value} (reached : Reached ⟨store, outside, weaks⟩)
    (written : ∀ value ∈ values, ∃ written : Literal, written.value = value) :
    Reached ⟨store, values ++ outside, weaks⟩ := by
  induction values with
  | nil => exact reached
  | cons value values ih =>
    have rest := ih fun other member => written other (List.mem_cons_of_mem _ member)
    obtain ⟨first, rfl⟩ := written value List.mem_cons_self
    exact rest.step (.literal first)

theorem releaseAll {work : List Value} (reached : Reached ⟨store, work ++ outside, weaks⟩) :
    Reached ⟨store.releaseAll work, outside, weaks⟩ := by
  induction work generalizing store with
  | nil =>
    rw [Store.releaseAll]
    exact reached
  | cons value work ih =>
    have first : Reached ⟨store.release value, work ++ outside, weaks⟩ := reached.step .release
    exact ih first

/-! ## Making pairs -/

theorem chain {heads : List Value} {last : Value}
    (reached : Reached ⟨store, heads ++ last :: outside, weaks⟩) :
    Reached ⟨(store.chain heads last).2, (store.chain heads last).1 :: outside, weaks⟩ := by
  induction heads generalizing outside with
  | nil => exact reached
  | cons head heads ih =>
    have rest : Reached ⟨store, heads ++ last :: head :: outside, weaks⟩ := by
      refine reached.perm ?_
      exact List.perm_middle.symm.trans ((List.Perm.swap ..).append_left heads)
    exact ((ih rest).perm (List.Perm.swap ..)).step .pair

theorem list {items : List Value} (reached : Reached ⟨store, items ++ outside, weaks⟩) :
    Reached ⟨(store.list items).2, (store.list items).1 :: outside, weaks⟩ := by
  refine chain (reached.step (.literal .nil) |>.perm ?_)
  exact List.perm_middle.symm

/-- New pairs do not touch the pairs that are there. -/
theorem read_chain {p : PairId} (heads : List Value) (last : Value)
    (live : store.heap.isLive p = true) (slot : Slot) :
    (store.chain heads last).2.heap.isLive p = true ∧
      (store.chain heads last).2.heap.read p slot = store.heap.read p slot := by
  induction heads with
  | nil => exact ⟨live, rfl⟩
  | cons head heads ih =>
    set before := (store.chain heads last).2.heap
    set tail := (store.chain heads last).1
    have other : (before.allocate head tail).1 ≠ p := by
      intro same
      have dead := before.not_isLive_allocated head tail
      rw [same, ih.1] at dead
      cases dead
    have kept : (before.allocate head tail).2.get? p = before.get? p := by
      rw [Heap.get?_allocate, if_neg other]
    constructor
    · exact (congrArg Option.isSome kept).trans ih.1
    · exact (Heap.read_congr kept slot).trans ih.2

/-- Nothing has to be released when a slot that holds nil is written. -/
theorem write_of_nil {p : PairId} {slot : Slot} (empty : store.heap.read p slot = .nil) :
    store.write p slot value = store.mapHeap (·.write p slot value) := by
  rw [Store.write, empty]
  exact Store.release_of_drop rfl

theorem cons {members : List Value} {ring : Bool}
    (reached : Reached ⟨store, members ++ outside, weaks⟩) :
    Reached ⟨(store.cons members ring).2, (store.cons members ring).1 :: outside, weaks⟩ := by
  cases members with
  | nil => exact reached.step (.literal .nil)
  | cons member members =>
    set first := (store.pair member .nil).1 with made
    set before := (store.pair member .nil).2
    have opened : Reached ⟨before, .pair first :: (members ++ outside), weaks⟩ :=
      ((reached.step (.literal .nil)).perm (List.Perm.swap ..)).step .pair
    have live : before.heap.isLive first = true :=
      opened.sound.pairs.isLive_iff.2 (List.mem_append_left _ List.mem_cons_self)
    have found : before.heap.get? first = some ⟨member, .nil, none, 1⟩ := by
      exact (Heap.get?_allocate ..).trans (if_pos rfl)
    have empty : before.heap.read first .tail = .nil := Heap.read_of_get? found .tail
    -- What is left is to build the rest in front of the first pair and to write it there.
    have finish : ∀ {middle : Store} {heads : List Value} {last : Value},
        Reached ⟨middle, heads ++ last :: .pair first :: outside, weaks⟩ →
        middle.heap.isLive first = true → middle.heap.read first .tail = .nil →
        Reached ⟨(middle.chain heads last).2.mapHeap
          (·.write first .tail (middle.chain heads last).1), .pair first :: outside, weaks⟩ := by
      intro middle heads last ready alive tail
      have built := ready.chain
      have slot := (read_chain heads last alive .tail).2.trans tail
      have written := built.step (.write .tail (List.mem_cons_self ..))
      rwa [write_of_nil slot] at written
    cases ring with
    | true =>
      have ready : Reached ⟨before.retain (.pair first), members ++ .pair first :: .pair first ::
          outside, weaks⟩ := by
        refine (opened.step (.copy List.mem_cons_self)).perm ?_
        exact ((List.perm_middle.symm).cons _).trans List.perm_middle.symm
      refine finish ready ?_ ?_
      · exact (Heap.isLive_modify ..).trans live
      · have kept : (before.retain (.pair first)).heap.get? first =
            some ⟨member, .nil, none, 2⟩ := by
          rw [Store.retain, Store.heap_mapHeap, Heap.retain, Heap.get?_modify, if_pos rfl, found]
          rfl
        exact Heap.read_of_get? kept .tail
    | false =>
      refine finish ?_ live empty
      cases last : members.getLast? with
      | none =>
        rw [List.getLast?_eq_none_iff] at last
        subst last
        exact opened.step (.literal .nil)
      | some final =>
        have split : members = members.dropLast ++ [final] :=
          (List.dropLast_append_getLast? final last).symm
        refine opened.perm ?_
        nth_rewrite 1 [split]
        rw [List.append_assoc]
        exact (List.perm_middle.symm).trans ((List.Perm.swap ..).append_left _)

theorem grow {growth : Growth} {numbered : Bool} {count index : Nat}
    (reached : Reached ⟨store, value :: outside, weaks⟩) :
    Reached ⟨(store.grow growth numbered count index value).2,
      (store.grow growth numbered count index value).1 :: outside, weaks⟩ := by
  induction count generalizing store index value with
  | zero => exact reached
  | succ count ih =>
    unfold Store.grow
    have ready : ∃ written : Literal,
        (if numbered then Value.int index else .nil) = written.value := by
      cases numbered with
      | true => exact ⟨.int index, rfl⟩
      | false => exact ⟨.nil, rfl⟩
    obtain ⟨written, same⟩ := ready
    have both := reached.step (.literal written)
    rw [same]
    cases growth.intoHead index with
    | true => exact ih ((both.perm (List.Perm.swap ..)).step .pair)
    | false => exact ih (both.step .pair)

/-! ## Making atoms -/

theorem internAll {kind : AtomKind} {raws : List String}
    (reached : Reached ⟨store, outside, weaks⟩) :
    Reached ⟨(store.internAll kind raws).2,
      (store.internAll kind raws).1.map Value.atom ++ outside, weaks⟩ := by
  induction raws generalizing store outside with
  | nil => exact reached
  | cons raw raws ih => exact (ih (reached.step (.intern kind raw))).perm List.perm_middle

end Reached

end Sexpr.Ledger
