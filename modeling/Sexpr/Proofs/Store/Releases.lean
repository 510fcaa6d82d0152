import Mathlib.Data.List.Perm.Basic
import Sexpr.Store.Basic

/-!
# What a release keeps

A release works through pairs that are pending and through what is left in the slots of the dead
ones, but all that it ever does is to give up one handle after the other (`Store.drop`). So whatever
a single `drop` keeps of a store and the handles that are still due, a release keeps: that is
`Store.release_induction` and `Store.releaseAll_induction`. What a release does to a store is proved
with them, not along the loop.

The loop itself is a stack: pairs that are pending below are not looked at before those above are
done with (`Store.tearDown_append`).
-/

namespace Sexpr.Store

variable {store : Store} {value : Value} {due work : List Value} {pending : List PairId}

/-! ## The slots of a dead pair -/

theorem takePairs_append (slots : List Value) (pending rest : List PairId) :
    takePairs slots (pending ++ rest) =
      ((takePairs slots pending).1, (takePairs slots pending).2 ++ rest) := by
  induction slots generalizing pending with
  | nil => rfl
  | cons value slots ih =>
    cases value with
    | pair p => simp only [takePairs, ← List.cons_append, ih]
    | scalar s => simp only [takePairs, ih]

/-- What is left in the slots and what is taken out of them is all that was there. -/
theorem exists_takePairs (slots : List Value) (pending : List PairId) :
    ∃ (left : List Scalar) (pairs : List PairId),
      (takePairs slots pending).2 = pairs ++ pending ∧
      (∀ store : Store, store.releaseLeft (takePairs slots pending).1 = store.releaseLeft left) ∧
      slots.Perm (left.map .scalar ++ pairs.map .pair) := by
  induction slots generalizing pending with
  | nil => exact ⟨[], [], rfl, fun _ => rfl, .nil⟩
  | cons value slots ih =>
    cases value with
    | pair p =>
      obtain ⟨left, pairs, taken, same, all⟩ := ih (p :: pending)
      refine ⟨left, pairs ++ [p], ?_, same, ?_⟩
      · rw [takePairs, taken, List.append_assoc, List.singleton_append]
      · rw [List.map_append, ← List.append_assoc]
        exact (all.cons _).trans (List.perm_append_singleton _ _).symm
    | scalar s =>
      obtain ⟨left, pairs, taken, same, all⟩ := ih pending
      exact ⟨s :: left, pairs, taken, fun store => same _, all.cons _⟩

/-! ## The loop -/

theorem tearDown_nil (store : Store) : store.tearDown [] = store := by
  rw [tearDown]

theorem tearDown_cons (store : Store) (p : PairId) (rest : List PairId) :
    store.tearDown (p :: rest) =
      ((store.drop (.pair p)).2.releaseLeft (takePairs (store.drop (.pair p)).1 rest).1).tearDown
        (takePairs (store.drop (.pair p)).1 rest).2 := by
  rw [tearDown]

/-- The pairs on top of the stack are done with before those below are looked at. -/
theorem tearDown_append (store : Store) (pending rest : List PairId) :
    store.tearDown (pending ++ rest) = (store.tearDown pending).tearDown rest := by
  fun_induction tearDown store pending with
  | case1 store => rfl
  | case2 store p pending slots after dropped left next taken ih =>
    rw [List.cons_append, tearDown_cons, dropped, takePairs_append, taken]
    exact ih

theorem release_eq (value : Value) (store : Store) :
    store.release value =
      ((store.drop value).2.tearDown (takePairs (store.drop value).1 []).2).releaseLeft
        (takePairs (store.drop value).1 []).1 := rfl

/-- If giving up a handle frees nothing, that is all. -/
theorem release_of_drop {after : Store} (dropped : store.drop value = ([], after)) :
    store.release value = after := by
  simp only [release, dropped, takePairs, tearDown_nil]
  rfl

/-! ## One handle after the other -/

section Induction

variable {P : Store → List Value → Prop}
  (perm : ∀ {store due due'}, due.Perm due' → P store due → P store due')
  (drop : ∀ {store value due}, P store (value :: due) →
    P (store.drop value).2 ((store.drop value).1 ++ due))

include drop

theorem releaseLeft_induction {left : List Scalar} (before : P store (left.map .scalar ++ due)) :
    P (store.releaseLeft left) due := by
  induction left generalizing store with
  | nil => exact before
  | cons s left ih =>
    apply ih
    have freed : (store.drop (.scalar s)).1 = [] := by
      cases s <;> rfl
    have after := drop before
    rwa [freed, List.nil_append] at after

include perm

theorem tearDown_induction (before : P store (pending.map .pair ++ due)) :
    P (store.tearDown pending) due := by
  fun_induction tearDown store pending with
  | case1 store => exact before
  | case2 store p rest slots after dropped left next taken ih =>
    obtain ⟨others, pairs, below, same, all⟩ := exists_takePairs slots rest
    rw [taken] at below same
    have left_eq : after.releaseLeft left = after.releaseLeft others := same after
    have next_eq : next = pairs ++ rest := below
    apply ih
    rw [left_eq, next_eq]
    apply releaseLeft_induction (P := P) drop
    have opened := drop before
    rw [dropped] at opened
    refine perm ?_ opened
    rw [List.map_append, List.append_assoc, ← List.append_assoc]
    exact all.append_right _

/-- Whatever giving up one handle keeps, a release keeps once the first handle is given up. -/
theorem release_induction_of_drop
    (before : P (store.drop value).2 ((store.drop value).1 ++ due)) :
    P (store.release value) due := by
  obtain ⟨left, pairs, taken, same, all⟩ := exists_takePairs (store.drop value).1 []
  rw [List.append_nil] at taken
  rw [release_eq, same, taken]
  apply releaseLeft_induction (P := P) drop
  apply tearDown_induction (P := P) perm drop
  refine perm ?_ before
  rw [← List.append_assoc]
  exact (all.trans List.perm_append_comm).append_right due

theorem release_induction (before : P store (value :: due)) : P (store.release value) due :=
  release_induction_of_drop perm drop (drop before)

theorem releaseAll_induction (before : P store (work ++ due)) : P (store.releaseAll work) due := by
  induction work generalizing store with
  | nil => exact before
  | cons value work ih => exact ih (release_induction perm drop before)

end Induction

end Sexpr.Store
