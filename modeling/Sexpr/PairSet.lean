import Std.Data.ExtTreeSet.Lemmas
import Sexpr.Value

/-!
# Sets of pairs

A finite set of pair identities. Two sets with the same members are equal. `absent` counts the
pairs of a heap that are not yet in the set; walks that enter each pair at most once end because
that number falls.
-/

namespace Sexpr

/-- A finite set of pairs. -/
structure PairSet where
  indices : Std.ExtTreeSet Nat compare

namespace PairSet

/-- The set without members. -/
def empty : PairSet := ⟨∅⟩

/-- Whether `p` is a member. -/
def contains (set : PairSet) (p : PairId) : Bool := set.indices.contains p.index

/-- The set with `p` as a member. -/
def insert (set : PairSet) (p : PairId) : PairSet := ⟨set.indices.insert p.index⟩

/-- The set without `p`. -/
def erase (set : PairSet) (p : PairId) : PairSet := ⟨set.indices.erase p.index⟩

/-- The members, by ascending identity. -/
def toList (set : PairSet) : List PairId := set.indices.toList.map PairId.mk

instance : Membership PairId PairSet where
  mem set p := set.contains p = true

theorem mem_iff {set : PairSet} {p : PairId} : p ∈ set ↔ set.contains p = true := Iff.rfl

@[simp] theorem contains_empty (p : PairId) : empty.contains p = false := by
  simp [contains, empty]

@[simp] theorem contains_insert (set : PairSet) (p q : PairId) :
    (set.insert p).contains q = (p == q || set.contains q) := by
  cases p; cases q
  simp [contains, insert, Std.ExtTreeSet.contains_insert, Bool.beq_eq_decide_eq]

@[simp] theorem contains_erase (set : PairSet) (p q : PairId) :
    (set.erase p).contains q = (p != q && set.contains q) := by
  cases p; cases q
  simp [contains, erase, Std.ExtTreeSet.contains_erase, bne, Bool.beq_eq_decide_eq]

theorem contains_insert_iff {set : PairSet} {p q : PairId} :
    (set.insert p).contains q = true ↔ p = q ∨ set.contains q = true := by
  rw [contains_insert, Bool.or_eq_true, beq_iff_eq]

/-- Sets with the same members are equal. -/
theorem ext {a b : PairSet} (same : ∀ p, a.contains p = b.contains p) : a = b := by
  cases a with | mk left
  cases b with | mk right
  congr 1
  refine Std.ExtTreeSet.ext_contains fun index => ?_
  exact same ⟨index⟩

/-! ## Pairs that are not yet in a set -/

/-- How many of the first `size` identities are not in the set. -/
def absent (size : Nat) (set : PairSet) : Nat :=
  (List.range size).countP fun index => !set.contains ⟨index⟩

theorem absent_succ (size : Nat) (set : PairSet) :
    set.absent (size + 1) = set.absent size + if set.contains ⟨size⟩ then 0 else 1 := by
  simp only [absent, List.range_succ, List.countP_append, List.countP_singleton]
  cases set.contains ⟨size⟩ <;> rfl

/-- Entering a pair leaves no more pairs to enter. -/
theorem absent_insert_le (size : Nat) (set : PairSet) (p : PairId) :
    (set.insert p).absent size ≤ set.absent size := by
  refine List.countP_mono_left fun index _ outside => ?_
  simp only [contains_insert, Bool.not_or, Bool.and_eq_true] at outside
  exact outside.2

/-- Entering a new pair leaves fewer pairs to enter. -/
theorem absent_insert_lt {size : Nat} {set : PairSet} {p : PairId} (small : p.index < size)
    (new : set.contains p = false) : (set.insert p).absent size < set.absent size := by
  induction size with
  | zero => exact absurd small (Nat.not_lt_zero _)
  | succ size ih =>
    rw [absent_succ, absent_succ]
    by_cases last : p.index = size
    · subst last
      have fewer := absent_insert_le p.index set p
      simp only [contains_insert, beq_self_eq_true, Bool.true_or, new]
      simp only [if_true, Bool.false_eq_true, if_false]
      omega
    · have fewer := ih (by omega)
      have other : (p == ⟨size⟩) = false := by
        rw [beq_eq_false_iff_ne]
        exact fun same => last (congrArg PairId.index same)
      rw [contains_insert, other, Bool.false_or]
      omega

end PairSet

end Sexpr
