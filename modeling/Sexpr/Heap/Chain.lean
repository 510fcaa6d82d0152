import Sexpr.Heap.Basic

/-!
# Chains

A chain is what one sees when following the same slot from pair to pair. It stops at the first
value that is not a pair, or at a pair that it has visited before. A pair whose chain of tails
comes back to itself is endless.
-/

namespace Sexpr

/-- A chain that was followed to where it stops. -/
structure Trail where
  /-- The pairs visited, the last one first. -/
  pairs : List PairId
  /-- What stands behind the last pair: no pair, or a pair visited before. -/
  stop : Value

namespace Heap

/-- Follows `slot` from `value` on, where the pairs in `seen` and `pairs` lie behind. -/
def followFrom (heap : Heap) (slot : Slot) (seen : PairSet) (pairs : List PairId)
    (value : Value) : Trail :=
  match value with
  | .scalar s => ⟨pairs, .scalar s⟩
  | .pair p =>
    match _found : heap.get? p with
    | none => ⟨p :: pairs, .nil⟩
    | some cell =>
      if _known : seen.contains p then ⟨pairs, .pair p⟩
      else heap.followFrom slot (seen.insert p) (p :: pairs) (cell.get slot)
termination_by seen.absent heap.size
decreasing_by
  exact PairSet.absent_insert_lt (lt_size_of_get? _found) (Bool.eq_false_iff.2 _known)

/-- The chain through `slot` that begins at a pair. -/
def follow (heap : Heap) (slot : Slot) (p : PairId) : Trail :=
  heap.followFrom slot .empty [] (.pair p)

/-- Whether following tails from a pair never comes to an end. -/
def isEndless (heap : Heap) (p : PairId) : Bool := (heap.follow .tail p).stop.isPair

end Heap

end Sexpr
