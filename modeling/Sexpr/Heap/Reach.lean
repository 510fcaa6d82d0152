import Sexpr.Heap.Basic

/-!
# Pairs that can be reached

`reachable` searches the heap from given pairs along heads and tails. Each live pair is entered
once; the search ends because the number of pairs that are not yet entered falls with every
entry, and each entry puts at most two pairs on the list of pairs to look at.
-/

namespace Sexpr

theorem Cell.length_children_le (cell : Cell) : cell.children.length ≤ 2 :=
  List.length_filterMap_le ..

namespace Heap

/-- Enters the pairs in `work` and all that they lead to, beyond those in `seen`. -/
def enter (heap : Heap) (seen : PairSet) (work : List PairId) : PairSet :=
  match work with
  | [] => seen
  | p :: work =>
    match _found : heap.get? p with
    | none => heap.enter seen work
    | some cell =>
      if _known : seen.contains p then heap.enter seen work
      else heap.enter (seen.insert p) (cell.children ++ work)
termination_by work.length + 2 * seen.absent heap.size
decreasing_by
  · simp
  · simp
  · have fewer := PairSet.absent_insert_lt (lt_size_of_get? _found) (Bool.eq_false_iff.2 _known)
    have few := cell.length_children_le
    simp only [List.length_append, List.length_cons]
    omega

/-- The live pairs that are reached from `roots`, these included, through heads and tails. -/
def reachable (heap : Heap) (roots : List PairId) : PairSet := heap.enter .empty roots

end Heap

end Sexpr
