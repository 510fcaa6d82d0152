import Sexpr.Heap.Position
import Sexpr.Proofs.Heap.Holdings

/-!
# Positions alone

Setting, removing and filling positions changes nothing but positions, with or without following
the structure. What a walk keeps to its end is what it keeps when it passes over a value and when it
marks a pair (`Walk.kept_run`).
-/

namespace Sexpr

/-! ## What walks keep -/

namespace Walk

theorem run_of_empty (marking : Marking) (heap : Heap) (seen : PairSet) :
    run marking ⟨heap, seen, []⟩ = ⟨heap, seen, []⟩ := by
  rw [run]

theorem run_of_top (marking : Marking) (heap : Heap) (seen : PairSet) (value : Value)
    (inherited : Option Position) (stack : List (Value × Option Position)) :
    run marking ⟨heap, seen, (value, inherited) :: stack⟩ =
      run marking (visit marking ⟨heap, seen, stack⟩ value inherited) := by
  rw [run]

/-- At the end of a walk nothing is left to visit. -/
theorem stack_run (marking : Marking) (walk : Walk) : (walk.run marking).stack = [] := by
  fun_induction run marking walk with
  | case1 walk empty => exact empty
  | case2 walk value inherited stack _ ih => exact ih

theorem kept_run {marking : Marking} {motive : Walk → Prop}
    (skip : ∀ heap seen value inherited stack, motive ⟨heap, seen, (value, inherited) :: stack⟩ →
      (∀ p, value = .pair p → seen.contains p = true ∨ heap.get? p = none) →
      motive ⟨heap, seen, stack⟩)
    (mark : ∀ heap seen p cell inherited stack, motive ⟨heap, seen, (.pair p, inherited) :: stack⟩ →
      seen.contains p = false → heap.get? p = some cell →
      motive (mark ⟨heap, seen, stack⟩ p cell (marking.choose cell.position inherited)))
    {walk : Walk} (holds : motive walk) : motive (walk.run marking) := by
  fun_induction run marking walk with
  | case1 walk empty => exact holds
  | case2 walk value inherited stack pending ih =>
    obtain ⟨heap, seen, whole⟩ := walk
    subst pending
    apply ih
    rcases visit_cases marking ⟨heap, seen, stack⟩ value inherited with
      ⟨same, idle⟩ | ⟨p, cell, rfl, new, found, same⟩
    · rw [same]
      exact skip heap seen value inherited stack holds idle
    · rw [same]
      exact mark heap seen p cell inherited stack holds new found

end Walk

/-! ## Everything else stays -/

namespace Heap

theorem agrees_setPosition (heap : Heap) (p : PairId) (position : Option Position) :
    heap.AgreesButPosition (heap.setPosition p position) :=
  .modify heap p fun _ => ⟨rfl, rfl, rfl⟩

theorem agrees_run (marking : Marking) (walk : Walk) :
    walk.heap.AgreesButPosition (walk.run marking).heap := by
  refine Walk.kept_run (motive := fun later => walk.heap.AgreesButPosition later.heap) ?_ ?_
    (.refl _)
  · exact fun heap seen value inherited stack same _ => same
  · intro heap seen p cell inherited stack same _ _
    rw [Walk.heap_mark]
    exact same.trans (heap.agrees_setPosition p _)

theorem agrees_assignPosition (heap : Heap) (p : PairId) (position : Option Position)
    (follow : Bool) : heap.AgreesButPosition (heap.assignPosition p position follow) := by
  cases follow with
  | false => exact heap.agrees_setPosition p position
  | true => exact agrees_run .replace (.start heap p position)

theorem agrees_fillPosition (heap : Heap) (p : PairId) (position : Position) (follow : Bool) :
    heap.AgreesButPosition (heap.fillPosition p position follow) := by
  cases follow with
  | false => exact .modify heap p fun _ => ⟨rfl, rfl, rfl⟩
  | true => exact agrees_run .fill (.start heap p (some position))

end Heap

end Sexpr
