import Mathlib.Logic.Function.Iterate
import Sexpr.Heap.Chain
import Sexpr.Proofs.Heap.Holdings

/-!
# Following tails

`Heap.behind` is one step along a chain: from a pair to what its tail holds. A value is endless if
every step from it comes to a pair. `Heap.isEndless_iff` says that the walk which stops at the first
pair that it has seen before finds out just that: when it stops at such a pair, the pairs it has seen
lead from one to the other and never out.

`Heap.Links` says which pairs a chain goes through, with what heads, and what stands behind the last
of them. A chain is endless exactly if that is (`Links.endless_iff`).
-/

namespace Sexpr.Heap

variable {heap later : Heap} {p q : PairId} {cell : Cell} {value last : Value}
  {pairs : List PairId} {heads : List Value}

/-! ## Endless tails -/

/-- What stands behind a value: the tail of a pair. Behind anything else stands nothing new. -/
def behind (heap : Heap) : Value → Value
  | .pair p => heap.read p .tail
  | .scalar s => .scalar s

/-- However far one goes, there is another pair. -/
def Endless (heap : Heap) (value : Value) : Prop := ∀ n, (heap.behind^[n] value).isPair = true

theorem endless_pair_iff : heap.Endless (.pair p) ↔ heap.Endless (heap.read p .tail) := by
  constructor
  · intro endless n
    exact endless (n + 1)
  · intro endless n
    cases n with
    | zero => rfl
    | succ n => exact endless n

theorem Endless.exists_pair (endless : heap.Endless value) : ∃ p, value = .pair p := by
  have first : value.isPair = true := endless 0
  cases value with
  | pair p => exact ⟨p, rfl⟩
  | scalar s => cases first

/-- Pairs whose tails never lead out of them are endless. -/
theorem endless_of_closed (inside : PairId → Prop)
    (closed : ∀ p, inside p → ∃ q, heap.read p .tail = .pair q ∧ inside q) (member : inside p) :
    heap.Endless (.pair p) := by
  intro n
  induction n generalizing p with
  | zero => rfl
  | succ n ih =>
    obtain ⟨q, tail, onward⟩ := closed p member
    rw [Function.iterate_succ_apply, behind, tail]
    exact ih onward

/-- Whether a value is endless depends on the tails of the pairs along its chain only. -/
theorem endless_congr (inside : PairId → Prop)
    (closed : ∀ p q, inside p → heap.read p .tail = .pair q → inside q)
    (same : ∀ p, inside p → later.read p .tail = heap.read p .tail)
    (member : ∀ p, value = .pair p → inside p) : later.Endless value ↔ heap.Endless value := by
  have alike : ∀ n, later.behind^[n] value = heap.behind^[n] value := by
    intro n
    induction n generalizing value with
    | zero => rfl
    | succ n ih =>
      rw [Function.iterate_succ_apply, Function.iterate_succ_apply]
      cases value with
      | scalar s => exact ih fun p pair => by cases pair
      | pair p =>
        have known := member p rfl
        rw [behind, behind, same p known]
        exact ih fun q tail => closed p q known tail
  exact forall_congr' fun n => by rw [alike n]

/-! ## The walk along tails -/

/-- A walk that comes back to a pair it has seen goes round for ever. -/
theorem endless_of_followFrom {seen : PairSet} {passed : List PairId}
    (closed : ∀ s, seen.contains s = true →
      heap.read s .tail = value ∨ ∃ q, heap.read s .tail = .pair q ∧ seen.contains q = true)
    (again : (heap.followFrom .tail seen passed value).stop.isPair = true) :
    heap.Endless value := by
  fun_induction followFrom heap .tail seen passed value with
  | case1 | case2 => cases again
  | case3 seen passed p cell found known =>
    apply endless_of_closed (fun s => seen.contains s = true) _ known
    intro s member
    rcases closed s member with tail | inner
    · exact ⟨p, tail, known⟩
    · exact inner
  | case4 seen passed p cell found _ ih =>
    refine endless_pair_iff.2 ?_
    rw [read_of_get? found]
    refine ih (fun s member => ?_) again
    rcases PairSet.contains_insert_iff.1 member with rfl | old
    · exact Or.inl (read_of_get? found .tail)
    · rcases closed s old with tail | ⟨q, tail, inner⟩
      · exact Or.inr ⟨p, tail, PairSet.contains_insert_iff.2 (Or.inl rfl)⟩
      · exact Or.inr ⟨q, tail, PairSet.contains_insert_iff.2 (Or.inr inner)⟩

/-- A walk that comes to an end has seen the end of the tails. -/
theorem not_endless_of_followFrom {seen : PairSet} {passed : List PairId}
    (stopped : (heap.followFrom .tail seen passed value).stop.isPair = false) :
    ¬heap.Endless value := by
  fun_induction followFrom heap .tail seen passed value with
  | case1 seen passed s => exact fun endless => by cases endless 0
  | case2 seen passed p missing =>
    intro endless
    have onward := endless_pair_iff.1 endless
    rw [read_of_not_isLive (isLive_eq_false_iff.2 missing)] at onward
    cases onward 0
  | case3 => cases stopped
  | case4 seen passed p cell found _ ih =>
    intro endless
    have onward := endless_pair_iff.1 endless
    rw [read_of_get? found] at onward
    exact ih stopped onward

/-- The walk finds out whether the tails of a pair come to an end. -/
theorem isEndless_iff : heap.isEndless p = true ↔ heap.Endless (.pair p) := by
  constructor
  · intro again
    refine endless_of_followFrom (fun s member => ?_) again
    rw [PairSet.contains_empty] at member
    cases member
  · intro endless
    by_contra stopped
    exact not_endless_of_followFrom (Bool.eq_false_iff.2 stopped) endless

/-! ## Chains -/

/-- The value is a chain through the given pairs, with the given heads and `last` behind them. -/
inductive Links (heap : Heap) (last : Value) : List PairId → List Value → Value → Prop
  | stop : Links heap last [] [] last
  | pair {p : PairId} {cell : Cell} {pairs : List PairId} {heads : List Value} :
    heap.get? p = some cell → Links heap last pairs heads cell.tail →
    Links heap last (p :: pairs) (cell.head :: heads) (.pair p)

namespace Links

/-- A chain is where it was as long as its pairs are. -/
theorem congr (links : heap.Links last pairs heads value)
    (same : ∀ p ∈ pairs, later.get? p = heap.get? p) : later.Links last pairs heads value := by
  induction links with
  | stop => exact .stop
  | @pair p cell pairs heads found _ ih =>
    refine .pair ((same p List.mem_cons_self).trans found) (ih fun q member => ?_)
    exact same q (List.mem_cons_of_mem p member)

theorem eq_pair (links : heap.Links last (p :: pairs) heads value) : value = .pair p := by
  cases links
  rfl

theorem length_eq (links : heap.Links last pairs heads value) : pairs.length = heads.length := by
  induction links with
  | stop => rfl
  | pair _ _ ih => exact congrArg (· + 1) ih

theorem isLive (links : heap.Links last pairs heads value) (member : p ∈ pairs) :
    heap.isLive p = true := by
  induction links with
  | stop => cases member
  | pair found _ ih =>
    rcases List.mem_cons.1 member with rfl | member
    · exact isLive_eq_true_iff.2 ⟨_, found⟩
    · exact ih member

/-- Every head stands in one of the pairs. -/
theorem exists_head {head : Value} (links : heap.Links last pairs heads value)
    (member : head ∈ heads) : ∃ p ∈ pairs, heap.read p .head = head := by
  induction links with
  | stop => cases member
  | @pair p cell pairs heads found _ ih =>
    rcases List.mem_cons.1 member with rfl | member
    · exact ⟨p, List.mem_cons_self, read_of_get? found .head⟩
    · obtain ⟨q, inside, head⟩ := ih member
      exact ⟨q, List.mem_cons_of_mem p inside, head⟩

theorem endless_iff (links : heap.Links last pairs heads value) :
    heap.Endless value ↔ heap.Endless last := by
  induction links with
  | stop => rfl
  | pair found _ ih => rw [endless_pair_iff, read_of_get? found, Cell.get, ih]

/-- The tail of a pair on the chain is the next pair, or what stands behind the last one. -/
theorem tail_cases (links : heap.Links last pairs heads value) (member : p ∈ pairs) :
    heap.read p .tail = last ∨ ∃ q ∈ pairs, heap.read p .tail = .pair q := by
  induction links with
  | stop => cases member
  | @pair first cell pairs heads found rest ih =>
    rcases List.mem_cons.1 member with rfl | member
    · rw [read_of_get? found, Cell.get]
      generalize cell.tail = tail at rest
      cases rest with
      | stop => exact Or.inl rfl
      | pair _ _ => exact Or.inr ⟨_, List.mem_cons_of_mem _ List.mem_cons_self, rfl⟩
    · rcases ih member with tail | ⟨q, inner, tail⟩
      · exact Or.inl tail
      · exact Or.inr ⟨q, List.mem_cons_of_mem _ inner, tail⟩

/-- Every pair of a ring is endless. -/
theorem endless_of_ring (links : heap.Links (.pair q) pairs heads value) (back : q ∈ pairs)
    (member : p ∈ pairs) : heap.Endless (.pair p) := by
  apply endless_of_closed (· ∈ pairs) _ member
  intro r inner
  rcases links.tail_cases inner with tail | ⟨onward, inside, tail⟩
  · exact ⟨q, tail, back⟩
  · exact ⟨onward, tail, inside⟩

end Links

end Sexpr.Heap
