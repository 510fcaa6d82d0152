import Sexpr.Proofs.Heap.Walks

/-!
# Positions along a structure

Setting or removing positions along a structure gives the same position to all pairs that are
reached and to no other (`Heap.setsAll`).

Filling follows a recursive rule: a pair that was seen is passed over; any other takes the inherited
position if it has none, and passes the one that it now has on to its head and then to its tail
(`Heap.inherit`). The stack of the walk holds what the recursion has still to do
(`Walk.run_eq_inherit`). In a graph the order of the visits decides what a pair inherits. In a tree
there is one way to every pair, and the last pair on it that had a position gives its own
(`Heap.TreeBelow.position?_fill`). `Heap.fillsAll` says what filling does as a whole.
-/

namespace Sexpr

namespace Heap

variable {heap : Heap} {p q r : PairId}

/-! ## Setting and removing -/

/-- What setting or removing positions from `p` on has made of the heap. -/
structure SetsAll (heap : Heap) (p : PairId) (position : Option Position) (later : Heap) :
    Prop where
  reached : ∀ q, heap.isLive q = true → heap.Leads p q → later.position? q = position
  others : ∀ q, ¬heap.Leads p q → later.get? q = heap.get? q
  /-- Slots, handles and lives are as they were. -/
  agrees : heap.AgreesButPosition later

/-- The walk visits all that it has to, and sets or removes the position of exactly the pairs that
`p` leads to. -/
theorem setsAll (heap : Heap) (p : PairId) (position : Option Position) :
    ((Walk.start heap p position).run .replace).stack = [] ∧
      SetsAll heap p position (heap.assignPosition p position true) := by
  refine ⟨Walk.stack_run .replace _, ?_⟩
  constructor
  case agrees => exact heap.agrees_assignPosition p position true
  case reached =>
    intro q live leads
    apply Walk.carries_run fun place => place = position
    · exact fun own inherited same => same
    · rfl
    · exact live
    · exact leads
  case others =>
    intro q apart
    exact Walk.get?_run_of_apart fun reached => apart reached.2

/-! ## Filling -/

/-- The number of pairs of a heap that are still to be seen. The recursion carries it in its type,
where it is not to be computed. -/
@[irreducible] def unseen (visited : Heap × PairSet) : Nat := visited.2.absent visited.1.size

theorem unseen_setPosition_lt {seen : PairSet} {cell : Cell} (found : heap.get? p = some cell)
    (new : ¬seen.contains p = true) (position : Option Position) :
    unseen (heap.setPosition p position, seen.insert p) < unseen (heap, seen) := by
  unfold unseen
  rw [size_setPosition]
  exact PairSet.absent_insert_lt (lt_size_of_get? found) (Bool.eq_false_iff.2 new)

/-- The heap after a visit to `value`, and the pairs seen by then. -/
def inherit (heap : Heap) (seen : PairSet) (value : Value) (inherited : Position) :
    { after : Heap × PairSet // unseen after ≤ unseen (heap, seen) } :=
  match value with
  | .scalar _ => ⟨(heap, seen), Nat.le_refl _⟩
  | .pair p =>
    if known : seen.contains p then ⟨(heap, seen), Nat.le_refl _⟩
    else
      match found : heap.get? p with
      | none => ⟨(heap, seen), Nat.le_refl _⟩
      | some cell =>
        let position := cell.position.getD inherited
        have fewer := unseen_setPosition_lt found known (some position)
        let atHead :=
          inherit (heap.setPosition p (some position)) (seen.insert p) cell.head position
        let atTail := inherit atHead.1.1 atHead.1.2 cell.tail position
        ⟨atTail.1, Nat.le_trans atTail.2 (Nat.le_trans atHead.2 (Nat.le_of_lt fewer))⟩
termination_by unseen (heap, seen)
decreasing_by
  · exact fewer
  · exact Nat.lt_of_le_of_lt atHead.2 fewer

end Heap

namespace Walk

theorem run_push (marking : Marking) (walk : Walk) (value : Value) (position : Option Position) :
    (walk.push value position).run marking =
      run marking { walk with stack := (value, position) :: walk.stack } := by
  cases value with
  | scalar s =>
    rw [run_of_top]
    rfl
  | pair p => rfl

/-- The walk does with the top of its stack what the recursion does with the value there, and then
goes on with what lies below. -/
theorem run_eq_inherit (heap : Heap) (seen : PairSet) (value : Value) (inherited : Position)
    (stack : List (Value × Option Position)) :
    run .fill ⟨heap, seen, (value, some inherited) :: stack⟩ =
      run .fill ⟨(heap.inherit seen value inherited).1.1, (heap.inherit seen value inherited).1.2,
        stack⟩ := by
  rw [run_of_top]
  fun_induction Heap.inherit heap seen value inherited generalizing stack with
  | case1 heap seen inherited s => rfl
  | case2 heap seen inherited p known => simp [visit, known]
  | case3 heap seen inherited p new dead => simp [visit, new, dead]
  | case4 heap seen inherited p new cell found position fewer atHead atTail ihHead _ ihTail =>
    have chosen : Marking.fill.choose cell.position (some inherited) = some position :=
      Option.or_some
    have marked : visit .fill ⟨heap, seen, stack⟩ (.pair p) (some inherited) =
        mark ⟨heap, seen, stack⟩ p cell (some position) := by
      simp [visit, new, found, chosen]
    rw [marked, mark, run_push, run_of_top, ihHead, run_of_top]
    exact ihTail stack

end Walk

namespace Heap

variable {heap : Heap} {p q r : PairId} {position : Position}

theorem fillPosition_eq_inherit (heap : Heap) (p : PairId) (position : Position) :
    heap.fillPosition p position true = (heap.inherit .empty (.pair p) position).1.1 := by
  have walk := Walk.run_eq_inherit heap .empty (.pair p) position []
  rw [Walk.run_of_empty] at walk
  exact congrArg Walk.heap walk

/-- A position that was there stays. -/
theorem position?_fill_of_ne_none (own : heap.position? q ≠ none) :
    (heap.fillPosition p position true).position? q = heap.position? q := by
  have chosen : ∀ inherited, Marking.fill.choose (heap.position? q) inherited = heap.position? q :=
    fun _ => Option.or_of_isSome (Option.isSome_iff_ne_none.2 own)
  by_cases reached : heap.isLive q = true ∧ heap.Leads p q
  · by_cases same : q = p
    · subst same
      exact (Walk.position?_run_self .fill (some position) reached.1).trans (chosen _)
    · obtain ⟨r, -, -, place⟩ :=
        Walk.exists_holder_of_run .fill (some position) reached.1 reached.2 same
      exact place.trans (chosen _)
  · exact Walk.position?_run_of_apart reached

theorem position?_fill_ne_none (live : heap.isLive q = true) (leads : heap.Leads p q) :
    (heap.fillPosition p position true).position? q ≠ none := by
  apply Walk.carries_run fun place => place ≠ none
  · intro own inherited given
    cases own with
    | none => exact given
    | some place => exact Option.some_ne_none place
  · exact Option.some_ne_none position
  · exact live
  · exact leads

theorem position?_fill_self (live : heap.isLive p = true) :
    (heap.fillPosition p position true).position? p =
      some ((heap.position? p).getD position) :=
  (Walk.position?_run_self .fill (some position) live).trans Option.or_some

/-- A pair that had no position has got that of a pair that holds it. -/
theorem exists_holder_of_fill (live : heap.isLive q = true) (leads : heap.Leads p q)
    (other : q ≠ p) (bare : heap.position? q = none) :
    ∃ r, heap.Leads p r ∧ heap.Child r q ∧
      (heap.fillPosition p position true).position? q =
        (heap.fillPosition p position true).position? r := by
  obtain ⟨r, leads', child, chosen⟩ :=
    Walk.exists_holder_of_run .fill (some position) live leads other
  rw [bare] at chosen
  exact ⟨r, leads', child, chosen⟩

/-- After a first fill there is nothing left to fill. -/
theorem fill_fill (heap : Heap) (p : PairId) (position again : Position) :
    (heap.fillPosition p position true).fillPosition p again true =
      heap.fillPosition p position true := by
  have first := heap.agrees_fillPosition p position true
  have second := (heap.fillPosition p position true).agrees_fillPosition p again true
  refine second.eq_of_position? fun q => ?_
  by_cases own : (heap.fillPosition p position true).position? q = none
  · refine Walk.position?_run_of_apart fun reached => ?_
    rw [first.isLive, first.leads_iff] at reached
    exact position?_fill_ne_none reached.1 reached.2 own
  · exact position?_fill_of_ne_none own

/-! ## Filling a tree -/

/-- The structure from `p` on is a tree: the pairs that `p` leads to hold `p` in no slot and any
other pair in one slot at most. -/
structure TreeBelow (heap : Heap) (p : PairId) : Prop where
  root : ∀ r, heap.Leads p r → ¬heap.Child r p
  single : ∀ r r' slot slot' q, heap.Leads p r → heap.Leads p r' →
    heap.read r slot = .pair q → heap.read r' slot' = .pair q → r = r' ∧ slot = slot'

/-- Of the pairs with a position on the way from `p` to `q`, `a` is the nearest to `q`: all of them
lead to it. A pair with a position is the nearest to itself. -/
structure Nearest (heap : Heap) (p q a : PairId) : Prop where
  below : heap.Leads p a
  above : heap.Leads a q
  positioned : heap.position? a ≠ none
  last : ∀ b, heap.Leads p b → heap.Leads b q → heap.position? b ≠ none → heap.Leads b a

theorem Nearest.self (leads : heap.Leads p q) (own : heap.position? q ≠ none) :
    heap.Nearest p q q :=
  ⟨leads, .refl q, own, fun _ _ above _ => above⟩

namespace TreeBelow

variable {a b : PairId}

theorem eq_holder (tree : heap.TreeBelow p) (leads : heap.Leads p r) (child : heap.Child r q)
    {r' : PairId} (leads' : heap.Leads p r') (child' : heap.Child r' q) : r = r' := by
  obtain ⟨slot, read⟩ := child
  obtain ⟨slot', read'⟩ := child'
  exact (tree.single r r' slot slot' q leads leads' read read').1

/-- What lies above a pair lies above the pair that holds it. -/
theorem leads_holder (tree : heap.TreeBelow p) (leads : heap.Leads p r) (child : heap.Child r q)
    (start : heap.Leads p b) (above : heap.Leads b q) (other : b ≠ q) : heap.Leads b r := by
  cases above with
  | refl => exact absurd rfl other
  | tail before step =>
    cases tree.eq_holder leads child (start.trans before) step
    exact before

/-- No pair of a tree leads back to itself. -/
theorem acyclic (tree : heap.TreeBelow p) (leads : heap.Leads p q) :
    ¬Relation.TransGen heap.Child q q := by
  induction leads with
  | refl =>
    intro round
    obtain ⟨r, leads, child⟩ := Relation.TransGen.tail'_iff.1 round
    exact tree.root r leads child
  | tail leads child ih =>
    intro round
    obtain ⟨r, back, child'⟩ := Relation.TransGen.tail'_iff.1 round
    cases tree.eq_holder leads child ((leads.tail child).trans back) child'
    exact ih (.head' child back)

theorem nearest_unique (tree : heap.TreeBelow p) (one : heap.Nearest p q a)
    (other : heap.Nearest p q b) : a = b := by
  have there := other.last a one.below one.above one.positioned
  have back := one.last b other.below other.above other.positioned
  rcases Relation.reflTransGen_iff_eq_or_transGen.1 there with same | steps
  · exact same.symm
  · exact absurd (steps.trans_left back) (tree.acyclic one.below)

/-- A pair without a position has the same nearest positioned pair as its holder. -/
theorem nearest_iff (tree : heap.TreeBelow p) (leads : heap.Leads p r) (child : heap.Child r q)
    (bare : heap.position? q = none) : heap.Nearest p q a ↔ heap.Nearest p r a := by
  have up : ∀ b, heap.Leads p b → heap.Leads b q → heap.position? b ≠ none → heap.Leads b r := by
    intro b start above positioned
    refine tree.leads_holder leads child start above ?_
    rintro rfl
    exact positioned bare
  constructor
  · intro near
    refine ⟨near.below, up a near.below near.above near.positioned, near.positioned, ?_⟩
    exact fun b start above => near.last b start (above.tail child)
  · intro near
    refine ⟨near.below, near.above.tail child, near.positioned, ?_⟩
    exact fun b start above positioned =>
      near.last b start (up b start above positioned) positioned

theorem not_nearest_root (tree : heap.TreeBelow p) (bare : heap.position? p = none) :
    ¬heap.Nearest p p a := by
  intro near
  rcases Relation.ReflTransGen.cases_tail near.above with same | ⟨r, leads, child⟩
  · rw [same] at bare
    exact near.positioned bare
  · exact tree.root r (near.below.trans leads) child

/-- Filling gives a pair without a position what its holder has. -/
theorem position?_fill_holder (tree : heap.TreeBelow p) (live : heap.isLive q = true)
    (leads : heap.Leads p r) (child : heap.Child r q) (bare : heap.position? q = none) :
    (heap.fillPosition p position true).position? q =
      (heap.fillPosition p position true).position? r := by
  have other : q ≠ p := by
    rintro rfl
    exact tree.root r leads child
  obtain ⟨r', leads', child', same⟩ :=
    exists_holder_of_fill live (leads.tail child) other bare
  cases tree.eq_holder leads child leads' child'
  exact same

/-- Where filling follows a tree, every pair ends with the position of the nearest that had one. -/
theorem position?_fill (tree : heap.TreeBelow p) (live : heap.isLive q = true)
    (leads : heap.Leads p q) :
    (∃ a, heap.Nearest p q a ∧
        (heap.fillPosition p position true).position? q = heap.position? a) ∨
      (∀ a, ¬heap.Nearest p q a) ∧
        (heap.fillPosition p position true).position? q = some position := by
  by_cases own : heap.position? q ≠ none
  · exact Or.inl ⟨q, .self leads own, position?_fill_of_ne_none own⟩
  rw [ne_eq, not_not] at own
  -- Along the way from `p`, as far as the pairs on it have no position of their own.
  induction leads with
  | refl =>
    refine Or.inr ⟨fun a => tree.not_nearest_root own, ?_⟩
    rw [position?_fill_self live, own]
    rfl
  | @tail r q leads child ih =>
    rw [tree.position?_fill_holder live leads child own]
    simp only [tree.nearest_iff leads child own]
    by_cases above : heap.position? r = none
    · exact ih child.isLive above
    · exact Or.inl ⟨r, .self leads above, position?_fill_of_ne_none above⟩

end TreeBelow

/-! ## What filling does -/

/-- What filling positions from `p` on has made of the heap. -/
structure FillsAll (heap : Heap) (p : PairId) (position : Position) (filled : Heap) : Prop where
  recursion : filled = (heap.inherit .empty (.pair p) position).1.1
  kept : ∀ q, heap.position? q ≠ none → filled.position? q = heap.position? q
  reached : ∀ q, heap.isLive q = true → heap.Leads p q → filled.position? q ≠ none
  others : ∀ q, ¬heap.Leads p q → filled.get? q = heap.get? q
  /-- Slots, handles and lives are as they were. -/
  agrees : heap.AgreesButPosition filled
  inherited : ∀ q, q ≠ p → heap.position? q = none → filled.position? q ≠ none →
    ∃ r, heap.Leads p r ∧ heap.Child r q ∧ filled.position? q = filled.position? r
  /-- In a tree a pair gets the position of the nearest that had one, if there is any. -/
  tree : heap.TreeBelow p → ∀ q, heap.isLive q = true → heap.Leads p q →
    (∀ a, heap.Nearest p q a → filled.position? q = heap.position? a) ∧
      ((∀ a, ¬heap.Nearest p q a) → filled.position? q = some position)
  /-- To fill once more, with whatever position, changes nothing. -/
  again : ∀ other, filled.fillPosition p other true = filled

/-- The walk visits all that it has to, and does what the recursion does; positions are kept and
inherited accordingly. -/
theorem fillsAll (heap : Heap) (p : PairId) (position : Position) :
    ((Walk.start heap p (some position)).run .fill).stack = [] ∧
      FillsAll heap p position (heap.fillPosition p position true) := by
  refine ⟨Walk.stack_run .fill _, ?_⟩
  constructor
  case recursion => exact heap.fillPosition_eq_inherit p position
  case kept => exact fun q => position?_fill_of_ne_none
  case reached => exact fun q => position?_fill_ne_none
  case others => exact fun q apart => Walk.get?_run_of_apart fun reached => apart reached.2
  case agrees => exact heap.agrees_fillPosition p position true
  case inherited =>
    intro q other bare filled
    have reached : heap.isLive q = true ∧ heap.Leads p q := by
      by_contra apart
      exact filled ((Walk.position?_run_of_apart apart).trans bare)
    exact exists_holder_of_fill reached.1 reached.2 other bare
  case tree =>
    intro tree q live leads
    rcases tree.position?_fill live leads with ⟨a, near, place⟩ | ⟨none, place⟩
    · refine ⟨fun b other => ?_, fun none => absurd near (none a)⟩
      rw [tree.nearest_unique other near]
      exact place
    · exact ⟨fun a near => absurd near (none a), fun _ => place⟩
  case again => exact fun other => heap.fill_fill p position other

/-- A list in a list in a list, where the one in the middle has a position: what lies below takes
it, and what lies above takes the given one. -/
theorem fillsAll_of_nested :
    let leaf := Heap.empty.allocate .nil .nil
    let inner := leaf.2.allocate (.pair leaf.1) .nil
    let outer := (inner.2.setPosition inner.1 (some ⟨1, 1⟩)).allocate (.pair inner.1) .nil
    outer.2.TreeBelow outer.1 ∧
      (outer.2.fillPosition outer.1 ⟨7, 2⟩ true).position? leaf.1 = some ⟨1, 1⟩ ∧
      (outer.2.fillPosition outer.1 ⟨7, 2⟩ true).position? outer.1 = some ⟨7, 2⟩ := by
  intro leaf inner outer
  have holds : ∀ r slot q, outer.2.read r slot = .pair q →
      slot = .head ∧ (r = inner.1 ∧ q = leaf.1 ∨ r = outer.1 ∧ q = inner.1) := by
    intro r slot q read
    have small := lt_size_of_isLive (Child.isLive ⟨slot, read⟩)
    obtain ⟨_ | _ | _ | index⟩ := r
    · cases slot <;> cases read
    · cases slot <;> cases read
      exact ⟨rfl, Or.inl ⟨rfl, rfl⟩⟩
    · cases slot <;> cases read
      exact ⟨rfl, Or.inr ⟨rfl, rfl⟩⟩
    · change index + 3 < 3 at small
      omega
  have tree : outer.2.TreeBelow outer.1 := by
    constructor
    · rintro r - ⟨slot, read⟩
      rcases (holds r slot _ read).2 with ⟨-, same⟩ | ⟨-, same⟩ <;> cases same
    · intro r r' slot slot' q _ _ read read'
      obtain ⟨rfl, one⟩ := holds r slot q read
      obtain ⟨rfl, other⟩ := holds r' slot' q read'
      refine ⟨?_, rfl⟩
      rcases one with ⟨rfl, rfl⟩ | ⟨rfl, rfl⟩ <;> rcases other with ⟨rfl, same⟩ | ⟨rfl, same⟩
      · rfl
      · cases same
      · cases same
      · rfl
  have near : outer.2.Nearest outer.1 leaf.1 inner.1 := by
    have down : outer.2.Child outer.1 inner.1 := ⟨.head, rfl⟩
    refine ⟨down.leads, Child.leads ⟨.head, rfl⟩, Option.some_ne_none _, ?_⟩
    intro b _ _ positioned
    obtain ⟨_ | _ | _ | index⟩ := b
    · exact absurd rfl positioned
    · exact .refl _
    · exact absurd rfl positioned
    · exact absurd rfl positioned
  have filled := (fillsAll outer.2 outer.1 ⟨7, 2⟩).2
  refine ⟨tree, ?_, ?_⟩
  · exact (filled.tree tree leaf.1 rfl (near.below.trans near.above)).1 inner.1 near
  · exact (filled.tree tree outer.1 rfl (.refl _)).2 fun a => tree.not_nearest_root rfl

end Heap

end Sexpr
