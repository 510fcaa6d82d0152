import Sexpr.Heap.Basic

/-!
# Source positions

A position can be set or removed on one pair, or on all pairs that it leads to. Filling gives a
position only to pairs without one. When it follows the structure, each pair passes the position
it now has on to its head and its tail.

Both follow the structure by a walk that comes to the head of a pair before its tail. What it has
still to visit lies on a stack: the tail of a pair takes the place of the pair, and its head goes on
top of that. A pair is visited once, by the way that comes to it first.
-/

namespace Sexpr

/-- What a walk does with the position that comes to a pair. -/
inductive Marking where
  /-- It takes the place of the pair's own. -/
  | replace
  /-- It is taken where there is none. -/
  | fill

/-- The position that a pair gets and passes on, from its own and the inherited one. -/
def Marking.choose : Marking → Option Position → Option Position → Option Position
  | replace, _, inherited => inherited
  | fill, own, inherited => own.or inherited

/-- A walk on its way. -/
structure Walk where
  heap : Heap
  /-- The pairs that have been visited. -/
  seen : PairSet
  /-- What is still to be visited, each with the position that it inherits. -/
  stack : List (Value × Option Position)

namespace Walk

/-- A walk that is about to visit `p`. -/
def start (heap : Heap) (p : PairId) (position : Option Position) : Walk :=
  ⟨heap, .empty, [(.pair p, position)]⟩

/-- Puts a value on top if it is a pair. -/
def push (walk : Walk) (value : Value) (position : Option Position) : Walk :=
  if value.isPair then { walk with stack := (value, position) :: walk.stack } else walk

/-- Gives `p` its position and turns to its slots. -/
def mark (walk : Walk) (p : PairId) (cell : Cell) (position : Option Position) : Walk :=
  push ⟨walk.heap.setPosition p position, walk.seen.insert p, (cell.tail, position) :: walk.stack⟩
    cell.head position

/-- Visits a value that was on top. -/
def visit (marking : Marking) (walk : Walk) (value : Value) (inherited : Option Position) : Walk :=
  match value with
  | .scalar _ => walk
  | .pair p =>
    if walk.seen.contains p then walk
    else
      match walk.heap.get? p with
      | none => walk
      | some cell => walk.mark p cell (marking.choose cell.position inherited)

/-! ## What a visit does -/

@[simp] theorem heap_mark (walk : Walk) (p : PairId) (cell : Cell) (position : Option Position) :
    (walk.mark p cell position).heap = walk.heap.setPosition p position := by
  unfold mark push
  split <;> rfl

@[simp] theorem seen_mark (walk : Walk) (p : PairId) (cell : Cell) (position : Option Position) :
    (walk.mark p cell position).seen = walk.seen.insert p := by
  unfold mark push
  split <;> rfl

theorem stack_mark (walk : Walk) (p : PairId) (cell : Cell) (position : Option Position) :
    (walk.mark p cell position).stack =
      (if cell.head.isPair then [(cell.head, position)] else []) ++
        (cell.tail, position) :: walk.stack := by
  unfold mark push
  split <;> rfl

theorem length_stack_mark_le (walk : Walk) (p : PairId) (cell : Cell)
    (position : Option Position) :
    (walk.mark p cell position).stack.length ≤ walk.stack.length + 2 := by
  rw [stack_mark]
  split <;> simp

/-- A marked pair puts the pairs in its slots on the stack, with the position that it got. -/
theorem mem_stack_mark {walk : Walk} {p q : PairId} {cell : Cell}
    {position inherited : Option Position} :
    (.pair q, inherited) ∈ (walk.mark p cell position).stack ↔
      ((∃ slot, cell.get slot = .pair q) ∧ inherited = position) ∨
        (.pair q, inherited) ∈ walk.stack := by
  rw [stack_mark, List.mem_append, List.mem_cons]
  constructor
  · rintro (head | tail | old)
    · split at head
      · have same := Prod.mk.inj (List.mem_singleton.1 head)
        exact Or.inl ⟨⟨.head, same.1.symm⟩, same.2⟩
      · cases head
    · have same := Prod.mk.inj tail
      exact Or.inl ⟨⟨.tail, same.1.symm⟩, same.2⟩
    · exact Or.inr old
  · rintro (⟨⟨slot, read⟩, rfl⟩ | old)
    · cases slot with
      | head =>
        have read : cell.head = .pair q := read
        exact Or.inl (by simp [read, Value.isPair, Value.pair?])
      | tail => exact Or.inr (Or.inl (congrArg (·, inherited) read.symm))
    · exact Or.inr (Or.inr old)

/-- A visit passes over what is no pair, was seen before or is dead, and marks every other pair. -/
theorem visit_cases (marking : Marking) (walk : Walk) (value : Value)
    (inherited : Option Position) :
    (walk.visit marking value inherited = walk ∧
      ∀ p, value = .pair p → walk.seen.contains p = true ∨ walk.heap.get? p = none) ∨
    ∃ p cell, value = .pair p ∧ walk.seen.contains p = false ∧ walk.heap.get? p = some cell ∧
      walk.visit marking value inherited =
        walk.mark p cell (marking.choose cell.position inherited) := by
  cases value with
  | scalar s => exact Or.inl ⟨rfl, nofun⟩
  | pair p =>
    by_cases known : walk.seen.contains p = true
    · refine Or.inl ⟨if_pos known, ?_⟩
      rintro _ ⟨⟩
      exact Or.inl known
    · cases found : walk.heap.get? p with
      | none =>
        refine Or.inl ⟨by simp [visit, found], ?_⟩
        rintro _ ⟨⟩
        exact Or.inr found
      | some cell =>
        exact Or.inr ⟨p, cell, rfl, Bool.eq_false_iff.2 known, found, by simp [visit, known, found]⟩

/-- How much a walk can still do: each pair that it has not seen can bring two more values. -/
def left (walk : Walk) : Nat := walk.stack.length + 2 * walk.seen.absent walk.heap.size

theorem left_visit_le (marking : Marking) (walk : Walk) (value : Value)
    (inherited : Option Position) : (walk.visit marking value inherited).left ≤ walk.left := by
  rcases walk.visit_cases marking value inherited with ⟨same, -⟩ | ⟨p, cell, -, new, found, same⟩
  · exact Nat.le_of_eq (congrArg left same)
  · have fewer := PairSet.absent_insert_lt (Heap.lt_size_of_get? found) new
    have higher := walk.length_stack_mark_le p cell (marking.choose cell.position inherited)
    rw [same]
    simp only [left, heap_mark, seen_mark, Heap.size_setPosition]
    omega

/-! ## Walks to their end -/

/-- Visits what lies on the stack until nothing is left. -/
def run (marking : Marking) (walk : Walk) : Walk :=
  match _pending : walk.stack with
  | [] => walk
  | (value, inherited) :: stack =>
    run marking ({ walk with stack }.visit marking value inherited)
termination_by walk.left
decreasing_by
  refine Nat.lt_of_le_of_lt (left_visit_le marking _ value inherited) ?_
  simp only [left, _pending, List.length_cons]
  omega

end Walk

namespace Heap

/-- Sets or removes the position of `p`, and with `follow` of all that it leads to. -/
def assignPosition (heap : Heap) (p : PairId) (position : Option Position) (follow : Bool) :
    Heap :=
  if follow then ((Walk.start heap p position).run .replace).heap else heap.setPosition p position

/-- Gives `p` the position if it has none, and with `follow` all that it leads to, by
inheritance. -/
def fillPosition (heap : Heap) (p : PairId) (position : Position) (follow : Bool) : Heap :=
  if follow then ((Walk.start heap p (some position)).run .fill).heap
  else heap.modify p fun cell => { cell with position := some (cell.position.getD position) }

end Heap

end Sexpr
