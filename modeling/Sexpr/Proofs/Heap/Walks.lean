import Sexpr.Proofs.Heap.Leads
import Sexpr.Proofs.Heap.Positioning

/-!
# Where walks go and what they leave

A walk sees the pairs that the search from its stack enters: marking a pair does not change where it
leads (`Walk.seen_run`). So a walk from one pair sees the live pairs that this pair leads to
(`Walk.mem_seen_run_start`).

`Walk.Inherits` is what a walk keeps of positions. The pair at which it began has chosen between its
own position and the given one; every other pair that was seen has chosen between its own and the
one that a pair holding it has now. A pair that was not seen is as it was.
-/

namespace Sexpr

/-! ## Heaps that differ in positions -/

namespace Heap.AgreesButPosition

variable {heap later : Heap} {p q : PairId} {cell : Cell}

/-- The cell of a pair in the later heap. -/
theorem get?_later (same : heap.AgreesButPosition later) (found : heap.get? p = some cell) :
    ∃ position, later.get? p = some { cell with position } := by
  have cells := same.cells p
  rw [found] at cells
  obtain ⟨cell', found', view⟩ := Option.map_eq_some_iff.1 cells
  obtain ⟨head, tail, position, handles⟩ := cell'
  cases view
  exact ⟨position, found'⟩

theorem get?_eq_none (same : heap.AgreesButPosition later) (dead : heap.get? p = none) :
    later.get? p = none := by
  have cells := same.cells p
  rw [dead] at cells
  exact Option.map_eq_none_iff.1 cells

theorem child_iff (same : heap.AgreesButPosition later) : later.Child p q ↔ heap.Child p q := by
  simp only [Child, same.read]

theorem leads_iff (same : heap.AgreesButPosition later) : later.Leads p q ↔ heap.Leads p q := by
  have child : later.Child = heap.Child := by
    funext p q
    exact propext same.child_iff
  rw [Leads, Leads, child]

/-- The search does not look at positions. -/
theorem enter_eq (same : heap.AgreesButPosition later) (seen : PairSet) (work : List PairId) :
    later.enter seen work = heap.enter seen work := by
  fun_induction Heap.enter heap seen work with
  | case1 seen => rw [Heap.enter]
  | case2 seen p work dead ih => rw [enter_of_dead (same.get?_eq_none dead), ih]
  | case3 seen p work cell found known ih => rw [enter_of_known known, ih]
  | case4 seen p work cell found new ih =>
    obtain ⟨position, found'⟩ := same.get?_later found
    rw [enter_of_new found' new]
    exact ih

/-- With the same positions too, the heaps are equal. -/
theorem eq_of_position? (same : heap.AgreesButPosition later)
    (positions : ∀ p, later.position? p = heap.position? p) : later = heap := by
  apply ext_get? same.size
  intro p
  cases found : heap.get? p with
  | none => exact same.get?_eq_none found
  | some cell =>
    obtain ⟨position, found'⟩ := same.get?_later found
    have kept := positions p
    rw [position?, position?, found, found'] at kept
    cases kept
    exact found'

end Heap.AgreesButPosition

theorem Heap.position?_setPosition {heap : Heap} {p : PairId} {cell : Cell}
    (found : heap.get? p = some cell) (position : Option Position) (q : PairId) :
    (heap.setPosition p position).position? q = if p = q then position else heap.position? q := by
  unfold position? setPosition
  rw [get?_modify]
  split
  · next same =>
    rw [← same, found]
    rfl
  · rfl

theorem Heap.get?_setPosition_of_ne {heap : Heap} {p q : PairId} (other : p ≠ q)
    (position : Option Position) : (heap.setPosition p position).get? q = heap.get? q := by
  rw [setPosition, get?_modify, if_neg other]

namespace Walk

/-! ## What walks see -/

/-- The pairs on the stack. -/
def pending (walk : Walk) : List PairId := walk.stack.filterMap fun entry => entry.1.pair?

theorem pending_mark (walk : Walk) (p : PairId) (cell : Cell) (position : Option Position) :
    (walk.mark p cell position).pending = cell.children ++ walk.pending := by
  rw [pending, stack_mark, List.filterMap_append, List.filterMap_cons, pending]
  cases head : cell.head <;> cases tail : cell.tail <;>
    simp [Cell.children, head, tail, Value.isPair, Value.pair?, List.filterMap_cons]

/-- A walk sees what the search from its stack enters. -/
theorem seen_run (marking : Marking) (walk : Walk) :
    (walk.run marking).seen = walk.heap.enter walk.seen walk.pending := by
  have ends : (walk.run marking).heap.enter (walk.run marking).seen (walk.run marking).pending =
      walk.heap.enter walk.seen walk.pending := by
    refine kept_run (motive := fun later => later.heap.enter later.seen later.pending =
      walk.heap.enter walk.seen walk.pending) ?_ ?_ rfl
    · intro heap seen value inherited stack same idle
      cases value with
      | scalar s => exact same
      | pair p =>
        rw [← same]
        rcases idle p rfl with known | dead
        · exact (Heap.enter_of_known known).symm
        · exact (Heap.enter_of_dead dead).symm
    · intro heap seen p cell inherited stack same new found
      rw [← same, heap_mark, seen_mark, pending_mark, (heap.agrees_setPosition p _).enter_eq]
      exact (Heap.enter_of_new found (by simp [new])).symm
  rwa [pending, stack_run, List.filterMap_nil, Heap.enter] at ends

/-- A walk from one pair sees the live pairs that it leads to. -/
theorem mem_seen_run_start {marking : Marking} {heap : Heap} {p q : PairId}
    {position : Option Position} :
    ((start heap p position).run marking).seen.contains q = true ↔
      heap.isLive q = true ∧ heap.Leads p q := by
  have reached : q ∈ heap.reachable [p] ↔ heap.isLive q = true ∧ ∃ r ∈ [p], heap.Leads r q :=
    Heap.mem_reachable_iff
  simp only [List.mem_singleton, exists_eq_left] at reached
  rw [seen_run]
  exact reached

/-! ## What walks leave -/

variable {marking : Marking} {heap : Heap} {p q : PairId} {position : Option Position} {walk : Walk}

/-- How the positions after a part of a walk from `p` have come about, where `heap` was the heap
before it and `position` the one given to `p`. -/
structure Inherits (marking : Marking) (heap : Heap) (p : PairId) (position : Option Position)
    (walk : Walk) : Prop where
  agrees : heap.AgreesButPosition walk.heap
  untouched : ∀ q, walk.seen.contains q = false → walk.heap.get? q = heap.get? q
  /-- Until `p` was seen, nothing else is to be visited. -/
  opens : walk.seen.contains p = false → ∀ entry ∈ walk.stack, entry = (.pair p, position)
  first : walk.seen.contains p = true →
    walk.heap.position? p = marking.choose (heap.position? p) position
  passed : ∀ q, walk.seen.contains q = true → q ≠ p → ∃ r, walk.seen.contains r = true ∧
    heap.Child r q ∧
    walk.heap.position? q = marking.choose (heap.position? q) (walk.heap.position? r)
  handed : ∀ q inherited, (.pair q, inherited) ∈ walk.stack → q ≠ p →
    ∃ r, walk.seen.contains r = true ∧ heap.Child r q ∧ walk.heap.position? r = inherited

namespace Inherits

theorem start (marking : Marking) (heap : Heap) (p : PairId) (position : Option Position) :
    Inherits marking heap p position (.start heap p position) where
  agrees := .refl heap
  untouched _ _ := rfl
  opens _ _ listed := List.mem_singleton.1 listed
  first known := by simp [Walk.start] at known
  passed _ known := by simp [Walk.start] at known
  handed q inherited listed other := by
    cases List.mem_singleton.1 listed
    exact absurd rfl other

theorem skip {heap' : Heap} {seen : PairSet} {entry : Value × Option Position}
    {stack : List (Value × Option Position)}
    (inherits : Inherits marking heap p position ⟨heap', seen, entry :: stack⟩) :
    Inherits marking heap p position ⟨heap', seen, stack⟩ :=
  { inherits with
    opens := fun new entry listed => inherits.opens new entry (List.mem_cons_of_mem _ listed)
    handed := fun q inherited listed =>
      inherits.handed q inherited (List.mem_cons_of_mem _ listed) }

theorem mark {heap' : Heap} {seen : PairSet} {cell : Cell} {inherited : Option Position}
    {stack : List (Value × Option Position)}
    (inherits : Inherits marking heap p position ⟨heap', seen, (.pair q, inherited) :: stack⟩)
    (new : seen.contains q = false) (found : heap'.get? q = some cell) :
    Inherits marking heap p position
      (Walk.mark ⟨heap', seen, stack⟩ q cell (marking.choose cell.position inherited)) := by
  have before : heap.get? q = some cell := (inherits.untouched q new).symm.trans found
  have own : heap.position? q = cell.position := by simp [Heap.position?, before]
  have positions := heap'.position?_setPosition found (marking.choose cell.position inherited)
  -- What was seen before is another pair than `q` and keeps its position.
  have distinct : ∀ r, seen.contains r = true → q ≠ r := by
    rintro r known rfl
    rw [new] at known
    cases known
  have kept : ∀ r, seen.contains r = true →
      (heap'.setPosition q (marking.choose cell.position inherited)).position? r =
        heap'.position? r := by
    intro r known
    rw [positions, if_neg (distinct r known)]
  constructor
  case agrees =>
    rw [heap_mark]
    exact inherits.agrees.trans (heap'.agrees_setPosition q _)
  case untouched =>
    intro r unseen
    rw [seen_mark, PairSet.contains_insert, Bool.or_eq_false_iff, beq_eq_false_iff_ne] at unseen
    rw [heap_mark, Heap.get?_setPosition_of_ne unseen.1]
    exact inherits.untouched r unseen.2
  case opens =>
    intro unseen
    rw [seen_mark, PairSet.contains_insert, Bool.or_eq_false_iff, beq_eq_false_iff_ne] at unseen
    cases inherits.opens unseen.2 _ List.mem_cons_self
    exact absurd rfl unseen.1
  case first =>
    intro known
    rw [seen_mark, PairSet.contains_insert_iff] at known
    rw [heap_mark]
    rcases known with rfl | known
    · cases inherits.opens new _ List.mem_cons_self
      rw [positions, if_pos rfl, own]
    · rw [kept p known]
      exact inherits.first known
  case passed =>
    intro r known other
    rw [seen_mark, PairSet.contains_insert_iff] at known
    rw [heap_mark, seen_mark]
    rcases known with rfl | known
    · obtain ⟨s, seen', child, place⟩ := inherits.handed q inherited List.mem_cons_self other
      refine ⟨s, PairSet.contains_insert_iff.2 (Or.inr seen'), child, ?_⟩
      rw [kept s seen', positions, if_pos rfl, own, place]
    · obtain ⟨s, seen', child, place⟩ := inherits.passed r known other
      refine ⟨s, PairSet.contains_insert_iff.2 (Or.inr seen'), child, ?_⟩
      rw [kept s seen', kept r known, place]
  case handed =>
    intro r place listed other
    rw [heap_mark, seen_mark]
    rcases mem_stack_mark.1 listed with ⟨⟨slot, read⟩, rfl⟩ | listed
    · refine ⟨q, PairSet.contains_insert_iff.2 (Or.inl rfl), ⟨slot, ?_⟩, ?_⟩
      · rw [Heap.read_of_get? before, read]
      · rw [positions, if_pos rfl]
    · obtain ⟨s, seen', child, held⟩ :=
        inherits.handed r place (List.mem_cons_of_mem _ listed) other
      exact ⟨s, PairSet.contains_insert_iff.2 (Or.inr seen'), child, (kept s seen').trans held⟩

end Inherits

theorem inherits_run (marking : Marking) (heap : Heap) (p : PairId) (position : Option Position) :
    Inherits marking heap p position ((Walk.start heap p position).run marking) := by
  refine kept_run ?_ ?_ (Inherits.start marking heap p position)
  · exact fun heap' seen value inherited stack inherits _ => inherits.skip
  · exact fun heap' seen q cell inherited stack inherits new found => inherits.mark new found

/-- What a walk does not come to is as it was. -/
theorem get?_run_of_apart (apart : ¬(heap.isLive q = true ∧ heap.Leads p q)) :
    ((start heap p position).run marking).heap.get? q = heap.get? q := by
  apply (inherits_run marking heap p position).untouched
  rw [Bool.eq_false_iff]
  exact fun seen => apart (mem_seen_run_start.1 seen)

theorem position?_run_of_apart (apart : ¬(heap.isLive q = true ∧ heap.Leads p q)) :
    ((start heap p position).run marking).heap.position? q = heap.position? q :=
  congrArg (·.bind Cell.position) (get?_run_of_apart apart)

theorem position?_run_self (marking : Marking) (position : Option Position)
    (live : heap.isLive p = true) :
    ((start heap p position).run marking).heap.position? p =
      marking.choose (heap.position? p) position :=
  (inherits_run marking heap p position).first (mem_seen_run_start.2 ⟨live, .refl p⟩)

theorem exists_holder_of_run (marking : Marking) (position : Option Position)
    (live : heap.isLive q = true) (leads : heap.Leads p q) (other : q ≠ p) :
    ∃ r, heap.Leads p r ∧ heap.Child r q ∧
      ((start heap p position).run marking).heap.position? q =
        marking.choose (heap.position? q)
          (((start heap p position).run marking).heap.position? r) := by
  obtain ⟨r, seen', child, chosen⟩ := (inherits_run marking heap p position).passed q
    (mem_seen_run_start.2 ⟨live, leads⟩) other
  exact ⟨r, (mem_seen_run_start.1 seen').2, child, chosen⟩

/-- What holds of the given position and is kept by every choice holds wherever the walk comes. -/
theorem carries_run (carried : Option Position → Prop)
    (chosen : ∀ own inherited, carried inherited → carried (marking.choose own inherited))
    (given : carried position) (live : heap.isLive q = true) (leads : heap.Leads p q) :
    carried (((start heap p position).run marking).heap.position? q) := by
  refine (kept_run (motive := fun walk =>
    (∀ q, walk.seen.contains q = true → carried (walk.heap.position? q)) ∧
      ∀ q inherited, (.pair q, inherited) ∈ walk.stack → carried inherited) ?_ ?_ ?_).1 q
    (mem_seen_run_start.2 ⟨live, leads⟩)
  · intro heap' seen value inherited stack holds _
    exact ⟨holds.1, fun q place listed => holds.2 q place (List.mem_cons_of_mem _ listed)⟩
  · intro heap' seen r cell inherited stack holds new found
    have place := chosen cell.position inherited (holds.2 r inherited List.mem_cons_self)
    constructor
    · intro q known
      rw [heap_mark, heap'.position?_setPosition found]
      rw [seen_mark, PairSet.contains_insert_iff] at known
      split
      · exact place
      · next other => exact holds.1 q (known.resolve_left other)
    · intro q handed listed
      rcases mem_stack_mark.1 listed with ⟨-, rfl⟩ | listed
      · exact place
      · exact holds.2 q handed (List.mem_cons_of_mem _ listed)
  · refine ⟨fun q known => by simp [start] at known, fun q inherited listed => ?_⟩
    cases List.mem_singleton.1 listed
    exact given

end Walk

end Sexpr
