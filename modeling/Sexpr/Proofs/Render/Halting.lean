import Mathlib.Data.Finite.Prod
import Mathlib.Data.Set.Finite.List
import Mathlib.Data.Set.Finite.Powerset
import Mathlib.Order.RelIso.Set
import Mathlib.Order.WellFounded
import Sexpr.Proofs.Heap.Leads
import Sexpr.Proofs.Render.Writing
import Sexpr.Proofs.Store.Runs

/-!
# When texts end

While a chain is written, others are opened inside it. An `Opening` is a chain with the marks under
which it is opened, and `Opening.Calls` says which openings come up directly inside which.

A chain walks over finitely many pairs, so it is finished if all chains inside it are
(`finishes_of_opens`). There are finitely many openings, so the text ends unless an opening comes
up inside itself; marks that are lifted too early make that possible. `Reopens` is that
condition, `isSome_text_iff_not_reopens` says that nothing else keeps a text from its end, and
`endless_text_of_tangle` is a value of three pairs whose texts do not end.
-/

namespace Sexpr.Render

/-! ## Marks -/

namespace Writes

variable {heap : Heap} {link last : Link} {heads : List Shape} {ending : Ending}

theorem subset_visited (writes : Writes heap link heads ending last) :
    link.visited ⊆ last.visited := by
  induction writes with
  | stop => exact List.Subset.refl _
  | reenter => exact List.Subset.refl _
  | plain _ _ _ ih => exact fun _ member => ih (List.mem_cons_of_mem _ member)
  | inner _ _ _ _ _ _ ih => exact fun _ member => ih (List.mem_cons_of_mem _ member)

/-- A chain leaves marks on its own pairs only. -/
theorem contains_last (writes : Writes heap link heads ending last) {q : PairId}
    (marked : last.active.contains q = true) :
    link.active.contains q = true ∨ q ∈ last.visited := by
  induction writes with
  | stop => exact Or.inl marked
  | reenter => exact Or.inl marked
  | plain _ _ rest ih =>
    rcases ih marked with before | visited
    · rcases PairSet.contains_insert_iff.1 before with rfl | old
      · exact Or.inr (rest.subset_visited List.mem_cons_self)
      · exact Or.inl old
    · exact Or.inr visited
  | inner _ _ _ _ rest ihWithin ih =>
    rcases ih marked with released | visited
    · obtain ⟨left, unvisited⟩ := Link.contains_released.1 released
      rcases ihWithin left with before | inside
      · rcases PairSet.contains_insert_iff.1 before with rfl | old
        · exact Or.inr (rest.subset_visited List.mem_cons_self)
        · exact Or.inl old
      · exact absurd inside unvisited
    · exact Or.inr visited

/-- When a chain is finished no mark is left that was not there before. -/
theorem contains_released {q : PairId} (writes : Writes heap link heads ending last)
    (marked : last.released.contains q = true) : link.active.contains q = true := by
  obtain ⟨left, unvisited⟩ := Link.contains_released.1 marked
  exact (writes.contains_last left).resolve_right unvisited

end Writes

/-! ## Openings -/

/-- A chain that begins at `pair`, and the pairs that are active when it is opened. -/
structure Opening where
  active : PairSet
  pair : PairId

/-- The chain before anything of it is written. -/
def Opening.link (opening : Opening) : Link := .opening opening.active opening.pair

/-- One pair further along a chain, with the head of that pair written. -/
inductive Link.Goes (heap : Heap) : Link → Link → Prop
  | plain {active : PairSet} {visited : List PairId} {p : PairId} {shape : Shape} : p ∉ visited →
    Plain (active.insert p) (heap.read p .head) shape →
    Goes heap ⟨active, visited, .pair p⟩ (.past heap visited p (active.insert p))
  | inner {active : PairSet} {visited : List PairId} {p q : PairId} {heads : List Shape}
      {ending : Ending} {bottom : Link} : p ∉ visited → heap.read p .head = .pair q →
    (active.insert p).contains q = false →
    Writes heap (.opening (active.insert p) q) heads ending bottom →
    Goes heap ⟨active, visited, .pair p⟩ (.past heap visited p bottom.released)

/-- On the rest of a chain this chain is opened. -/
inductive Link.Opens (heap : Heap) : Link → Opening → Prop
  | here {active : PairSet} {visited : List PairId} {p q : PairId} : p ∉ visited →
    heap.read p .head = .pair q → (active.insert p).contains q = false →
    Opens heap ⟨active, visited, .pair p⟩ ⟨active.insert p, q⟩
  | later {link next : Link} {opening : Opening} : link.Goes heap next →
    Opens heap next opening → Opens heap link opening

/-- The second chain is opened while the first one is written, and directly inside it. -/
def Opening.Calls (heap : Heap) (outer inner : Opening) : Prop := outer.link.Opens heap inner

/-- Some chain is opened inside itself, with the same pairs active. -/
def Reopens (heap : Heap) : Value → Prop
  | .scalar _ => False
  | .pair p => ∃ opening, Relation.ReflTransGen (Opening.Calls heap) ⟨.empty, p⟩ opening ∧
      Relation.TransGen (Opening.Calls heap) opening opening

/-! ## A chain is finished if the chains inside it are -/

/-- The rest of a chain can be written. -/
def Link.Finishes (heap : Heap) (link : Link) : Prop :=
  ∃ heads ending last, Writes heap link heads ending last

/-- The pairs that are not among those visited. -/
def unvisited (pairs visited : List PairId) : Finset PairId := pairs.toFinset \ visited.toFinset

theorem card_unvisited_cons_lt {pairs visited : List PairId} {p : PairId} (member : p ∈ pairs)
    (new : p ∉ visited) :
    (unvisited pairs (p :: visited)).card < (unvisited pairs visited).card := by
  refine Finset.card_lt_card (Finset.ssubset_iff_of_subset ?_ |>.2 ⟨p, ?_, ?_⟩)
  · intro q member
    simp only [unvisited, Finset.mem_sdiff, List.mem_toFinset, List.mem_cons] at member ⊢
    exact ⟨member.1, fun old => member.2 (Or.inr old)⟩
  · simp [unvisited, member, new]
  · simp [unvisited]

theorem finishes_of_opens {heap : Heap} {link : Link}
    (inside : ∀ opening, link.Opens heap opening → opening.link.Finishes heap) :
    link.Finishes heap := by
  -- Every pair of the chain is visited once; a dead pair has no tail to go on with.
  induction size : (unvisited heap.livePairs link.visited).card using Nat.strong_induction_on
    generalizing link with
  | _ size ih =>
    subst size
    obtain ⟨active, visited, current⟩ := link
    cases current with
    | scalar value => exact ⟨[], _, _, .stop⟩
    | pair p =>
      by_cases old : p ∈ visited
      · exact ⟨[], _, _, .reenter old⟩
      have onward : ∀ marks, Link.Goes heap ⟨active, visited, .pair p⟩ (.past heap visited p marks) →
          (Link.past heap visited p marks).Finishes heap := by
        intro marks goes
        cases live : heap.isLive p with
        | true =>
          refine ih _ (card_unvisited_cons_lt (Heap.mem_livePairs.2 live) old) ?_ rfl
          exact fun opening opens => inside opening (.later goes opens)
        | false =>
          rw [Link.past, Heap.read_of_not_isLive live]
          exact ⟨[], _, _, .stop⟩
      have visit : ∀ shape, Plain (active.insert p) (heap.read p .head) shape →
          Link.Finishes heap ⟨active, visited, .pair p⟩ := by
        intro shape head
        obtain ⟨heads, ending, last, writes⟩ := onward _ (.plain old head)
        exact ⟨_, _, _, .plain old head writes⟩
      cases read : heap.read p .head with
      | scalar value => exact visit (.scalar value) (read ▸ .scalar value)
      | pair q =>
        cases marked : (active.insert p).contains q with
        | true => exact visit .back (read ▸ .back marked)
        | false =>
          obtain ⟨within, closing, bottom, writes⟩ := inside _ (.here old read marked)
          obtain ⟨heads, ending, last, rest⟩ := onward _ (.inner old read marked writes)
          exact ⟨_, _, _, .inner old read marked writes rest⟩

/-- Inside a chain that can be written, chains are not opened inside each other for ever. -/
theorem acc_of_writes {heap : Heap} {link last : Link} {heads : List Shape} {ending : Ending}
    (writes : Writes heap link heads ending last) {opening : Opening}
    (opens : link.Opens heap opening) : Acc (flip (Opening.Calls heap)) opening := by
  induction writes generalizing opening with
  | stop =>
    cases opens with | later goes
    cases goes
  | reenter old =>
    cases opens with
    | here new => exact absurd old new
    | later goes =>
      cases goes with
      | plain new => exact absurd old new
      | inner new => exact absurd old new
  | plain _ head _ ih =>
    cases opens with
    | here _ read unmarked =>
      exact (head.false read unmarked).elim
    | later goes opens =>
      cases goes with
      | plain => exact ih opens
      | inner _ read unmarked =>
        exact (head.false read unmarked).elim
  | inner _ read unmarked within _ ihWithin ih =>
    cases opens with
    | here _ read' =>
      cases read.symm.trans read'
      exact ⟨_, fun inner calls => ihWithin calls⟩
    | later goes opens =>
      cases goes with
      | plain _ head =>
        exact (head.false read unmarked).elim
      | inner _ read' _ within' =>
        cases read.symm.trans read'
        obtain ⟨-, -, rfl⟩ := within.unique within'
        exact ih opens

theorem finishes_iff_acc {heap : Heap} {opening : Opening} :
    opening.link.Finishes heap ↔ Acc (flip (Opening.Calls heap)) opening := by
  constructor
  · intro written
    obtain ⟨heads, ending, last, writes⟩ := written
    exact ⟨_, fun inner calls => acc_of_writes writes calls⟩
  · intro acc
    induction acc with
    | intro opening _ ih => exact finishes_of_opens ih

/-! ## Finitely many openings -/

/-- The marks and the pair of an opening are among the given pairs. -/
def Opening.Within (pairs : List PairId) (opening : Opening) : Prop :=
  opening.pair ∈ pairs ∧ ∀ q, opening.active.contains q = true → q ∈ pairs

theorem finite_within (pairs : List PairId) :
    { opening | Opening.Within pairs opening }.Finite := by
  let view : Opening → Set PairId × PairId :=
    fun opening => ({ q | opening.active.contains q = true }, opening.pair)
  have finite := Set.Finite.prod pairs.finite_toSet.finite_subsets pairs.finite_toSet
  refine Set.Finite.of_finite_image (f := view) (finite.subset ?_) ?_
  · rintro _ ⟨opening, ⟨pair, active⟩, rfl⟩
    exact ⟨active, pair⟩
  · rintro ⟨active, p⟩ - ⟨active', p'⟩ - same
    obtain ⟨marks, rfl⟩ := Prod.mk.inj same
    have equal : active = active' := by
      refine PairSet.ext fun q => ?_
      rw [Bool.eq_iff_iff]
      exact iff_of_eq (congrFun marks q)
    rw [equal]

/-- The pairs that can come up when a pair is written: itself and what stands in slots. -/
def mentioned (heap : Heap) (p : PairId) : List PairId := p :: heap.slotValues.filterMap Value.pair?

theorem mem_mentioned {heap : Heap} {p q r : PairId} {slot : Slot}
    (read : heap.read q slot = .pair r) : r ∈ mentioned heap p := by
  have live : heap.isLive q = true := Heap.Child.isLive ⟨slot, read⟩
  refine List.mem_cons_of_mem _ (List.mem_filterMap.2 ⟨.pair r, ?_, rfl⟩)
  exact Heap.mem_slotValues.2 ⟨q, slot, live, read⟩

/-- The marks of a link and the pair that it has come to are among the given pairs. -/
def Link.Within (pairs : List PairId) (link : Link) : Prop :=
  (∀ p, link.current = .pair p → p ∈ pairs) ∧ ∀ q, link.active.contains q = true → q ∈ pairs

section Mentioned

variable {heap : Heap} {root : PairId} {link next : Link} {opening inner : Opening}

theorem Link.Within.insert {active : PairSet} {visited : List PairId} {p q : PairId}
    (within : Link.Within (mentioned heap root) ⟨active, visited, .pair p⟩)
    (marked : (active.insert p).contains q = true) : q ∈ mentioned heap root := by
  rcases PairSet.contains_insert_iff.1 marked with rfl | old
  · exact within.1 p rfl
  · exact within.2 q old

theorem Link.Goes.within (goes : link.Goes heap next) (within : link.Within (mentioned heap root)) :
    next.Within (mentioned heap root) := by
  cases goes with
  | @plain active visited p shape =>
    exact ⟨fun r (read : heap.read p .tail = .pair r) => mem_mentioned read, fun _ => within.insert⟩
  | @inner active visited p q heads ending bottom _ _ _ writes =>
    refine ⟨fun r (read : heap.read p .tail = .pair r) => mem_mentioned read, fun _ marked => ?_⟩
    exact within.insert (writes.contains_released marked)

theorem Link.Opens.within (opens : link.Opens heap opening)
    (within : link.Within (mentioned heap root)) : opening.Within (mentioned heap root) := by
  induction opens with
  | here _ read _ => exact ⟨mem_mentioned read, fun _ => within.insert⟩
  | later goes _ ih => exact ih (goes.within within)

theorem Opening.Calls.within (calls : opening.Calls heap inner)
    (within : opening.Within (mentioned heap root)) : inner.Within (mentioned heap root) := by
  refine Link.Opens.within calls ⟨?_, within.2⟩
  rintro p ⟨⟩
  exact within.1

end Mentioned

/-- Chains that are never opened inside themselves come to an end. -/
theorem acc_iff_not_reopens {heap : Heap} {p : PairId} :
    Acc (flip (Opening.Calls heap)) ⟨.empty, p⟩ ↔ ¬Reopens heap (.pair p) := by
  constructor
  · rintro acc ⟨opening, calls, again⟩
    refine not_transGen_of_acc ?_ again
    clear again
    induction calls with
    | refl => exact acc
    | tail _ call ih => exact ih.inv call
  · intro acyclic
    refine acc_of_finite (finite_within (mentioned heap p)) ?_ ?_
    · intro opening calls
      induction calls with
      | refl => exact ⟨List.mem_cons_self, fun q marked => by simp at marked⟩
      | tail _ call within => exact call.within within
    · exact fun opening calls again => acyclic ⟨opening, calls, again⟩

theorem exists_draws_iff {heap : Heap} {value : Value} :
    (∃ shape, Draws heap value shape) ↔ ¬Reopens heap value := by
  cases value with
  | scalar value => exact ⟨fun _ => not_false, fun _ => ⟨_, .scalar value⟩⟩
  | pair p =>
    rw [← acc_iff_not_reopens, ← finishes_iff_acc]
    constructor
    · intro drawn
      rcases drawn with ⟨_, ⟨⟩ | ⟨writes⟩⟩
      exact ⟨_, _, _, writes⟩
    · intro written
      obtain ⟨heads, ending, last, writes⟩ := written
      exact ⟨_, .pair writes⟩

/-- The texts of a value end exactly if no chain is opened inside itself. -/
theorem isSome_text_iff_not_reopens (heap : Heap) (value : Value) :
    ((structural? heap value).isSome = true ↔ ¬Reopens heap value) ∧
      ((listing? heap value).isSome = true ↔ ¬Reopens heap value) := by
  rw [isSome_structural?_iff, isSome_listing?_iff, exists_draws_iff]
  exact ⟨Iff.rfl, Iff.rfl⟩

/-! ## A text without end -/

/-- The head of `a` is a chain that runs on into `a` and `b`, and the head of `b` is `a` again. -/
structure Tangled (heap : Heap) (a b q : PairId) (value : Scalar) : Prop where
  head_a : heap.read a .head = .pair q
  tail_a : heap.read a .tail = .pair b
  head_b : heap.read b .head = .pair a
  tail_b : heap.read b .tail = .nil
  head_q : heap.read q .head = .scalar value
  tail_q : heap.read q .tail = .pair a
  distinct : a ≠ b ∧ a ≠ q ∧ b ≠ q

namespace Tangled

variable {heap : Heap} {a b q : PairId} {active : PairSet} {value : Scalar}

/-- The chain of `q` can be written, and lifts the marks of all three pairs. -/
theorem writes_inner (tangled : Tangled heap a b q value)
    (few : ∀ r, active.contains r = true → r = a ∨ r = b) :
    ∃ last, Writes heap (.opening active q) [.scalar value, .back, .back] (.stop .nil) last ∧
      last.released = .empty := by
  obtain ⟨ab, aq, bq⟩ := tangled.distinct
  set marks := ((active.insert q).insert a).insert b with made
  have last : Writes heap (.past heap [a, q] b marks) [] (.stop .nil) ⟨marks, [b, a, q], .nil⟩ := by
    rw [Link.past, tangled.tail_b]
    exact .stop
  have third : Writes heap (.past heap [q] a ((active.insert q).insert a)) [.back] (.stop .nil)
      ⟨marks, [b, a, q], .nil⟩ := by
    rw [Link.past, tangled.tail_a]
    refine .plain (by simp [ab.symm, bq]) ?_ last
    rw [tangled.head_b]
    exact .back (by simp)
  have second : Writes heap (.past heap [] q (active.insert q)) [.back, .back] (.stop .nil)
      ⟨marks, [b, a, q], .nil⟩ := by
    rw [Link.past, tangled.tail_q]
    refine .plain (by simp [aq]) ?_ third
    rw [tangled.head_a]
    exact .back (by simp)
  have first : Plain (active.insert q) (heap.read q .head) (.scalar value) := by
    rw [tangled.head_q]
    exact .scalar value
  refine ⟨_, .plain List.not_mem_nil first second, PairSet.ext fun r => ?_⟩
  rw [PairSet.contains_empty, Bool.eq_false_iff]
  intro marked
  obtain ⟨left, unvisited⟩ := Link.contains_released.1 marked
  simp only [made, PairSet.contains_insert_iff] at left
  simp only [List.mem_cons, List.not_mem_nil, or_false, not_or] at unvisited
  rcases left with same | same | same | old
  · exact unvisited.1 same.symm
  · exact unvisited.2.1 same.symm
  · exact unvisited.2.2 same.symm
  · exact (few r old).elim unvisited.2.1 unvisited.1

/-- With no mark left but that of `b`, the chain of `a` is opened again from `b`. -/
theorem calls (tangled : Tangled heap a b q value) (few : ∀ r, active.contains r = true → r = b) :
    Opening.Calls heap ⟨active, a⟩ ⟨PairSet.empty.insert b, a⟩ := by
  obtain ⟨ab, aq, bq⟩ := tangled.distinct
  have marks : ∀ r, (active.insert a).contains r = true → r = a ∨ r = b := by
    intro r marked
    rcases PairSet.contains_insert_iff.1 marked with same | old
    · exact Or.inl same.symm
    · exact Or.inr (few r old)
  have unmarked : (active.insert a).contains q = false := by
    rw [Bool.eq_false_iff]
    intro marked
    exact (marks q marked).elim aq.symm bq.symm
  obtain ⟨last, writes, released⟩ := tangled.writes_inner marks
  refine .later (.inner List.not_mem_nil tangled.head_a unmarked writes) ?_
  rw [released, Link.past, tangled.tail_a]
  exact .here (by simp [ab.symm]) tangled.head_b (by simp [ab.symm])

theorem reopens (tangled : Tangled heap a b q value) : Reopens heap (.pair a) := by
  refine ⟨⟨PairSet.empty.insert b, a⟩, .single (tangled.calls ?_), .single (tangled.calls ?_)⟩
  · simp
  · intro r marked
    rcases PairSet.contains_insert_iff.1 marked with same | none
    · exact same.symm
    · simp at none

end Tangled

/-- Three pairs that two writes turn into a tangle: neither text of the first one ends. -/
theorem endless_text_of_tangle :
    let first := Store.empty.pair .nil .nil
    let second := (first.2.retain (.pair first.1)).pair (.pair first.1) .nil
    let third := (second.2.retain (.pair first.1)).pair (.int 1) (.pair first.1)
    let store := (third.2.write first.1 .head (.pair third.1)).write first.1 .tail (.pair second.1)
    Ledger.Reached ⟨store, [.pair first.1], []⟩ ∧
      structural? store.heap (.pair first.1) = none ∧ listing? store.heap (.pair first.1) = none := by
  intro first second third store
  have made : Ledger.Reached ⟨first.2, [.pair first.1], []⟩ :=
    ((Ledger.Reached.step .refl (.literal .nil)).step (.literal .nil)).step .pair
  have made' : Ledger.Reached ⟨second.2, [.pair second.1, .pair first.1], []⟩ :=
    ((made.step (.literal .nil)).step (.copy (by simp))).step .pair
  have made'' : Ledger.Reached ⟨third.2, [.pair third.1, .pair second.1, .pair first.1], []⟩ :=
    ((made'.step (.copy (by simp))).step (.literal (.int 1))).step .pair
  have reached : Ledger.Reached ⟨store, [.pair first.1], []⟩ :=
    (made''.step (.write .head (by simp))).step (.write .tail (by simp))
  have tangled : Tangled store.heap first.1 second.1 third.1 (.int 1) := by
    constructor <;> decide +kernel
  have endless : ¬∃ shape, Draws store.heap (.pair first.1) shape :=
    fun drawn => exists_draws_iff.1 drawn tangled.reopens
  refine ⟨reached, ?_, ?_⟩
  · exact Option.not_isSome_iff_eq_none.1 fun shown => endless (isSome_structural?_iff.1 shown)
  · exact Option.not_isSome_iff_eq_none.1 fun shown => endless (isSome_listing?_iff.1 shown)

end Sexpr.Render
