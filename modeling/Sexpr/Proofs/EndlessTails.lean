import Sexpr.Proofs.Heap.Tails
import Sexpr.Proofs.Store.Sweep

/-!
# Tails that come round and tails that end

`Heap.isEndless` follows tails until there is no further pair, or a pair that it has passed before.
`Heap.TellsEndless` says what its answer means: tails come round exactly if they never end, and
otherwise they end behind pairs that are all different. Heads have no part in it, so cycles that go
through a head do not count.

`Follows` is the invariant of the walk: what was passed are the first pairs along the tails, all of
them different (`stopped_follow`). As there are finitely many live pairs, the walk has to stop.
Where it stops at a pair that it has passed, the pairs from there on are a period, and tails that
have a period never end (`Revisits.endless`).
-/

namespace Sexpr.Heap

variable {heap : Heap} {p : PairId} {start value : Value} {passed : List PairId}

/-! ## Coming round and coming to an end -/

/-- The tails of a value come to one and the same pair twice. -/
def Revisits (heap : Heap) (value : Value) : Prop :=
  ∃ first second q, first < second ∧
    heap.behind^[first] value = .pair q ∧ heap.behind^[second] value = .pair q

/-- The tails of a value go through some pairs, all of them different, and end behind the last. -/
def Ends (heap : Heap) (value : Value) : Prop :=
  ∃ (pairs : List PairId) (last : Scalar), pairs.Nodup ∧
    (∀ index q, pairs[index]? = some q → heap.behind^[index] value = .pair q) ∧
    heap.behind^[pairs.length] value = .scalar last

theorem Ends.not_endless (ends : heap.Ends value) : ¬heap.Endless value := by
  obtain ⟨pairs, last, _, _, stop⟩ := ends
  intro endless
  have pair := endless pairs.length
  rw [stop] at pair
  cases pair

/-- Where tails have ended nothing else comes. -/
theorem iterate_behind_of_le {n m : Nat} {last : Scalar}
    (stop : heap.behind^[n] value = .scalar last) (later : n ≤ m) :
    heap.behind^[m] value = .scalar last := by
  rw [← Nat.sub_add_cancel later, Function.iterate_add_apply, stop]
  exact Function.iterate_fixed rfl _

/-- A pair that comes again comes again and again, so there is no end. -/
theorem Revisits.endless (revisits : heap.Revisits value) : heap.Endless value := by
  obtain ⟨first, second, q, earlier, here, again⟩ := revisits
  obtain ⟨round, rfl⟩ := Nat.exists_eq_add_of_lt earlier
  have back : heap.behind^[round + 1] (.pair q) = .pair q := by
    rw [← here, ← Function.iterate_add_apply, Nat.add_comm, ← Nat.add_assoc, again, here]
  intro n
  cases stop : heap.behind^[n] value with
  | pair r => rfl
  | scalar s =>
    -- After `n` rounds the walk is at `q`, but it has gone beyond the end by then.
    have rounds : heap.behind^[(round + 1) * n + first] value = .pair q := by
      rw [Function.iterate_add_apply, here, Function.iterate_mul]
      exact Function.iterate_fixed back n
    have far : n ≤ (round + 1) * n + first := by
      have longer : n ≤ (round + 1) * n := Nat.le_mul_of_pos_left n (Nat.succ_pos round)
      omega
    have beyond := iterate_behind_of_le stop far
    rw [rounds] at beyond
    cases beyond

/-! ## The walk -/

/-- The pairs in `passed`, the last one first, are the first pairs along the tails of `start`; they
are all different, and `value` stands behind them. -/
structure Follows (heap : Heap) (start : Value) (passed : List PairId) (value : Value) : Prop where
  passes : ∀ index q, passed.reverse[index]? = some q → heap.behind^[index] start = .pair q
  reaches : heap.behind^[passed.length] start = value
  distinct : passed.Nodup

namespace Follows

theorem of_start (heap : Heap) (start : Value) : heap.Follows start [] start where
  passes index q found := by simp at found
  reaches := rfl
  distinct := List.nodup_nil

theorem pass (follows : heap.Follows start passed (.pair p)) (new : p ∉ passed) :
    heap.Follows start (p :: passed) (heap.read p .tail) where
  passes index q found := by
    rw [List.reverse_cons] at found
    by_cases old : index < passed.reverse.length
    · rw [List.getElem?_append_left old] at found
      exact follows.passes index q found
    · rw [List.getElem?_append_right (Nat.le_of_not_lt old), List.getElem?_singleton] at found
      split at found
      case isTrue first =>
        cases found
        rw [List.length_reverse] at old first
        have last : index = passed.length := by omega
        rw [last]
        exact follows.reaches
      case isFalse => cases found
  reaches := by
    rw [List.length_cons, Function.iterate_succ_apply', follows.reaches]
    rfl
  distinct := List.nodup_cons.2 ⟨new, follows.distinct⟩

/-- A pair that was passed and comes next is a pair that comes twice. -/
theorem revisits (follows : heap.Follows start passed (.pair p)) (known : p ∈ passed) :
    heap.Revisits start := by
  obtain ⟨index, small, found⟩ := List.getElem_of_mem (List.mem_reverse.2 known)
  rw [List.length_reverse] at small
  have before := follows.passes index p (List.getElem?_eq_some_iff.2 ⟨_, found⟩)
  exact ⟨index, passed.length, p, small, before, follows.reaches⟩

theorem ends {last : Scalar} (follows : heap.Follows start passed (.scalar last)) :
    heap.Ends start := by
  refine ⟨passed.reverse, last, List.nodup_reverse.2 follows.distinct, follows.passes, ?_⟩
  rw [List.length_reverse]
  exact follows.reaches

end Follows

/-- Different live pairs are no more than there are live pairs. -/
theorem length_le_liveCount (distinct : passed.Nodup)
    (live : ∀ q ∈ passed, heap.isLive q = true) : passed.length ≤ heap.liveCount := by
  have inside : passed ⊆ heap.livePairs := fun q member => mem_livePairs.2 (live q member)
  rw [← length_livePairs]
  exact (distinct.subperm inside).length_le

/-- What a walk along the tails of `start` has found out where it stops. -/
structure Stopped (heap : Heap) (start : Value) (trail : Trail) : Prop where
  follows : heap.Follows start trail.pairs trail.stop
  /-- Each live pair is passed once at most. -/
  bounded : trail.pairs.length ≤ heap.liveCount + 1
  /-- The walk does not stop before a pair that it has not passed. -/
  known : ∀ q, trail.stop = .pair q → q ∈ trail.pairs

theorem stopped_followFrom {seen : PairSet} (follows : heap.Follows start passed value)
    (same : ∀ q, seen.contains q = true ↔ q ∈ passed)
    (live : ∀ q ∈ passed, heap.isLive q = true) :
    heap.Stopped start (heap.followFrom .tail seen passed value) := by
  fun_induction followFrom heap .tail seen passed value with
  | case1 seen passed s =>
    have bound := length_le_liveCount follows.distinct live
    exact ⟨follows, Nat.le_succ_of_le bound, fun q stop => by cases stop⟩
  | case2 seen passed p missing =>
    have dead : heap.isLive p = false := isLive_eq_false_iff.2 missing
    have new : p ∉ passed := by
      intro member
      rw [live p member] at dead
      cases dead
    have bound := length_le_liveCount follows.distinct live
    have onward := follows.pass new
    rw [read_of_not_isLive dead] at onward
    exact ⟨onward, Nat.succ_le_succ bound, fun q stop => by cases stop⟩
  | case3 seen passed p cell found known =>
    have bound := length_le_liveCount follows.distinct live
    refine ⟨follows, Nat.le_succ_of_le bound, fun q stop => ?_⟩
    cases stop
    exact (same p).1 known
  | case4 seen passed p cell found new ih =>
    have onward := follows.pass fun member => new ((same p).2 member)
    rw [read_of_get? found] at onward
    apply ih onward
    · intro q
      rw [PairSet.contains_insert_iff, List.mem_cons, same q, eq_comm]
    · intro q member
      rcases List.mem_cons.1 member with rfl | member
      · exact isLive_eq_true_iff.2 ⟨cell, found⟩
      · exact live q member

theorem stopped_follow (heap : Heap) (p : PairId) :
    heap.Stopped (.pair p) (heap.follow .tail p) := by
  apply stopped_followFrom (.of_start heap (.pair p))
  · simp
  · simp

theorem revisits_of_isEndless (again : heap.isEndless p = true) : heap.Revisits (.pair p) := by
  have stopped := heap.stopped_follow p
  unfold isEndless at again
  cases stop : (heap.follow .tail p).stop with
  | scalar s =>
    rw [stop] at again
    cases again
  | pair q =>
    have follows := stopped.follows
    rw [stop] at follows
    exact follows.revisits (stopped.known q stop)

theorem ends_of_isEndless (stops : heap.isEndless p = false) : heap.Ends (.pair p) := by
  have follows := (heap.stopped_follow p).follows
  unfold isEndless at stops
  cases stop : (heap.follow .tail p).stop with
  | scalar s =>
    rw [stop] at follows
    exact follows.ends
  | pair q =>
    rw [stop] at stops
    cases stops

/-! ## The answer -/

/-- What `isEndless` says of a pair, and how far it goes to find out. -/
structure TellsEndless (heap : Heap) (p : PairId) : Prop where
  /-- The walk stops: it passes pairs along the tails that are all different, at most one of them
  dead. -/
  halts : heap.Follows (.pair p) (heap.follow .tail p).pairs (heap.follow .tail p).stop ∧
    (heap.follow .tail p).pairs.length ≤ heap.liveCount + 1
  /-- The answer is yes exactly if there is a further pair however far one goes. -/
  endless : heap.isEndless p = true ↔ ∀ n, (heap.behind^[n] (.pair p)).isPair = true
  revisits : heap.isEndless p = true ↔ heap.Revisits (.pair p)
  ends : heap.isEndless p = false ↔ heap.Ends (.pair p)
  /-- Pairs with the same tails give the same answer, whatever their heads hold. -/
  anyHeads : ∀ other : Heap, (∀ q, other.read q .tail = heap.read q .tail) →
    other.isEndless p = heap.isEndless p

/-- In every heap and for every pair, the walk along tails stops with the right answer. -/
theorem tellsEndless (heap : Heap) (p : PairId) : heap.TellsEndless p where
  halts := ⟨(heap.stopped_follow p).follows, (heap.stopped_follow p).bounded⟩
  endless := isEndless_iff
  revisits := ⟨revisits_of_isEndless, fun revisits => isEndless_iff.2 revisits.endless⟩
  ends := by
    constructor
    · exact ends_of_isEndless
    · intro ends
      rw [Bool.eq_false_iff]
      exact fun again => ends.not_endless (isEndless_iff.1 again)
  anyHeads other same := by
    have alike : other.Endless (.pair p) ↔ heap.Endless (.pair p) := by
      apply endless_congr fun _ => True
      · exact fun _ _ _ _ => trivial
      · exact fun q _ => same q
      · exact fun _ _ => trivial
    rw [Bool.eq_iff_iff, isEndless_iff, isEndless_iff, alike]

-- A pair that is its own head has an end; the pair in front of a ring has none.
example : isEndless ⟨#[some ⟨.pair ⟨0⟩, .nil, none, 1⟩]⟩ ⟨0⟩ = false := by decide +kernel

example : isEndless ⟨#[some ⟨.nil, .pair ⟨1⟩, none, 1⟩, some ⟨.nil, .pair ⟨1⟩, none, 2⟩]⟩ ⟨0⟩ =
    true := by decide +kernel

end Sexpr.Heap
