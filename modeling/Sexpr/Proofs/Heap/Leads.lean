import Mathlib.Data.Set.Finite.List
import Mathlib.Logic.Relation
import Mathlib.Order.RelIso.Set
import Mathlib.Order.WellFounded
import Sexpr.Heap.Reach
import Sexpr.Proofs.Heap.Holdings

/-!
# Pairs that lead to pairs

`Heap.Leads` is the reflexive-transitive closure of `Heap.Child`, one step through a head or a
tail. `Heap.mem_reachable_iff` says that the search from given pairs finds exactly the live pairs
that they lead to.

The search is sound because it enters only children of pairs it has entered. It is complete because
all live children of the pairs it has entered are entered as well or still on its list
(`Heap.Closed`), and in the end the list is empty.

A heap is finite, so no walk in it goes on for ever without coming round (`acc_of_finite`). Followed
backwards, from each pair to one that holds it, a walk ends at a pair that no slot holds or comes
from a cycle (`Heap.exists_cycle`).
-/

namespace Sexpr

/-! ## Walks among finitely many things -/

/-- Among finitely many things, what does not come back to itself comes to an end. -/
theorem acc_of_finite {α : Type} {calls : α → α → Prop} {first : α} {among : Set α}
    (finite : among.Finite)
    (inside : ∀ later, Relation.ReflTransGen calls first later → later ∈ among)
    (acyclic : ∀ later, Relation.ReflTransGen calls first later →
      ¬Relation.TransGen calls later later) :
    Acc (flip calls) first := by
  let Later := { later // Relation.ReflTransGen calls first later }
  let below : Later → Later → Prop := fun a b => Relation.TransGen calls b.1 a.1
  have : Finite Later := finite.subset inside
  have : IsTrans Later below := ⟨fun _ _ _ ab bc => bc.trans ab⟩
  have : Std.Irrefl below := ⟨fun a => acyclic a.1 a.2⟩
  have ends : WellFounded below := Finite.wellFounded_of_trans_of_irrefl below
  have all : ∀ a : Later, Acc (flip calls) a.1 := by
    intro a
    induction a using ends.induction with
    | _ a ih => exact ⟨_, fun b call => ih ⟨b, a.2.tail call⟩ (.single call)⟩
  exact all ⟨first, .refl⟩

/-- What comes to an end does not come back to itself. -/
theorem not_transGen_of_acc {α : Type} {calls : α → α → Prop} {first : α}
    (acc : Acc (flip calls) first) : ¬Relation.TransGen calls first first := by
  induction acc with
  | intro first _ ih =>
    intro again
    obtain ⟨next, call, back⟩ := Relation.TransGen.head'_iff.1 again
    exact ih next call (Relation.TransGen.tail' back call)

namespace Heap

/-! ## Leading -/

variable {heap : Heap} {p q r : PairId} {cell : Cell}

/-- A slot of `p` holds `q`. -/
def Child (heap : Heap) (p q : PairId) : Prop := ∃ slot, heap.read p slot = .pair q

/-- `q` is reached from `p` through heads and tails. -/
def Leads (heap : Heap) : PairId → PairId → Prop := Relation.ReflTransGen heap.Child

theorem Child.isLive (child : heap.Child p q) : heap.isLive p = true := by
  obtain ⟨slot, read⟩ := child
  by_contra dead
  rw [read_of_not_isLive (Bool.eq_false_iff.2 dead)] at read
  cases read

theorem child_iff_mem_children (found : heap.get? p = some cell) :
    heap.Child p q ↔ q ∈ cell.children := by
  have pair : ∀ value : Value, value.pair? = some q ↔ value = .pair q := by
    intro value
    cases value <;> simp [Value.pair?]
  simp only [Child, read_of_get? found, Cell.children, List.mem_filterMap, List.mem_cons,
    List.not_mem_nil, or_false]
  constructor
  · intro holder
    obtain ⟨slot, holds⟩ := holder
    refine ⟨cell.get slot, ?_, (pair _).2 holds⟩
    cases slot
    · exact Or.inl rfl
    · exact Or.inr rfl
  · intro holder
    rcases holder with ⟨value, rfl | rfl, holds⟩
    · exact ⟨.head, (pair _).1 holds⟩
    · exact ⟨.tail, (pair _).1 holds⟩

theorem Leads.refl (p : PairId) : heap.Leads p p := Relation.ReflTransGen.refl

theorem Leads.trans (first : heap.Leads p q) (second : heap.Leads q r) : heap.Leads p r :=
  Relation.ReflTransGen.trans first second

theorem Child.leads (child : heap.Child p q) : heap.Leads p q := Relation.ReflTransGen.single child

/-- If every pair that leads to `p` stands in a slot, one of them is on a cycle. -/
theorem exists_cycle (live : heap.isLive p = true)
    (held : ∀ q, heap.isLive q = true → heap.Leads q p → ∃ r, heap.Child r q) :
    ∃ c, Relation.TransGen heap.Child c c ∧ heap.Leads c p := by
  by_contra acyclic
  have among : ∀ q, Relation.ReflTransGen (flip heap.Child) p q → heap.isLive q = true := by
    intro q back
    cases back with
    | refl => exact live
    | tail _ child => exact child.isLive
  have ends : Acc (flip (flip heap.Child)) p := by
    refine acc_of_finite heap.livePairs.finite_toSet (fun q back => ?_) fun q back again => ?_
    · exact mem_livePairs.2 (among q back)
    · exact acyclic ⟨q, Relation.transGen_swap.1 again, Relation.reflTransGen_swap.1 back⟩
  -- From every pair on the way back there is one more step back.
  have endless : ∀ q, Acc (flip (flip heap.Child)) q → heap.isLive q = true → ¬heap.Leads q p := by
    intro q acc
    induction acc with
    | intro q _ ih =>
      intro alive leads
      obtain ⟨r, child⟩ := held q alive leads
      exact ih r child child.isLive (child.leads.trans leads)
  exact endless p ends live (.refl p)

/-! ## The search -/

theorem enter_of_dead {seen : PairSet} {work : List PairId} (dead : heap.get? p = none) :
    heap.enter seen (p :: work) = heap.enter seen work := by
  rw [enter]
  split
  · rfl
  · next found =>
    rw [dead] at found
    cases found

theorem enter_of_known {seen : PairSet} {work : List PairId} (known : seen.contains p = true) :
    heap.enter seen (p :: work) = heap.enter seen work := by
  rw [enter]
  split
  · rfl
  · rw [dif_pos known]

theorem enter_of_new {seen : PairSet} {work : List PairId} (found : heap.get? p = some cell)
    (new : ¬seen.contains p = true) :
    heap.enter seen (p :: work) = heap.enter (seen.insert p) (cell.children ++ work) := by
  rw [enter]
  split
  case h_1 missing =>
    rw [found] at missing
    cases missing
  case h_2 found' =>
    cases found.symm.trans found'
    rw [dif_neg new]

/-- What `enter` has entered was entered before, or is led to by a pair on the list. -/
theorem leads_of_mem_enter (seen : PairSet) (work : List PairId) :
    ∀ p ∈ heap.enter seen work,
      p ∈ seen ∨ (heap.isLive p = true ∧ ∃ r ∈ work, heap.Leads r p) := by
  fun_induction enter heap seen work with
  | case1 seen => exact fun p member => Or.inl member
  | case2 seen r work _ ih | case3 seen r work _ _ _ ih =>
    intro p member
    rcases ih p member with old | ⟨live, r', listed, leads⟩
    · exact Or.inl old
    · exact Or.inr ⟨live, r', List.mem_cons_of_mem _ listed, leads⟩
  | case4 seen r work cell found _ ih =>
    intro p member
    rcases ih p member with old | ⟨live, r', listed, leads⟩
    · rw [PairSet.mem_iff, PairSet.contains_insert, Bool.or_eq_true, beq_iff_eq] at old
      rcases old with rfl | old
      · exact Or.inr ⟨isLive_eq_true_iff.2 ⟨cell, found⟩, r, List.mem_cons_self, .refl r⟩
      · exact Or.inl old
    · refine Or.inr ⟨live, ?_⟩
      rcases List.mem_append.1 listed with child | listed
      · have step := (child_iff_mem_children found).2 child
        exact ⟨r, List.mem_cons_self, step.leads.trans leads⟩
      · exact ⟨r', List.mem_cons_of_mem _ listed, leads⟩

/-- Every live child of a pair in `seen` is in `seen` or on the list. -/
def Closed (heap : Heap) (seen : PairSet) (work : List PairId) : Prop :=
  ∀ p ∈ seen, ∀ q, heap.Child p q → heap.isLive q = true → q ∈ seen ∨ q ∈ work

/-- The search forgets nothing, enters the live pairs on its list, and ends closed. -/
theorem closed_enter (seen : PairSet) (work : List PairId) (closed : heap.Closed seen work) :
    (∀ p ∈ seen, p ∈ heap.enter seen work) ∧
      (∀ p ∈ work, heap.isLive p = true → p ∈ heap.enter seen work) ∧
      heap.Closed (heap.enter seen work) [] := by
  fun_induction enter heap seen work with
  | case1 seen =>
    exact ⟨fun p member => member, fun p listed => absurd listed (List.not_mem_nil), closed⟩
  | case2 seen r work missing ih =>
    have dead : heap.isLive r = false := isLive_eq_false_iff.2 missing
    have closed : heap.Closed seen work := by
      intro p member q child live
      rcases closed p member q child live with old | listed
      · exact Or.inl old
      · rcases List.mem_cons.1 listed with rfl | listed
        · rw [dead] at live
          cases live
        · exact Or.inr listed
    obtain ⟨kept, entered, final⟩ := ih closed
    refine ⟨kept, fun p listed live => ?_, final⟩
    rcases List.mem_cons.1 listed with rfl | listed
    · rw [dead] at live
      cases live
    · exact entered p listed live
  | case3 seen r work cell found known ih =>
    have closed : heap.Closed seen work := by
      intro p member q child live
      rcases closed p member q child live with old | listed
      · exact Or.inl old
      · rcases List.mem_cons.1 listed with rfl | listed
        · exact Or.inl known
        · exact Or.inr listed
    obtain ⟨kept, entered, final⟩ := ih closed
    refine ⟨kept, fun p listed live => ?_, final⟩
    rcases List.mem_cons.1 listed with rfl | listed
    · exact kept p known
    · exact entered p listed live
  | case4 seen r work cell found _ ih =>
    have inserted : ∀ p, p ∈ seen.insert r ↔ r = p ∨ p ∈ seen := by
      intro p
      rw [PairSet.mem_iff, PairSet.contains_insert, Bool.or_eq_true, beq_iff_eq]
      rfl
    have closed : heap.Closed (seen.insert r) (cell.children ++ work) := by
      intro p member q child live
      rw [inserted, List.mem_append]
      rcases (inserted p).1 member with rfl | member
      · exact Or.inr (Or.inl ((child_iff_mem_children found).1 child))
      · rcases closed p member q child live with old | listed
        · exact Or.inl (Or.inr old)
        · rcases List.mem_cons.1 listed with rfl | listed
          · exact Or.inl (Or.inl rfl)
          · exact Or.inr (Or.inr listed)
    obtain ⟨kept, entered, final⟩ := ih closed
    refine ⟨fun p member => kept p ((inserted p).2 (Or.inr member)), fun p listed live => ?_, final⟩
    rcases List.mem_cons.1 listed with rfl | listed
    · exact kept p ((inserted p).2 (Or.inl rfl))
    · exact entered p (List.mem_append_right _ listed) live

/-- The search finds exactly the live pairs that its roots lead to. -/
theorem mem_reachable_iff {roots : List PairId} :
    p ∈ heap.reachable roots ↔ heap.isLive p = true ∧ ∃ r ∈ roots, heap.Leads r p := by
  have none : ∀ p, p ∉ PairSet.empty := by
    intro p member
    rw [PairSet.mem_iff, PairSet.contains_empty] at member
    cases member
  constructor
  · intro member
    rcases leads_of_mem_enter .empty roots p member with old | found
    · exact absurd old (none p)
    · exact found
  · intro reached
    obtain ⟨live, r, root, leads⟩ := reached
    obtain ⟨-, entered, final⟩ := closed_enter .empty roots fun p member => absurd member (none p)
    have all : ∀ q, heap.Leads r q → heap.isLive q = true → q ∈ heap.reachable roots := by
      intro q leads
      induction leads with
      | refl => exact entered r root
      | tail _ child ih =>
        intro alive
        rcases final _ (ih child.isLive) _ child alive with found | listed
        · exact found
        · cases listed
    exact all p leads live

end Heap

end Sexpr
