import Sexpr.Proofs.Render.Halting

/-!
# Texts without cycles through heads

Marks only matter where a head leads back to its own pair. `Unfolds` is the shape of a value as plain
recursion finds it: each chain looks at its own pairs and at nothing else, and a head is unfolded
wherever it comes up. If no head leads back to its pair (`HeadAcyclic`), then both texts end and
are those of this shape; that is `texts_of_headAcyclic`.

Two facts carry the proof. Every pair with a mark leads to the pair that is written next, so no head
has a mark (`unrolls_of_writes`). And a head leads to fewer pairs than the chain it stands in, so
chains are not opened inside each other for ever (`acc_of_headAcyclic`).
-/

namespace Sexpr.Render

/-! ## Plain recursion -/

/-- The rest of a chain has these heads and this ending; the pairs in `seen` lie behind, the first
one first. -/
inductive Unrolls (heap : Heap) : List PairId → Value → List Shape → Ending → Prop
  | stop {seen : List PairId} {value : Scalar} : Unrolls heap seen (.scalar value) [] (.stop value)
  | reenter {seen : List PairId} {p : PairId} : p ∈ seen →
    Unrolls heap seen (.pair p) [] (.reenter (seen.idxOf p))
  | scalar {seen : List PairId} {p : PairId} {value : Scalar} {heads : List Shape}
      {ending : Ending} : p ∉ seen → heap.read p .head = .scalar value →
    Unrolls heap (seen ++ [p]) (heap.read p .tail) heads ending →
    Unrolls heap seen (.pair p) (.scalar value :: heads) ending
  | chain {seen : List PairId} {p q : PairId} {within heads : List Shape}
      {closing ending : Ending} : p ∉ seen → heap.read p .head = .pair q →
    Unrolls heap [] (.pair q) within closing →
    Unrolls heap (seen ++ [p]) (heap.read p .tail) heads ending →
    Unrolls heap seen (.pair p) (.chain within closing :: heads) ending

/-- The shape of a value by plain recursion. -/
inductive Unfolds (heap : Heap) : Value → Shape → Prop
  | scalar (value : Scalar) : Unfolds heap (.scalar value) (.scalar value)
  | pair {p : PairId} {heads : List Shape} {ending : Ending} :
    Unrolls heap [] (.pair p) heads ending → Unfolds heap (.pair p) (.chain heads ending)

mutual

/-- No head in the shape is left out. -/
def Shape.Full : Shape → Prop
  | .scalar _ => True
  | .back => False
  | .chain heads _ => Shape.AllFull heads

def Shape.AllFull : List Shape → Prop
  | [] => True
  | head :: heads => head.Full ∧ Shape.AllFull heads

end

namespace Unrolls

variable {heap : Heap} {seen : List PairId} {value : Value} {heads : List Shape} {ending : Ending}

theorem unique {heads' : List Shape} {ending' : Ending}
    (unrolls : Unrolls heap seen value heads ending)
    (others : Unrolls heap seen value heads' ending') : heads' = heads ∧ ending' = ending := by
  induction unrolls generalizing heads' ending' with
  | stop =>
    cases others
    exact ⟨rfl, rfl⟩
  | reenter old =>
    cases others with
    | reenter => exact ⟨rfl, rfl⟩
    | scalar new => exact absurd old new
    | chain new => exact absurd old new
  | scalar new read _ ih =>
    cases others with
    | reenter old => exact absurd old new
    | scalar _ read' rest =>
      cases read.symm.trans read'
      obtain ⟨rfl, rfl⟩ := ih rest
      exact ⟨rfl, rfl⟩
    | chain _ read' => cases read.symm.trans read'
  | chain new read _ _ ihWithin ih =>
    cases others with
    | reenter old => exact absurd old new
    | scalar _ read' => cases read.symm.trans read'
    | chain _ read' within rest =>
      cases read.symm.trans read'
      obtain ⟨rfl, rfl⟩ := ihWithin within
      obtain ⟨rfl, rfl⟩ := ih rest
      exact ⟨rfl, rfl⟩

theorem allFull (unrolls : Unrolls heap seen value heads ending) : Shape.AllFull heads := by
  induction unrolls with
  | stop => exact trivial
  | reenter => exact trivial
  | scalar _ _ _ ih => exact ⟨trivial, ih⟩
  | chain _ _ _ _ ihWithin ih => exact ⟨ihWithin, ih⟩

end Unrolls

/-! ## Marks on the way -/

/-- No pair that the value leads to has a head that leads back to the pair. -/
def HeadAcyclic (heap : Heap) (value : Value) : Prop :=
  ∀ root p q, value = .pair root → heap.Leads root p → heap.read p .head = .pair q →
    ¬heap.Leads q p

namespace HeadAcyclic

variable {heap : Heap} {p : PairId}

theorem of_read (acyclic : HeadAcyclic heap (.pair p)) (slot : Slot) :
    HeadAcyclic heap (heap.read p slot) := by
  intro root r q held leads
  exact acyclic p r q rfl (Heap.Child.leads ⟨slot, held⟩ |>.trans leads)

end HeadAcyclic

/-- If all pairs with a mark lead to `p`, they still do when `p` has one as well. -/
theorem leads_of_contains_insert {heap : Heap} {active : PairSet} {p r : PairId}
    (marks : ∀ r, active.contains r = true → heap.Leads r p)
    (marked : (active.insert p).contains r = true) : heap.Leads r p := by
  rcases PairSet.contains_insert_iff.1 marked with same | old
  · subst same
    exact .refl p
  · exact marks r old

/-- Where no head leads back to its pair, no head has a mark. -/
theorem unrolls_of_writes {heap : Heap} {link last : Link} {heads : List Shape} {ending : Ending}
    (writes : Writes heap link heads ending last) (acyclic : HeadAcyclic heap link.current)
    (marks : ∀ r p, link.active.contains r = true → link.current = .pair p → heap.Leads r p) :
    Unrolls heap link.visited.reverse link.current heads ending := by
  induction writes with
  | stop => exact .stop
  | reenter old => exact .reenter (List.mem_reverse.2 old)
  | @plain active visited p shape heads ending last new head rest ih =>
    have entered : ∀ r, (active.insert p).contains r = true → heap.Leads r p :=
      fun r => leads_of_contains_insert fun r marked => marks r p marked rfl
    have onward := ih (acyclic.of_read .tail) fun r t marked read =>
      (entered r marked).trans (Heap.Child.leads ⟨.tail, read⟩)
    rw [Link.past, List.reverse_cons] at onward
    generalize read : heap.read p .head = value at head
    cases head with
    | scalar value => exact .scalar (mt List.mem_reverse.1 new) read onward
    | @back q marked => exact absurd (entered q marked) (acyclic p p q rfl (.refl p) read)
  | @inner active visited p q within heads closing ending bottom last new read unmarked inside rest
      ihWithin ih =>
    have entered : ∀ r, (active.insert p).contains r = true → heap.Leads r p :=
      fun r => leads_of_contains_insert fun r marked => marks r p marked rfl
    have held : HeadAcyclic heap (.pair q) := read ▸ acyclic.of_read .head
    have nested := ihWithin held fun r t marked same => by
      cases same
      exact (entered r marked).trans (Heap.Child.leads ⟨.head, read⟩)
    have onward := ih (acyclic.of_read .tail) fun r t marked read =>
      (entered r (inside.contains_released marked)).trans (Heap.Child.leads ⟨.tail, read⟩)
    rw [Link.past, List.reverse_cons] at onward
    exact .chain (mt List.mem_reverse.1 new) read nested onward

/-! ## Heads lead to fewer pairs -/

section Ranks

/-- The live pairs that a pair leads to. -/
def reach (heap : Heap) (p : PairId) : Finset PairId :=
  heap.livePairs.toFinset.filter fun q => (heap.reachable [p]).contains q = true

variable {heap : Heap} {p q r : PairId} {link next : Link} {opening : Opening}

theorem mem_reach : q ∈ reach heap p ↔ heap.isLive q = true ∧ heap.Leads p q := by
  rw [reach, Finset.mem_filter, List.mem_toFinset, Heap.mem_livePairs, ← PairSet.mem_iff,
    Heap.mem_reachable_iff]
  simp

theorem card_reach_lt (acyclic : HeadAcyclic heap (.pair p)) (leads : heap.Leads p r)
    (read : heap.read r .head = .pair q) : (reach heap q).card < (reach heap p).card := by
  have live : heap.isLive r = true := Heap.Child.isLive ⟨.head, read⟩
  refine Finset.card_lt_card ((Finset.ssubset_iff_of_subset ?_).2 ⟨r, ?_, ?_⟩)
  · intro s member
    obtain ⟨alive, onward⟩ := mem_reach.1 member
    exact mem_reach.2 ⟨alive, leads.trans ((Heap.Child.leads ⟨.head, read⟩).trans onward)⟩
  · exact mem_reach.2 ⟨live, leads⟩
  · intro member
    exact acyclic p r q rfl leads read (mem_reach.1 member).2

/-- A chain is opened at the head of a pair further along. -/
theorem Link.Opens.exists_leads (opens : link.Opens heap opening) : ∃ p r, link.current = .pair p ∧
    heap.Leads p r ∧ heap.read r .head = .pair opening.pair := by
  induction opens with
  | @here active visited p q _ read _ => exact ⟨p, p, rfl, .refl p, read⟩
  | later goes _ ih =>
    obtain ⟨t, r, held, leads, read⟩ := ih
    cases goes with
    | @plain active visited p =>
      exact ⟨p, r, rfl, (Heap.Child.leads ⟨.tail, held⟩).trans leads, read⟩
    | @inner active visited p =>
      exact ⟨p, r, rfl, (Heap.Child.leads ⟨.tail, held⟩).trans leads, read⟩

theorem acc_of_headAcyclic (opening : Opening) (acyclic : HeadAcyclic heap (.pair opening.pair)) :
    Acc (flip (Opening.Calls heap)) opening := by
  induction size : (reach heap opening.pair).card using Nat.strong_induction_on
    generalizing opening with
  | _ size ih =>
    subst size
    refine ⟨_, fun inner calls => ?_⟩
    obtain ⟨p, r, held, leads, read⟩ := Link.Opens.exists_leads calls
    cases held
    refine ih _ (card_reach_lt acyclic leads read) inner ?_ rfl
    intro root s q same onward
    cases same
    exact acyclic _ s q rfl (leads.trans ((Heap.Child.leads ⟨.head, read⟩).trans onward))

end Ranks

/-! ## The texts -/

theorem exists_unfolds {heap : Heap} {value : Value} (acyclic : HeadAcyclic heap value) :
    ∃ shape, Draws heap value shape ∧ Unfolds heap value shape := by
  cases value with
  | scalar value => exact ⟨.scalar value, .scalar value, .scalar value⟩
  | pair p =>
    obtain ⟨heads, ending, last, writes⟩ :=
      finishes_iff_acc.2 (acc_of_headAcyclic ⟨.empty, p⟩ acyclic)
    have unrolls := unrolls_of_writes writes acyclic fun r _ marked => by
      simp [Opening.link, Link.opening] at marked
    exact ⟨.chain heads ending, .pair writes, .pair unrolls⟩

theorem Unfolds.unique {heap : Heap} {value : Value} {shape other : Shape}
    (unfolds : Unfolds heap value shape) (others : Unfolds heap value other) : other = shape := by
  cases unfolds with
  | scalar value =>
    cases others
    rfl
  | pair unrolls =>
    cases others with | pair unrolls'
    obtain ⟨rfl, rfl⟩ := unrolls.unique unrolls'
    rfl

theorem Unfolds.full {heap : Heap} {value : Value} {shape : Shape}
    (unfolds : Unfolds heap value shape) : shape.Full := by
  cases unfolds with
  | scalar value => exact trivial
  | pair unrolls => exact unrolls.allFull

/-- Without cycles through heads, both texts end, and they are the texts of the one shape that plain
recursion finds. No head is left out. -/
theorem texts_of_headAcyclic (heap : Heap) (value : Value) (acyclic : HeadAcyclic heap value) :
    ∃ shape, (∀ other, Unfolds heap value other ↔ other = shape) ∧ shape.Full ∧
      structural? heap value = some shape.structural ∧
      listing? heap value = some shape.listing := by
  obtain ⟨shape, draws, unfolds⟩ := exists_unfolds acyclic
  refine ⟨shape, fun other => ⟨unfolds.unique, ?_⟩, unfolds.full, ?_, ?_⟩
  · intro same
    rw [same]
    exact unfolds
  · exact structural?_eq_some_iff.2 ⟨shape, draws, rfl⟩
  · exact listing?_eq_some_iff.2 ⟨shape, draws, rfl⟩

/-- A chain of two pairs with one list as both heads, whose last tail leads back to the second. The
list has a text as its item and another text behind its dot, both with a quote inside. -/
theorem texts_of_shared_head :
    let head := Heap.empty.allocate (.scalar (.text "a\"b")) (.scalar (.text "c\"d"))
    let first := head.2.allocate (.pair head.1) (.pair ⟨2⟩)
    let second := first.2.allocate (.pair head.1) (.pair ⟨2⟩)
    HeadAcyclic second.2 (.pair first.1) ∧
      structural? second.2 (.pair first.1) =
        some ("cons(cons(\"a\\\"b\", \"c\\\"d\"), " ++
          "cons(cons(\"a\\\"b\", \"c\\\"d\"), recursive=True))") ∧
      listing? second.2 (.pair first.1) =
        some "((\"a\\\"b\" . c\"d) (\"a\\\"b\" . c\"d) ...)" := by
  intro head first second
  have alone : ∀ q, second.2.Leads head.1 q → q = head.1 := by
    intro q leads
    rcases Relation.ReflTransGen.cases_head leads with same | ⟨next, child, _⟩
    · exact same.symm
    · obtain ⟨slot, read⟩ := child
      cases slot <;> cases read
  have acyclic : HeadAcyclic second.2 (.pair first.1) := by
    intro root p q same leads read back
    have small := Heap.lt_size_of_isLive (Heap.Child.isLive ⟨.head, read⟩)
    obtain ⟨_ | _ | _ | index⟩ := p
    · cases read
    · cases read
      cases alone _ back
    · cases read
      cases alone _ back
    · change index + 3 < 3 at small
      omega
  obtain ⟨shape, unfolds, -, structural, listing⟩ := texts_of_headAcyclic _ _ acyclic
  have drawn : shape = .chain [.chain [.scalar (.text "a\"b")] (.stop (.text "c\"d")),
      .chain [.scalar (.text "a\"b")] (.stop (.text "c\"d"))] (.reenter 1) := by
    refine ((unfolds _).1 (.pair ?_)).symm
    have item : Unrolls second.2 [] (.pair head.1) [.scalar (.text "a\"b")]
        (.stop (.text "c\"d")) :=
      .scalar List.not_mem_nil rfl .stop
    have last : Unrolls second.2 [first.1, second.1] (.pair second.1) [] (.reenter 1) :=
      .reenter (by decide)
    have rest : Unrolls second.2 [first.1] (.pair second.1)
        [.chain [.scalar (.text "a\"b")] (.stop (.text "c\"d"))] (.reenter 1) :=
      .chain (by decide) rfl item last
    exact .chain List.not_mem_nil rfl item rest
  rw [structural, listing, drawn]
  refine ⟨acyclic, congrArg some ?_, congrArg some ?_⟩
  · decide +kernel
  · decide +kernel

end Sexpr.Render
