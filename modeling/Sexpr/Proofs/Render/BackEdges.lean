import Sexpr.Proofs.Render.Halting
import Sexpr.Proofs.Render.Lockstep

/-!
# Lists that share no tails

When a pair is written, chains begin at the pair itself and at heads of pairs that it leads to. If
no two of these chains have a pair in common (`Separate`), marks do what they are meant to do,
whatever cycles there are through heads, and through tails inside one chain:

* The active pairs are those that the frames on the stack have visited, at every moment
  (`Machine.OnCourse`). A finished chain lifts its own marks and no others.
* A head is left out exactly if its chain is on the stack. So the text is that of plain recursion
  which carries the chains that are in progress (`Recounts`).

`onCourse_texts` says both of both kinds of text. The first half is a step lemma for the machine of
drafts (`Machine.Orderly.step`), carried over to the frames of each kind. The second half builds the
shape along the chains (`exists_recounts`): there are finitely many chains, and a chain in progress
is not opened again.
-/

namespace Sexpr.Render

/-! ## Chains without common pairs -/

/-- `q` is on the chain that begins at `p`. -/
def OnChain (heap : Heap) : PairId → PairId → Prop :=
  Relation.ReflTransGen fun p q => heap.read p .tail = .pair q

/-- A chain begins at `p` when `root` is written. -/
def Begins (heap : Heap) (root p : PairId) : Prop :=
  p = root ∨ ∃ r, heap.Leads root r ∧ heap.read r .head = .pair p

/-- No two chains that begin when `root` is written have a pair in common. -/
def Separate (heap : Heap) (root : PairId) : Prop :=
  ∀ a b, Begins heap root a → Begins heap root b → a ≠ b →
    ∀ r, OnChain heap a r → ¬OnChain heap b r

section Chains

variable {heap : Heap} {root s t p q : PairId}

theorem OnChain.leads (onChain : OnChain heap p q) : heap.Leads p q := by
  induction onChain with
  | refl => exact .refl p
  | tail _ read ih => exact ih.trans (Heap.Child.leads ⟨.tail, read⟩)

theorem Begins.leads (begins : Begins heap root p) : heap.Leads root p := by
  rcases begins with rfl | ⟨r, leads, read⟩
  · exact .refl p
  · exact leads.trans (Heap.Child.leads ⟨.head, read⟩)

/-- A head on a chain begins a chain. -/
theorem Begins.head (begins : Begins heap root s) (onChain : OnChain heap s p)
    (read : heap.read p .head = .pair q) : Begins heap root q :=
  Or.inr ⟨p, begins.leads.trans onChain.leads, read⟩

theorem Begins.mem_mentioned (begins : Begins heap root p) : p ∈ mentioned heap root := by
  rcases begins with rfl | ⟨r, _, read⟩
  · exact List.mem_cons_self
  · exact Render.mem_mentioned read

theorem OnChain.mem_mentioned (onChain : OnChain heap s p) (begins : Begins heap root s) :
    p ∈ mentioned heap root := by
  cases onChain with
  | refl => exact begins.mem_mentioned
  | tail _ read => exact Render.mem_mentioned read

theorem Separate.eq_of_onChain {r : PairId} (separate : Separate heap root)
    (begins : Begins heap root s) (begins' : Begins heap root t) (onChain : OnChain heap s r)
    (onChain' : OnChain heap t r) : t = s := by
  by_contra distinct
  exact separate t s begins' begins distinct r onChain' onChain

/-- No chain runs into the beginning of another one. -/
theorem Separate.eq_start (separate : Separate heap root) (begins : Begins heap root s)
    (begins' : Begins heap root t) (onChain : OnChain heap s t) : t = s :=
  separate.eq_of_onChain begins begins' onChain .refl

end Chains

/-! ## Recursion over chains in progress -/

/-- The rest of a chain has these heads and this ending. The chains in `begun` are in progress, and
a head that is one of them is left out; the pairs in `seen` lie behind, the first one first. -/
inductive Recounts (heap : Heap) :
    List PairId → List PairId → Value → List Shape → Ending → Prop
  | stop {begun seen : List PairId} {value : Scalar} :
    Recounts heap begun seen (.scalar value) [] (.stop value)
  | reenter {begun seen : List PairId} {p : PairId} : p ∈ seen →
    Recounts heap begun seen (.pair p) [] (.reenter (seen.idxOf p))
  | scalar {begun seen : List PairId} {p : PairId} {value : Scalar} {heads : List Shape}
      {ending : Ending} : p ∉ seen → heap.read p .head = .scalar value →
    Recounts heap begun (seen ++ [p]) (heap.read p .tail) heads ending →
    Recounts heap begun seen (.pair p) (.scalar value :: heads) ending
  | back {begun seen : List PairId} {p q : PairId} {heads : List Shape} {ending : Ending} :
    p ∉ seen → heap.read p .head = .pair q → q ∈ begun →
    Recounts heap begun (seen ++ [p]) (heap.read p .tail) heads ending →
    Recounts heap begun seen (.pair p) (.back :: heads) ending
  | chain {begun seen : List PairId} {p q : PairId} {within heads : List Shape}
      {closing ending : Ending} : p ∉ seen → heap.read p .head = .pair q → q ∉ begun →
    Recounts heap (q :: begun) [] (.pair q) within closing →
    Recounts heap begun (seen ++ [p]) (heap.read p .tail) heads ending →
    Recounts heap begun seen (.pair p) (.chain within closing :: heads) ending

/-- The shape of a pair by recursion over chains in progress. -/
inductive Recounted (heap : Heap) (root : PairId) : Shape → Prop
  | intro {heads : List Shape} {ending : Ending} :
    Recounts heap [root] [] (.pair root) heads ending → Recounted heap root (.chain heads ending)

theorem Recounts.unique {heap : Heap} {begun seen : List PairId} {value : Value}
    {heads heads' : List Shape} {ending ending' : Ending}
    (recounts : Recounts heap begun seen value heads ending)
    (others : Recounts heap begun seen value heads' ending') :
    heads' = heads ∧ ending' = ending := by
  induction recounts generalizing heads' ending' with
  | stop =>
    cases others
    exact ⟨rfl, rfl⟩
  | reenter old =>
    cases others with
    | reenter => exact ⟨rfl, rfl⟩
    | scalar new | back new | chain new => exact absurd old new
  | scalar new read _ ih =>
    cases others with
    | reenter old => exact absurd old new
    | scalar _ read' rest =>
      cases read.symm.trans read'
      obtain ⟨rfl, rfl⟩ := ih rest
      exact ⟨rfl, rfl⟩
    | back _ read' | chain _ read' => cases read.symm.trans read'
  | back new read listed _ ih =>
    cases others with
    | reenter old => exact absurd old new
    | scalar _ read' => cases read.symm.trans read'
    | back _ _ _ rest =>
      obtain ⟨rfl, rfl⟩ := ih rest
      exact ⟨rfl, rfl⟩
    | chain _ read' unlisted =>
      cases read.symm.trans read'
      exact absurd listed unlisted
  | chain new read unlisted _ _ ihWithin ih =>
    cases others with
    | reenter old => exact absurd old new
    | scalar _ read' => cases read.symm.trans read'
    | back _ read' listed =>
      cases read.symm.trans read'
      exact absurd listed unlisted
    | chain _ read' _ within rest =>
      cases read.symm.trans read'
      obtain ⟨rfl, rfl⟩ := ihWithin within
      obtain ⟨rfl, rfl⟩ := ih rest
      exact ⟨rfl, rfl⟩

theorem Recounted.unique {heap : Heap} {root : PairId} {shape other : Shape}
    (recounted : Recounted heap root shape) (others : Recounted heap root other) :
    other = shape := by
  obtain ⟨recounts⟩ := recounted
  obtain ⟨recounts'⟩ := others
  obtain ⟨rfl, rfl⟩ := recounts.unique recounts'
  rfl

/-! ## Every moment of the machine -/

/-- A chain that has been visited at all begins at a visited pair. -/
theorem Draft.mem_visited_of_first? {draft : Draft} {s : PairId} (first : draft.first? = some s)
    (begun : draft.visited ≠ []) : s ∈ draft.visited := by
  rw [first?, List.getLast?_eq_some_getLast begun, Option.some_or] at first
  cases first
  exact List.getLast_mem begun

/-- The draft is of the chain that begins at `s`. -/
structure Draft.Along (heap : Heap) (root s : PairId) (draft : Draft) : Prop where
  first : draft.first? = some s
  begins : Begins heap root s
  visited : ∀ q ∈ draft.visited, OnChain heap s q
  current : ∀ q, draft.current = .pair q → OnChain heap s q

/-- The active pairs are those that the drafts on the stack have visited, and the drafts are of
chains that begin at different pairs. All but the top one have visited some pair. -/
structure Machine.Orderly (heap : Heap) (root : PairId) (machine : Machine Draft) : Prop where
  active : ∀ q, machine.active.contains q = true ↔ ∃ draft ∈ machine.stack, q ∈ draft.visited
  along : ∀ draft ∈ machine.stack, ∃ s, draft.Along heap root s
  distinct : (machine.stack.map Draft.first?).Nodup
  waiting : ∀ draft ∈ machine.stack.tail, draft.visited ≠ []

namespace Machine.Orderly

variable {heap : Heap} {root p q : PairId} {active : PairSet} {texts : List String}
  {visited : List PairId} {stack : List Draft}

theorem start (style : Style) (heap : Heap) (root : PairId) :
    (Machine.start style.format root).Orderly heap root where
  active q := by simp [Machine.start, Style.format]
  along draft member := by
    rw [List.mem_singleton.1 member]
    refine ⟨root, rfl, Or.inl rfl, by simp [Style.format], fun q same => ?_⟩
    cases same
    exact .refl
  distinct := List.nodup_singleton _
  waiting := by simp [Machine.start]

theorem visit (orderly : Machine.Orderly heap root ⟨active, ⟨texts, visited, .pair p⟩ :: stack⟩)
    (texts' : List String) :
    Machine.Orderly heap root
      ⟨active.insert p, ⟨texts', p :: visited, heap.read p .tail⟩ :: stack⟩ where
  active q := by
    have before := orderly.active q
    simp only [List.mem_cons, exists_eq_or_imp] at before ⊢
    rw [PairSet.contains_insert_iff, before, ← or_assoc, eq_comm]
  along draft member := by
    rcases List.mem_cons.1 member with rfl | below
    · obtain ⟨s, first, begins, behind, current⟩ := orderly.along _ List.mem_cons_self
      have here : OnChain heap s p := current p rfl
      refine ⟨s, (Draft.first?_visit _).trans first, begins, fun q member => ?_, fun q read => ?_⟩
      · rcases List.mem_cons.1 member with rfl | old
        · exact here
        · exact behind q old
      · exact here.tail read
    · exact orderly.along draft (List.mem_cons_of_mem _ below)
  distinct := by
    have before := orderly.distinct
    rw [List.map_cons] at before ⊢
    rwa [Draft.first?_visit]
  waiting := orderly.waiting

/-- Where every draft has visited some pair, a beginning has a mark exactly if it begins a chain on
the stack. -/
theorem contains_iff {machine : Machine Draft} (orderly : machine.Orderly heap root)
    (separate : Separate heap root) (begun : ∀ draft ∈ machine.stack, draft.visited ≠ [])
    (begins : Begins heap root q) :
    machine.active.contains q = true ↔ ∃ draft ∈ machine.stack, draft.first? = some q := by
  rw [orderly.active]
  refine exists_congr fun draft => and_congr_right fun member => ?_
  constructor
  · intro visited
    obtain ⟨s, along⟩ := orderly.along draft member
    rw [separate.eq_start along.begins begins (along.visited q visited)]
    exact along.first
  · intro first
    exact Draft.mem_visited_of_first? first (begun draft member)

/-- A head has a mark exactly if its chain is on the stack. -/
theorem contains_head_iff
    (orderly : Machine.Orderly heap root ⟨active, ⟨texts, visited, .pair p⟩ :: stack⟩)
    (separate : Separate heap root) (read : heap.read p .head = .pair q) :
    (active.insert p).contains q = true ↔
      ∃ draft ∈ (⟨texts, visited, .pair p⟩ : Draft) :: stack, draft.first? = some q := by
  obtain ⟨s, along⟩ := orderly.along _ List.mem_cons_self
  have begins := along.begins.head (along.current p rfl) read
  have begun : ∀ draft ∈ (⟨texts, p :: visited, heap.read p .tail⟩ : Draft) :: stack,
      draft.visited ≠ [] := by
    intro draft member
    rcases List.mem_cons.1 member with rfl | below
    · exact List.cons_ne_nil _ _
    · exact orderly.waiting draft below
  rw [(orderly.visit texts).contains_iff separate begun begins]
  simp only [List.mem_cons, exists_eq_or_imp]
  rw [Draft.first?_visit]

theorem descend (orderly : Machine.Orderly heap root ⟨active, ⟨texts, visited, .pair p⟩ :: stack⟩)
    (separate : Separate heap root) (read : heap.read p .head = .pair q)
    (unmarked : (active.insert p).contains q = false) (style : Style) :
    Machine.Orderly heap root ⟨active.insert p,
      style.format.start q :: ⟨texts, p :: visited, heap.read p .tail⟩ :: stack⟩ := by
  have visited := orderly.visit texts
  refine ⟨fun r => ?_, fun draft member => ?_, ?_, fun draft member => ?_⟩
  · rw [visited.active]
    simp [Style.format]
  · rcases List.mem_cons.1 member with rfl | below
    · obtain ⟨s, along⟩ := orderly.along _ List.mem_cons_self
      refine ⟨q, rfl, along.begins.head (along.current p rfl) read, by simp [Style.format], ?_⟩
      intro r same
      cases same
      exact .refl
    · exact visited.along draft below
  · refine List.nodup_cons.2 ⟨fun member => ?_, visited.distinct⟩
    obtain ⟨draft, below, first⟩ := List.mem_map.1 member
    have marked : (active.insert p).contains q = true := by
      rw [orderly.contains_head_iff separate read]
      rcases List.mem_cons.1 below with rfl | below
      · exact ⟨_, List.mem_cons_self, (Draft.first?_visit _).symm.trans first⟩
      · exact ⟨draft, List.mem_cons_of_mem _ below, first⟩
    rw [marked] at unmarked
    cases unmarked
  · rcases List.mem_cons.1 member with rfl | below
    · exact List.cons_ne_nil _ _
    · exact orderly.waiting draft below

/-- A finished chain lifts its own marks and no others. -/
theorem done {draft below : Draft}
    (orderly : Machine.Orderly heap root ⟨active, draft :: below :: stack⟩)
    (separate : Separate heap root) (style : Style) (text : String) :
    Machine.Orderly heap root
      ⟨draft.visited.foldl PairSet.erase active, style.format.resume below text :: stack⟩ := by
  have apart : ∀ other ∈ below :: stack, ∀ r ∈ other.visited, r ∉ draft.visited := by
    intro other member r visited' visited
    obtain ⟨s, along⟩ := orderly.along draft List.mem_cons_self
    obtain ⟨t, along'⟩ := orderly.along other (List.mem_cons_of_mem _ member)
    have same := separate.eq_of_onChain along.begins along'.begins (along.visited r visited)
      (along'.visited r visited')
    refine (List.nodup_cons.1 orderly.distinct).1 (List.mem_map.2 ⟨other, member, ?_⟩)
    rw [along.first, along'.first, same]
  refine ⟨fun r => ?_, fun other member => ?_, (List.nodup_cons.1 orderly.distinct).2,
    fun other member => ?_⟩
  · have lifted := @Link.contains_released ⟨active, draft.visited, draft.current⟩ r
    have marked := orderly.active r
    simp only [List.mem_cons, exists_eq_or_imp] at marked apart ⊢
    rw [Link.released] at lifted
    simp only at lifted marked
    rw [lifted, marked]
    constructor
    · rintro ⟨visited | visited | found, outside⟩
      · exact absurd visited outside
      · exact Or.inl visited
      · exact Or.inr found
    · rintro (visited | ⟨other, member, visited⟩)
      · exact ⟨Or.inr (Or.inl visited), apart below (Or.inl rfl) r visited⟩
      · exact ⟨Or.inr (Or.inr ⟨other, member, visited⟩), apart other (Or.inr member) r visited⟩
  · rcases List.mem_cons.1 member with rfl | rest
    · obtain ⟨s, along⟩ := orderly.along below (by simp)
      exact ⟨s, along.first, along.begins, along.visited, along.current⟩
    · exact orderly.along other (by simp [rest])
  · exact orderly.waiting other (List.mem_cons_of_mem _ member)

theorem step {style : Style} {machine next : Machine Draft} (orderly : machine.Orderly heap root)
    (separate : Separate heap root) (moved : machine.step style.format heap = .running next) :
    next.Orderly heap root := by
  obtain ⟨active, _ | ⟨⟨texts, visited, current⟩, stack⟩⟩ := machine
  · cases moved
  have finish : ∀ written, style.format.move heap active ⟨texts, visited, current⟩ =
      .done written visited → next.Orderly heap root := by
    intro written closes
    cases stack with
    | nil =>
      rw [step_of_done_last closes] at moved
      cases moved
    | cons below stack =>
      rw [step_of_done closes] at moved
      cases moved
      exact orderly.done separate style written
  cases current with
  | scalar value => exact finish _ (Style.move_stop value)
  | pair p =>
    by_cases old : p ∈ visited
    · exact finish _ (Style.move_reenter old)
    have write : ∀ shape, Plain (active.insert p) (heap.read p .head) shape →
        next.Orderly heap root := by
      intro shape head
      rw [step_of_visit (Style.move_plain old head)] at moved
      cases moved
      exact orderly.visit _
    cases read : heap.read p .head with
    | scalar value => exact write (.scalar value) (read ▸ .scalar value)
    | pair q =>
      cases marked : (active.insert p).contains q with
      | true => exact write .back (read ▸ .back marked)
      | false =>
        rw [step_of_descend (Style.move_inner old read marked)] at moved
        cases moved
        exact orderly.descend separate read marked style

end Machine.Orderly

/-! ## Frames of both kinds -/

/-- The draft that a frame amounts to. The texts of its heads stand at every other place among its
tokens. -/
def Structural.Frame.draft (frame : Structural.Frame) : Draft :=
  ⟨everyOther frame.tokens.toList, frame.visited, frame.current⟩

def Listing.Frame.draft (frame : Listing.Frame) : Draft :=
  ⟨everyOther frame.parts.toList, frame.visited, frame.current⟩

theorem Structural.Frame.Drafts.draft_eq {due : Nat} {frame : Structural.Frame} {draft : Draft}
    (drafts : frame.Drafts due draft) : frame.draft = draft := by
  rw [Structural.Frame.draft, drafts.tokens, everyOther_tokensOf, drafts.visited, drafts.current]

theorem Listing.Frame.Drafts.draft_eq {due : Nat} {frame : Listing.Frame} {draft : Draft}
    (drafts : frame.Drafts due draft) (few : due ≤ 1) : frame.draft = draft := by
  rw [Listing.Frame.draft, drafts.parts, everyOther_partsOf _ _ few, drafts.visited,
    drafts.current]

/-- Marks are where they belong, and a head is left out exactly if its chain is on the stack. -/
structure Machine.OnCourse {Frame : Type} (format : Format Frame) (draft : Frame → Draft)
    (heap : Heap) (machine : Machine Frame) : Prop where
  /-- The active pairs are those that the frames on the stack have visited. -/
  active : ∀ q, machine.active.contains q = true ↔
    ∃ frame ∈ machine.stack, q ∈ (draft frame).visited
  /-- The head of the next pair is left out if its chain is on the stack. -/
  dots : ∀ frame stack p q, machine.stack = frame :: stack → (draft frame).current = .pair p →
    p ∉ (draft frame).visited → heap.read p .head = .pair q →
    (∃ other ∈ machine.stack, (draft other).first? = some q) →
    ∃ next marks, format.move heap machine.active frame = .visit next marks ∧
      (draft next).texts = (draft frame).texts ++ [backEdge]
  /-- Otherwise its chain is written. -/
  opens : ∀ frame stack p q, machine.stack = frame :: stack → (draft frame).current = .pair p →
    p ∉ (draft frame).visited → heap.read p .head = .pair q →
    (¬∃ other ∈ machine.stack, (draft other).first? = some q) →
    ∃ next marks, format.move heap machine.active frame = .descend q next marks

namespace Machine

theorem Orderly.onCourse {heap : Heap} {root : PairId} {machine : Machine Draft}
    (orderly : machine.Orderly heap root) (separate : Separate heap root) (style : Style) :
    machine.OnCourse style.format id heap := by
  obtain ⟨active, drafts⟩ := machine
  refine ⟨orderly.active, ?_, ?_⟩
  · rintro ⟨texts, visited, _⟩ stack p q rfl rfl new read onStack
    have marked := (orderly.contains_head_iff separate read).2 onStack
    have head : Plain (active.insert p) (heap.read p .head) .back := read ▸ .back marked
    exact ⟨_, _, Style.move_plain new head, rfl⟩
  · rintro ⟨texts, visited, _⟩ stack p q rfl rfl new read unlisted
    have unmarked := Bool.eq_false_iff.2 (mt (orderly.contains_head_iff separate read).1 unlisted)
    exact ⟨_, _, Style.move_inner new read unmarked⟩

section Carried

variable {Frame : Type} {format : Format Frame} {style : Style} {heap : Heap}
  {ready waiting : Frame → Draft → Prop} {draft : Frame → Draft}

theorem Tracks.map_draft {machine : Machine Frame} {shadow : Machine Draft}
    (tracks : machine.Tracks ready waiting shadow)
    (atTop : ∀ frame d, ready frame d → draft frame = d)
    (below : ∀ frame d, waiting frame d → draft frame = d) :
    machine.active = shadow.active ∧ machine.stack.map draft = shadow.stack := by
  obtain @⟨active, frame, other, stack, others, related, rest⟩ := tracks
  refine ⟨rfl, ?_⟩
  rw [List.map_cons, atTop frame other related]
  congr 1
  induction rest with
  | nil => rfl
  | cons same _ ih => rw [List.map_cons, below _ _ same, ih]

/-- What holds of the drafts at every moment holds of frames that follow them. -/
theorem OnCourse.of_tracks {machine : Machine Frame} {shadow : Machine Draft}
    (onCourse : shadow.OnCourse style.format id heap)
    (follows : format.Follows style.format ready waiting)
    (tracks : machine.Tracks ready waiting shadow)
    (atTop : ∀ frame d, ready frame d → draft frame = d)
    (below : ∀ frame d, waiting frame d → draft frame = d) :
    machine.OnCourse format draft heap := by
  obtain ⟨marks, drafts⟩ := tracks.map_draft atTop below
  have onStack : ∀ property : Draft → Prop, (∃ frame ∈ machine.stack, property (draft frame)) ↔
      ∃ other ∈ shadow.stack, property other := by
    intro property
    rw [← drafts]
    simp
  obtain @⟨active, frame, other, stack, others, related, rest⟩ := tracks
  have same := follows.move heap active frame other related
  have top := atTop frame other related
  refine ⟨fun q => (onCourse.active q).trans (onStack fun d => q ∈ d.visited).symm, ?_, ?_⟩
  · rintro _ _ p q ⟨⟩ current new read listed
    rw [top] at current new ⊢
    obtain ⟨next, after, moved, texts⟩ :=
      onCourse.dots other others p q rfl current new read ((onStack (·.first? = some q)).1 listed)
    generalize moved' : format.move heap active frame = move at same
    rw [moved] at same
    cases same with | visit next'
    refine ⟨_, _, rfl, ?_⟩
    rw [atTop _ _ next']
    exact texts
  · rintro _ _ p q ⟨⟩ current new read unlisted
    rw [top] at current new
    obtain ⟨next, after, moved⟩ :=
      onCourse.opens other others p q rfl current new read
        (mt (onStack (·.first? = some q)).2 unlisted)
    generalize moved' : format.move heap active frame = move at same
    rw [moved] at same
    cases same with | descend next'
    exact ⟨_, _, rfl⟩

/-- What every step keeps holds after any number of steps. -/
theorem invariant_after {holds : Machine Frame → Prop} {machine later : Machine Frame} {steps : Nat}
    (kept : ∀ machine next, holds machine → machine.step format heap = .running next → holds next)
    (first : holds machine) (reached : machine.after format heap steps = .running later) :
    holds later := by
  induction steps generalizing machine with
  | zero =>
    cases reached
    exact first
  | succ steps ih =>
    cases moved : machine.step format heap with
    | running next =>
      rw [after_succ_of_running steps moved] at reached
      exact ih (kept machine next first moved) reached
    | finished text =>
      rw [after_succ_of_finished steps moved] at reached
      cases reached

/-- Frames that follow drafts are on course at every moment. -/
theorem onCourse_after {root : PairId} {later : Machine Frame} {steps : Nat}
    (separate : Separate heap root) (follows : format.Follows style.format ready waiting)
    (atTop : ∀ frame d, ready frame d → draft frame = d)
    (below : ∀ frame d, waiting frame d → draft frame = d)
    (reached : (Machine.start format root).after format heap steps = .running later) :
    later.OnCourse format draft heap := by
  let shadowed : Machine Frame → Prop := fun machine =>
    ∃ shadow, machine.Tracks ready waiting shadow ∧ shadow.Orderly heap root
  have first : shadowed (Machine.start format root) :=
    ⟨Machine.start style.format root, ⟨follows.start root, .nil⟩, .start style heap root⟩
  have kept : ∀ machine next, shadowed machine → machine.step format heap = .running next →
      shadowed next := by
    rintro machine next ⟨shadow, tracks, orderly⟩ moved
    have same := follows.step heap tracks
    rw [moved] at same
    generalize moved' : shadow.step style.format heap = progress at same
    cases same with | running tracks'
    exact ⟨_, tracks', orderly.step separate moved'⟩
  obtain ⟨shadow, tracks, orderly⟩ := invariant_after kept first reached
  exact (orderly.onCourse separate style).of_tracks follows tracks atTop below

end Carried

end Machine

/-! ## The shape that is written -/

/-- A chain that begins at `s` is being written while those in `begun` wait. Of the pairs at which
chains begin, those in `begun` and those visited have marks. -/
structure Link.Entered (heap : Heap) (root : PairId) (begun : List PairId) (s : PairId)
    (link : Link) : Prop where
  begins : Begins heap root s
  new : s ∉ begun
  visited : ∀ q ∈ link.visited, OnChain heap s q
  current : ∀ q, link.current = .pair q → OnChain heap s q
  first : link.current = .pair s ∨ s ∈ link.visited
  marks : ∀ t, Begins heap root t →
    (link.active.contains t = true ↔ t ∈ begun ∨ t ∈ link.visited)

/-- The chain is written as recursion over the chains in progress says, and in the end those that
wait have their marks and no others. -/
def Link.Recounts (heap : Heap) (root : PairId) (begun : List PairId) (s : PairId) (link : Link) :
    Prop :=
  ∃ heads ending last, Writes heap link heads ending last ∧
    Render.Recounts heap (s :: begun) link.visited.reverse link.current heads ending ∧
    ∀ t, Begins heap root t → (last.released.contains t = true ↔ t ∈ begun)

namespace Link.Entered

variable {heap : Heap} {root s p q : PairId} {begun visited : List PairId} {active : PairSet}
  {link : Link}

/-- The one beginning that a chain visits is its own. -/
theorem mem_visited_iff {t : PairId} (entered : link.Entered heap root begun s)
    (separate : Separate heap root) (own : s ∈ link.visited) (begins : Begins heap root t) :
    t ∈ link.visited ↔ t = s := by
  constructor
  · intro member
    exact separate.eq_start entered.begins begins (entered.visited t member)
  · intro same
    rwa [same]

theorem contains_released_iff (entered : link.Entered heap root begun s)
    (separate : Separate heap root) (own : s ∈ link.visited) :
    ∀ t, Begins heap root t → (link.released.contains t = true ↔ t ∈ begun) := by
  intro t begins
  rw [Link.contains_released, entered.marks t begins,
    entered.mem_visited_iff separate own begins]
  constructor
  · rintro ⟨waiting | same, other⟩
    · exact waiting
    · exact absurd same other
  · intro waiting
    refine ⟨Or.inl waiting, fun same => entered.new ?_⟩
    rwa [← same]

theorem mem_cons (entered : Entered heap root begun s ⟨active, visited, .pair p⟩) :
    s ∈ p :: visited := by
  rcases entered.first with same | old
  · cases same
    exact List.mem_cons_self
  · exact List.mem_cons_of_mem _ old

theorem past (entered : Entered heap root begun s ⟨active, visited, .pair p⟩) {marks : PairSet}
    (marked : ∀ t, Begins heap root t → (marks.contains t = true ↔ t ∈ begun ∨ t ∈ p :: visited)) :
    (Link.past heap visited p marks).Entered heap root begun s := by
  have here := entered.current p rfl
  refine ⟨entered.begins, entered.new, fun q member => ?_, fun q read => here.tail read,
    Or.inr entered.mem_cons, marked⟩
  rcases List.mem_cons.1 member with rfl | old
  · exact here
  · exact entered.visited q old

theorem contains_insert (entered : Entered heap root begun s ⟨active, visited, .pair p⟩) :
    ∀ t, Begins heap root t →
      ((active.insert p).contains t = true ↔ t ∈ begun ∨ t ∈ p :: visited) := by
  intro t begins
  rw [PairSet.contains_insert_iff, entered.marks t begins, List.mem_cons, eq_comm]
  exact or_left_comm

/-- With the next pair visited, the beginnings with marks are those of the chains in progress. -/
theorem contains_insert_iff (entered : Entered heap root begun s ⟨active, visited, .pair p⟩)
    (separate : Separate heap root) :
    ∀ t, Begins heap root t → ((active.insert p).contains t = true ↔ t ∈ s :: begun) := by
  intro t begins
  have own : t ∈ p :: visited ↔ t = s :=
    (entered.past entered.contains_insert).mem_visited_iff separate entered.mem_cons begins
  rw [entered.contains_insert t begins, own, List.mem_cons]
  exact or_comm

/-- The chain at the head of the next pair can be entered, if it is not in progress. -/
theorem opening (entered : Entered heap root begun s ⟨active, visited, .pair p⟩)
    (separate : Separate heap root) (read : heap.read p .head = .pair q) (new : q ∉ s :: begun) :
    (Link.opening (active.insert p) q).Entered heap root (s :: begun) q := by
  refine ⟨entered.begins.head (entered.current p rfl) read, new, by simp [Link.opening], ?_,
    Or.inl rfl, ?_⟩
  · intro r same
    cases same
    exact .refl
  · intro t begins
    rw [← entered.contains_insert_iff separate t begins]
    simp [Link.opening]

end Link.Entered

/-- A chain is written as recursion says if the chains that are opened inside it are. -/
theorem recounts_of_inner {heap : Heap} {root s : PairId} {begun : List PairId} {link : Link}
    (separate : Separate heap root) (entered : link.Entered heap root begun s)
    (inner : ∀ q later, Link.Entered heap root (s :: begun) q later →
      later.Recounts heap root (s :: begun) q) :
    link.Recounts heap root begun s := by
  -- Every pair of the chain is visited once.
  induction size : (unvisited (mentioned heap root) link.visited).card using Nat.strong_induction_on
    generalizing link with
  | _ size ih =>
    subst size
    obtain ⟨active, visited, current⟩ := link
    cases current with
    | scalar value =>
      have own : s ∈ visited := entered.first.resolve_left (by simp)
      exact ⟨[], _, _, .stop, .stop, entered.contains_released_iff separate own⟩
    | pair p =>
      by_cases old : p ∈ visited
      · have own : s ∈ visited := by
          rcases entered.first with same | own
          · cases same
            exact old
          · exact own
        refine ⟨[], _, _, .reenter old, .reenter (List.mem_reverse.2 old), ?_⟩
        exact entered.contains_released_iff separate own
      have new : p ∉ visited.reverse := mt List.mem_reverse.1 old
      have known := (entered.current p rfl).mem_mentioned entered.begins
      have small := card_unvisited_cons_lt known old
      have onward : ∀ marks, (∀ t, Begins heap root t →
          (marks.contains t = true ↔ t ∈ begun ∨ t ∈ p :: visited)) →
          ∃ heads ending last, Writes heap (.past heap visited p marks) heads ending last ∧
            Recounts heap (s :: begun) (visited.reverse ++ [p]) (heap.read p .tail) heads ending ∧
            ∀ t, Begins heap root t → (last.released.contains t = true ↔ t ∈ begun) := by
        intro marks marked
        have rest := ih _ small (entered.past marked) rfl
        rwa [Link.Recounts, Link.past, List.reverse_cons] at rest
      cases read : heap.read p .head with
      | scalar value =>
        obtain ⟨heads, ending, last, writes, recounts, left⟩ := onward _ entered.contains_insert
        exact ⟨_, _, _, .plain old (read ▸ .scalar value) writes, .scalar new read recounts, left⟩
      | pair q =>
        have begins := entered.begins.head (entered.current p rfl) read
        have marked := entered.contains_insert_iff separate q begins
        by_cases listed : q ∈ s :: begun
        · obtain ⟨heads, ending, last, writes, recounts, left⟩ := onward _ entered.contains_insert
          exact ⟨_, _, _, .plain old (read ▸ .back (marked.2 listed)) writes,
            .back new read listed recounts, left⟩
        · obtain ⟨within, closing, bottom, inside, nested, lifted⟩ :=
            inner q _ (entered.opening separate read listed)
          -- What is left of the marks is what was there before the head was opened.
          have kept : ∀ t, Begins heap root t →
              (bottom.released.contains t = true ↔ t ∈ begun ∨ t ∈ p :: visited) := by
            intro t begins
            rw [lifted t begins, ← entered.contains_insert_iff separate t begins]
            exact entered.contains_insert t begins
          obtain ⟨heads, ending, last, writes, recounts, left⟩ := onward _ kept
          have unmarked := Bool.eq_false_iff.2 (mt marked.1 listed)
          exact ⟨_, _, _, .inner old read unmarked inside writes,
            .chain new read listed nested recounts, left⟩

/-- A chain in progress is not opened again, so chains are not opened inside each other for ever. -/
theorem exists_recounts {heap : Heap} {root s : PairId} {begun : List PairId} {link : Link}
    (separate : Separate heap root) (entered : link.Entered heap root begun s) :
    link.Recounts heap root begun s := by
  induction size : (unvisited (mentioned heap root) begun).card using Nat.strong_induction_on
    generalizing begun s link with
  | _ size ih =>
    subst size
    have fewer := card_unvisited_cons_lt entered.begins.mem_mentioned entered.new
    refine recounts_of_inner separate entered fun q later entered' => ?_
    exact ih _ fewer entered' rfl

/-- What is written of a pair is what recursion over the chains in progress finds. -/
theorem exists_recounted {heap : Heap} {root : PairId} (separate : Separate heap root) :
    ∃ shape, Draws heap (.pair root) shape ∧ Recounted heap root shape := by
  have entered : (Link.opening .empty root).Entered heap root [] root := by
    refine ⟨Or.inl rfl, List.not_mem_nil, by simp [Link.opening], ?_, Or.inl rfl, ?_⟩
    · intro q same
      cases same
      exact .refl
    · intro t _
      simp [Link.opening]
  obtain ⟨heads, ending, last, writes, recounts, -⟩ := exists_recounts separate entered
  exact ⟨.chain heads ending, .pair writes, .intro recounts⟩

/-- Where lists share no tails, both machines are on course at every moment, and both texts end and
are those of the one shape that recursion over the chains in progress finds. -/
theorem onCourse_texts (heap : Heap) (root : PairId) (separate : Separate heap root) :
    (∀ steps later,
      (Machine.start Structural.format root).after Structural.format heap steps = .running later →
      later.OnCourse Structural.format Structural.Frame.draft heap) ∧
    (∀ steps later,
      (Machine.start Listing.format root).after Listing.format heap steps = .running later →
      later.OnCourse Listing.format Listing.Frame.draft heap) ∧
    ∃ shape, (∀ other, Recounted heap root other ↔ other = shape) ∧
      structural? heap (.pair root) = some shape.structural ∧
      listing? heap (.pair root) = some shape.listing := by
  obtain ⟨shape, draws, recounted⟩ := exists_recounted separate
  refine ⟨fun steps later reached => ?_, fun steps later reached => ?_, shape,
    fun other => ⟨recounted.unique, ?_⟩, ?_, ?_⟩
  · exact Machine.onCourse_after separate Structural.Frame.follows
      (fun _ _ ready => ready.draft_eq) (fun _ _ waiting => waiting.draft_eq) reached
  · exact Machine.onCourse_after separate Listing.Frame.follows
      (fun _ _ ready => ready.draft_eq (by omega)) (fun _ _ waiting => waiting.draft_eq (by omega))
      reached
  · intro same
    rw [same]
    exact recounted
  · exact structural?_eq_some_iff.2 ⟨shape, draws, rfl⟩
  · exact listing?_eq_some_iff.2 ⟨shape, draws, rfl⟩

/-- A list of two items that are one list, which has the first list as its item; the first list
comes back to itself through its last tail. -/
theorem onCourse_of_nested_ring :
    let item := Heap.empty.allocate (.pair ⟨1⟩) .nil
    let first := item.2.allocate (.pair item.1) (.pair ⟨2⟩)
    let second := first.2.allocate (.pair item.1) (.pair first.1)
    Separate second.2 first.1 ∧
      structural? second.2 (.pair first.1) =
        some "cons(cons(..., nil), cons(..., nil), recursive=True)" ∧
      listing? second.2 (.pair first.1) = some "((...) (...) ...)" := by
  intro item first second
  have inItem : ∀ r, OnChain second.2 item.1 r → r = item.1 := by
    intro r onChain
    induction onChain with
    | refl => rfl
    | tail _ read same =>
      subst same
      cases read
  have inFirst : ∀ r, OnChain second.2 first.1 r → r = first.1 ∨ r = second.1 := by
    intro r onChain
    induction onChain with
    | refl => exact Or.inl rfl
    | tail _ read member =>
      rcases member with same | same
      · subst same
        cases read
        exact Or.inr rfl
      · subst same
        cases read
        exact Or.inl rfl
  have starts : ∀ p, Begins second.2 first.1 p → p = item.1 ∨ p = first.1 := by
    rintro p (same | ⟨r, _, read⟩)
    · exact Or.inr same
    have small := Heap.lt_size_of_isLive (Heap.Child.isLive ⟨.head, read⟩)
    obtain ⟨_ | _ | _ | index⟩ := r
    · cases read
      exact Or.inr rfl
    · cases read
      exact Or.inl rfl
    · cases read
      exact Or.inl rfl
    · change index + 3 < 3 at small
      omega
  have apart : ∀ r, OnChain second.2 item.1 r → ¬OnChain second.2 first.1 r := by
    intro r onItem onFirst
    cases inItem r onItem
    rcases inFirst _ onFirst with same | same <;> cases same
  have separate : Separate second.2 first.1 := by
    intro a b begins begins' distinct r onChain onChain'
    rcases starts a begins with rfl | rfl <;> rcases starts b begins' with rfl | rfl
    · exact distinct rfl
    · exact apart r onChain onChain'
    · exact apart r onChain' onChain
    · exact distinct rfl
  obtain ⟨-, -, shape, recounted, structural, listing⟩ := onCourse_texts _ _ separate
  have drawn : shape = .chain [.chain [.back] (.stop .nil), .chain [.back] (.stop .nil)]
      (.reenter 0) := by
    refine ((recounted _).1 (.intro ?_)).symm
    have nested : Recounts second.2 [item.1, first.1] [] (.pair item.1) [.back] (.stop .nil) :=
      .back List.not_mem_nil rfl (by decide) .stop
    have last : Recounts second.2 [first.1] [first.1, second.1] (.pair first.1) [] (.reenter 0) :=
      .reenter (by decide)
    have rest : Recounts second.2 [first.1] [first.1] (.pair second.1)
        [.chain [.back] (.stop .nil)] (.reenter 0) :=
      .chain (by decide) rfl (by decide) nested last
    exact .chain List.not_mem_nil rfl (by decide) nested rest
  rw [structural, listing, drawn]
  refine ⟨separate, congrArg some ?_, congrArg some ?_⟩
  · decide +kernel
  · decide +kernel

end Sexpr.Render
