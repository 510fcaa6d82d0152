import Mathlib.Data.List.Forall2
import Sexpr.Proofs.Render.Tokens

/-!
# One machine for both texts

`Machine.Halts` is a run of a machine to its end; `text?_eq_some_iff` says that a machine has a text
exactly if it halts. `Format.Follows` relates two formats move by move, and `Follows.halts` carries
runs over from one to the other.

The frames of the two kinds of text keep different records of the pairs that they have visited and
put their texts together from other pieces, but they make the same moves. A `Draft` keeps only what
the moves depend on and the texts of the heads so far, and a `Style` says how scalars and chains are
written. Both formats follow the format of their style:

* `structural?_pair`: structural texts are those of `Style.structural`.
* `listing?_pair`: list texts are those of `Style.listing`.
-/

namespace Sexpr.Render

/-! ## Runs -/

namespace Machine

variable {Frame : Type} {format : Format Frame} {heap : Heap}

/-- The machine comes to an end, with this text. -/
inductive Halts (format : Format Frame) (heap : Heap) : Machine Frame → String → Prop
  | finished {machine : Machine Frame} {text : String} :
    machine.step format heap = .finished text → Halts format heap machine text
  | running {machine next : Machine Frame} {text : String} :
    machine.step format heap = .running next → Halts format heap next text →
    Halts format heap machine text

theorem text?_eq_some_iff {machine : Machine Frame} {text : String} :
    machine.text? format heap = some text ↔ machine.Halts format heap text := by
  constructor
  · refine text?.partial_correctness format heap _ ?_ machine text
    intro later ih machine text
    cases moved : machine.step format heap with
    | running next => exact fun found => .running moved (ih next text found)
    | finished written =>
      intro found
      cases found
      exact .finished moved
  · intro halts
    induction halts with
    | finished moved => rw [text?, moved]
    | running moved _ ih =>
      rw [text?, moved]
      exact ih

/-! What a machine does is what its top frame does. -/

variable {active marks : PairSet} {frame next below : Frame} {stack : List Frame} {text : String}
  {visited : List PairId}

theorem step_of_visit (moved : format.move heap active frame = .visit next marks) :
    step format heap ⟨active, frame :: stack⟩ = .running ⟨marks, next :: stack⟩ := by
  simp only [step, moved]

theorem step_of_descend {head : PairId}
    (moved : format.move heap active frame = .descend head next marks) :
    step format heap ⟨active, frame :: stack⟩ =
      .running ⟨marks, format.start head :: next :: stack⟩ := by
  simp only [step, moved]

theorem step_of_done_last (moved : format.move heap active frame = .done text visited) :
    step format heap ⟨active, [frame]⟩ = .finished text := by
  simp only [step, moved]

theorem step_of_done (moved : format.move heap active frame = .done text visited) :
    step format heap ⟨active, frame :: below :: stack⟩ =
      .running ⟨visited.foldl PairSet.erase active, format.resume below text :: stack⟩ := by
  simp only [step, moved]

end Machine

/-! ## Formats that make the same moves -/

/-- Two moves of the same kind, to related frames. -/
inductive Move.Matches {Frame Other : Type} (ready waiting : Frame → Other → Prop) :
    Move Frame → Move Other → Prop
  | visit {frame : Frame} {other : Other} {active : PairSet} :
    ready frame other → Matches ready waiting (.visit frame active) (.visit other active)
  | descend {head : PairId} {frame : Frame} {other : Other} {active : PairSet} :
    waiting frame other →
    Matches ready waiting (.descend head frame active) (.descend head other active)
  | done {text : String} {visited : List PairId} :
    Matches ready waiting (.done text visited) (.done text visited)

/-- Related frames make the same moves. The frames below the top of the stack wait for a head, and
are related in another way than those that are about to move. -/
structure Format.Follows {Frame Other : Type} (format : Format Frame) (model : Format Other)
    (ready waiting : Frame → Other → Prop) : Prop where
  start : ∀ p, ready (format.start p) (model.start p)
  move : ∀ heap active frame other, ready frame other →
    (format.move heap active frame).Matches ready waiting (model.move heap active other)
  resume : ∀ frame other text, waiting frame other →
    ready (format.resume frame text) (model.resume other text)

/-- The top frames are ready, those below are waiting. -/
inductive Machine.Tracks {Frame Other : Type} (ready waiting : Frame → Other → Prop) :
    Machine Frame → Machine Other → Prop
  | intro {active : PairSet} {frame : Frame} {other : Other} {stack : List Frame}
      {others : List Other} : ready frame other → List.Forall₂ waiting stack others →
    Tracks ready waiting ⟨active, frame :: stack⟩ ⟨active, other :: others⟩

/-- Both machines have finished with the same text, or both go on. -/
inductive Progress.Matches {Frame Other : Type}
    (related : Machine Frame → Machine Other → Prop) : Progress Frame → Progress Other → Prop
  | running {machine : Machine Frame} {model : Machine Other} :
    related machine model → Matches related (.running machine) (.running model)
  | finished {text : String} : Matches related (.finished text) (.finished text)

theorem Progress.Matches.flip {Frame Other : Type} {related : Machine Frame → Machine Other → Prop}
    {progress : Progress Frame} {other : Progress Other} (same : progress.Matches related other) :
    other.Matches (flip related) progress := by
  cases same with
  | running next => exact .running next
  | finished => exact .finished

/-- A run is carried over by a relation that steps preserve. -/
theorem Machine.Halts.transfer {Frame Other : Type} {format : Format Frame} {model : Format Other}
    {related : Machine Frame → Machine Other → Prop} {heap : Heap} {machine : Machine Frame}
    {shadow : Machine Other} {text : String}
    (steps : ∀ machine shadow, related machine shadow →
      (machine.step format heap).Matches related (shadow.step model heap))
    (halts : machine.Halts format heap text) (tracks : related machine shadow) :
    shadow.Halts model heap text := by
  induction halts generalizing shadow with
  | finished moved =>
    have same := steps _ _ tracks
    rw [moved] at same
    generalize shadowed : shadow.step model heap = progress at same
    cases same
    exact .finished shadowed
  | running moved _ ih =>
    have same := steps _ _ tracks
    rw [moved] at same
    generalize shadowed : shadow.step model heap = progress at same
    obtain next | _ := same
    exact .running shadowed (ih next)

namespace Format.Follows

variable {Frame Other : Type} {format : Format Frame} {model : Format Other}
  {ready waiting : Frame → Other → Prop} {heap : Heap}

theorem step (follows : format.Follows model ready waiting) (heap : Heap)
    {machine : Machine Frame} {shadow : Machine Other}
    (tracks : machine.Tracks ready waiting shadow) :
    (machine.step format heap).Matches (Machine.Tracks ready waiting)
      (shadow.step model heap) := by
  obtain @⟨active, frame, other, stack, others, related, below⟩ := tracks
  have same := follows.move heap active frame other related
  generalize moved : format.move heap active frame = move at same
  generalize moved' : model.move heap active other = move' at same
  cases same with
  | visit next =>
    rw [Machine.step_of_visit moved, Machine.step_of_visit moved']
    exact .running ⟨next, below⟩
  | descend next =>
    rw [Machine.step_of_descend moved, Machine.step_of_descend moved']
    exact .running ⟨follows.start _, .cons next below⟩
  | done =>
    cases below with
    | nil =>
      rw [Machine.step_of_done_last moved, Machine.step_of_done_last moved']
      exact .finished
    | cons next rest =>
      rw [Machine.step_of_done moved, Machine.step_of_done moved']
      exact .running ⟨follows.resume _ _ _ next, rest⟩

theorem halts (follows : format.Follows model ready waiting) {machine : Machine Frame}
    {shadow : Machine Other} {text : String} (tracks : machine.Tracks ready waiting shadow) :
    machine.Halts format heap text ↔ shadow.Halts model heap text := by
  constructor
  · intro halts
    exact halts.transfer (fun _ _ => follows.step heap) tracks
  · intro halts
    have flipped : flip (Machine.Tracks ready waiting) shadow machine := tracks
    exact halts.transfer (fun _ _ same => (follows.step heap same).flip) flipped

end Format.Follows

/-! ## Drafts -/

/-- How scalars stand as heads of a chain, and how a chain is written with the texts of its heads. -/
structure Style where
  scalar : Scalar → String
  chain : List String → Ending → String

/-- A chain that is being written, with nothing but what its further moves depend on. -/
structure Draft where
  texts : List String
  /-- The pairs visited, the last one first. -/
  visited : List PairId
  /-- What the last tail holds. -/
  current : Value

namespace Draft

/-- The pair that a chain begins at. -/
def first? (draft : Draft) : Option PairId := draft.visited.getLast?.or draft.current.pair?

theorem first?_visit {texts texts' : List String} {visited : List PairId} {p : PairId}
    (tail : Value) : first? ⟨texts', p :: visited, tail⟩ = first? ⟨texts, visited, .pair p⟩ := by
  cases visited with
  | nil => rfl
  | cons r visited =>
    have last := List.getLast?_eq_some_getLast (List.cons_ne_nil r visited)
    simp only [first?, List.getLast?_cons_cons, last, Option.some_or]

/-- Of the pairs visited the chain begins at the one that has none before it. -/
theorem beq_first {draft : Draft} {s p : PairId} (first : draft.first? = some s)
    (old : p ∈ draft.visited) : (p == s) = (draft.visited.reverse.idxOf p == 0) := by
  rw [first?, List.getLast?_eq_some_getLast (List.ne_nil_of_mem old), Option.some_or,
    ← List.getLast?_eq_some_getLast, ← List.head?_reverse] at first
  obtain ⟨rest, front⟩ := List.head?_eq_some_iff.1 first
  rw [front, List.idxOf_cons, Bool.beq_comm]
  cases s == p <;> rfl

end Draft

namespace Style

/-- One move along a chain. -/
def move (style : Style) (heap : Heap) (active : PairSet) (draft : Draft) : Move Draft :=
  match draft.current with
  | .scalar value => .done (style.chain draft.texts (.stop value)) draft.visited
  | .pair p =>
    if p ∈ draft.visited then
      .done (style.chain draft.texts (.reenter (draft.visited.reverse.idxOf p))) draft.visited
    else
      match heap.read p .head with
      | .scalar value =>
        .visit ⟨draft.texts ++ [style.scalar value], p :: draft.visited, heap.read p .tail⟩
          (active.insert p)
      | .pair q =>
        if (active.insert p).contains q then
          .visit ⟨draft.texts ++ [backEdge], p :: draft.visited, heap.read p .tail⟩
            (active.insert p)
        else .descend q ⟨draft.texts, p :: draft.visited, heap.read p .tail⟩ (active.insert p)

/-- The frames of a style. -/
def format (style : Style) : Format Draft :=
  ⟨fun p => ⟨[], [], .pair p⟩, style.move, fun draft text =>
    { draft with texts := draft.texts ++ [text] }⟩

def structural : Style := ⟨Scalar.structural, Structural.chainText⟩

def listing : Style where
  scalar := Scalar.item
  chain
    | texts, .stop value => Listing.chainText texts (Listing.endText value)
    | texts, .reenter _ => Listing.chainText texts " ..."

end Style

/-! ## Structural texts -/

namespace Structural.Frame

/-- The frame has the tokens of the draft and knows the visited pairs, each with the place of its
head. The texts of `due` heads are still to come. -/
structure Drafts (due : Nat) (frame : Frame) (draft : Draft) : Prop where
  tokens : frame.tokens.toList = tokensOf draft.texts
  visited : frame.visited = draft.visited
  current : frame.current = draft.current
  first : draft.first? = some frame.first
  length : draft.texts.length + due = draft.visited.length
  found : ∀ p : PairId, frame.found[p.index]? =
    if p ∈ draft.visited then some (place (draft.visited.reverse.idxOf p)) else none

/-- The pair that is visited next stands behind all that were visited before. -/
theorem getElem?_insert_found {found : Std.ExtTreeMap Nat Nat compare} {visited : List PairId}
    {p : PairId} (new : p ∉ visited)
    (known : ∀ q : PairId, found[q.index]? =
      if q ∈ visited then some (place (visited.reverse.idxOf q)) else none) (q : PairId) :
    (found.insert p.index (place visited.length))[q.index]? =
      if q ∈ p :: visited then some (place ((p :: visited).reverse.idxOf q)) else none := by
  rw [Std.ExtTreeMap.getElem?_insert, known, List.reverse_cons, List.idxOf_append]
  by_cases same : q = p
  · subst same
    simp [new]
  · have other : p.index ≠ q.index := by
      intro equal
      exact same (congrArg PairId.mk equal).symm
    by_cases old : q ∈ visited <;> simp [same, other, old]

theorem follows : format.Follows Style.structural.format (Drafts 0) (Drafts 1) where
  start p := ⟨rfl, rfl, rfl, rfl, rfl, fun q => by simp [format, start, Style.format]⟩
  resume frame draft text drafts := by
    refine ⟨toList_pushHead drafts.tokens text, drafts.visited, drafts.current, drafts.first, ?_,
      drafts.found⟩
    exact (List.length_append ..).trans drafts.length
  move heap active frame draft drafts := by
    obtain ⟨s, tokens, found, visited, current⟩ := frame
    obtain ⟨texts, seen, value⟩ := draft
    obtain ⟨same, rfl, rfl, first, length, known⟩ := drafts
    simp only [Nat.add_zero] at same length first known
    cases current with
    | scalar value =>
      simp only [format, Style.format, move, Style.move, finish_eq same]
      exact .done
    | pair p =>
      have look := known p
      simp only [format, Style.format, move, Style.move]
      by_cases old : p ∈ visited
      · have within : visited.reverse.idxOf p ≤ texts.length := by
          rw [length, ← List.length_reverse]
          exact List.idxOf_le_length
        have again := finishAgain_eq same within
        rw [← Draft.beq_first first old] at again
        rw [if_pos old] at look
        simp only [look, if_pos old, again]
        exact .done
      · rw [if_neg old] at look
        have size : tokens.size = place visited.length := by
          rw [← Array.length_toList, same, length_tokensOf, length]
        rw [look, if_neg old, size]
        have more := getElem?_insert_found old known
        have begun : ∀ texts' tail, Draft.first? ⟨texts', p :: visited, tail⟩ = some s :=
          fun texts' tail => (Draft.first?_visit tail).trans first
        cases slots : heap.slots p with | mk head tail
        simp only [Heap.read, slots]
        cases head with
        | scalar value =>
          refine .visit ⟨toList_pushHead same _, rfl, rfl, begun _ _, ?_, more⟩
          simp [length]
        | pair q =>
          by_cases marked : (active.insert p).contains q = true
          · simp only [marked, if_true]
            refine .visit ⟨toList_pushHead same _, rfl, rfl, begun _ _, ?_, more⟩
            simp [length]
          · simp only [marked]
            exact .descend ⟨same, rfl, rfl, begun _ _, congrArg (· + 1) length, more⟩

end Structural.Frame

/-- The structural text of a pair is what the machine of drafts writes. -/
theorem structural?_pair {heap : Heap} {p : PairId} {text : String} :
    structural? heap (.pair p) = some text ↔
      (Machine.start Style.structural.format p).Halts Style.structural.format heap text := by
  have follows := Structural.Frame.follows
  rw [structural?, Machine.text?_eq_some_iff]
  exact follows.halts ⟨follows.start p, .nil⟩

/-! ## List texts -/

namespace Listing.Frame

/-- The frame has the parts of the draft and knows the visited pairs. The texts of `due` items are
still to come behind a blank. -/
structure Drafts (due : Nat) (frame : Frame) (draft : Draft) : Prop where
  parts : frame.parts.toList = partsOf draft.texts ++ List.replicate due " "
  visited : frame.visited = draft.visited
  current : frame.current = draft.current
  begun : draft.first? ≠ none
  length : draft.texts.length + due = draft.visited.length
  known : ∀ p, frame.known.contains p = true ↔ p ∈ draft.visited

/-- A chain that comes to its end has items. -/
theorem Drafts.texts_ne_nil {frame : Frame} {draft : Draft} (drafts : frame.Drafts 0 draft)
    (ends : ∀ p, draft.current = .pair p → p ∈ draft.visited) : draft.texts ≠ [] := by
  intro none
  have length := drafts.length
  rw [none, List.length_nil, Nat.add_zero, eq_comm, List.length_eq_zero_iff] at length
  apply drafts.begun
  rw [Draft.first?, length, List.getLast?_nil, Option.none_or]
  cases held : draft.current with
  | scalar value => rfl
  | pair p =>
    have member := ends p held
    rw [length] at member
    cases member

/-- The move at the end of a chain. -/
theorem move_scalar {heap : Heap} {active set : PairSet} {parts : Array String}
    {texts : List String} {visited : List PairId} {value : Scalar}
    (same : parts.toList = partsOf texts) (filled : texts ≠ []) :
    move heap active ⟨parts, set, visited, .scalar value⟩ =
      .done (chainText texts (endText value)) visited := by
  have proper : finish parts = chainText texts "" := finish_eq filled [] (by simp [same])
  have dotted : ∀ s : Scalar,
      finish ((parts.push " . ").push s.plain) = chainText texts (" . " ++ s.plain) := by
    intro s
    rw [finish_eq filled [" . ", s.plain] (by simp [same])]
    simp
  cases value with
  | nil => exact congrArg (Move.done · visited) proper
  | _ => exact congrArg (Move.done · visited) (dotted _)

theorem follows : format.Follows Style.listing.format (Drafts 0) (Drafts 1) where
  start p := ⟨rfl, rfl, rfl, nofun, rfl, fun q => by simp [format, start, Style.format]⟩
  resume frame draft text drafts := by
    refine ⟨?_, drafts.visited, drafts.current, drafts.begun, ?_, drafts.known⟩
    · simp [format, push, Style.format, partsOf_append, drafts.parts]
    · exact (List.length_append ..).trans drafts.length
  move heap active frame draft drafts := by
    have filled := drafts.texts_ne_nil
    obtain ⟨parts, set, visited, current⟩ := frame
    obtain ⟨texts, seen, value⟩ := draft
    obtain ⟨same, rfl, rfl, begun, length, known⟩ := drafts
    simp only [Nat.add_zero, List.replicate_zero, List.append_nil] at same length begun known filled
    cases current with
    | scalar value =>
      simp only [format, Style.format, move_scalar same (filled nofun)]
      exact .done
    | pair p =>
      have look := known p
      simp only [format, Style.format, move, Style.move]
      by_cases old : p ∈ visited
      · have filled : texts ≠ [] := filled fun q held => Value.pair.inj held ▸ old
        have again : finish (parts.push " ...") = chainText texts " ..." :=
          finish_eq filled [" ..."] (by simp [same])
        rw [if_pos (look.2 old), if_pos old, again]
        exact .done
      · rw [if_neg (mt look.1 old), if_neg old]
        have more : ∀ q, (set.insert p).contains q = true ↔ q ∈ p :: visited := by
          intro q
          rw [PairSet.contains_insert, Bool.or_eq_true, known, beq_iff_eq, List.mem_cons]
          exact or_congr_left eq_comm
        have next : ∀ text, ((parts.push " ").push text).toList =
            partsOf (texts ++ [text]) ++ List.replicate 0 " " := by
          intro text
          simp [same, partsOf_append]
        have begun : ∀ texts' tail, Draft.first? ⟨texts', p :: visited, tail⟩ ≠ none := by
          intro texts' tail
          rwa [@Draft.first?_visit texts]
        cases slots : heap.slots p with | mk head tail
        simp only [Heap.read, slots]
        cases head with
        | scalar value =>
          refine .visit ⟨next _, rfl, rfl, begun _ _, ?_, more⟩
          simp [length]
        | pair q =>
          by_cases marked : (active.insert p).contains q = true
          · simp only [marked, if_true]
            refine .visit ⟨next _, rfl, rfl, begun _ _, ?_, more⟩
            simp [length]
          · simp only [marked]
            refine .descend ⟨?_, rfl, rfl, begun _ _, congrArg (· + 1) length, more⟩
            simp [same]

end Listing.Frame

/-- The list text of a pair is what the machine of drafts writes. -/
theorem listing?_pair {heap : Heap} {p : PairId} {text : String} :
    listing? heap (.pair p) = some text ↔
      (Machine.start Style.listing.format p).Halts Style.listing.format heap text := by
  have follows := Listing.Frame.follows
  rw [listing?, Machine.text?_eq_some_iff]
  exact follows.halts ⟨follows.start p, .nil⟩

end Sexpr.Render
