import Sexpr.Proofs.Render.Writing

/-!
# Both kinds of text in step

The frames of structural texts and of list texts are made of different things: one kind finds a pair
that it has visited by the place of its head among the tokens, the other knows the set of such
pairs, and each puts other pieces together. What they do next does not depend on that. `Abreast`
relates two frames that have come equally far along one chain, and `Matched` says what the next
moves of two such frames have in common.

* `matched_move`: frames that are abreast make matching moves, on any heap and under any marks.
* `inStep_after`: after any number of steps, the two machines that write a pair have the same pairs
  active and stacks of frames that are abreast, or both have finished.
* `inStep_texts`: so both texts of a pair end or neither does, and the same heads are left out.

Before that, `Machine.after` is a machine after some steps, and `Machine.matches_after` takes what
single steps keep of two machines through any number of steps, also on different heaps.
-/

namespace Sexpr.Render

/-! ## Machines after some steps -/

namespace Machine

variable {Frame : Type} {format : Format Frame} {heap : Heap}

/-- The machine after a number of steps, or its text if it has finished by then. -/
def after (format : Format Frame) (heap : Heap) : Nat → Machine Frame → Progress Frame
  | 0, machine => .running machine
  | steps + 1, machine =>
    match machine.step format heap with
    | .running next => after format heap steps next
    | .finished text => .finished text

theorem after_succ_of_running {machine next : Machine Frame} (steps : Nat)
    (moved : machine.step format heap = .running next) :
    machine.after format heap (steps + 1) = next.after format heap steps := by
  rw [after, moved]

theorem after_succ_of_finished {machine : Machine Frame} {text : String} (steps : Nat)
    (moved : machine.step format heap = .finished text) :
    machine.after format heap (steps + 1) = .finished text := by
  rw [after, moved]

/-- A machine halts exactly if it has finished after some number of steps. -/
theorem halts_iff_exists_after {machine : Machine Frame} {text : String} :
    machine.Halts format heap text ↔ ∃ steps, machine.after format heap steps = .finished text := by
  constructor
  · intro halts
    induction halts with
    | finished moved => exact ⟨1, after_succ_of_finished 0 moved⟩
    | running moved _ ih =>
      obtain ⟨steps, done⟩ := ih
      exact ⟨steps + 1, (after_succ_of_running steps moved).trans done⟩
  · rintro ⟨steps, done⟩
    induction steps generalizing machine with
    | zero => cases done
    | succ steps ih =>
      cases moved : machine.step format heap with
      | running next =>
        rw [after_succ_of_running steps moved] at done
        exact .running moved (ih done)
      | finished written =>
        rw [after_succ_of_finished steps moved] at done
        cases done
        exact .finished moved

end Machine

/-- The text of a machine that has finished. -/
def Progress.text? {Frame : Type} : Progress Frame → Option String
  | .running _ => none
  | .finished text => some text

theorem Progress.text?_eq_some_iff {Frame : Type} {progress : Progress Frame} {text : String} :
    progress.text? = some text ↔ progress = .finished text := by
  cases progress <;> simp [Progress.text?]

theorem Progress.Matches.text?_eq {Frame Other : Type}
    {related : Machine Frame → Machine Other → Prop} {progress : Progress Frame}
    {other : Progress Other} (same : progress.Matches related other) :
    progress.text? = other.text? := by
  cases same <;> rfl

section

variable {Frame Other : Type} {format : Format Frame} {model : Format Other} {heap other : Heap}
  {machine : Machine Frame} {shadow : Machine Other}

/-- Machines whose steps match have come to matching points after any number of steps, also on
different heaps. -/
theorem Machine.matches_after {related : Machine Frame → Machine Other → Prop}
    (steps : ∀ machine shadow, related machine shadow →
      (machine.step format heap).Matches related (shadow.step model other))
    (first : related machine shadow) (count : Nat) :
    (machine.after format heap count).Matches related (shadow.after model other count) := by
  induction count generalizing machine shadow with
  | zero => exact .running first
  | succ count ih =>
    have next := steps _ _ first
    generalize moved : machine.step format heap = progress at next
    generalize moved' : shadow.step model other = progress' at next
    cases next with
    | running next =>
      rw [after_succ_of_running count moved, after_succ_of_running count moved']
      exact ih next
    | finished =>
      rw [after_succ_of_finished count moved, after_succ_of_finished count moved']
      exact .finished

/-- Machines that have the same text at every moment have the same text in the end, or none. -/
theorem Machine.text?_congr
    (same : ∀ count, (machine.after format heap count).text? =
      (shadow.after model other count).text?) :
    machine.text? format heap = shadow.text? model other := by
  refine Option.ext fun text => ?_
  simp only [text?_eq_some_iff, halts_iff_exists_after, ← Progress.text?_eq_some_iff, same]

end

/-- The machine of a format has the text of the format that it follows at every moment. -/
theorem Format.Follows.text?_after {Frame Other : Type} {format : Format Frame}
    {model : Format Other} {ready waiting : Frame → Other → Prop}
    (follows : format.Follows model ready waiting) (heap : Heap) (p : PairId) (count : Nat) :
    ((Machine.start format p).after format heap count).text? =
      ((Machine.start model p).after model heap count).text? := by
  have first : (Machine.start format p).Tracks ready waiting (Machine.start model p) :=
    ⟨follows.start p, .nil⟩
  exact (Machine.matches_after (fun _ _ => follows.step heap) first count).text?_eq

/-! ## Frames that are abreast -/

/-- Two frames that have visited the same pairs in the same order and go on with the same value. -/
structure Abreast (frame : Structural.Frame) (other : Listing.Frame) : Prop where
  visited : frame.visited = other.visited
  current : frame.current = other.current
  /-- Both have a record of the pairs that they have visited, and of no others. -/
  found : ∀ q : PairId, q.index ∈ frame.found ↔ q ∈ frame.visited
  known : ∀ q : PairId, other.known.contains q = true ↔ q ∈ other.visited

/-- Two moves with the same effect, but for the texts. -/
inductive Matched (heap : Heap) (frame : Structural.Frame) (other : Listing.Frame) :
    Move Structural.Frame → Move Listing.Frame → Prop
  /-- A scalar is written, each time as the kind of text wants it. -/
  | scalar {p : PairId} {value : Scalar} {next : Structural.Frame} {next' : Listing.Frame}
      {active : PairSet} : frame.current = .pair p → heap.read p .head = .scalar value →
    next.tokens = (frame.tokens.push value.structural).push ", " →
    next'.parts = (other.parts.push " ").push value.item →
    Abreast next next' → Matched heap frame other (.visit next active) (.visit next' active)
  /-- A pair is left out. -/
  | dots {p q : PairId} {next : Structural.Frame} {next' : Listing.Frame} {active : PairSet} :
    frame.current = .pair p → heap.read p .head = .pair q →
    next.tokens = (frame.tokens.push "...").push ", " →
    next'.parts = (other.parts.push " ").push "..." →
    Abreast next next' → Matched heap frame other (.visit next active) (.visit next' active)
  | descend {p q : PairId} {next : Structural.Frame} {next' : Listing.Frame} {active : PairSet} :
    frame.current = .pair p → heap.read p .head = .pair q →
    next.tokens = frame.tokens → next'.parts = other.parts.push " " →
    Abreast next next' → Matched heap frame other (.descend q next active) (.descend q next' active)
  | done {text text' : String} {visited : List PairId} :
    Matched heap frame other (.done text visited) (.done text' visited)

theorem Abreast.start (p : PairId) :
    Abreast (Structural.format.start p) (Listing.format.start p) := by
  refine ⟨rfl, rfl, fun q => ?_, fun q => ?_⟩
  · simp [Structural.format, Structural.Frame.start]
  · simp [Listing.format, Listing.Frame.start]

theorem Abreast.resume {frame : Structural.Frame} {other : Listing.Frame}
    (abreast : Abreast frame other) (text text' : String) :
    Abreast (Structural.format.resume frame text) (Listing.format.resume other text') :=
  ⟨abreast.visited, abreast.current, abreast.found, abreast.known⟩

/-- Frames that are abreast are so when both have visited one more pair, whatever they have written
for its head. -/
theorem Abreast.visit {first : PairId} {tokens tokens' : Array String}
    {found : Std.ExtTreeMap Nat Nat compare} {parts parts' : Array String} {known : PairSet}
    {visited : List PairId} {current : Value}
    (abreast : Abreast ⟨first, tokens, found, visited, current⟩ ⟨parts, known, visited, current⟩)
    (p : PairId) (place : Nat) (tail : Value) :
    Abreast ⟨first, tokens', found.insert p.index place, p :: visited, tail⟩
      ⟨parts', known.insert p, p :: visited, tail⟩ := by
  refine ⟨rfl, rfl, fun q => ?_, fun q => ?_⟩
  · have old : q.index ∈ found ↔ q ∈ visited := abreast.found q
    have same : p.index = q.index ↔ q = p := by
      cases p
      cases q
      simp [eq_comm]
    simp only [Std.ExtTreeMap.mem_insert, Nat.compare_eq_eq, same, old, List.mem_cons]
  · have old : known.contains q = true ↔ q ∈ visited := abreast.known q
    rw [PairSet.contains_insert_iff, old, List.mem_cons]
    exact or_congr_left eq_comm

theorem matched_move (heap : Heap) (active : PairSet) {frame : Structural.Frame}
    {other : Listing.Frame} (abreast : Abreast frame other) :
    Matched heap frame other (Structural.format.move heap active frame)
      (Listing.format.move heap active other) := by
  obtain ⟨first, tokens, found, visited, current⟩ := frame
  obtain ⟨parts, known, visited', current'⟩ := other
  obtain ⟨rfl, rfl⟩ : visited = visited' ∧ current = current' := ⟨abreast.visited, abreast.current⟩
  cases current with
  | scalar value => cases value <;> exact .done
  | pair p =>
    have look : p.index ∈ found ↔ p ∈ visited := abreast.found p
    have look' : known.contains p = true ↔ p ∈ visited := abreast.known p
    simp only [Structural.format, Structural.Frame.move, Listing.format, Listing.Frame.move]
    by_cases old : p ∈ visited
    · obtain ⟨place, entry⟩ : ∃ place, found[p.index]? = some place :=
        Option.isSome_iff_exists.1 (Std.ExtTreeMap.mem_iff_isSome_getElem?.1 (look.2 old))
      rw [entry, if_pos (look'.2 old)]
      exact .done
    · have missing : found[p.index]? = none :=
        Std.ExtTreeMap.getElem?_eq_none (mt look.1 old)
      rw [missing, if_neg (mt look'.1 old)]
      cases slots : heap.slots p with | mk head tail
      have read : heap.read p .head = head := congrArg Prod.fst slots
      cases head with
      | scalar value => exact .scalar rfl read rfl rfl (abreast.visit p _ tail)
      | pair q =>
        by_cases marked : (active.insert p).contains q = true
        · simp only [marked, if_true]
          exact .dots rfl read rfl rfl (abreast.visit p _ tail)
        · simp only [marked]
          exact .descend rfl read rfl rfl (abreast.visit p _ tail)

/-! ## Machines in step -/

/-- The same pairs are active, the frames on the two stacks are abreast one by one, and the next
moves match. -/
inductive Machine.InStep (heap : Heap) : Machine Structural.Frame → Machine Listing.Frame → Prop
  | intro {active : PairSet} {frame : Structural.Frame} {other : Listing.Frame}
      {stack : List Structural.Frame} {others : List Listing.Frame} :
    List.Forall₂ Abreast (frame :: stack) (other :: others) →
    Matched heap frame other (Structural.format.move heap active frame)
      (Listing.format.move heap active other) →
    InStep heap ⟨active, frame :: stack⟩ ⟨active, other :: others⟩

/-- Both machines are at work and in step, or both have finished. -/
inductive Progress.InStep (heap : Heap) :
    Progress Structural.Frame → Progress Listing.Frame → Prop
  | running {machine : Machine Structural.Frame} {other : Machine Listing.Frame} :
    machine.InStep heap other → InStep heap (.running machine) (.running other)
  | finished {text text' : String} : InStep heap (.finished text) (.finished text')

/-- If one of two machines that are in step has finished, so has the other. -/
theorem Progress.InStep.exists_finished_iff {heap : Heap} {progress : Progress Structural.Frame}
    {other : Progress Listing.Frame} (inStep : progress.InStep heap other) :
    (∃ text, progress = .finished text) ↔ ∃ text, other = .finished text := by
  cases inStep with
  | running => simp
  | finished => simp

namespace Machine.InStep

variable {heap : Heap}

theorem of_abreast (active : PairSet) {frame : Structural.Frame} {other : Listing.Frame}
    {stack : List Structural.Frame} {others : List Listing.Frame} (abreast : Abreast frame other)
    (below : List.Forall₂ Abreast stack others) :
    Machine.InStep heap ⟨active, frame :: stack⟩ ⟨active, other :: others⟩ :=
  .intro (.cons abreast below) (matched_move heap active abreast)

theorem step {machine : Machine Structural.Frame} {other : Machine Listing.Frame}
    (inStep : machine.InStep heap other) :
    (machine.step Structural.format heap).InStep heap (other.step Listing.format heap) := by
  obtain @⟨active, frame, other, stack, others, abreast, matched⟩ := inStep
  obtain ⟨-, below⟩ := List.forall₂_cons.1 abreast
  generalize moved : Structural.format.move heap active frame = move at matched
  generalize moved' : Listing.format.move heap active other = move' at matched
  cases matched with
  | scalar _ _ _ _ next | dots _ _ _ _ next =>
    rw [step_of_visit moved, step_of_visit moved']
    exact .running (of_abreast _ next below)
  | @descend p q _ _ _ _ _ _ _ next =>
    rw [step_of_descend moved, step_of_descend moved']
    exact .running (of_abreast _ (.start q) (.cons next below))
  | @done text text' =>
    cases below with
    | nil =>
      rw [step_of_done_last moved, step_of_done_last moved']
      exact .finished
    | cons next rest =>
      rw [step_of_done moved, step_of_done moved']
      exact .running (of_abreast _ (next.resume text text') rest)

theorem after {machine : Machine Structural.Frame} {other : Machine Listing.Frame}
    (inStep : machine.InStep heap other) (steps : Nat) :
    (machine.after Structural.format heap steps).InStep heap
      (other.after Listing.format heap steps) := by
  induction steps generalizing machine other with
  | zero => exact .running inStep
  | succ steps ih =>
    have next := inStep.step
    generalize moved : machine.step Structural.format heap = progress at next
    generalize moved' : other.step Listing.format heap = progress' at next
    cases next with
    | running inStep =>
      rw [after_succ_of_running steps moved, after_succ_of_running steps moved']
      exact ih inStep
    | finished =>
      rw [after_succ_of_finished steps moved, after_succ_of_finished steps moved']
      exact .finished

end Machine.InStep

/-- The two machines that write a pair are in step after any number of steps. -/
theorem inStep_after (heap : Heap) (p : PairId) (steps : Nat) :
    ((Machine.start Structural.format p).after Structural.format heap steps).InStep heap
      ((Machine.start Listing.format p).after Listing.format heap steps) :=
  Machine.InStep.after (.of_abreast _ (.start p) .nil) steps

theorem exists_halts_iff (heap : Heap) (p : PairId) :
    (∃ text, (Machine.start Structural.format p).Halts Structural.format heap text) ↔
      ∃ text, (Machine.start Listing.format p).Halts Listing.format heap text := by
  simp only [Machine.halts_iff_exists_after]
  rw [exists_comm, @exists_comm String]
  exact exists_congr fun steps => (inStep_after heap p steps).exists_finished_iff

/-- Both texts of a pair are written in step, on any heap. So both end or neither does; and if they
do, they are the texts of one shape, in which the same heads are left out. -/
theorem inStep_texts (heap : Heap) (p : PairId) :
    (∀ steps, ((Machine.start Structural.format p).after Structural.format heap steps).InStep heap
      ((Machine.start Listing.format p).after Listing.format heap steps)) ∧
    ((listing? heap (.pair p)).isSome = true ↔ (structural? heap (.pair p)).isSome = true) ∧
    ((structural? heap (.pair p)).isSome = true → ∃ shape : Shape,
      structural? heap (.pair p) = some shape.structural ∧
      listing? heap (.pair p) = some shape.listing) := by
  refine ⟨inStep_after heap p, ?_, fun ends => ?_⟩
  · simp only [Option.isSome_iff_exists, listing?, structural?, Machine.text?_eq_some_iff]
    exact (exists_halts_iff heap p).symm
  · obtain ⟨shape, drawn⟩ := isSome_structural?_iff.1 ends
    exact ⟨shape, structural?_eq_some_iff.2 ⟨shape, drawn, rfl⟩,
      listing?_eq_some_iff.2 ⟨shape, drawn, rfl⟩⟩

end Sexpr.Render
