import Sexpr.Proofs.Render.Draft
import Sexpr.Proofs.Render.Leaves

/-!
# What the machine writes

A `Shape` is what is written of a value, whatever the kind of text: a scalar, a chain with the
shapes of its heads and its ending, or the dots of a head that is active. `Writes` says, without a
machine and without texts, how the shape of a chain comes about, and what becomes of the marks on
the way: a chain is written pair by pair, and a head that is a pair without a mark is written in
between, as a chain of its own.

* `Writes.unique`: there is one way to write a chain, at most.
* `halts_iff`: a machine halts exactly if the chain can be written, with the text of its shape.
* `structural?_eq_some_iff`, `listing?_eq_some_iff`: the same of the two kinds of text, which are
  therefore texts of one shape.
-/

namespace Sexpr.Render

/-! ## Shapes -/

/-- What is written of a value. -/
inductive Shape where
  | scalar (value : Scalar)
  /-- A head that is active. -/
  | back
  | chain (heads : List Shape) (ending : Ending)

mutual

/-- The structural text of a shape. Where a chain comes back to a pair after its first one, the text
opens again before that pair. -/
def Shape.structural : Shape → String
  | .scalar value => Leaf.structural value
  | .back => "..."
  | .chain heads (.stop value) =>
    String.join (["cons("] ++ Shape.tokens heads ++ [Leaf.structural value, ")"])
  | .chain heads (.reenter 0) =>
    String.join (["cons("] ++ Shape.tokens heads ++ ["recursive=True", ")"])
  | .chain heads (.reenter (index + 1)) =>
    String.join (["cons("] ++ (Shape.tokens heads).take (index + 1) ++ ["cons("] ++
      (Shape.tokens heads).drop (index + 1) ++ ["recursive=True", ")", ")"])

/-- The structural texts of the heads of a chain, each with a comma after it. -/
def Shape.tokens : List Shape → List String
  | [] => []
  | head :: heads => (head.structural ++ ", ") :: Shape.tokens heads

end

mutual

/-- The list text of a shape that stands as an item of a list: a text is quoted there. -/
def Shape.item : Shape → String
  | .scalar value => Leaf.item value
  | .back => "..."
  | .chain heads (.stop .nil) => "(" ++ " ".intercalate (Shape.items heads) ++ ")"
  | .chain heads (.stop value) =>
    "(" ++ " ".intercalate (Shape.items heads) ++ " . " ++ Leaf.plain value ++ ")"
  | .chain heads (.reenter _) => "(" ++ " ".intercalate (Shape.items heads) ++ " ...)"

/-- The list texts of the heads of a chain. -/
def Shape.items : List Shape → List String
  | [] => []
  | head :: heads => head.item :: Shape.items heads

end

/-- The list text of a shape that stands alone. -/
def Shape.listing : Shape → String
  | .scalar value => Leaf.plain value
  | shape => shape.item

mutual

/-- The text of a shape that stands as a head. -/
def Style.text (style : Style) : Shape → String
  | .scalar value => style.scalar value
  | .back => backEdge
  | .chain heads ending => style.chain (style.texts heads) ending

/-- The texts of several shapes. -/
def Style.texts (style : Style) : List Shape → List String
  | [] => []
  | shape :: shapes => style.text shape :: style.texts shapes

end

mutual

theorem Style.text_structural (shape : Shape) : Style.structural.text shape = shape.structural := by
  cases shape with
  | scalar value =>
    rw [Style.text, Shape.structural, Leaf.structural_eq]
    rfl
  | back => rfl
  | chain heads ending =>
    have tokens := Style.texts_structural heads
    rw [Style.text]
    match ending with
    | .stop value =>
      rw [Shape.structural, ← tokens, Leaf.structural_eq]
      simp [Style.structural, Structural.chainText, Structural.listed, String.append_assoc]
    | .reenter 0 =>
      rw [Shape.structural, ← tokens]
      simp [Style.structural, Structural.chainText, Structural.listed, String.append_assoc]
    | .reenter (index + 1) =>
      rw [Shape.structural, ← tokens]
      simp [Style.structural, Structural.chainText, Structural.listed, String.append_assoc]

theorem Style.texts_structural (shapes : List Shape) :
    (Style.structural.texts shapes).map (· ++ ", ") = Shape.tokens shapes := by
  cases shapes with
  | nil => rfl
  | cons shape shapes =>
    rw [Style.texts, Shape.tokens, List.map_cons, Style.text_structural shape,
      Style.texts_structural shapes]

end

mutual

theorem Style.text_listing (shape : Shape) : Style.listing.text shape = shape.item := by
  match shape with
  | .scalar value =>
    rw [Style.text, Shape.item, Leaf.item_eq]
    rfl
  | .back => rfl
  | .chain heads ending =>
    rw [Style.text, Style.texts_listing heads]
    match ending with
    | .stop value =>
      cases value <;> simp [Style.listing, Shape.item, Listing.chainText, Listing.spaced,
        Listing.endText, Leaf.plain_eq, String.append_assoc]
    | .reenter index =>
      simp [Style.listing, Shape.item, Listing.chainText, Listing.spaced, String.append_assoc]

theorem Style.texts_listing (shapes : List Shape) :
    Style.listing.texts shapes = Shape.items shapes := by
  match shapes with
  | [] => rfl
  | shape :: shapes =>
    rw [Style.texts, Shape.items, Style.text_listing shape, Style.texts_listing shapes]

end

/-! ## Writing a chain -/

/-- How far the writing of a chain has come. -/
structure Link where
  active : PairSet
  /-- The pairs of the chain that were visited, the last one first. -/
  visited : List PairId
  /-- What the last tail holds. -/
  current : Value

namespace Link

/-- A chain of which nothing is written yet. -/
def opening (active : PairSet) (p : PairId) : Link := ⟨active, [], .pair p⟩

/-- The link behind a pair, with the given marks. -/
def past (heap : Heap) (visited : List PairId) (p : PairId) (active : PairSet) : Link :=
  ⟨active, p :: visited, heap.read p .tail⟩

/-- The marks that are left when the chain is finished. -/
def released (link : Link) : PairSet := link.visited.foldl PairSet.erase link.active

theorem contains_released {link : Link} {q : PairId} :
    link.released.contains q = true ↔ link.active.contains q = true ∧ q ∉ link.visited := by
  obtain ⟨active, visited, current⟩ := link
  unfold released
  induction visited generalizing active with
  | nil => simp
  | cons p visited ih =>
    rw [List.foldl_cons, ih, PairSet.contains_erase, List.mem_cons, Bool.and_eq_true, bne_iff_ne]
    grind

end Link

/-- A head that is written at once: a scalar, or a pair with a mark. -/
inductive Plain (active : PairSet) : Value → Shape → Prop
  | scalar (value : Scalar) : Plain active (.scalar value) (.scalar value)
  | back {q : PairId} : active.contains q = true → Plain active (.pair q) .back

theorem Plain.unique {active : PairSet} {value : Value} {shape other : Shape}
    (plain : Plain active value shape) (plain' : Plain active value other) : other = shape := by
  cases plain <;> cases plain' <;> rfl

/-- A pair without a mark is not written at once. -/
theorem Plain.false {active : PairSet} {value : Value} {shape : Shape} {q : PairId}
    (plain : Plain active value shape) (read : value = .pair q)
    (unmarked : active.contains q = false) : False := by
  subst read
  cases plain with | back marked
  rw [marked] at unmarked
  cases unmarked

/-- The rest of a chain is written with these heads and this ending, up to the last link. -/
inductive Writes (heap : Heap) : Link → List Shape → Ending → Link → Prop
  | stop {active : PairSet} {visited : List PairId} {value : Scalar} :
    Writes heap ⟨active, visited, .scalar value⟩ [] (.stop value) ⟨active, visited, .scalar value⟩
  | reenter {active : PairSet} {visited : List PairId} {p : PairId} : p ∈ visited →
    Writes heap ⟨active, visited, .pair p⟩ [] (.reenter (visited.reverse.idxOf p))
      ⟨active, visited, .pair p⟩
  | plain {active : PairSet} {visited : List PairId} {p : PairId} {shape : Shape}
      {heads : List Shape} {ending : Ending} {last : Link} : p ∉ visited →
    Plain (active.insert p) (heap.read p .head) shape →
    Writes heap (.past heap visited p (active.insert p)) heads ending last →
    Writes heap ⟨active, visited, .pair p⟩ (shape :: heads) ending last
  | inner {active : PairSet} {visited : List PairId} {p q : PairId} {within heads : List Shape}
      {closing ending : Ending} {bottom last : Link} : p ∉ visited →
    heap.read p .head = .pair q → (active.insert p).contains q = false →
    Writes heap (.opening (active.insert p) q) within closing bottom →
    Writes heap (.past heap visited p bottom.released) heads ending last →
    Writes heap ⟨active, visited, .pair p⟩ (.chain within closing :: heads) ending last

namespace Writes

variable {heap : Heap} {link last : Link} {heads : List Shape} {ending : Ending}

theorem unique {heads' : List Shape} {ending' : Ending} {last' : Link}
    (writes : Writes heap link heads ending last)
    (others : Writes heap link heads' ending' last') :
    heads' = heads ∧ ending' = ending ∧ last' = last := by
  induction writes generalizing heads' ending' last' with
  | stop =>
    cases others
    exact ⟨rfl, rfl, rfl⟩
  | reenter old =>
    cases others with
    | reenter => exact ⟨rfl, rfl, rfl⟩
    | plain new => exact absurd old new
    | inner new => exact absurd old new
  | plain new head _ ih =>
    cases others with
    | reenter old => exact absurd old new
    | plain _ head' rest =>
      obtain ⟨rfl, rfl, rfl⟩ := ih rest
      exact ⟨congrArg (· :: _) (head.unique head'), rfl, rfl⟩
    | inner _ read unmarked =>
      exact (head.false read unmarked).elim
  | inner new read unmarked _ _ ihWithin ih =>
    cases others with
    | reenter old => exact absurd old new
    | plain _ head =>
      exact (head.false read unmarked).elim
    | inner _ read' _ within rest =>
      cases read.symm.trans read'
      obtain ⟨rfl, rfl, rfl⟩ := ihWithin within
      obtain ⟨rfl, rfl, rfl⟩ := ih rest
      exact ⟨rfl, rfl, rfl⟩

end Writes

/-! ## The machine writes shapes -/

namespace Style

variable {style : Style} {heap : Heap} {active : PairSet} {texts : List String}
  {visited : List PairId} {p q : PairId} {shape : Shape}

theorem move_stop (value : Scalar) :
    style.format.move heap active ⟨texts, visited, .scalar value⟩ =
      .done (style.chain texts (.stop value)) visited := rfl

theorem move_reenter (old : p ∈ visited) :
    style.format.move heap active ⟨texts, visited, .pair p⟩ =
      .done (style.chain texts (.reenter (visited.reverse.idxOf p))) visited :=
  if_pos old

theorem move_plain (new : p ∉ visited)
    (head : Plain (active.insert p) (heap.read p .head) shape) :
    style.format.move heap active ⟨texts, visited, .pair p⟩ =
      .visit ⟨texts ++ [style.text shape], p :: visited, heap.read p .tail⟩ (active.insert p) := by
  refine (if_neg new).trans ?_
  generalize heap.read p .head = value at head ⊢
  cases head with
  | scalar value => rw [text]
  | back marked => simp only [marked, if_true, text]

theorem move_inner (new : p ∉ visited) (read : heap.read p .head = .pair q)
    (unmarked : (active.insert p).contains q = false) :
    style.format.move heap active ⟨texts, visited, .pair p⟩ =
      .descend q ⟨texts, p :: visited, heap.read p .tail⟩ (active.insert p) := by
  refine (if_neg new).trans ?_
  simp only [read, unmarked, Bool.false_eq_true, if_false]

end Style

namespace Machine

variable {style : Style} {heap : Heap} {text : String}

/-- A chain is written, and the machine goes on below it. -/
def Returns (style : Style) (heap : Heap) (active : PairSet) (written : String) :
    List Draft → String → Prop
  | [], text => text = written
  | below :: stack, text =>
    Halts style.format heap ⟨active, style.format.resume below written :: stack⟩ text

theorem halts_of_done {active : PairSet} {draft : Draft} {stack : List Draft} {written : String}
    {visited : List PairId}
    (moved : style.format.move heap active draft = .done written visited)
    (rest : Returns style heap (visited.foldl PairSet.erase active) written stack text) :
    Halts style.format heap ⟨active, draft :: stack⟩ text := by
  cases stack with
  | nil => exact .finished (rest ▸ step_of_done_last moved)
  | cons below stack => exact .running (step_of_done moved) rest

/-- A chain that can be written is written by the machine, whatever lies below. -/
theorem halts_of_writes {link last : Link} {heads : List Shape} {ending : Ending}
    (writes : Writes heap link heads ending last) {texts : List String} {stack : List Draft}
    (rest : Returns style heap last.released (style.chain (texts ++ style.texts heads) ending)
      stack text) :
    Halts style.format heap ⟨link.active, ⟨texts, link.visited, link.current⟩ :: stack⟩ text := by
  induction writes generalizing texts stack text with
  | stop =>
    rw [Style.texts, List.append_nil] at rest
    exact halts_of_done (Style.move_stop _) rest
  | reenter old =>
    rw [Style.texts, List.append_nil] at rest
    exact halts_of_done (Style.move_reenter old) rest
  | plain new head _ ih =>
    rw [Style.texts, List.append_cons] at rest
    exact .running (step_of_visit (Style.move_plain new head)) (ih rest)
  | inner new read unmarked _ _ ihWithin ih =>
    rw [Style.texts, Style.text, List.append_cons] at rest
    exact .running (step_of_descend (Style.move_inner new read unmarked)) (ihWithin (ih rest))

/-- With a chain written, the drafts below can be written to their ends. -/
def Below (style : Style) (heap : Heap) (active : PairSet) (written : String) :
    List Draft → String → Prop
  | [], text => text = written
  | below :: stack, text => ∃ heads ending last,
    Writes heap ⟨active, below.visited, below.current⟩ heads ending last ∧
    Below style heap last.released
      (style.chain (below.texts ++ [written] ++ style.texts heads) ending) stack text

/-- The drafts on the stack can be written to their ends. -/
def Written (style : Style) (heap : Heap) (text : String) : Machine Draft → Prop
  | ⟨_, []⟩ => text = ""
  | ⟨active, draft :: stack⟩ => ∃ heads ending last,
    Writes heap ⟨active, draft.visited, draft.current⟩ heads ending last ∧
    Below style heap last.released (style.chain (draft.texts ++ style.texts heads) ending) stack text

/-- The drafts that are left after a step can be written to their ends. -/
def WrittenAfter (style : Style) (heap : Heap) (text : String) : Progress Draft → Prop
  | .running machine => machine.Written style heap text
  | .finished written => text = written

section Steps

variable {active : PairSet} {texts : List String} {visited : List PairId} {current : Value}
  {stack : List Draft}

theorem written_of_done {ending : Ending}
    (moved : style.format.move heap active ⟨texts, visited, current⟩ =
      .done (style.chain texts ending) visited)
    (writes : Writes heap ⟨active, visited, current⟩ [] ending ⟨active, visited, current⟩)
    (after : WrittenAfter style heap text
      (step style.format heap ⟨active, ⟨texts, visited, current⟩ :: stack⟩)) :
    Written style heap text ⟨active, ⟨texts, visited, current⟩ :: stack⟩ := by
  refine ⟨[], ending, _, writes, ?_⟩
  rw [Style.texts, List.append_nil]
  cases stack with
  | nil =>
    rw [step_of_done_last moved] at after
    exact after
  | cons below stack =>
    rw [step_of_done moved] at after
    exact after

/-- If what is left after a step can be written, so can what was there before. -/
theorem written_of_step {machine : Machine Draft}
    (after : WrittenAfter style heap text (machine.step style.format heap)) :
    machine.Written style heap text := by
  obtain ⟨active, _ | ⟨⟨texts, visited, current⟩, stack⟩⟩ := machine
  · exact after
  cases current with
  | scalar value => exact written_of_done (Style.move_stop value) .stop after
  | pair p =>
    by_cases old : p ∈ visited
    · exact written_of_done (Style.move_reenter old) (.reenter old) after
    have visit : ∀ shape, Plain (active.insert p) (heap.read p .head) shape →
        Written style heap text ⟨active, ⟨texts, visited, .pair p⟩ :: stack⟩ := by
      intro shape head
      rw [step_of_visit (Style.move_plain old head)] at after
      obtain ⟨heads, ending, last, writes, below⟩ := after
      refine ⟨shape :: heads, ending, last, .plain old head writes, ?_⟩
      rwa [Style.texts, List.append_cons]
    cases read : heap.read p .head with
    | scalar value => exact visit (.scalar value) (read ▸ .scalar value)
    | pair q =>
      cases marked : (active.insert p).contains q with
      | true => exact visit .back (read ▸ .back marked)
      | false =>
        rw [step_of_descend (Style.move_inner old read marked)] at after
        obtain ⟨within, closing, bottom, inside, heads, ending, last, writes, below⟩ := after
        refine ⟨.chain within closing :: heads, ending, last, .inner old read marked inside writes, ?_⟩
        rw [Style.texts, Style.text, List.append_cons]
        exact below

end Steps

/-- A machine that halts has written the chains on its stack. -/
theorem written_of_halts {machine : Machine Draft} (halts : machine.Halts style.format heap text) :
    machine.Written style heap text := by
  induction halts with
  | finished moved =>
    refine written_of_step ?_
    rw [moved]
    exact rfl
  | running moved _ ih =>
    refine written_of_step ?_
    rw [moved]
    exact ih

end Machine

/-! ## The texts of a value -/

/-- What is written of a value. -/
inductive Draws (heap : Heap) : Value → Shape → Prop
  | scalar (value : Scalar) : Draws heap (.scalar value) (.scalar value)
  | pair {p : PairId} {heads : List Shape} {ending : Ending} {last : Link} :
    Writes heap (.opening .empty p) heads ending last → Draws heap (.pair p) (.chain heads ending)

variable {heap : Heap} {value : Value} {text : String}

/-- The machine halts exactly if the chain can be written, with the text of what is written. -/
theorem halts_iff {style : Style} {p : PairId} :
    (Machine.start style.format p).Halts style.format heap text ↔
      ∃ shape, Draws heap (.pair p) shape ∧ style.text shape = text := by
  constructor
  · intro halts
    obtain ⟨heads, ending, last, writes, written⟩ := Machine.written_of_halts halts
    refine ⟨.chain heads ending, .pair writes, ?_⟩
    rw [Style.text]
    exact written.symm
  · intro drawn
    rcases drawn with ⟨shape, ⟨⟩ | ⟨writes⟩, rfl⟩
    refine Machine.halts_of_writes writes ?_
    rw [Style.text]
    exact rfl

theorem structural?_eq_some_iff :
    structural? heap value = some text ↔
      ∃ shape, Draws heap value shape ∧ shape.structural = text := by
  cases value with
  | scalar value =>
    rw [structural?, ← Leaf.structural_eq, Option.some.injEq]
    constructor
    · intro shown
      exact ⟨.scalar value, .scalar value, shown⟩
    · intro drawn
      obtain ⟨shape, ⟨⟩, shown⟩ := drawn
      exact shown
  | pair p =>
    rw [structural?_pair, halts_iff]
    simp only [Style.text_structural]

theorem listing?_eq_some_iff :
    listing? heap value = some text ↔ ∃ shape, Draws heap value shape ∧ shape.listing = text := by
  cases value with
  | scalar value =>
    rw [listing?, ← Leaf.plain_eq, Option.some.injEq]
    constructor
    · intro shown
      exact ⟨.scalar value, .scalar value, shown⟩
    · intro drawn
      obtain ⟨shape, ⟨⟩, shown⟩ := drawn
      exact shown
  | pair p =>
    rw [listing?_pair, halts_iff]
    refine exists_congr fun shape => and_congr_right fun draws => ?_
    cases draws with | pair writes
    rw [Style.text_listing]
    exact Iff.rfl

/-! Both texts of a value end, or neither does. -/

theorem isSome_structural?_iff :
    (structural? heap value).isSome = true ↔ ∃ shape, Draws heap value shape := by
  rw [Option.isSome_iff_exists]
  constructor
  · intro ends
    obtain ⟨text, shown⟩ := ends
    obtain ⟨shape, drawn, -⟩ := structural?_eq_some_iff.1 shown
    exact ⟨shape, drawn⟩
  · intro ends
    obtain ⟨shape, drawn⟩ := ends
    exact ⟨_, structural?_eq_some_iff.2 ⟨shape, drawn, rfl⟩⟩

theorem isSome_listing?_iff :
    (listing? heap value).isSome = true ↔ ∃ shape, Draws heap value shape := by
  rw [Option.isSome_iff_exists]
  constructor
  · intro ends
    obtain ⟨text, shown⟩ := ends
    obtain ⟨shape, drawn, -⟩ := listing?_eq_some_iff.1 shown
    exact ⟨shape, drawn⟩
  · intro ends
    obtain ⟨shape, drawn⟩ := ends
    exact ⟨_, listing?_eq_some_iff.2 ⟨shape, drawn, rfl⟩⟩

end Sexpr.Render
