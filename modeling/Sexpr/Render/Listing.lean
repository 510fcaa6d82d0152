import Sexpr.Render.Machine
import Sexpr.Render.Scalar

/-!
# List text

The list text of a chain is for reading: `(1 2)`. A value other than nil at the end stands behind
a dot, as in `(1 . 2)`, and a chain that comes back to one of its own pairs ends in dots,
`(1 2 ...)`.

The text is put together from parts. A blank goes in front of every item, and when the chain is
finished the first blank gives its place to the opening bracket.
-/

namespace Sexpr.Render

namespace Listing

/-- A chain that is being written. -/
structure Frame where
  /-- The parts so far. -/
  parts : Array String
  /-- The pairs visited. -/
  known : PairSet
  /-- The pairs visited, the last one first. -/
  visited : List PairId
  /-- What the last tail holds. -/
  current : Value

namespace Frame

/-- The frame for the chain that begins at `p`. -/
def start (p : PairId) : Frame := ⟨#[], .empty, [], .pair p⟩

/-- The frame with the text of one more item. -/
def push (frame : Frame) (text : String) : Frame :=
  match frame with
  | ⟨parts, known, visited, current⟩ => ⟨parts.push text, known, visited, current⟩

/-- The text of all parts, between brackets. -/
def finish (parts : Array String) : String :=
  String.join ((parts.setIfInBounds 0 "(").push ")").toList

/-- One move along the chain. -/
def move (heap : Heap) (active : PairSet) (frame : Frame) : Move Frame :=
  match frame with
  | ⟨parts, _, visited, .scalar .nil⟩ => .done (finish parts) visited
  | ⟨parts, _, visited, .scalar value⟩ =>
    .done (finish ((parts.push " . ").push value.plain)) visited
  | ⟨parts, known, visited, .pair p⟩ =>
    if known.contains p then .done (finish (parts.push " ...")) visited
    else
      let (head, tail) := heap.slots p
      let known := known.insert p
      let active := active.insert p
      let parts := parts.push " "
      match head with
      | .scalar value => .visit ⟨parts.push value.item, known, p :: visited, tail⟩ active
      | .pair q =>
        if active.contains q then .visit ⟨parts.push backEdge, known, p :: visited, tail⟩ active
        else .descend q ⟨parts, known, p :: visited, tail⟩ active

end Frame

/-- The format of list texts. -/
def format : Format Frame := ⟨Frame.start, Frame.move, Frame.push⟩

end Listing

/-- The list text of a value, if it ends. A scalar is plain. -/
def listing? (heap : Heap) : Value → Option String
  | .scalar value => some value.plain
  | .pair p => (Machine.start Listing.format p).text? Listing.format heap

end Sexpr.Render
