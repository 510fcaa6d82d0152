import Sexpr.Heap.Basic

/-!
# Rendering by frames

The text of a pair is written chain by chain. A frame holds one chain that is being written: it
walks along the tails, and when a head is a pair, that pair's chain is written first, in a frame
of its own on top of the stack. The text of a finished frame goes to the frame below.

One set is shared by all frames. It holds the pairs that are active, that is, on a chain that is
being written. A head that is active is not entered again. When a frame is finished all pairs of
its chain cease to be active, whichever frame made them so.

A `Format` gives the frames of one kind of text. `Machine.step` is one move of the top frame, and
`Machine.text?` repeats it until the last frame is finished. On some heaps a chain lifts the marks
of the chains around it again and again, and the text never ends: `Machine.text?` is then `none`.
-/

namespace Sexpr.Render

/-- What a frame does in one move. -/
inductive Move (Frame : Type) where
  /-- It writes the head of the next pair and goes on along the tail. -/
  | visit (frame : Frame) (active : PairSet)
  /-- It waits for the text of a head that is a pair. -/
  | descend (head : PairId) (frame : Frame) (active : PairSet)
  /-- Its chain is complete; these are the pairs on it. -/
  | done (text : String) (visited : List PairId)

/-- The frames of one kind of text. -/
structure Format (Frame : Type) where
  /-- The frame for the chain that begins at a pair. -/
  start : PairId → Frame
  /-- One move of a frame. -/
  move : Heap → PairSet → Frame → Move Frame
  /-- The frame with the text of the head that it waited for. -/
  resume : Frame → String → Frame

/-- The frames at work, the innermost first, and the active pairs. -/
structure Machine (Frame : Type) where
  active : PairSet
  stack : List Frame

/-- A machine after a step. -/
inductive Progress (Frame : Type) where
  | running (machine : Machine Frame)
  | finished (text : String)

namespace Machine

/-- The machine that is about to write a pair. -/
def start {Frame : Type} (format : Format Frame) (p : PairId) : Machine Frame :=
  ⟨.empty, [format.start p]⟩

/-- One move of the top frame. -/
def step {Frame : Type} (format : Format Frame) (heap : Heap) (machine : Machine Frame) :
    Progress Frame :=
  match machine with
  | ⟨_, []⟩ => .finished ""
  | ⟨active, frame :: stack⟩ =>
    match format.move heap active frame with
    | .visit frame active => .running ⟨active, frame :: stack⟩
    | .descend head frame active => .running ⟨active, format.start head :: frame :: stack⟩
    | .done text visited =>
      match stack with
      | [] => .finished text
      | below :: stack =>
        .running ⟨visited.foldl PairSet.erase active, format.resume below text :: stack⟩

/-- The text that a machine writes, if it ever comes to an end. -/
def text? {Frame : Type} (format : Format Frame) (heap : Heap) (machine : Machine Frame) :
    Option String :=
  match machine.step format heap with
  | .running machine => machine |>.text? format heap
  | .finished text => some text
partial_fixpoint

end Machine

/-- The text of a head that is active. -/
def backEdge : String := "..."

end Sexpr.Render
