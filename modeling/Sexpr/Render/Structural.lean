import Std.Data.ExtTreeMap.Basic
import Sexpr.Render.Machine
import Sexpr.Render.Scalar

/-!
# Structural text

The structural text of a chain lists its heads and what ends it: `cons(1, 2, nil)`. A chain that
comes back to one of its own pairs says so by `recursive=True`. If that pair is not the first one,
the text opens again before it: `cons(1, cons(2, recursive=True))`.

The text is put together from tokens. For each pair the frame remembers the place where the token
of its head will stand, which is where the text opens again.
-/

namespace Sexpr.Render

namespace Structural

/-- The token that opens a chain. -/
def opening : String := "cons("

/-- The token between two heads. -/
def comma : String := ", "

/-- The token of a chain that comes back to one of its own pairs. -/
def recursive : String := "recursive=True"

/-- The token that closes a chain. -/
def closing : String := ")"

/-- A chain that is being written. -/
structure Frame where
  /-- The pair that the chain begins at. -/
  first : PairId
  /-- The tokens so far. -/
  tokens : Array String
  /-- The pairs visited, each with the place of its head among the tokens. -/
  found : Std.ExtTreeMap Nat Nat compare
  /-- The pairs visited, the last one first. -/
  visited : List PairId
  /-- What the last tail holds. -/
  current : Value

namespace Frame

/-- The frame for the chain that begins at `p`. -/
def start (p : PairId) : Frame := ⟨p, #[opening], ∅, [], .pair p⟩

/-- The tokens with those of one more head. -/
def pushHead (tokens : Array String) (text : String) : Array String :=
  (tokens.push text).push comma

/-- The frame with the text of one more head. -/
def push (frame : Frame) (text : String) : Frame :=
  match frame with
  | ⟨first, tokens, found, visited, current⟩ =>
    ⟨first, pushHead tokens text, found, visited, current⟩

/-- The text of all tokens, with the one that closes the chain. -/
def finish (tokens : Array String) : String := String.join (tokens.push closing).toList

/-- The text of a chain that comes back to one of its own pairs, whose head stands at `place`. If
it is not the first pair of the chain, the text opens again there. -/
def finishAgain (tokens : Array String) (place : Nat) (atFirst : Bool) : String :=
  let tokens := tokens.push recursive
  if atFirst then finish tokens
  else finish ((tokens.insertIdxIfInBounds place opening).push closing)

/-- One move along the chain. -/
def move (heap : Heap) (active : PairSet) (frame : Frame) : Move Frame :=
  match frame with
  | ⟨_, tokens, _, visited, .scalar value⟩ =>
    .done (finish (tokens.push value.structural)) visited
  | ⟨first, tokens, found, visited, .pair p⟩ =>
    match found[p.index]? with
    | some place => .done (finishAgain tokens place (p == first)) visited
    | none =>
      let (head, tail) := heap.slots p
      let found := found.insert p.index tokens.size
      let active := active.insert p
      match head with
      | .scalar value =>
        .visit ⟨first, pushHead tokens value.structural, found, p :: visited, tail⟩ active
      | .pair q =>
        if active.contains q then
          .visit ⟨first, pushHead tokens backEdge, found, p :: visited, tail⟩ active
        else .descend q ⟨first, tokens, found, p :: visited, tail⟩ active

end Frame

/-- The format of structural texts. -/
def format : Format Frame := ⟨Frame.start, Frame.move, Frame.push⟩

end Structural

/-- The structural text of a value, if it ends. -/
def structural? (heap : Heap) : Value → Option String
  | .scalar value => some value.structural
  | .pair p => (Machine.start Structural.format p).text? Structural.format heap

end Sexpr.Render
