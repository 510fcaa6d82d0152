/-!
# Slots of a pair

A pair has two slots. Messages speak of them by their traditional names.
-/

namespace Sexpr

/-- One of the two slots of a pair. -/
inductive Slot where
  | head
  | tail
deriving DecidableEq

namespace Slot

/-- The traditional name of a slot. -/
def text : Slot → String
  | head => "car"
  | tail => "cdr"

/-- The slot at an index: the head is at 0 and the tail at 1. -/
def atIndex? (index : Int) : Option Slot :=
  if index = 0 then some head else if index = 1 then some tail else none

end Slot

/-- What was to be done with a slot. -/
inductive Access where
  | get
  | set
deriving DecidableEq

/-- The verb for an access. -/
def Access.text : Access → String
  | get => "get"
  | set => "set"

end Sexpr
