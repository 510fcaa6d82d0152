import Sexpr.Session.Expr
import Sexpr.Text.Split

/-!
# Commands

What a step of a session does. Where a command has an operand it is an expression, and the
commands that make a value can put it into a register.
-/

namespace Sexpr

/-- What a step does. -/
inductive Command where
  /-- Describe a value. -/
  | describe (value : Expr)
  /-- Report the type of a value and nothing else. -/
  | typeOf (value : Expr)
  /-- Empty a register. -/
  | dropRegister (name : String)
  | inspect (value : Expr)
  /-- Compare two values. -/
  | compare (first second : Expr)
  | getSlot (slot : Slot) (target : Expr)
  | setSlot (slot : Slot) (target value : Expr)
  | getItem (target : Expr) (index : Int)
  | setItem (target : Expr) (index : Int) (value : Expr)
  | getPairItem (target : Expr) (index : Nat)
  | setPairItem (target : Expr) (index : Nat) (value : Expr)
  /-- Describe a pair and both of its slots. -/
  | showSlots (target : Expr)
  /-- Whether two pairs are the same. -/
  | identify (first second : Expr)
  /-- Whether the tails of a pair never end. -/
  | isEndless (target : Expr)
  /-- Describe a value by the digests of its texts. -/
  | digest (value : Expr)
  /-- Grow a chain of `count` pairs around a value, with numbers or nil in the other slots. A
  count below zero is zero. -/
  | grow (seed : Expr) (count : Int) (growth : Growth) (numbered : Bool)
  /-- Follow a slot from pair to pair. -/
  | descend (slot : Slot) (target : Expr)
  | openCursor (name : String) (target : Expr)
  | nextItem (name : String)
  | dropCursor (name : String)
  /-- Make a weak reference. -/
  | weaken (name : String) (target : Expr)
  /-- Look whether a weak reference still leads to something. -/
  | upgrade (name : String)
  /-- Set or remove the position of a pair, or of all pairs that it leads to. -/
  | assignPosition (target : Expr) (position : Option Position) (follow : Bool)
  /-- Give a position where there is none. -/
  | fillPosition (target : Expr) (position : Position) (follow : Bool)
  | positions (targets : List Expr)
  /-- Make the atom named after a value. -/
  | internValue (kind : AtomKind) (value : Expr)
  | isInterned (kind : AtomKind) (raw : String)
  /-- Count the different atoms among the given ones. -/
  | distinct (targets : List Expr)
  | splitAtom (side : Text.Side) (sep : Option String) (limit : Option Nat) (target : Expr)
  /-- Make a fresh symbol. -/
  | fresh (stem : Option String)
  /-- Make a fresh symbol after turning some candidates down. -/
  | freshAfter (stem : Option String) (rejects : Nat)
  /-- Call an entry point by name. -/
  | call (name : String) (positional : List Expr) (named : List (String × Expr))
  | collect
  /-- Count the registered pairs that are alive. -/
  | tracked
  /-- Make a list of `count` consecutive integers on another thread. A count below zero is zero. -/
  | threadList (start count : Int)
  /-- Empty a register on another thread. -/
  | threadDrop (name : String)
  /-- Make the atom of one name on several threads at once. -/
  | threadIntern (threads : Nat) (kind : AtomKind) (raw : String)

/-- A command, and the register for the value that it makes. -/
structure Step where
  command : Command
  into : Option String

end Sexpr
