import Sexpr.Atom.Basic
import Sexpr.Decimal.Numeral
import Sexpr.Entry.Name
import Sexpr.Slot
import Sexpr.Text.Quoted
import Sexpr.TypeName

/-!
# Faults and errors

A `Fault` is the cause for which an operation was refused. Its kind and its wording are read off
by `Fault.kind` and `Fault.message`, and `Fault.error` pairs the two into the `Error` that is
reported.
-/

namespace Sexpr

/-- The category of an error. -/
inductive ErrorKind where
  /-- A call with missing, surplus or unknown arguments. -/
  | usage
  /-- An operation on a value of the wrong type. -/
  | type
  /-- A slot index outside the pair. -/
  | range
deriving DecidableEq

namespace ErrorKind

/-- The category in words. -/
def text : ErrorKind → String
  | usage => "usage error"
  | type => "type error"
  | range => "range error"

/-- The category in one capitalised word. -/
def tag : ErrorKind → String
  | usage => "Usage"
  | type => "Type"
  | range => "Range"

end ErrorKind

/-- A reported error: a category and a message. -/
structure Error where
  kind : ErrorKind
  message : String
deriving DecidableEq

namespace Error

/-- An error about the way a call was made. -/
def usage (message : String) : Error := ⟨.usage, message⟩

/-- An error about the type of a value. -/
def type (message : String) : Error := ⟨.type, message⟩

/-- An error about an index. -/
def range (message : String) : Error := ⟨.range, message⟩

/-- The error with the given category, built by the constructor for it. -/
def ofKind : ErrorKind → String → Error
  | .usage => usage
  | .type => type
  | .range => range

/-- The text of an error is its message. -/
def text (error : Error) : String := error.message

/-- The record of an error with its fields spelled out. -/
def record (error : Error) : String :=
  "ValueError \x7b kind: " ++ error.kind.tag ++ ", message: " ++ Text.literal error.message ++
    " \x7d"

end Error

/-- Why an operation was refused. -/
inductive Fault where
  /-- A text was to be cut at an empty separator. -/
  | emptySeparator
  /-- A pair has no slot at this index. -/
  | pairIndex
  /-- Nil has no items. -/
  | nilItems
  /-- Only pairs and nil have a length. -/
  | noLength (type : TypeName)
  /-- Only pairs and nil can be indexed. -/
  | notIndexed (type : TypeName)
  /-- Only pairs and nil can be iterated. -/
  | notIterable (type : TypeName)
  /-- Nil has no slots. -/
  | slotOfNil (access : Access) (slot : Slot)
  /-- Only pairs have slots. -/
  | slotOfOther (slot : Slot) (type : TypeName)
  /-- The entry point takes no named arguments. -/
  | namedArguments (entry : Entry)
  /-- An atom was to be made without a name. -/
  | missingName (kind : AtomKind)
  /-- The entry point takes exactly `expected` arguments. -/
  | wrongCount (entry : Entry) (expected given : Nat)
  /-- The entry point takes no more than `limit` arguments. -/
  | tooMany (entry : Entry) (limit given : Nat)
  /-- The entry point was called without the atom to work on. -/
  | missingAtom (entry : Entry)
  /-- The entry point works on atoms. -/
  | notAtom (entry : Entry) (type : TypeName)
  /-- An argument was given by name and by position. -/
  | givenTwice (entry : Entry) (key : String)
  /-- The entry point knows no argument of this name. -/
  | unknownKey (entry : Entry) (key : String)
  /-- A separator is a text or nil. -/
  | badSeparator (entry : Entry) (type : TypeName)
  /-- The number of cuts is an integer or nil. -/
  | badLimit (entry : Entry) (type : TypeName)
  /-- A pair was to be made with fewer than two values. -/
  | missingSlots
  /-- Nil was called with arguments. -/
  | nilArguments
  /-- A chain was to be built with other named arguments than the one it knows. -/
  | chainKeys
  /-- No unused name was found within the draws that suffice. -/
  | noFreshName
  /-- The text of a value did not end. -/
  | endlessText
deriving DecidableEq

namespace Fault

/-- The category of a fault. -/
def kind : Fault → ErrorKind
  | emptySeparator => .usage
  | pairIndex => .range
  | nilItems => .range
  | noLength _ => .type
  | notIndexed _ => .type
  | notIterable _ => .type
  | slotOfNil _ _ => .type
  | slotOfOther _ _ => .type
  | namedArguments _ => .usage
  | missingName _ => .usage
  | wrongCount _ _ _ => .usage
  | tooMany _ _ _ => .usage
  | missingAtom _ => .usage
  | notAtom _ _ => .type
  | givenTwice _ _ => .usage
  | unknownKey _ _ => .usage
  | badSeparator _ _ => .type
  | badLimit _ _ => .type
  | missingSlots => .usage
  | nilArguments => .usage
  | chainKeys => .usage
  | noFreshName => .range
  | endlessText => .range

/-- The word for `n` arguments. -/
def arguments (n : Nat) : String := if n = 1 then "argument" else "arguments"

/-- The wording of a fault. -/
def message : Fault → String
  | emptySeparator => "empty separator"
  | pairIndex => "pair index out of range"
  | nilItems => "nil has no items"
  | noLength type => "object of type '" ++ type.text ++ "' has no len"
  | notIndexed type => "'" ++ type.text ++ "' object is not subscriptable"
  | notIterable type => "'" ++ type.text ++ "' object is not iterable"
  | slotOfNil access slot => "cannot " ++ access.text ++ " " ++ slot.text ++ " of nil"
  | slotOfOther slot type => slot.text ++ ": expected pair, got " ++ type.text
  | namedArguments entry => entry.name ++ " takes no named arguments"
  | missingName .symbol => "interned atom requires a name"
  | missingName .keyword => "keyword requires a name"
  | wrongCount entry expected given =>
    entry.name ++ ": expected " ++ Decimal.natural expected ++ " " ++ arguments expected ++
      ", got " ++ Decimal.natural given
  | tooMany entry limit given =>
    entry.name ++ ": expected at most " ++ Decimal.natural limit ++ " " ++ arguments limit ++
      ", got " ++ Decimal.natural given
  | missingAtom entry => entry.name ++ ": expected an atom"
  | notAtom entry type => entry.name ++ ": expected symbol or keyword, got " ++ type.text
  | givenTwice entry key =>
    entry.name ++ ": argument '" ++ key ++ "' given by name and position"
  | unknownKey entry key => entry.name ++ ": unexpected named argument '" ++ key ++ "'"
  | badSeparator entry type =>
    entry.name ++ ": separator must be a string or nil, got " ++ type.text
  | badLimit entry type => entry.name ++ ": maxsplit must be an integer, got " ++ type.text
  | missingSlots => "pair requires a head and a tail"
  | nilArguments => "nil takes no arguments"
  | chainKeys => "cons accepts one named argument: recursive"
  | noFreshName => "no fresh name found"
  | endlessText => "text of the value does not end"

/-- The error that is reported for a fault. -/
def error (fault : Fault) : Error := ⟨fault.kind, fault.message⟩

end Fault

end Sexpr
