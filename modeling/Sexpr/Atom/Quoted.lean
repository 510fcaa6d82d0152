import Sexpr.Atom.Basic
import Sexpr.Text.Quoted

/-!
# Quoted names

The structural text of an atom shows its kind and its name between quotes. A name stands in
single quotes unless it holds a single quote and no double quote. Inside, the mark itself and the
backslash are written after a backslash, three controls have a letter of their own, and the other
controls are written by code point. All other characters stand for themselves.
-/

namespace Sexpr.Atom

/-- The mark that encloses a name. -/
def quoteMark (cs : List Char) : Char :=
  if '\x27' ∈ cs ∧ '\x22' ∉ cs then '\x22' else '\x27'

/-- Whether `c` is a control character, of the general category `Cc`. -/
def isControl (c : Char) : Bool := c.toNat < 0x20 || (0x7F ≤ c.toNat && c.toNat < 0xA0)

/-- One character of a name that stands between two `mark`s. -/
def quotedChar (mark c : Char) : List Char :=
  if c = '\x5c' then ['\x5c', '\x5c']
  else if c = '\n' then ['\x5c', 'n']
  else if c = '\r' then ['\x5c', 'r']
  else if c = '\t' then ['\x5c', 't']
  else if c = mark then ['\x5c', c]
  else if isControl c then Text.codeEscape c
  else [c]

/-- A name between its marks. -/
def quotedName (cs : List Char) : List Char :=
  let mark := quoteMark cs
  mark :: cs.flatMap (quotedChar mark) ++ [mark]

/-- The structural text of an atom. -/
def structural (a : Atom) : String :=
  "<" ++ a.kind.text ++ " " ++ String.ofList (quotedName a.name.toList) ++ ">"

/-- The text of a weak reference to an atom. -/
def weakText (a : Atom) (alive : Bool) : String :=
  "(weak) " ++ if alive then a.structural else "<dead>"

end Sexpr.Atom
