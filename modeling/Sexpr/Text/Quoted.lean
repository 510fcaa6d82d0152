import Sexpr.Text.Unprintable

/-!
# Quoted text

A text literal stands in double quotes. The quote and the backslash are written after a
backslash, four controls have a letter of their own, and every other character without a mark
on the page is written by its code point in hexadecimal. Which characters those are is a
parameter of the encoding; `literal` fixes it to `isUnprintable`.

`listed` is the shorter quoting of a text that stands as an item of a list, where only the
quote itself is escaped.
-/

namespace Sexpr.Text

/-- The digits of `n` in base sixteen, in lower case and without padding. -/
def hexDigits (n : Nat) : List Char := Nat.toDigits 16 n

/-- A character by its code point: a backslash, `u`, and the digits in braces. -/
def codeEscape (c : Char) : List Char :=
  '\x5c' :: 'u' :: '\x7b' :: hexDigits c.toNat ++ ['\x7d']

/-- One character of a literal, where `hidden` are the characters written by code point. -/
def literalChar (hidden : Char → Bool) (c : Char) : List Char :=
  if c = '\x00' then ['\x5c', '0']
  else if c = '\t' then ['\x5c', 't']
  else if c = '\n' then ['\x5c', 'n']
  else if c = '\r' then ['\x5c', 'r']
  else if c = '\x22' then ['\x5c', '\x22']
  else if c = '\x5c' then ['\x5c', '\x5c']
  else if hidden c then codeEscape c
  else [c]

/-- The characters of a literal between its quotes. -/
def literalBody (hidden : Char → Bool) (cs : List Char) : List Char :=
  cs.flatMap (literalChar hidden)

/-- The literal of a text: what it shows between double quotes. -/
def literal (s : String) : String :=
  "\"" ++ String.ofList (literalBody isUnprintable s.toList) ++ "\""

/-- A text as an item of a list: in double quotes, with a backslash before each inner quote. -/
def listed (s : String) : String :=
  "\"" ++ String.ofList (s.toList.flatMap fun c => if c = '\x22' then ['\x5c', c] else [c]) ++ "\""

end Sexpr.Text
