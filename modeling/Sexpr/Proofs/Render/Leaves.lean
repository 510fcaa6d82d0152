import Mathlib.Tactic.Common
import Sexpr.Render.Scalar

/-!
# Texts of scalars, written out

A scalar is written in three ways. `Leaf.structural` stands wherever a structural text has a scalar,
`Leaf.item` stands for an item of a list, and `Leaf.plain` for a scalar alone or behind the dot.
Only texts and atoms make a difference between them. The three are written out here constructor by
constructor and character by character, and `Leaf.structural_eq`, `Leaf.item_eq` and `Leaf.plain_eq`
say that they are the texts that the machines put into place.
-/

namespace Sexpr.Leaf

/-- The text of a scalar, for given ways to write texts and atoms. -/
def write (text : String → String) (atom : Atom → String) : Scalar → String
  | .nil => "nil"
  | .bool true => "true"
  | .bool false => "false"
  | .int n => toString n
  | .float x => x.text
  | .text s => text s
  | .atom a => atom a

/-- The characters with a backslash before each quote. -/
def escaped : List Char → List Char
  | [] => []
  | '\x22' :: cs => '\x5c' :: '\x22' :: escaped cs
  | c :: cs => c :: escaped cs

/-- The text between quotes, with a backslash before each quote inside it. -/
def quoted (s : String) : String := String.ofList ('\x22' :: escaped s.toList ++ ['\x22'])

/-- A character by the number that it has, in braces and to the base sixteen. -/
def codePoint (c : Char) : List Char :=
  ['\x5c', 'u', '\x7b'] ++ Nat.toDigits 16 c.toNat ++ ['\x7d']

/-- A character in a form that can be seen between double quotes. -/
def visible : Char → List Char
  | '\x00' => ['\x5c', '0']
  | '\t' => ['\x5c', 't']
  | '\n' => ['\x5c', 'n']
  | '\r' => ['\x5c', 'r']
  | '\x22' => ['\x5c', '\x22']
  | '\x5c' => ['\x5c', '\x5c']
  | c => if Text.isUnprintable c then codePoint c else [c]

/-- The text between quotes, with every character in a form that can be seen. -/
def literal (s : String) : String :=
  String.ofList ('\x22' :: s.toList.flatMap visible ++ ['\x22'])

/-- A character of a name that stands between two marks. -/
def between (mark : Char) : Char → List Char
  | '\n' => ['\x5c', 'n']
  | '\r' => ['\x5c', 'r']
  | '\t' => ['\x5c', 't']
  | c =>
    if c = mark ∨ c = '\x5c' then ['\x5c', c]
    else if Atom.isControl c then codePoint c
    else [c]

/-- The name between single quotes, or between double quotes if only single ones are in it. -/
def named (name : String) : String :=
  let mark := if '\x22' ∈ name.toList ∨ '\x27' ∉ name.toList then '\x27' else '\x22'
  String.ofList (mark :: name.toList.flatMap (between mark) ++ [mark])

/-- The kind of an atom and its name between quotes. -/
def kindAndName (a : Atom) : String :=
  match a.kind with
  | .symbol => "<symbol " ++ named a.name ++ ">"
  | .keyword => "<keyword " ++ named a.name ++ ">"

/-- What stands in a structural text. -/
def structural : Scalar → String := write literal kindAndName

/-- What stands alone and behind the dot: a text is itself and an atom is its name. -/
def plain : Scalar → String := write id Atom.name

/-- What stands as an item of a list. -/
def item : Scalar → String := write quoted Atom.name

theorem toString_eq_integer (n : Int) : toString n = Decimal.integer n := by
  cases n <;> rfl

theorem escaped_eq_flatMap (cs : List Char) :
    escaped cs = cs.flatMap fun c => if c = '\x22' then ['\x5c', c] else [c] := by
  fun_induction escaped cs with
  | case1 => rfl
  | case2 cs ih => rw [ih, List.flatMap_cons, if_pos rfl, List.cons_append, List.singleton_append]
  | case3 c cs other ih =>
    have unquoted : c ≠ '\x22' := other
    rw [ih, List.flatMap_cons, if_neg unquoted, List.singleton_append]

theorem quoted_eq_listed (s : String) : quoted s = Text.listed s := by
  rw [quoted, escaped_eq_flatMap, ← String.toList_inj]
  simp [Text.listed]

theorem visible_eq (c : Char) : visible c = Text.literalChar Text.isUnprintable c := by
  unfold visible Text.literalChar
  split <;> simp_all [codePoint, Text.codeEscape, Text.hexDigits]

theorem literal_eq (s : String) : literal s = Text.literal s := by
  rw [literal, funext visible_eq, ← String.toList_inj]
  simp [Text.literal, Text.literalBody]

theorem between_eq (mark c : Char) : between mark c = Atom.quotedChar mark c := by
  unfold between Atom.quotedChar
  split
  case h_4 newline turn tab =>
    rw [if_neg newline, if_neg turn, if_neg tab]
    by_cases slash : c = '\x5c'
    · simp [slash]
    · simp [slash, codePoint, Text.codeEscape, Text.hexDigits]
  all_goals simp

theorem named_eq (name : String) : named name = String.ofList (Atom.quotedName name.toList) := by
  have mark : (if '\x22' ∈ name.toList ∨ '\x27' ∉ name.toList then '\x27' else '\x22') =
      Atom.quoteMark name.toList := by
    rw [Atom.quoteMark]
    grind
  simp only [named, Atom.quotedName, mark, funext (between_eq _)]

theorem kindAndName_eq (a : Atom) : kindAndName a = a.structural := by
  obtain ⟨id, kind, name⟩ := a
  rw [← String.toList_inj]
  cases kind <;> simp [kindAndName, named_eq, Atom.structural, AtomKind.text]

theorem structural_eq (value : Scalar) : structural value = value.structural := by
  cases value with
  | bool b => cases b <;> rfl
  | int n => exact toString_eq_integer n
  | text s => exact literal_eq s
  | atom a => exact kindAndName_eq a
  | _ => rfl

theorem plain_eq (value : Scalar) : plain value = value.plain := by
  cases value with
  | bool b => cases b <;> rfl
  | int n => exact toString_eq_integer n
  | _ => rfl

theorem item_eq (value : Scalar) : item value = value.item := by
  cases value with
  | bool b => cases b <;> rfl
  | int n => exact toString_eq_integer n
  | text s => exact quoted_eq_listed s
  | _ => rfl

end Sexpr.Leaf
