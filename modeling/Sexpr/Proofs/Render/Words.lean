import Sexpr.Proofs.Decimal.Numerals
import Sexpr.Proofs.Text.Escapes
import Sexpr.Render.Scalar

/-!
# Words

A `Word` is what stands in a structural text without being a chain: what a text shows of a scalar,
or one of the two marks for pairs that are not written out. Floating-point numbers are shown by
their text and atoms by kind and name, so `Scalar.word` forgets the bits of the one and the identity
of the other, and nothing else.

Behind a word there is nothing, a comma or a closing bracket (`Ends`). Up to there a word can be
read in one way only, whatever characters of texts are written by code point: that is
`Word.append_inj`. Texts and atoms have quotes around what could be mistaken, and no other word has
a character that could end it.
-/

namespace Sexpr.Render

/-! ## Words and their characters -/

/-- The words that are written in one way only. -/
inductive Fixed where
  | nil
  | yes
  | no
  /-- A chain comes back to one of its own pairs. -/
  | again
  /-- A head is active. -/
  | back
deriving DecidableEq

def Fixed.chars : Fixed → List Char
  | nil => ['n', 'i', 'l']
  | yes => ['t', 'r', 'u', 'e']
  | no => ['f', 'a', 'l', 's', 'e']
  | again => ['r', 'e', 'c', 'u', 'r', 's', 'i', 'v', 'e', '=', 'T', 'r', 'u', 'e']
  | back => ['.', '.', '.']

/-- What stands in a structural text without being a chain. -/
inductive Word where
  | fixed (word : Fixed)
  | int (value : Int)
  /-- A floating-point number, by its text. -/
  | float (shown : { text : String // ∃ x : Binary64, x.text = text })
  | text (value : String)
  | atom (kind : AtomKind) (name : String)
deriving DecidableEq

/-- The characters of a word, where `hidden` are the characters of texts that are written by code
point. -/
def Word.chars (hidden : Char → Bool) : Word → List Char
  | fixed word => word.chars
  | int value => (Decimal.integer value).toList
  | float shown => shown.1.toList
  | text value => '\x22' :: Text.literalBody hidden value.toList ++ ['\x22']
  | atom kind name => '<' :: kind.text.toList ++ ' ' :: Atom.quotedName name.toList ++ ['>']

/-- Whether quotes or angles stand around the word. -/
def Word.isQuoted : Word → Bool
  | fixed _ => false
  | int _ => false
  | float _ => false
  | text _ => true
  | atom _ _ => true

/-! ## Where words end -/

/-- Whether `c` can stand in a word that is not quoted. -/
def isBare (c : Char) : Bool :=
  c != ',' && c != ')' && c != '(' && c != '\x22' && c != '<'

/-- What can stand behind a word or a chain: nothing, a comma or a closing bracket. -/
def Ends (rest : List Char) : Prop := ∀ c, rest.head? = some c → c = ',' ∨ c = ')'

theorem ends_nil : Ends [] := by
  simp [Ends]

theorem ends_comma (rest : List Char) : Ends (',' :: rest) := by
  simp [Ends]

theorem ends_bracket (rest : List Char) : Ends (')' :: rest) := by
  simp [Ends]

/-- The first character that cannot stand in a word without quotes. -/
def stopper (cs : List Char) : Option Char := (cs.dropWhile isBare).head?

theorem Ends.dropWhile_isBare {rest : List Char} (ends : Ends rest) :
    rest.dropWhile isBare = rest := by
  cases rest with
  | nil => rfl
  | cons c rest =>
    have bound : isBare c = false := by
      rcases ends c rfl with rfl | rfl <;> rfl
    rw [List.dropWhile_cons, bound]
    rfl

theorem isBare_of_inFraction {c : Char} (fractional : Decimal.InFraction c) :
    isBare c = true := by
  rcases fractional with (digit | rfl) | rfl | rfl
  · have other : ∀ d : Char, d.isDigit = false → c ≠ d := by
      rintro d strange rfl
      rw [digit] at strange
      cases strange
    simp [isBare, other]
  · rfl
  · rfl
  · rfl

namespace Fixed

theorem all_isBare (word : Fixed) : word.chars.all isBare = true := by
  cases word <;> rfl

theorem chars_inj {word other : Fixed} (same : word.chars = other.chars) : word = other := by
  revert same
  cases word <;> cases other <;> decide

/-- No number begins like a word that is always written alike. -/
theorem exists_lead (word : Fixed) :
    ∃ c rest, word.chars = c :: rest ∧ Decimal.isLead c = false := by
  cases word <;> exact ⟨_, _, rfl, rfl⟩

theorem chars_ne_integer (word : Fixed) (n : Int) : word.chars ≠ (Decimal.integer n).toList := by
  obtain ⟨c, rest, shown, other⟩ := word.exists_lead
  rw [shown]
  exact (Decimal.integer_ne_cons n other).symm

theorem chars_ne_text (word : Fixed) (x : Binary64) : word.chars ≠ x.text.toList := by
  obtain ⟨c, rest, shown, other⟩ := word.exists_lead
  rw [shown]
  exact (Binary64.text_ne_cons other).symm

end Fixed

namespace Word

open Decimal

variable {hidden : Char → Bool} {word other : Word} {rest rest' : List Char}

theorem isBare_of_mem (plain : word.isQuoted = false) {c : Char}
    (member : c ∈ word.chars hidden) : isBare c = true := by
  cases word with
  | fixed word => exact List.all_eq_true.1 word.all_isBare c member
  | int value => exact isBare_of_inFraction (Or.inl (isNumeral_of_mem_integer member))
  | float shown =>
    obtain ⟨_, x, rfl⟩ := shown
    rcases Binary64.inFraction_of_mem_text member with fractional | letter
    · exact isBare_of_inFraction fractional
    · have bare : ['N', 'a', 'i', 'n', 'f'].all isBare = true := rfl
      exact List.all_eq_true.1 bare c letter
  | text value => cases plain
  | atom kind name => cases plain

theorem eq_of_chars_eq (plain : word.isQuoted = false) (plain' : other.isQuoted = false)
    (same : word.chars hidden = other.chars hidden) : word = other := by
  cases word with
  | fixed word =>
    cases other with
    | fixed other => rw [Fixed.chars_inj same]
    | int n => exact absurd same (word.chars_ne_integer n)
    | float shown =>
      obtain ⟨_, y, rfl⟩ := shown
      exact absurd same (word.chars_ne_text y)
    | _ => cases plain'
  | int m =>
    cases other with
    | fixed other => exact absurd same.symm (other.chars_ne_integer m)
    | int n => rw [integer_inj same]
    | float shown =>
      obtain ⟨_, y, rfl⟩ := shown
      exact absurd same.symm (Binary64.text_ne_integer m)
    | _ => cases plain'
  | float shown =>
    obtain ⟨_, x, rfl⟩ := shown
    cases other with
    | fixed other => exact absurd same.symm (other.chars_ne_text x)
    | int n => exact absurd same (Binary64.text_ne_integer n)
    | float shown => rw [Subtype.ext (String.toList_inj.1 same)]
    | _ => cases plain'
  | _ => cases plain

/-- A word that is not quoted ends where no further character could stand in it. -/
theorem dropWhile_append (plain : word.isQuoted = false) (ends : Ends rest) :
    (word.chars hidden ++ rest).dropWhile isBare = rest := by
  rw [List.dropWhile_append_of_pos fun c => isBare_of_mem plain, ends.dropWhile_isBare]

theorem stopper_of_plain (plain : word.isQuoted = false) (ends : Ends rest) :
    stopper (word.chars hidden ++ rest) = rest.head? := by
  rw [stopper, dropWhile_append plain ends]

theorem stopper_of_quoted (quoted : word.isQuoted = true) :
    stopper (word.chars hidden ++ rest) = some '\x22' ∨
      stopper (word.chars hidden ++ rest) = some '<' := by
  cases word with
  | text value => exact Or.inl rfl
  | atom kind name => exact Or.inr rfl
  | _ => cases quoted

theorem quoted_append_ne (ends : Ends rest) (plain : word.isQuoted = false)
    (quoted : other.isQuoted = true) :
    word.chars hidden ++ rest ≠ other.chars hidden ++ rest' := by
  intro same
  have stops := congrArg stopper same
  rw [stopper_of_plain plain ends] at stops
  rcases stopper_of_quoted quoted with quote | angle
  · rcases ends _ (stops.trans quote) with comma | bracket
    · cases comma
    · cases bracket
  · rcases ends _ (stops.trans angle) with comma | bracket
    · cases comma
    · cases bracket

theorem atom_append_inj {kind kind' : AtomKind} {name name' : String}
    (same : (atom kind name).chars hidden ++ rest = (atom kind' name').chars hidden ++ rest') :
    atom kind name = atom kind' name' ∧ rest = rest' := by
  have kinds : kind = kind' := by
    cases kind <;> cases kind' <;> simp [chars, AtomKind.text] at same ⊢
  subst kinds
  simp only [chars, List.cons_append, List.append_assoc, List.nil_append, List.cons.injEq,
    true_and, List.append_cancel_left_eq] at same
  obtain ⟨names, after⟩ := Atom.quotedName_append_inj same
  rw [String.toList_inj.1 names]
  exact ⟨rfl, (List.cons.inj after).2⟩

theorem text_append_inj {value value' : String}
    (same : (text value).chars hidden ++ rest = (text value').chars hidden ++ rest') :
    text value = text value' ∧ rest = rest' := by
  simp only [chars, List.cons_append, List.append_assoc, List.nil_append, List.cons.injEq,
    true_and] at same
  obtain ⟨values, after⟩ := Text.literalBody_append_inj same
  rw [String.toList_inj.1 values]
  exact ⟨rfl, after⟩

/-- A word can be read off the front of a text in one way only. -/
theorem append_inj (ends : Ends rest) (ends' : Ends rest')
    (same : word.chars hidden ++ rest = other.chars hidden ++ rest') :
    word = other ∧ rest = rest' := by
  cases plain : word.isQuoted with
  | false =>
    -- The rest begins where no further character could stand in the word.
    cases plain' : other.isQuoted with
    | false =>
      have after := congrArg (List.dropWhile isBare) same
      rw [dropWhile_append plain ends, dropWhile_append plain' ends'] at after
      subst after
      exact ⟨eq_of_chars_eq plain plain' (List.append_cancel_right same), rfl⟩
    | true => exact absurd same (quoted_append_ne ends plain plain')
  | true =>
    cases plain' : other.isQuoted with
    | false => exact absurd same.symm (quoted_append_ne ends' plain' plain)
    | true =>
      cases word with
      | text value =>
        cases other with
        | text value' => exact text_append_inj same
        | atom kind name => cases same
        | _ => cases plain'
      | atom kind name =>
        cases other with
        | text value => cases same
        | atom kind' name' => exact atom_append_inj same
        | _ => cases plain'
      | _ => cases plain

end Word

end Sexpr.Render

namespace Sexpr.Scalar

open Render

/-- What the structural text shows of a scalar. -/
def word : Scalar → Word
  | nil => .fixed .nil
  | bool true => .fixed .yes
  | bool false => .fixed .no
  | int value => .int value
  | float value => .float ⟨value.text, value, rfl⟩
  | text value => .text value
  | atom value => .atom value.kind value.name

theorem word_ne_again (value : Scalar) : value.word ≠ .fixed .again := by
  cases value with
  | bool value => cases value <;> simp [word]
  | _ => simp [word]

theorem word_ne_back (value : Scalar) : value.word ≠ .fixed .back := by
  cases value with
  | bool value => cases value <;> simp [word]
  | _ => simp [word]

theorem chars_word (value : Scalar) :
    value.word.chars Text.isUnprintable = value.structural.toList := by
  cases value with
  | nil => rfl
  | bool value => cases value <;> rfl
  | int value => rfl
  | float value => rfl
  | text value => simp [word, Word.chars, structural, Text.literal]
  | atom value => simp [word, Word.chars, structural, Atom.structural]

end Sexpr.Scalar
