import Mathlib.Data.List.TakeWhile
import Sexpr.Atom.Quoted

/-!
# Reading quoted characters

Literals and names are quoted in two ways that differ in the mark around them and in the characters
that are written after a backslash. One reader does for both: `unescape` takes one character off the
front of a quoted text.

`Legible mark encode` says that characters which are written by `encode` can be read by `unescape`,
and that none of them begins like the closing `mark`. So a quoted text can be read off the front of
any longer text, in one way only (`Legible.append_mark_inj`). Literals are legible whatever
characters they hide (`legible_literalChar`), and so are names in either mark
(`Atom.legible_quotedChar`).
-/

namespace Sexpr.Text

/-! ## Code points -/

/-- The value of a digit in base sixteen. -/
def hexValue (c : Char) : Nat :=
  if c.isDigit then c.toNat - '0'.toNat else c.toNat - 'a'.toNat + 10

/-- The number that digits in base sixteen stand for. -/
def ofHexDigits (ds : List Char) : Nat := ds.foldl (fun n c => 16 * n + hexValue c) 0

theorem hexValue_digitChar : ∀ d < 16, hexValue (Nat.digitChar d) = d := by
  decide

theorem digitChar_ne_brace : ∀ d < 16, Nat.digitChar d ≠ '\x7d' := by
  decide

theorem digitChar_ne_hash : ∀ d < 16, Nat.digitChar d ≠ '#' := by
  decide

theorem hexDigits_of_lt {n : Nat} (small : n < 16) : hexDigits n = [Nat.digitChar n] :=
  Nat.toDigits_of_lt_base small

theorem hexDigits_of_le {n : Nat} (large : 16 ≤ n) :
    hexDigits n = hexDigits (n / 16) ++ [Nat.digitChar (n % 16)] :=
  Nat.toDigits_of_base_le (by decide) large

theorem ofHexDigits_hexDigits (n : Nat) : ofHexDigits (hexDigits n) = n := by
  induction n using Nat.strongRecOn with
  | ind n ih =>
    by_cases small : n < 16
    · rw [hexDigits_of_lt small]
      simp [ofHexDigits, hexValue_digitChar n small]
    · have front := ih (n / 16) (by omega)
      have last := hexValue_digitChar (n % 16) (by omega)
      rw [hexDigits_of_le (by omega), ofHexDigits, List.foldl_append]
      rw [ofHexDigits] at front
      simp only [front, List.foldl_cons, List.foldl_nil, last]
      omega

theorem exists_of_mem_hexDigits {n : Nat} {c : Char} (member : c ∈ hexDigits n) :
    ∃ d < 16, c = Nat.digitChar d := by
  induction n using Nat.strongRecOn with
  | ind n ih =>
    by_cases small : n < 16
    · rw [hexDigits_of_lt small, List.mem_singleton] at member
      exact ⟨n, small, member⟩
    · rw [hexDigits_of_le (by omega), List.mem_append, List.mem_singleton] at member
      rcases member with front | last
      · exact ih (n / 16) (by omega) front
      · exact ⟨n % 16, by omega, last⟩

theorem ne_brace_of_mem_hexDigits {n : Nat} {c : Char} (member : c ∈ hexDigits n) :
    c ≠ '\x7d' := by
  obtain ⟨d, small, rfl⟩ := exists_of_mem_hexDigits member
  exact digitChar_ne_brace d small

theorem ne_hash_of_mem_hexDigits {n : Nat} {c : Char} (member : c ∈ hexDigits n) : c ≠ '#' := by
  obtain ⟨d, small, rfl⟩ := exists_of_mem_hexDigits member
  exact digitChar_ne_hash d small

/-! ## One character -/

/-- The character that a letter after a backslash stands for. -/
def escapedLetter (c : Char) : Char :=
  if c = '0' then '\x00'
  else if c = 't' then '\t'
  else if c = 'n' then '\n'
  else if c = 'r' then '\r'
  else c

/-- Takes one character off a quoted text. -/
def unescape : List Char → Option (Char × List Char)
  | [] => none
  | '\x5c' :: 'u' :: '\x7b' :: rest =>
    some (Char.ofNat (ofHexDigits (rest.takeWhile (· != '\x7d'))),
      (rest.dropWhile (· != '\x7d')).drop 1)
  | '\x5c' :: c :: rest => some (escapedLetter c, rest)
  | c :: rest => some (c, rest)

theorem unescape_codeEscape (c : Char) (rest : List Char) :
    unescape (codeEscape c ++ rest) = some (c, rest) := by
  have inside : ∀ d ∈ hexDigits c.toNat, (d != '\x7d') = true :=
    fun d member => bne_iff_ne.2 (ne_brace_of_mem_hexDigits member)
  have split : codeEscape c ++ rest =
      '\x5c' :: 'u' :: '\x7b' :: (hexDigits c.toNat ++ '\x7d' :: rest) := by
    simp [codeEscape]
  rw [split, unescape, List.takeWhile_append_of_pos inside, List.dropWhile_append_of_pos inside]
  simp [ofHexDigits_hexDigits]

theorem unescape_plain {c : Char} (plain : c ≠ '\x5c') (rest : List Char) :
    unescape (c :: rest) = some (c, rest) := by
  unfold unescape
  split
  · contradiction
  · simp_all
  · simp_all
  · simp_all

/-- Characters that `encode` has written can be read, and told from the closing mark. -/
structure Legible (mark : Char) (encode : Char → List Char) : Prop where
  reads : ∀ c rest, unescape (encode c ++ rest) = some (c, rest)
  apart : ∀ c rest, (encode c ++ rest).head? ≠ some mark

/-- What stands before the closing mark can be read in one way only. -/
theorem Legible.append_mark_inj {mark : Char} {encode : Char → List Char}
    (legible : Legible mark encode) {cs ds rest rest' : List Char}
    (same : cs.flatMap encode ++ mark :: rest = ds.flatMap encode ++ mark :: rest') :
    cs = ds ∧ rest = rest' := by
  induction cs generalizing ds with
  | nil =>
    cases ds with
    | nil => exact ⟨rfl, (List.cons.inj same).2⟩
    | cons d ds =>
      rw [List.flatMap_nil, List.nil_append, List.flatMap_cons, List.append_assoc] at same
      exact absurd (congrArg List.head? same).symm (legible.apart d _)
  | cons c cs ih =>
    rw [List.flatMap_cons, List.append_assoc] at same
    cases ds with
    | nil => exact absurd (congrArg List.head? same) (legible.apart c _)
    | cons d ds =>
      rw [List.flatMap_cons, List.append_assoc] at same
      have read := congrArg unescape same
      rw [legible.reads, legible.reads, Option.some.injEq, Prod.mk.injEq] at read
      obtain ⟨rfl, after⟩ := read
      obtain ⟨rfl, rfl⟩ := ih after
      exact ⟨rfl, rfl⟩

/-! ## Literals -/

/-- Literals are legible, whatever characters are written by code point. -/
theorem legible_literalChar (hidden : Char → Bool) : Legible '\x22' (literalChar hidden) := by
  refine ⟨fun c rest => ?_, fun c rest => ?_⟩
  · unfold literalChar
    split_ifs with nul tab line feed quote slash hide
    · subst nul; rfl
    · subst tab; rfl
    · subst line; rfl
    · subst feed; rfl
    · subst quote; rfl
    · subst slash; rfl
    · exact unescape_codeEscape c rest
    · exact unescape_plain slash rest
  · unfold literalChar
    split_ifs with nul tab line feed quote slash hide
    case neg => simpa using quote
    all_goals simp [codeEscape]

theorem literalBody_append_inj {hidden : Char → Bool} {cs ds rest rest' : List Char}
    (same : literalBody hidden cs ++ '\x22' :: rest = literalBody hidden ds ++ '\x22' :: rest') :
    cs = ds ∧ rest = rest' :=
  (legible_literalChar hidden).append_mark_inj same

end Sexpr.Text

/-! ## Names -/

namespace Sexpr.Atom

open Text

theorem quoteMark_eq (cs : List Char) : quoteMark cs = '\x27' ∨ quoteMark cs = '\x22' := by
  unfold quoteMark
  split
  · exact Or.inr rfl
  · exact Or.inl rfl

theorem legible_quotedChar {mark : Char} (quote : mark = '\x27' ∨ mark = '\x22') :
    Legible mark (quotedChar mark) := by
  refine ⟨fun c rest => ?_, fun c rest => ?_⟩
  · unfold quotedChar
    split_ifs with slash line feed tab own control
    · subst slash; rfl
    · subst line; rfl
    · subst feed; rfl
    · subst tab; rfl
    · subst own
      rcases quote with rfl | rfl <;> rfl
    · exact unescape_codeEscape c rest
    · exact unescape_plain slash rest
  · have other : '\x5c' ≠ mark := by
      rcases quote with rfl | rfl <;> decide
    unfold quotedChar
    split_ifs with slash line feed tab own control
    case neg => simpa using own
    all_goals simp [codeEscape, other]

/-- A quoted name can be read off the front of a text in one way only: its first character is the
mark that closes it. -/
theorem quotedName_append_inj {cs ds rest rest' : List Char}
    (same : quotedName cs ++ rest = quotedName ds ++ rest') : cs = ds ∧ rest = rest' := by
  simp only [quotedName, List.cons_append, List.append_assoc, List.nil_append] at same
  obtain ⟨mark, body⟩ := List.cons.inj same
  rw [← mark] at body
  exact (legible_quotedChar (quoteMark_eq cs)).append_mark_inj body

end Sexpr.Atom
