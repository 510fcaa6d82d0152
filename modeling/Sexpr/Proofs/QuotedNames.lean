import Mathlib.Order.Bounds.Defs
import Sexpr.Proofs.Text.Escapes

/-!
# Quoted names can be read back

`Text.unquote` reads a quoted text off the front of a longer one: the first character is the mark,
and characters are taken off one by one until the mark comes again. `Atom.ReadsBack` says that this
gives back every name, and that less is needed to see where a quoted name ends: its closing mark is
the first mark with an even number of backslashes directly before it.

Both rest on what is written for one character. `Legible` says that it can be read, and
`Text.Sealed` that it keeps the number of backslashes even and has a mark only behind an odd number
of them; both carry over from characters to whole names (`Legible.unquoteTo_flatMap`,
`Sealed.flatMap`).
-/

namespace Sexpr.Text

variable {mark c : Char} {text rest : List Char} {encode : Char → List Char}

/-! ## Reading a name -/

theorem length_lt_of_unescape (read : unescape text = some (c, rest)) :
    rest.length < text.length := by
  unfold unescape at read
  split at read
  · cases read
  · cases read
    have shorter := List.length_dropWhile_le (· != '\x7d') ‹List Char›
    rw [List.length_drop]
    simp only [List.length_cons]
    omega
  · cases read
    simp only [List.length_cons]
    omega
  · cases read
    exact Nat.lt_succ_self _

/-- The characters before the next `mark` that is not part of one of them, and what stands behind
it. -/
def unquoteTo (mark : Char) (text : List Char) : Option (List Char × List Char) :=
  if text.head? = some mark then some ([], text.drop 1)
  else
    match _read : unescape text with
    | none => none
    | some (c, rest) => (unquoteTo mark rest).map fun (cs, behind) => (c :: cs, behind)
termination_by text.length
decreasing_by exact length_lt_of_unescape _read

/-- Reads a quoted text in either mark off the front of a text. -/
def unquote : List Char → Option (List Char × List Char)
  | [] => none
  | mark :: text => if mark = '\x27' ∨ mark = '\x22' then unquoteTo mark text else none

theorem unquoteTo_mark (mark : Char) (rest : List Char) :
    unquoteTo mark (mark :: rest) = some ([], rest) := by
  rw [unquoteTo, List.head?_cons, if_pos rfl, List.drop_one, List.tail_cons]

theorem unquoteTo_of_unescape (inside : text.head? ≠ some mark)
    (read : unescape text = some (c, rest)) :
    unquoteTo mark text = (unquoteTo mark rest).map fun (cs, behind) => (c :: cs, behind) := by
  rw [unquoteTo, if_neg inside]
  split
  · next none => cases none.symm.trans read
  · next some =>
    cases some.symm.trans read
    rfl

theorem Legible.unquoteTo_flatMap (legible : Legible mark encode) (cs rest : List Char) :
    unquoteTo mark (cs.flatMap encode ++ mark :: rest) = some (cs, rest) := by
  induction cs with
  | nil => exact unquoteTo_mark mark rest
  | cons c cs ih =>
    rw [List.flatMap_cons, List.append_assoc,
      unquoteTo_of_unescape (legible.apart c _) (legible.reads c _), ih]
    rfl

/-! ## The closing mark -/

/-- How many backslashes stand at the end of a text. -/
def slashRun (text : List Char) : Nat := (text.reverse.takeWhile (· == '\x5c')).length

/-- A mark stands at the given place, with an even number of backslashes directly before it. -/
def ClosesAt (mark : Char) (text : List Char) (place : Nat) : Prop :=
  text[place]? = some mark ∧ slashRun (text.take place) % 2 = 0

/-- Behind an even number of backslashes one counts as from the start. -/
theorem slashRun_append {first : List Char} (even : slashRun first % 2 = 0) (second : List Char) :
    slashRun (first ++ second) % 2 = slashRun second % 2 := by
  unfold slashRun at even ⊢
  rw [List.reverse_append, List.takeWhile_append]
  split
  · next all =>
    rw [List.length_append]
    omega
  · rfl

theorem slashRun_of_plain (plain : '\x5c' ∉ text) : slashRun text = 0 := by
  rw [slashRun, List.length_eq_zero_iff, List.takeWhile_eq_nil_iff]
  intro nonempty slash
  have last := List.get_mem text.reverse ⟨0, nonempty⟩
  rw [beq_iff_eq.1 slash, List.mem_reverse] at last
  exact plain last

/-- A text that can stand before the closing mark: it ends in an even number of backslashes, and
each mark in it stands behind an odd number. -/
structure Sealed (mark : Char) (text : List Char) : Prop where
  even : slashRun text % 2 = 0
  guarded : ∀ before after, text = before ++ mark :: after → slashRun before % 2 = 1

namespace Sealed

theorem of_plain (slash : '\x5c' ∉ text) (bare : mark ∉ text) : Sealed mark text where
  even := by rw [slashRun_of_plain slash]
  guarded before after split := by
    rw [split] at bare
    exact absurd (List.mem_append_right before List.mem_cons_self) bare

/-- A backslash takes the next character with it. -/
theorem of_escaped (quote : mark ≠ '\x5c') (c : Char) : Sealed mark ['\x5c', c] where
  even := by
    by_cases slash : c = '\x5c'
    · rw [slash]
      rfl
    · simp [slashRun, slash]
  guarded before after split := by
    rcases before with _ | ⟨first, before⟩
    · exact absurd (List.cons.inj split).1.symm quote
    · obtain ⟨rfl, split⟩ := List.cons.inj split
      rcases before with _ | ⟨second, before⟩
      · rfl
      · have short := congrArg List.length split
        simp at short

theorem append {first second : List Char} (left : Sealed mark first) (right : Sealed mark second) :
    Sealed mark (first ++ second) where
  even := (slashRun_append left.even second).trans right.even
  guarded before after split := by
    rcases List.append_eq_append_iff.1 split with ⟨more, rfl, behind⟩ | ⟨more, whole, behind⟩
    · rw [slashRun_append left.even]
      exact right.guarded more after behind
    · rcases more with _ | ⟨first, more⟩
      · rw [List.append_nil] at whole
        rw [← whole, ← List.append_nil first, slashRun_append left.even]
        exact right.guarded [] after behind.symm
      · obtain ⟨rfl, _⟩ := List.cons.inj behind
        exact left.guarded before more whole

theorem flatMap (each : ∀ c, Sealed mark (encode c)) (cs : List Char) :
    Sealed mark (cs.flatMap encode) := by
  induction cs with
  | nil => exact of_plain List.not_mem_nil List.not_mem_nil
  | cons c cs ih =>
    rw [List.flatMap_cons]
    exact (each c).append ih

/-- The mark behind such a text is the first one that closes. -/
theorem isLeast_closesAt (inside : Sealed mark text) (quote : mark ≠ '\x5c') (rest : List Char) :
    IsLeast { place | 0 < place ∧ ClosesAt mark (mark :: text ++ mark :: rest) place }
      (text.length + 1) := by
  have opening : slashRun [mark] % 2 = 0 := by
    rw [slashRun_of_plain (by simpa using quote.symm)]
  constructor
  · refine ⟨Nat.succ_pos _, ?_, ?_⟩
    · simp
    · rw [List.cons_append, List.take_succ_cons, List.take_left]
      exact (slashRun_append opening text).trans inside.even
  · intro place closing
    obtain ⟨positive, found, even⟩ := closing
    by_contra early
    obtain ⟨place, rfl⟩ := Nat.exists_eq_succ_of_ne_zero (Nat.ne_of_gt positive)
    have small : place < text.length := by omega
    rw [List.cons_append, List.getElem?_cons_succ, List.getElem?_append_left small] at found
    obtain ⟨_, here⟩ := List.getElem?_eq_some_iff.1 found
    have split : text = text.take place ++ mark :: text.drop (place + 1) := by
      rw [← here, ← List.drop_eq_getElem_cons small, List.take_append_drop]
    have odd := inside.guarded _ _ split
    rw [List.cons_append, List.take_succ_cons, List.take_append_of_le_length (Nat.le_of_lt small)]
      at even
    have same := slashRun_append opening (text.take place)
    rw [List.singleton_append] at same
    omega

end Sealed

end Sexpr.Text

namespace Sexpr.Atom

open Text

variable {mark c d : Char} {cs : List Char}

/-! ## What is written for one character -/

theorem mark_ne_slash (quote : mark = '\x27' ∨ mark = '\x22') : mark ≠ '\x5c' := by
  rcases quote with rfl | rfl <;> decide

theorem isControl_mark (quote : mark = '\x27' ∨ mark = '\x22') : isControl mark = false := by
  rcases quote with rfl | rfl <;> rfl

/-- Three things can be written for a character: one character behind a backslash, its code point,
or the character itself. -/
theorem quotedChar_cases (mark c : Char) :
    (∃ e, quotedChar mark c = ['\x5c', e] ∧
      (e ∈ ['\x5c', 'n', 'r', 't'] ∨ e = mark ∧ c = mark)) ∨
    quotedChar mark c = codeEscape c ∨
    quotedChar mark c = [c] ∧ c ≠ '\x5c' ∧ c ≠ mark ∧ isControl c = false := by
  unfold quotedChar
  split_ifs with slash line feed tab own control
  · exact Or.inl ⟨'\x5c', rfl, Or.inl (by decide)⟩
  · exact Or.inl ⟨'n', rfl, Or.inl (by decide)⟩
  · exact Or.inl ⟨'r', rfl, Or.inl (by decide)⟩
  · exact Or.inl ⟨'t', rfl, Or.inl (by decide)⟩
  · exact Or.inl ⟨c, rfl, Or.inr ⟨own, own⟩⟩
  · exact Or.inr (Or.inl rfl)
  · exact Or.inr (Or.inr ⟨rfl, slash, own, Bool.eq_false_iff.2 control⟩)

/-- A character that is neither a backslash nor a mark nor a control. -/
def Inert (c : Char) : Prop :=
  c ≠ '\x5c' ∧ c ≠ '\x27' ∧ c ≠ '\x22' ∧ isControl c = false

instance (c : Char) : Decidable (Inert c) := inferInstanceAs (Decidable (_ ∧ _))

theorem inert_digitChar : ∀ n < 16, Inert (Nat.digitChar n) := by
  decide

/-- Behind its backslash, a code point is written with inert characters. -/
theorem inert_of_mem_codeEscape (member : d ∈ (codeEscape c).tail) : Inert d := by
  simp only [codeEscape, List.cons_append, List.tail_cons, List.mem_cons, List.mem_append,
    List.not_mem_nil, or_false] at member
  rcases member with rfl | rfl | digit | rfl
  · decide
  · decide
  · obtain ⟨n, small, rfl⟩ := exists_of_mem_hexDigits digit
    exact inert_digitChar n small
  · decide

theorem sealed_codeEscape (quote : mark = '\x27' ∨ mark = '\x22') (c : Char) :
    Sealed mark (codeEscape c) := by
  have inert : ∀ d ∈ '\x7b' :: hexDigits c.toNat ++ ['\x7d'], Inert d := fun d member =>
    inert_of_mem_codeEscape (List.mem_cons_of_mem 'u' member)
  have split : codeEscape c = ['\x5c', 'u'] ++ ('\x7b' :: hexDigits c.toNat ++ ['\x7d']) := rfl
  rw [split]
  apply Sealed.append
  · exact Sealed.of_escaped (mark_ne_slash quote) 'u'
  · apply Sealed.of_plain
    · exact fun member => (inert _ member).1 rfl
    · intro member
      obtain ⟨_, single, double, _⟩ := inert mark member
      exact quote.elim single double

theorem sealed_quotedChar (quote : mark = '\x27' ∨ mark = '\x22') (c : Char) :
    Sealed mark (quotedChar mark c) := by
  rcases quotedChar_cases mark c with ⟨e, escaped, _⟩ | coded | ⟨plain, slash, own, _⟩
  · rw [escaped]
    exact Sealed.of_escaped (mark_ne_slash quote) e
  · rw [coded]
    exact sealed_codeEscape quote c
  · rw [plain]
    apply Sealed.of_plain
    · simpa using slash.symm
    · simpa using own.symm

/-- No control is written, whatever the character. -/
theorem isControl_of_mem_quotedChar (quote : mark = '\x27' ∨ mark = '\x22')
    (member : d ∈ quotedChar mark c) : isControl d = false := by
  have letters : ∀ e ∈ ['\x5c', 'n', 'r', 't'], isControl e = false := by simp [isControl]
  rcases quotedChar_cases mark c with ⟨e, escaped, letter⟩ | coded | ⟨plain, _, _, control⟩
  · rw [escaped, List.mem_cons, List.mem_singleton] at member
    rcases member with rfl | rfl
    · rfl
    · rcases letter with letter | ⟨rfl, _⟩
      · exact letters d letter
      · exact isControl_mark quote
  · rw [coded] at member
    rcases List.mem_cons.1 member with rfl | member
    · rfl
    · exact (inert_of_mem_codeEscape member).2.2.2
  · rw [plain, List.mem_singleton] at member
    rw [member]
    exact control

/-- A mark is written for a mark only. -/
theorem not_mem_quotedChar (quote : mark = '\x27' ∨ mark = '\x22') (other : c ≠ mark) :
    mark ∉ quotedChar mark c := by
  have letters : ∀ e ∈ ['\x5c', 'n', 'r', 't'], e ≠ '\x27' ∧ e ≠ '\x22' := by simp
  intro member
  rcases quotedChar_cases mark c with ⟨e, escaped, letter⟩ | coded | ⟨plain, _, own, _⟩
  · have letter := letter.resolve_right fun own => other own.2
    rw [escaped, List.mem_cons, List.mem_singleton] at member
    rcases member with slash | rfl
    · exact mark_ne_slash quote slash
    · exact quote.elim (letters mark letter).1 (letters mark letter).2
  · rw [coded] at member
    rcases List.mem_cons.1 member with slash | member
    · exact mark_ne_slash quote slash
    · obtain ⟨_, single, double, _⟩ := inert_of_mem_codeEscape member
      exact quote.elim single double
  · rw [plain, List.mem_singleton] at member
    exact own member.symm

/-! ## Names -/

theorem quotedName_eq (cs : List Char) :
    quotedName cs = quoteMark cs :: cs.flatMap (quotedChar (quoteMark cs)) ++ [quoteMark cs] := rfl

theorem quoteMark_eq_double_iff : quoteMark cs = '\x22' ↔ '\x27' ∈ cs ∧ '\x22' ∉ cs := by
  unfold quoteMark
  split
  · next found => exact iff_of_true rfl found
  · next missing => exact iff_of_false (by decide) missing

theorem unquote_quotedName (cs rest : List Char) :
    unquote (quotedName cs ++ rest) = some (cs, rest) := by
  have quote := quoteMark_eq cs
  rw [quotedName_eq, List.append_assoc, List.cons_append, unquote, if_pos quote]
  exact (legible_quotedChar quote).unquoteTo_flatMap cs rest

theorem isControl_of_mem_quotedName (member : d ∈ quotedName cs) : isControl d = false := by
  have quote := quoteMark_eq cs
  rw [quotedName_eq, List.mem_append, List.mem_cons, List.mem_singleton] at member
  rcases member with (rfl | inside) | rfl
  · exact isControl_mark quote
  · obtain ⟨c, _, written⟩ := List.mem_flatMap.1 inside
    exact isControl_of_mem_quotedChar quote written
  · exact isControl_mark quote

/-- The quoted form of a name can be read back, and shows where it ends. -/
structure ReadsBack (cs : List Char) : Prop where
  /-- Whatever stands behind it, reading gives the name and leaves the rest. -/
  reads : ∀ rest, unquote (quotedName cs ++ rest) = some (cs, rest)
  /-- The first mark behind the opening one that has an even number of backslashes directly before
  it is the last character of the quoted name. -/
  closes : ∀ rest, ∃ mark, (quotedName cs).head? = some mark ∧
    IsLeast { place | 0 < place ∧ ClosesAt mark (quotedName cs ++ rest) place }
      ((quotedName cs).length - 1)
  clean : ∀ c ∈ quotedName cs, ¬(c.toNat ≤ 0x1F ∨ 0x7F ≤ c.toNat ∧ c.toNat ≤ 0x9F)
  /-- The mark is a single quote, but a double quote exactly if the name has a single quote and no
  double quote. Then no mark stands between the marks. -/
  marks : ((quotedName cs).head? = some '\x27' ∨ (quotedName cs).head? = some '\x22') ∧
    ((quotedName cs).head? = some '\x22' ↔ '\x27' ∈ cs ∧ '\x22' ∉ cs) ∧
    ('\x27' ∈ cs ∧ '\x22' ∉ cs → ∃ inside, quotedName cs = '\x22' :: inside ++ ['\x22'] ∧
      '\x22' ∉ inside)

/-- Every name can be read back, whatever characters it has. -/
theorem readsBack (cs : List Char) : ReadsBack cs where
  reads := unquote_quotedName cs
  closes rest := by
    have quote := quoteMark_eq cs
    have inside := Sealed.flatMap (sealed_quotedChar quote) cs
    have first := inside.isLeast_closesAt (mark_ne_slash quote) rest
    refine ⟨quoteMark cs, rfl, ?_⟩
    rw [quotedName_eq, List.append_assoc, List.singleton_append]
    simpa using first
  clean c member := by
    have plain := isControl_of_mem_quotedName member
    unfold isControl at plain
    simp only [Bool.or_eq_false_iff, Bool.and_eq_false_iff, decide_eq_false_iff_not] at plain
    omega
  marks := by
    have head : (quotedName cs).head? = some (quoteMark cs) := rfl
    rw [head, Option.some.injEq, Option.some.injEq]
    refine ⟨quoteMark_eq cs, quoteMark_eq_double_iff, fun found => ?_⟩
    have mark := quoteMark_eq_double_iff.2 found
    refine ⟨cs.flatMap (quotedChar '\x22'), by rw [quotedName_eq, mark], fun inside => ?_⟩
    obtain ⟨c, member, written⟩ := List.mem_flatMap.1 inside
    have other : c ≠ '\x22' := by
      intro same
      rw [same] at member
      exact found.2 member
    exact not_mem_quotedChar (Or.inr rfl) other written

-- Both quotes, a backslash and a control, in single quotes.
example : quotedName ['\x27', '\x22', '\x5c', '\x07'] =
    ['\x27', '\x5c', '\x27', '\x22', '\x5c', '\x5c', '\x5c', 'u', '\x7b', '7', '\x7d', '\x27'] := by
  decide +kernel

end Sexpr.Atom
