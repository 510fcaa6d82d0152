import Mathlib.Data.List.Basic
import Sexpr.Binary64

/-!
# How numbers look

The numeral of an integer has digits and a minus sign only, and different integers have different
numerals (`integer_inj`). A finite floating-point number that is not negative is `Fractional`: it
begins with a digit, and a point or an exponent shows that it is no integer. With a sign, and with
the words for what is not finite, that is all that the text of a floating-point number can be
(`Binary64.text_cases`).
-/

namespace Sexpr.Decimal

/-! ## Integers -/

theorem isDigit_of_mem_digits {n : Nat} {c : Char} (member : c ∈ digits n) : c.isDigit = true :=
  Nat.isDigit_of_mem_toDigits (by decide) (by decide) member

theorem digits_ne_nil (n : Nat) : digits n ≠ [] := Nat.toDigits_ne_nil

theorem digits_inj {m n : Nat} (same : digits m = digits n) : m = n := by
  have value := congrArg (fun ds => Nat.ofDigitChars 10 ds 0) same
  simpa only [digits, Nat.ofDigitChars_ten_toDigits] using value

theorem toList_integer_ofNat (n : Nat) : (integer (.ofNat n)).toList = digits n :=
  String.toList_ofList

theorem toList_integer_negSucc (n : Nat) :
    (integer (.negSucc n)).toList = '-' :: digits (n + 1) := by
  simp [integer, natural]

/-- A character of the numeral of an integer. -/
def IsNumeral (c : Char) : Prop := c.isDigit = true ∨ c = '-'

theorem isNumeral_of_mem_integer {n : Int} {c : Char} (member : c ∈ (integer n).toList) :
    IsNumeral c := by
  cases n with
  | ofNat n =>
    rw [toList_integer_ofNat] at member
    exact Or.inl (isDigit_of_mem_digits member)
  | negSucc n =>
    rw [toList_integer_negSucc] at member
    rcases List.mem_cons.1 member with sign | digit
    · exact Or.inr sign
    · exact Or.inl (isDigit_of_mem_digits digit)

/-- Whether a number can begin with `c`. -/
def isLead (c : Char) : Bool := c.isDigit || c == '-' || c == 'N' || c == 'i'

theorem integer_ne_cons (n : Int) {c : Char} {rest : List Char} (other : isLead c = false) :
    (integer n).toList ≠ c :: rest := by
  intro same
  have numeral : IsNumeral c := isNumeral_of_mem_integer (n := n) (same ▸ List.mem_cons_self)
  rcases numeral with digit | rfl
  · simp [isLead, digit] at other
  · cases other

theorem integer_inj {m n : Int} (same : (integer m).toList = (integer n).toList) : m = n := by
  have unsigned : ∀ {i j : Nat}, digits i ≠ '-' :: digits (j + 1) := by
    intro i j same
    have sign : '-' ∈ digits i := same ▸ List.mem_cons_self
    exact absurd (isDigit_of_mem_digits sign) (by decide)
  cases m <;> cases n <;> simp only [toList_integer_ofNat, toList_integer_negSucc] at same
  · rw [digits_inj same]
  · exact (unsigned same).elim
  · exact (unsigned same.symm).elim
  · have value := digits_inj (List.cons.inj same).2
    rw [Nat.add_right_cancel value]

/-! ## Fractions -/

/-- A character of the text of a finite floating-point number. -/
def InFraction (c : Char) : Prop := IsNumeral c ∨ c = '.' ∨ c = 'e'

theorem inFraction_of_isDigit {c : Char} (digit : c.isDigit = true) : InFraction c :=
  Or.inl (Or.inl digit)

/-- The text begins with a digit and has a point or an exponent. -/
structure Fractional (cs : List Char) : Prop where
  lead : ∃ d rest, cs = d :: rest ∧ d.isDigit = true
  chars : ∀ c ∈ cs, InFraction c
  mark : '.' ∈ cs ∨ 'e' ∈ cs

theorem fractional_pointed {d : Char} {rest : List Char}
    (all : ∀ c ∈ d :: rest, c.isDigit = true) (places : Int) :
    Fractional (pointed (d :: rest) places) := by
  have digits : ∀ c ∈ d :: rest, InFraction c := fun c member =>
    inFraction_of_isDigit (all c member)
  have zero : InFraction '0' := inFraction_of_isDigit (by decide)
  have point : InFraction '.' := Or.inr (Or.inl rfl)
  have zeros : ∀ count, ∀ c ∈ List.replicate count '0', InFraction c := fun _ c member =>
    List.eq_of_mem_replicate member ▸ zero
  unfold pointed
  split_ifs with small
  · refine ⟨⟨'0', _, rfl, by decide⟩, ?_, Or.inl (by simp)⟩
    rw [List.forall_mem_append, List.forall_mem_cons, List.forall_mem_cons]
    exact ⟨⟨zero, point, zeros _⟩, digits⟩
  · obtain ⟨whole, count⟩ : ∃ whole, places.toNat = whole + 1 :=
      ⟨places.toNat - 1, by omega⟩
    simp only [count]
    split_ifs with short
    · refine ⟨⟨d, _, rfl, all d List.mem_cons_self⟩, ?_, Or.inl (by simp)⟩
      have ending : ∀ c ∈ ['.', '0'], InFraction c :=
        List.forall_mem_cons.2 ⟨point, List.forall_mem_singleton.2 zero⟩
      rw [List.forall_mem_append, List.forall_mem_append]
      exact ⟨⟨digits, zeros _⟩, ending⟩
    · refine ⟨⟨d, _, rfl, all d List.mem_cons_self⟩, ?_, Or.inl (by simp)⟩
      rw [List.forall_mem_append, List.forall_mem_cons]
      exact ⟨fun c before => digits c (List.mem_of_mem_take before), point,
        fun c after => digits c (List.mem_of_mem_drop after)⟩

theorem fractional_scientific {d : Char} {rest : List Char}
    (all : ∀ c ∈ d :: rest, c.isDigit = true) (exponent : Int) :
    Fractional (scientific (d :: rest) exponent) := by
  have digits : ∀ c ∈ d :: rest, InFraction c := fun c member =>
    inFraction_of_isDigit (all c member)
  have power : ∀ c ∈ 'e' :: (integer exponent).toList, InFraction c := by
    rw [List.forall_mem_cons]
    exact ⟨Or.inr (Or.inr rfl), fun c member => Or.inl (isNumeral_of_mem_integer member)⟩
  cases rest with
  | nil =>
    refine ⟨⟨d, _, rfl, all d List.mem_cons_self⟩, ?_, Or.inr (by simp [scientific])⟩
    exact List.forall_mem_append.2 ⟨digits, power⟩
  | cons c rest =>
    refine ⟨⟨d, _, rfl, all d List.mem_cons_self⟩, ?_, Or.inr (by simp [scientific])⟩
    rw [List.forall_mem_cons] at digits
    refine List.forall_mem_append.2 ⟨?_, power⟩
    rw [List.forall_mem_cons, List.forall_mem_cons]
    exact ⟨digits.1, Or.inr (Or.inl rfl), digits.2⟩

theorem Layout.fractional_text (layout : Layout) (d : Scaled) :
    Fractional (layout.text d).toList := by
  have all : ∀ c ∈ digits d.digits, c.isDigit = true := fun _ => isDigit_of_mem_digits
  obtain ⟨lead, rest, made⟩ := List.exists_cons_of_ne_nil (digits_ne_nil d.digits)
  simp only [Layout.text, String.toList_ofList]
  rw [made] at all ⊢
  split_ifs with plain
  · exact fractional_pointed all _
  · exact fractional_scientific all _

end Sexpr.Decimal

/-! ## Floating-point numbers -/

namespace Sexpr.Binary64

open Decimal

/-- The text of a floating-point number is that of no number, or a fraction or the word for
infinity, with or without a sign. -/
theorem text_cases (x : Binary64) : x.text.toList = ['N', 'a', 'N'] ∨
    ∃ sign magnitude, x.text.toList = sign ++ magnitude ∧ (sign = [] ∨ sign = ['-']) ∧
      (magnitude = ['i', 'n', 'f'] ∨ Fractional magnitude) := by
  have zero : Fractional "0.0".toList :=
    ⟨⟨'0', ['.', '0'], rfl, by decide⟩, by simp [InFraction, IsNumeral], by decide⟩
  simp only [text]
  generalize shown : (if x.isInfinite = true then "inf" else _) = magnitude
  have finite : magnitude.toList = ['i', 'n', 'f'] ∨ Fractional magnitude.toList := by
    subst shown
    split_ifs with infinite isZero
    · exact Or.inl rfl
    · exact Or.inr zero
    · exact Or.inr (Layout.standard.fractional_text _)
  split_ifs with nan negative
  · exact Or.inl rfl
  · exact Or.inr ⟨['-'], _, String.toList_append, Or.inr rfl, finite⟩
  · exact Or.inr ⟨[], _, rfl, Or.inl rfl, finite⟩

variable {x : Binary64} {c : Char}

theorem inFraction_of_mem_text (member : c ∈ x.text.toList) :
    InFraction c ∨ c ∈ ['N', 'a', 'i', 'n', 'f'] := by
  rcases x.text_cases with nan | ⟨sign, magnitude, shown, signed, finite⟩
  · rw [nan] at member
    grind
  rw [shown, List.mem_append] at member
  rcases member with first | rest
  · rcases signed with rfl | rfl
    · cases first
    · exact Or.inl (Or.inl (Or.inr (List.mem_singleton.1 first)))
  · rcases finite with rfl | fractional
    · grind
    · exact Or.inl (fractional.chars c rest)

/-- A floating-point number never looks like an integer. -/
theorem text_ne_integer (n : Int) : x.text.toList ≠ (integer n).toList := by
  intro same
  have numeral : ∀ c ∈ x.text.toList, IsNumeral c := fun c member =>
    isNumeral_of_mem_integer (same ▸ member)
  rcases x.text_cases with nan | ⟨sign, magnitude, shown, -, finite⟩
  · rw [nan] at numeral
    simpa [IsNumeral] using numeral 'N'
  have strange : ∀ c ∈ magnitude, IsNumeral c := fun c member =>
    numeral c (shown ▸ List.mem_append_right _ member)
  rcases finite with rfl | fractional
  · simpa [IsNumeral] using strange 'i'
  · rcases fractional.mark with point | power
    · simpa [IsNumeral] using strange '.' point
    · simpa [IsNumeral] using strange 'e' power

theorem text_ne_cons {rest : List Char} (other : isLead c = false) :
    x.text.toList ≠ c :: rest := by
  intro same
  suffices lead : isLead c = true by
    rw [lead] at other
    cases other
  rcases x.text_cases with nan | ⟨sign, magnitude, shown, rfl | rfl, finite⟩
  · cases same.symm.trans nan
    rfl
  · rcases finite with rfl | fractional
    · cases same.symm.trans shown
      rfl
    · obtain ⟨d, rest', made, digit⟩ := fractional.lead
      subst made
      cases same.symm.trans shown
      simp [isLead, digit]
  · cases same.symm.trans shown
    rfl

end Sexpr.Binary64
