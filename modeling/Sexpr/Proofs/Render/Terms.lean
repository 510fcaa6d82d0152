import Sexpr.Proofs.Render.Words
import Sexpr.Proofs.Render.Writing

/-!
# Terms

Without regard to what it stands for, a structural text is a `Term`: a word, or a list of terms
between brackets. Every term can be read off the front of a text in one way only
(`Term.append_inj`): a word ends at a comma or a closing bracket, and a list at the bracket that
closes it.

`Shape.term` is the term that is written for a shape. The brackets that are opened again where a
chain comes back to its own pair are a list like any other, the last term of the list around it; so
the ending of a chain can be found again from its term (`Ending.items_inj`).
-/

namespace Sexpr.Render

/-! ## The grammar of structural texts -/

mutual

/-- What a structural text consists of. -/
inductive Term where
  | word (word : Word)
  | list (items : Items)

/-- The terms of a list. There is always a last one. -/
inductive Items where
  | last (term : Term)
  | more (term : Term) (items : Items)

end

mutual

/-- The characters of a term, where `hidden` are the characters of texts that are written by code
point. -/
def Term.chars (hidden : Char → Bool) : Term → List Char
  | .word word => word.chars hidden
  | .list items => 'c' :: 'o' :: 'n' :: 's' :: '(' :: items.chars hidden

/-- The characters of the terms of a list, with the bracket that closes it. -/
def Items.chars (hidden : Char → Bool) : Items → List Char
  | .last term => term.chars hidden ++ [')']
  | .more term items => term.chars hidden ++ ',' :: ' ' :: items.chars hidden

end

section Reading

variable {hidden : Char → Bool} {rest rest' : List Char}

/-- No word is followed by an opening bracket. -/
theorem Term.word_append_ne_list (word : Word) (items : Items) (ends : Ends rest) :
    (Term.word word).chars hidden ++ rest ≠ (Term.list items).chars hidden ++ rest' := by
  intro same
  have opens : stopper (word.chars hidden ++ rest) = some '(' := by
    rw [Term.chars] at same
    rw [same]
    rfl
  cases quoted : word.isQuoted with
  | false =>
    rw [Word.stopper_of_plain quoted ends] at opens
    rcases ends '(' opens with comma | bracket
    · cases comma
    · cases bracket
  | true =>
    rcases Word.stopper_of_quoted quoted with quote | angle
    · cases opens.symm.trans quote
    · cases opens.symm.trans angle

mutual

/-- A term can be read off the front of a text in one way only. -/
theorem Term.append_inj (term other : Term) {rest rest' : List Char} (ends : Ends rest)
    (ends' : Ends rest') (same : term.chars hidden ++ rest = other.chars hidden ++ rest') :
    term = other ∧ rest = rest' := by
  match term, other with
  | .word word, .word other =>
    rw [Term.chars, Term.chars] at same
    obtain ⟨rfl, rfl⟩ := Word.append_inj ends ends' same
    exact ⟨rfl, rfl⟩
  | .word word, .list items => exact absurd same (Term.word_append_ne_list word items ends)
  | .list items, .word word => exact absurd same.symm (Term.word_append_ne_list word items ends')
  | .list items, .list others =>
    have inside : items.chars hidden ++ rest = others.chars hidden ++ rest' := by
      simpa [Term.chars] using same
    obtain ⟨rfl, rfl⟩ := Items.append_inj items others inside
    exact ⟨rfl, rfl⟩

/-- The terms of a list can be read in one way only, with nothing said of what follows. -/
theorem Items.append_inj (items others : Items) {rest rest' : List Char}
    (same : items.chars hidden ++ rest = others.chars hidden ++ rest') :
    items = others ∧ rest = rest' := by
  -- The first terms are the same, and what stands behind them tells whether they are the last.
  match items, others with
  | .last term, .last other =>
    simp only [Items.chars, List.append_assoc] at same
    obtain ⟨rfl, after⟩ := Term.append_inj term other (ends_bracket _) (ends_bracket _) same
    exact ⟨rfl, (List.cons.inj after).2⟩
  | .last term, .more other others =>
    simp only [Items.chars, List.append_assoc] at same
    obtain ⟨-, after⟩ := Term.append_inj term other (ends_bracket _) (ends_comma _) same
    cases after
  | .more term items, .last other =>
    simp only [Items.chars, List.append_assoc] at same
    obtain ⟨-, after⟩ := Term.append_inj term other (ends_comma _) (ends_bracket _) same
    cases after
  | .more term items, .more other others =>
    simp only [Items.chars, List.append_assoc] at same
    obtain ⟨rfl, after⟩ := Term.append_inj term other (ends_comma _) (ends_comma _) same
    obtain ⟨rfl, rfl⟩ := Items.append_inj items others (List.cons.inj (List.cons.inj after).2).2
    exact ⟨rfl, rfl⟩

end

theorem Term.chars_inj {term other : Term} (same : term.chars hidden = other.chars hidden) :
    term = other := by
  have bare : term.chars hidden ++ [] = other.chars hidden ++ [] := by
    rw [same]
  exact (Term.append_inj term other ends_nil ends_nil bare).1

end Reading

/-! ## Lists of terms -/

/-- The terms in front, and a last one. -/
def Items.ofTerms (front : List Term) (last : Term) : Items := front.foldr .more (.last last)

theorem Items.ofTerms_inj {front front' : List Term} {last last' : Term}
    (same : Items.ofTerms front last = Items.ofTerms front' last') :
    front = front' ∧ last = last' := by
  induction front generalizing front' with
  | nil =>
    cases front' with
    | nil =>
      cases same
      exact ⟨rfl, rfl⟩
    | cons term front' => cases same
  | cons term front ih =>
    cases front' with
    | nil => cases same
    | cons term' front' =>
      obtain ⟨rfl, rest⟩ := Items.more.inj same
      obtain ⟨rfl, rfl⟩ := ih rest
      exact ⟨rfl, rfl⟩

theorem Items.chars_ofTerms (hidden : Char → Bool) (front : List Term) (last : Term) :
    (Items.ofTerms front last).chars hidden =
      (front.map (Term.chars hidden)).flatMap (· ++ [',', ' ']) ++
        (last.chars hidden ++ [')']) := by
  induction front with
  | nil => rfl
  | cons term front ih =>
    have unfolded : Items.ofTerms (term :: front) last = .more term (.ofTerms front last) := rfl
    rw [unfolded, Items.chars, ih]
    simp

/-! ## Endings -/

/-- The terms of a chain, with what tells its ending. -/
def Ending.items (terms : List Term) : Ending → Items
  | .stop value => .ofTerms terms (.word value.word)
  | .reenter 0 => .ofTerms terms (.word (.fixed .again))
  | .reenter (index + 1) =>
    .ofTerms (terms.take (index + 1))
      (.list (.ofTerms (terms.drop (index + 1)) (.word (.fixed .again))))

/-- A chain that comes back comes back to one of its `length` pairs. -/
def Ending.Within (length : Nat) : Ending → Prop
  | .stop _ => True
  | .reenter index => index < length

/-- Two endings that look alike. -/
inductive Ending.Alike : Ending → Ending → Prop
  | stop {value other : Scalar} : value.word = other.word → Alike (.stop value) (.stop other)
  | reenter (index : Nat) : Alike (.reenter index) (.reenter index)

theorem Ending.Alike.items_eq {ending other : Ending} (alike : ending.Alike other)
    (terms : List Term) : ending.items terms = other.items terms := by
  cases alike with
  | stop same => rw [Ending.items, Ending.items, same]
  | reenter index => rfl

theorem Ending.items_inj {terms others : List Term} {ending other : Ending}
    (within : ending.Within terms.length) (within' : other.Within others.length)
    (same : ending.items terms = other.items others) : terms = others ∧ ending.Alike other := by
  match ending, other with
  | .stop value, .stop other =>
    obtain ⟨rfl, last⟩ := Items.ofTerms_inj same
    exact ⟨rfl, .stop (Term.word.inj last)⟩
  | .stop value, .reenter 0 =>
    obtain ⟨-, last⟩ := Items.ofTerms_inj same
    exact absurd (Term.word.inj last) value.word_ne_again
  | .stop value, .reenter (index + 1) =>
    obtain ⟨-, last⟩ := Items.ofTerms_inj same
    cases last
  | .reenter 0, .stop value =>
    obtain ⟨-, last⟩ := Items.ofTerms_inj same
    exact absurd (Term.word.inj last).symm value.word_ne_again
  | .reenter 0, .reenter 0 =>
    obtain ⟨rfl, -⟩ := Items.ofTerms_inj same
    exact ⟨rfl, .reenter 0⟩
  | .reenter 0, .reenter (index + 1) =>
    obtain ⟨-, last⟩ := Items.ofTerms_inj same
    cases last
  | .reenter (index + 1), .stop value =>
    obtain ⟨-, last⟩ := Items.ofTerms_inj same
    cases last
  | .reenter (index + 1), .reenter 0 =>
    obtain ⟨-, last⟩ := Items.ofTerms_inj same
    cases last
  | .reenter (index + 1), .reenter (index' + 1) =>
    obtain ⟨before, last⟩ := Items.ofTerms_inj same
    obtain ⟨after, -⟩ := Items.ofTerms_inj (Term.list.inj last)
    -- Both chains are long enough for the terms in front of the inner list to be counted.
    have count : index = index' := by
      have lengths := congrArg List.length before
      simp only [List.length_take, Ending.Within] at lengths within within'
      omega
    subst count
    refine ⟨?_, .reenter (index + 1)⟩
    calc
      terms = terms.take (index + 1) ++ terms.drop (index + 1) := (List.take_append_drop ..).symm
      _ = others.take (index + 1) ++ others.drop (index + 1) := by rw [before, after]
      _ = others := List.take_append_drop ..

/-! ## Shapes as terms -/

mutual

/-- The term that is written for a shape. -/
def Shape.term : Shape → Term
  | .scalar value => .word value.word
  | .back => .word (.fixed .back)
  | .chain heads ending => .list (ending.items (Shape.terms heads))

def Shape.terms : List Shape → List Term
  | [] => []
  | head :: heads => head.term :: Shape.terms heads

end

end Sexpr.Render
