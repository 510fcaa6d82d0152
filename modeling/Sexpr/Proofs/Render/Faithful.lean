import Sexpr.Proofs.Render.Terms
import Sexpr.Proofs.Render.Unfolding

/-!
# Faithful texts

The structural text of a value tells its shape and nothing else. `Shape.Alike` is what two shapes
have in common if no text can tell them apart: the same scalars, floating-point numbers by their
text and atoms by kind and name, in chains of the same heads and the same ending.

Two proper shapes are alike exactly if they are written as the same term
(`Shape.alike_iff_term_eq`), and terms can be read in one way only. If no head leads back to its
pair, then every value has a text, of the shape that plain recursion finds; so two values have the
same text exactly if their shapes are alike. That is `text_eq_iff_alike`. It does not depend on
which characters of a text are written by code point: `Style.escaping` leaves them open.
-/

namespace Sexpr.Render

/-! ## Shapes that are alike -/

/-- Two shapes that show the same scalars in chains of the same form. -/
inductive Shape.Alike : Shape → Shape → Prop
  | scalar {value other : Scalar} : value.word = other.word →
    Alike (.scalar value) (.scalar other)
  | back : Alike .back .back
  | chain {heads others : List Shape} {ending other : Ending} : List.Forall₂ Alike heads others →
    ending.Alike other → Alike (.chain heads ending) (.chain others other)

mutual

/-- Every chain has a head, and where it comes back it comes back to one of its own pairs. -/
def Shape.Proper : Shape → Prop
  | .scalar _ => True
  | .back => True
  | .chain heads ending => heads ≠ [] ∧ ending.Within heads.length ∧ Shape.AllProper heads

def Shape.AllProper : List Shape → Prop
  | [] => True
  | head :: heads => head.Proper ∧ Shape.AllProper heads

end

theorem Shape.length_terms (heads : List Shape) : (Shape.terms heads).length = heads.length := by
  induction heads with
  | nil => rfl
  | cons head heads ih => rw [Shape.terms, List.length_cons, List.length_cons, ih]

mutual

theorem Shape.term_eq_of_alike (shape other : Shape) (alike : shape.Alike other) :
    shape.term = other.term := by
  match shape, other, alike with
  | _, _, .scalar same => rw [Shape.term, Shape.term, same]
  | _, _, .back => rfl
  | .chain heads ending, .chain others other, .chain same endings =>
    rw [Shape.term, Shape.term, Shape.terms_eq_of_alike heads others same, endings.items_eq]

theorem Shape.terms_eq_of_alike (heads others : List Shape)
    (alike : List.Forall₂ Shape.Alike heads others) : Shape.terms heads = Shape.terms others := by
  match heads, others, alike with
  | [], [], .nil => rfl
  | head :: heads, other :: others, .cons same rest =>
    rw [Shape.terms, Shape.terms, Shape.term_eq_of_alike head other same,
      Shape.terms_eq_of_alike heads others rest]

end

mutual

theorem Shape.alike_of_term_eq (shape other : Shape) (proper : shape.Proper)
    (proper' : other.Proper) (same : shape.term = other.term) : shape.Alike other := by
  match shape, other with
  | .scalar value, .scalar other => exact .scalar (Term.word.inj same)
  | .scalar value, .back => exact absurd (Term.word.inj same) value.word_ne_back
  | .scalar value, .chain others other => cases same
  | .back, .scalar value => exact absurd (Term.word.inj same).symm value.word_ne_back
  | .back, .back => exact .back
  | .back, .chain others other => cases same
  | .chain heads ending, .scalar value => cases same
  | .chain heads ending, .back => cases same
  | .chain heads ending, .chain others other =>
    obtain ⟨-, within, all⟩ := proper
    obtain ⟨-, within', all'⟩ := proper'
    rw [← Shape.length_terms] at within within'
    obtain ⟨terms, endings⟩ := Ending.items_inj within within' (Term.list.inj same)
    exact .chain (Shape.alike_of_terms_eq heads others all all' terms) endings

theorem Shape.alike_of_terms_eq (heads others : List Shape) (proper : Shape.AllProper heads)
    (proper' : Shape.AllProper others) (same : Shape.terms heads = Shape.terms others) :
    List.Forall₂ Shape.Alike heads others := by
  match heads, others with
  | [], [] => exact .nil
  | [], other :: others => cases same
  | head :: heads, [] => cases same
  | head :: heads, other :: others =>
    obtain ⟨first, rest⟩ := List.cons.inj same
    exact .cons (Shape.alike_of_term_eq head other proper.1 proper'.1 first)
      (Shape.alike_of_terms_eq heads others proper.2 proper'.2 rest)

end

theorem Shape.alike_iff_term_eq {shape other : Shape} (proper : shape.Proper)
    (proper' : other.Proper) : shape.Alike other ↔ shape.term = other.term :=
  ⟨Shape.term_eq_of_alike shape other, Shape.alike_of_term_eq shape other proper proper'⟩

/-! ## Texts with other escapes -/

namespace Style

/-- The style of structural texts, where `hidden` are the characters of texts that are written by
code point. -/
def escaping (hidden : Char → Bool) : Style where
  scalar value := String.ofList (value.word.chars hidden)
  chain
    | heads, .stop value =>
      "cons(" ++ Structural.listed heads ++ String.ofList (value.word.chars hidden) ++ ")"
    | heads, .reenter index => Structural.chainText heads (.reenter index)

/-- The text of a value in a style, if it ends. -/
def text? (style : Style) (heap : Heap) : Value → Option String
  | .scalar value => some (style.scalar value)
  | .pair p => (Machine.start style.format p).text? style.format heap

theorem escaping_isUnprintable : escaping Text.isUnprintable = structural := by
  have scalars : ∀ value : Scalar,
      String.ofList (value.word.chars Text.isUnprintable) = value.structural := by
    intro value
    rw [Scalar.chars_word, String.ofList_toList]
  simp only [escaping, structural, scalars, Style.mk.injEq, true_and]
  funext heads ending
  cases ending with
  | stop value => rfl
  | reenter index => rfl

variable {style : Style} {heap : Heap} {value : Value}

theorem text?_eq_some_iff {text : String} :
    style.text? heap value = some text ↔
      ∃ shape, Draws heap value shape ∧ style.text shape = text := by
  cases value with
  | scalar value =>
    constructor
    · intro shown
      refine ⟨.scalar value, .scalar value, ?_⟩
      rw [Style.text]
      exact Option.some.inj shown
    · intro drawn
      obtain ⟨shape, ⟨⟩, rfl⟩ := drawn
      rw [Style.text]
      rfl
  | pair p => rw [text?, Machine.text?_eq_some_iff, halts_iff]

theorem text?_structural : structural.text? heap value = structural? heap value := by
  refine Option.ext fun text => ?_
  rw [text?_eq_some_iff, structural?_eq_some_iff]
  simp only [Style.text_structural]

end Style

/-! ## Texts as characters of terms -/

section Characters

variable {hidden : Char → Bool}

theorem toList_listed (texts : List String) :
    (Structural.listed texts).toList = (texts.map String.toList).flatMap (· ++ [',', ' ']) := by
  simp [Structural.listed, String.toList_join, List.flatMap_map]

theorem Style.toList_chain_escaping {texts : List String} {terms : List Term}
    (same : texts.map String.toList = terms.map (Term.chars hidden)) (ending : Ending) :
    ((Style.escaping hidden).chain texts ending).toList =
      (Term.list (ending.items terms)).chars hidden := by
  rcases ending with value | _ | index
  · simp [Style.escaping, toList_listed, same, Term.chars, Ending.items, Items.chars_ofTerms]
  · simp [Style.escaping, Structural.chainText, toList_listed, same, Term.chars, Ending.items,
      Items.chars_ofTerms, Word.chars, Fixed.chars]
  · simp [Style.escaping, Structural.chainText, toList_listed, same, Term.chars, Ending.items,
      Items.chars_ofTerms, Word.chars, Fixed.chars]

mutual

theorem Style.toList_text_escaping (shape : Shape) :
    ((Style.escaping hidden).text shape).toList = shape.term.chars hidden := by
  match shape with
  | .scalar value =>
    rw [Style.text, Shape.term, Term.chars]
    exact String.toList_ofList
  | .back =>
    rw [Style.text, Shape.term, Term.chars]
    rfl
  | .chain heads ending =>
    rw [Style.text, Shape.term]
    exact Style.toList_chain_escaping (Style.toList_texts_escaping heads) ending

theorem Style.toList_texts_escaping (heads : List Shape) :
    ((Style.escaping hidden).texts heads).map String.toList =
      (Shape.terms heads).map (Term.chars hidden) := by
  match heads with
  | [] => rfl
  | head :: heads =>
    rw [Style.texts, Shape.terms, List.map_cons, List.map_cons, Style.toList_text_escaping head,
      Style.toList_texts_escaping heads]

end

end Characters

/-- Proper shapes are alike exactly if they have the same text, whatever is escaped in it. -/
theorem Style.text_escaping_eq_iff {shape other : Shape} (hidden : Char → Bool)
    (proper : shape.Proper) (proper' : other.Proper) :
    (Style.escaping hidden).text shape = (Style.escaping hidden).text other ↔
      shape.Alike other := by
  rw [← String.toList_inj, Style.toList_text_escaping, Style.toList_text_escaping,
    Shape.alike_iff_term_eq proper proper']
  constructor
  · exact Term.chars_inj
  · intro same
    rw [same]

/-! ## Values -/

/-- Plain recursion finds proper shapes. -/
theorem Unrolls.proper {heap : Heap} {seen : List PairId} {value : Value} {heads : List Shape}
    {ending : Ending} (unrolls : Unrolls heap seen value heads ending) :
    Shape.AllProper heads ∧ ending.Within (seen.length + heads.length) ∧
      ∀ p, value = .pair p → p ∉ seen → heads ≠ [] := by
  induction unrolls with
  | stop => exact ⟨trivial, trivial, fun p held => by cases held⟩
  | @reenter seen p old =>
    refine ⟨trivial, List.idxOf_lt_length_of_mem old, fun q held new => ?_⟩
    cases held
    exact absurd old new
  | scalar new read rest ih =>
    obtain ⟨all, within, -⟩ := ih
    rw [List.length_append, List.length_singleton, Nat.add_assoc, Nat.add_comm 1] at within
    exact ⟨⟨trivial, all⟩, within, fun _ _ _ => List.cons_ne_nil _ _⟩
  | chain new read inside rest ihInside ih =>
    obtain ⟨all, within, -⟩ := ih
    obtain ⟨allInside, withinInside, full⟩ := ihInside
    rw [List.length_append, List.length_singleton, Nat.add_assoc, Nat.add_comm 1] at within
    rw [List.length_nil, Nat.zero_add] at withinInside
    exact ⟨⟨⟨full _ rfl List.not_mem_nil, withinInside, allInside⟩, all⟩, within,
      fun _ _ _ => List.cons_ne_nil _ _⟩

theorem Unfolds.proper {heap : Heap} {value : Value} {shape : Shape}
    (unfolds : Unfolds heap value shape) : shape.Proper := by
  cases unfolds with
  | scalar value => exact trivial
  | pair unrolls =>
    obtain ⟨all, within, full⟩ := unrolls.proper
    rw [List.length_nil, Nat.zero_add] at within
    exact ⟨full _ rfl List.not_mem_nil, within, all⟩

theorem Unfolds.iff_eq {heap : Heap} {value : Value} {shape : Shape}
    (unfolds : Unfolds heap value shape) (found : Shape) :
    Unfolds heap value found ↔ found = shape := by
  constructor
  · exact unfolds.unique
  · intro same
    rw [same]
    exact unfolds

/-- Without cycles through heads, two values have the same structural text exactly if they have the
same shape, and each has a text and one shape. Nothing depends on what is written by code point. -/
theorem text_eq_iff_alike (heap heap' : Heap) (value other : Value)
    (acyclic : HeadAcyclic heap value) (acyclic' : HeadAcyclic heap' other) :
    ∃ shape shape', (∀ found, Unfolds heap value found ↔ found = shape) ∧
      (∀ found, Unfolds heap' other found ↔ found = shape') ∧
      (shape.Proper ∧ shape.Full) ∧ (shape'.Proper ∧ shape'.Full) ∧
      (structural? heap value).isSome = true ∧ (structural? heap' other).isSome = true ∧
      (structural? heap value = structural? heap' other ↔ shape.Alike shape') ∧
      ∀ hidden, ((Style.escaping hidden).text? heap value =
        (Style.escaping hidden).text? heap' other ↔ shape.Alike shape') := by
  obtain ⟨shape, draws, unfolds⟩ := exists_unfolds acyclic
  obtain ⟨shape', draws', unfolds'⟩ := exists_unfolds acyclic'
  have escaping : ∀ hidden, ((Style.escaping hidden).text? heap value =
      (Style.escaping hidden).text? heap' other ↔ shape.Alike shape') := by
    intro hidden
    rw [Style.text?_eq_some_iff.2 ⟨shape, draws, rfl⟩,
      Style.text?_eq_some_iff.2 ⟨shape', draws', rfl⟩, Option.some.injEq]
    exact Style.text_escaping_eq_iff hidden unfolds.proper unfolds'.proper
  have plain := escaping Text.isUnprintable
  rw [Style.escaping_isUnprintable, Style.text?_structural, Style.text?_structural] at plain
  exact ⟨shape, shape', unfolds.iff_eq, unfolds'.iff_eq, ⟨unfolds.proper, unfolds.full⟩,
    ⟨unfolds'.proper, unfolds'.full⟩, isSome_structural?_iff.2 ⟨shape, draws⟩,
    isSome_structural?_iff.2 ⟨shape', draws'⟩, plain, escaping⟩

/-- A pair whose slots hold no pairs is on no cycle. -/
theorem headAcyclic_of_leaves {heap : Heap} (value : Value)
    (leaves : ∀ p q, heap.read p .head = .pair q →
      p ≠ q ∧ ∀ slot r, heap.read q slot ≠ .pair r) : HeadAcyclic heap value := by
  intro root p q _ _ read back
  obtain ⟨apart, leaf⟩ := leaves p q read
  rcases Relation.ReflTransGen.cases_head back with same | ⟨r, ⟨slot, held⟩, -⟩
  · exact apart same.symm
  · exact leaf slot r held

/-- A chain of two pairs that comes back to the second: once with one list as both heads, and once
with two lists, made of another atom of the same name. -/
theorem text_eq_of_copied_head :
    let atom := Scalar.atom ⟨0, .symbol, "a, \"b\""⟩
    let copy := Scalar.atom ⟨7, .symbol, "a, \"b\""⟩
    let head := Heap.empty.allocate (.scalar atom) .nil
    let first := head.2.allocate (.pair head.1) (.pair ⟨2⟩)
    let second := first.2.allocate (.pair head.1) (.pair ⟨2⟩)
    let one := Heap.empty.allocate (.scalar copy) .nil
    let two := one.2.allocate (.scalar copy) .nil
    let third := two.2.allocate (.pair one.1) (.pair ⟨3⟩)
    let fourth := third.2.allocate (.pair two.1) (.pair ⟨3⟩)
    HeadAcyclic second.2 (.pair first.1) ∧ HeadAcyclic fourth.2 (.pair third.1) ∧
      structural? second.2 (.pair first.1) = structural? fourth.2 (.pair third.1) := by
  intro atom copy head first second one two third fourth
  have acyclic : HeadAcyclic second.2 (.pair first.1) := by
    refine headAcyclic_of_leaves _ fun p q read => ?_
    have small := Heap.lt_size_of_isLive (Heap.Child.isLive ⟨.head, read⟩)
    obtain ⟨_ | _ | _ | index⟩ := p
    · cases read
    · cases read
      exact ⟨by decide, fun slot r held => by cases slot <;> cases held⟩
    · cases read
      exact ⟨by decide, fun slot r held => by cases slot <;> cases held⟩
    · change index + 3 < 3 at small
      omega
  have acyclic' : HeadAcyclic fourth.2 (.pair third.1) := by
    refine headAcyclic_of_leaves _ fun p q read => ?_
    have small := Heap.lt_size_of_isLive (Heap.Child.isLive ⟨.head, read⟩)
    obtain ⟨_ | _ | _ | _ | index⟩ := p
    · cases read
    · cases read
    · cases read
      exact ⟨by decide, fun slot r held => by cases slot <;> cases held⟩
    · cases read
      exact ⟨by decide, fun slot r held => by cases slot <;> cases held⟩
    · change index + 4 < 4 at small
      omega
  obtain ⟨shape, shape', unfolds, unfolds', -, -, -, -, same, -⟩ :=
    text_eq_iff_alike _ _ _ _ acyclic acyclic'
  have drawn : shape = .chain [.chain [.scalar atom] (.stop .nil),
      .chain [.scalar atom] (.stop .nil)] (.reenter 1) := by
    refine ((unfolds _).1 (.pair ?_)).symm
    have item : Unrolls second.2 [] (.pair head.1) [.scalar atom] (.stop .nil) :=
      .scalar List.not_mem_nil rfl .stop
    have last : Unrolls second.2 [first.1, second.1] (.pair second.1) [] (.reenter 1) :=
      .reenter (by decide)
    exact .chain List.not_mem_nil rfl item (.chain (by decide) rfl item last)
  have drawn' : shape' = .chain [.chain [.scalar copy] (.stop .nil),
      .chain [.scalar copy] (.stop .nil)] (.reenter 1) := by
    refine ((unfolds' _).1 (.pair ?_)).symm
    have item : Unrolls fourth.2 [] (.pair one.1) [.scalar copy] (.stop .nil) :=
      .scalar List.not_mem_nil rfl .stop
    have item' : Unrolls fourth.2 [] (.pair two.1) [.scalar copy] (.stop .nil) :=
      .scalar List.not_mem_nil rfl .stop
    have last : Unrolls fourth.2 [third.1, fourth.1] (.pair fourth.1) [] (.reenter 1) :=
      .reenter (by decide)
    exact .chain List.not_mem_nil rfl item (.chain (by decide) rfl item' last)
  have items : Shape.Alike (.chain [.scalar atom] (.stop .nil))
      (.chain [.scalar copy] (.stop .nil)) :=
    .chain (.cons (.scalar rfl) .nil) (.stop rfl)
  refine ⟨acyclic, acyclic', same.2 ?_⟩
  rw [drawn, drawn']
  exact .chain (.cons items (.cons items .nil)) (.reenter 1)

end Sexpr.Render
