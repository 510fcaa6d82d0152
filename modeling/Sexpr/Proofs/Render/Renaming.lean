import Mathlib.Data.List.Forall2
import Sexpr.Proofs.Render.Lockstep

/-!
# Texts do not tell identities

A value can be masked: an atom keeps its kind and name and loses its identity. A `Renaming` relates
the pairs of one heap to pairs of another, one to one, so that related pairs hold related pairs and
scalars that are equal when masked. What else is in the heaps does not matter.

The proof runs two machines side by side. At every point their stacks hold related chains with the
same texts, and of two related pairs both are marked or none is (`Renaming.step`).

* `Renaming.text?_after`: after any number of steps both machines are at work, or both have finished
  with the same text.
* `Renaming.structural?_eq`, `Renaming.listing?_eq`: so related values have the same texts, or none
  of them has one.
-/

namespace Sexpr

/-! ## Masks -/

/-- The atom without its identity. -/
def Atom.mask (a : Atom) : Atom := { a with id := 0 }

/-- The scalar without the identity of an atom. -/
def Scalar.mask : Scalar → Scalar
  | .atom a => .atom a.mask
  | other => other

/-- The value without the identity of an atom. -/
def Value.mask : Value → Value
  | .scalar s => .scalar s.mask
  | .pair p => .pair p

namespace Atom

variable {a b : Atom}

theorem mask_eq_iff : a.mask = b.mask ↔ a.kind = b.kind ∧ a.name = b.name := by
  simp [mask]

end Atom

namespace Scalar

@[simp] theorem structural_mask (s : Scalar) : s.mask.structural = s.structural := by
  cases s <;> rfl

@[simp] theorem plain_mask (s : Scalar) : s.mask.plain = s.plain := by
  cases s <;> rfl

@[simp] theorem item_mask (s : Scalar) : s.mask.item = s.item := by
  cases s <;> rfl

end Scalar

namespace Render

/-! ## Styles -/

/-- The style writes scalars that differ by the identity of an atom alike. -/
structure Style.Discreet (style : Style) : Prop where
  scalar : ∀ value, style.scalar value.mask = style.scalar value
  chain : ∀ texts value, style.chain texts (.stop value.mask) = style.chain texts (.stop value)

theorem Style.discreet_structural : Style.structural.Discreet where
  scalar := Scalar.structural_mask
  chain texts value := by
    simp only [structural, Structural.chainText, Scalar.structural_mask]

theorem Style.discreet_listing : Style.listing.Discreet where
  scalar := Scalar.item_mask
  chain texts value := by cases value <;> rfl

/-! ## Renamings -/

/-- The values are related pairs, or scalars that are equal when masked. -/
inductive Renamed (related : PairId → PairId → Prop) : Value → Value → Prop
  | scalar {value other : Scalar} : value.mask = other.mask →
    Renamed related (.scalar value) (.scalar other)
  | pair {p q : PairId} : related p q → Renamed related (.pair p) (.pair q)

/-- Pairs of one heap are related to pairs of another, one to one, with related slots. -/
structure Renaming (related : PairId → PairId → Prop) (heap other : Heap) : Prop where
  single : ∀ {p q p' q'}, related p p' → related q q' → (p = q ↔ p' = q')
  reads : ∀ {p p'}, related p p' → ∀ slot, Renamed related (heap.read p slot) (other.read p' slot)

variable {related : PairId → PairId → Prop} {heap other : Heap}

/-- Two chains that are being written, with related pairs and the same texts. -/
structure Draft.Renamed (related : PairId → PairId → Prop) (draft draft' : Draft) : Prop where
  texts : draft.texts = draft'.texts
  visited : List.Forall₂ related draft.visited draft'.visited
  current : Render.Renamed related draft.current draft'.current

/-- Of any two related pairs, both are active or none is. -/
def MarkedAlike (related : PairId → PairId → Prop) (active active' : PairSet) : Prop :=
  ∀ p p', related p p' → active.contains p = active'.contains p'

/-- Two moves of the same kind, to related chains. -/
inductive Move.Renamed (related : PairId → PairId → Prop) : Move Draft → Move Draft → Prop
  | visit {draft draft' : Draft} {active active' : PairSet} : draft.Renamed related draft' →
    MarkedAlike related active active' →
    Renamed related (.visit draft active) (.visit draft' active')
  | descend {q q' : PairId} {draft draft' : Draft} {active active' : PairSet} : related q q' →
    draft.Renamed related draft' → MarkedAlike related active active' →
    Renamed related (.descend q draft active) (.descend q' draft' active')
  | done {text : String} {visited visited' : List PairId} : List.Forall₂ related visited visited' →
    Renamed related (.done text visited) (.done text visited')

/-- Machines with related marks that write related chains. -/
structure Machine.Renamed (related : PairId → PairId → Prop) (machine machine' : Machine Draft) :
    Prop where
  active : MarkedAlike related machine.active machine'.active
  stack : List.Forall₂ (Draft.Renamed related) machine.stack machine'.stack

theorem Machine.Renamed.start (style : Style) {p p' : PairId} (same : related p p') :
    (Machine.start style.format p).Renamed related (Machine.start style.format p') where
  active _ _ _ := by
    rw [Machine.start, Machine.start, PairSet.contains_empty, PairSet.contains_empty]
  stack := .cons ⟨rfl, .nil, .pair same⟩ .nil

namespace Renaming

variable {pairs pairs' : List PairId} {p p' : PairId} {style : Style}

theorem mem_iff (renames : Renaming related heap other) (same : List.Forall₂ related pairs pairs')
    (head : related p p') : p ∈ pairs ↔ p' ∈ pairs' := by
  induction same with
  | nil => simp
  | cons first _ ih => rw [List.mem_cons, List.mem_cons, renames.single head first, ih]

theorem idxOf_eq (renames : Renaming related heap other)
    (same : List.Forall₂ related pairs pairs') (head : related p p') :
    pairs.idxOf p = pairs'.idxOf p' := by
  induction same with
  | nil => rfl
  | @cons q q' _ _ first _ ih =>
    rw [List.idxOf_cons, List.idxOf_cons, ih]
    have equal : (q == p) = (q' == p') := by
      rw [Bool.eq_iff_iff, beq_iff_eq, beq_iff_eq]
      exact renames.single first head
    rw [equal]

theorem markedAlike_insert (renames : Renaming related heap other) {active active' : PairSet}
    (marks : MarkedAlike related active active') (head : related p p') :
    MarkedAlike related (active.insert p) (active'.insert p') := by
  intro q q' same
  have equal : (p == q) = (p' == q') := by
    rw [Bool.eq_iff_iff, beq_iff_eq, beq_iff_eq]
    exact renames.single head same
  rw [PairSet.contains_insert, PairSet.contains_insert, equal, marks q q' same]

/-- A chain that is finished lifts related marks, whichever chains set them. -/
theorem markedAlike_lift (renames : Renaming related heap other) {active active' : PairSet}
    (marks : MarkedAlike related active active') (same : List.Forall₂ related pairs pairs') :
    MarkedAlike related (pairs.foldl PairSet.erase active)
      (pairs'.foldl PairSet.erase active') := by
  intro q q' head
  have left := @Link.contains_released ⟨active, pairs, .nil⟩ q
  have left' := @Link.contains_released ⟨active', pairs', .nil⟩ q'
  rw [Link.released] at left left'
  rw [Bool.eq_iff_iff, left, left', marks q q' head, renames.mem_iff same head]

theorem move (renames : Renaming related heap other) (discreet : style.Discreet)
    {active active' : PairSet} {draft draft' : Draft} (marks : MarkedAlike related active active')
    (like : draft.Renamed related draft') :
    (style.move heap active draft).Renamed related (style.move other active' draft') := by
  obtain ⟨texts, visited, current⟩ := draft
  obtain ⟨texts', visited', current'⟩ := draft'
  obtain ⟨words, trail, next⟩ := like
  obtain rfl : texts = texts' := words
  simp only at trail next
  simp only [Style.move]
  cases next with
  | @scalar value value' same =>
    simp only
    rw [← discreet.chain texts value, same, discreet.chain texts value']
    exact .done trail
  | @pair p p' same =>
    have place := renames.idxOf_eq (List.rel_reverse trail) same
    have visit := renames.markedAlike_insert marks same
    have onward : List.Forall₂ related (p :: visited) (p' :: visited') := .cons same trail
    have head := renames.reads same .head
    have tail := renames.reads same .tail
    by_cases old : p ∈ visited
    · simp only [if_pos old, if_pos ((renames.mem_iff trail same).1 old), place]
      exact .done trail
    simp only [if_neg old, if_neg (mt (renames.mem_iff trail same).2 old)]
    generalize heap.read p .head = first at head
    generalize other.read p' .head = first' at head
    cases head with
    | @scalar value value' equal =>
      simp only
      rw [← discreet.scalar value, equal, discreet.scalar value']
      exact .visit ⟨rfl, onward, tail⟩ visit
    | @pair q q' head =>
      simp only [visit q q' head]
      split
      · exact .visit ⟨rfl, onward, tail⟩ visit
      · exact .descend head ⟨rfl, onward, tail⟩ visit

theorem step (renames : Renaming related heap other) (discreet : style.Discreet)
    {machine machine' : Machine Draft} (like : machine.Renamed related machine') :
    (machine.step style.format heap).Matches (Machine.Renamed related)
      (machine'.step style.format other) := by
  obtain ⟨active, stack⟩ := machine
  obtain ⟨active', stack'⟩ := machine'
  obtain ⟨marks, frames⟩ := like
  simp only at frames
  cases frames with
  | nil => exact .finished
  | @cons draft draft' _ _ top below =>
    have same := renames.move discreet marks top
    generalize moved : style.move heap active draft = move at same
    generalize moved' : style.move other active' draft' = move' at same
    cases same with
    | visit next marks =>
      rw [Machine.step_of_visit moved, Machine.step_of_visit moved']
      exact .running ⟨marks, .cons next below⟩
    | descend head next marks =>
      rw [Machine.step_of_descend moved, Machine.step_of_descend moved']
      exact .running ⟨marks, .cons ⟨rfl, .nil, .pair head⟩ (.cons next below)⟩
    | @done text _ _ trail =>
      cases below with
      | nil =>
        rw [Machine.step_of_done_last moved, Machine.step_of_done_last moved']
        exact .finished
      | cons next rest =>
        rw [Machine.step_of_done moved, Machine.step_of_done moved']
        have resumed := congrArg (· ++ [text]) next.texts
        exact .running
          ⟨renames.markedAlike_lift marks trail, .cons ⟨resumed, next.visited, next.current⟩ rest⟩

/-- The machines that write two related pairs have the same text at every moment: as long as one
is at work, so is the other. -/
theorem text?_after {Frame : Type} {format : Format Frame} {ready waiting : Frame → Draft → Prop}
    (renames : Renaming related heap other) (discreet : style.Discreet)
    (follows : format.Follows style.format ready waiting) (same : related p p') (count : Nat) :
    ((Machine.start format p).after format heap count).text? =
      ((Machine.start format p').after format other count).text? := by
  have alike := Machine.matches_after (fun _ _ => renames.step discreet)
    (Machine.Renamed.start style same) count
  calc ((Machine.start format p).after format heap count).text?
      = ((Machine.start style.format p).after style.format heap count).text? :=
        follows.text?_after heap p count
    _ = ((Machine.start style.format p').after style.format other count).text? := alike.text?_eq
    _ = ((Machine.start format p').after format other count).text? :=
        (follows.text?_after other p' count).symm

theorem text?_structural (renames : Renaming related heap other) (same : related p p')
    (count : Nat) :
    ((Machine.start Structural.format p).after Structural.format heap count).text? =
      ((Machine.start Structural.format p').after Structural.format other count).text? :=
  renames.text?_after Style.discreet_structural Structural.Frame.follows same count

theorem text?_listing (renames : Renaming related heap other) (same : related p p')
    (count : Nat) :
    ((Machine.start Listing.format p).after Listing.format heap count).text? =
      ((Machine.start Listing.format p').after Listing.format other count).text? :=
  renames.text?_after Style.discreet_listing Listing.Frame.follows same count

variable {value value' : Value}

/-- Related values have the same structural text, or both have none. -/
theorem structural?_eq (renames : Renaming related heap other)
    (same : Renamed related value value') : structural? heap value = structural? other value' := by
  cases same with
  | @scalar value value' same =>
    rw [structural?, structural?, ← value.structural_mask, same, value'.structural_mask]
  | pair same => exact Machine.text?_congr (renames.text?_structural same)

/-- Related values have the same list text, or both have none. -/
theorem listing?_eq (renames : Renaming related heap other)
    (same : Renamed related value value') : listing? heap value = listing? other value' := by
  cases same with
  | @scalar value value' same =>
    rw [listing?, listing?, ← value.plain_mask, same, value'.plain_mask]
  | pair same => exact Machine.text?_congr (renames.text?_listing same)

end Renaming

end Render

end Sexpr
