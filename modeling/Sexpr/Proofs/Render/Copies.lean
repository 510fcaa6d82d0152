import Mathlib.Data.Set.Function
import Sexpr.Proofs.Heap.Leads
import Sexpr.Proofs.Render.Halting
import Sexpr.Proofs.Render.Renaming

/-!
# Copies have the same texts

`Heap.Copies` says that what can be reached from one value is a copy of what can be reached from
another, perhaps in another heap: the pairs on both sides are partners one to one, and partners hold
partners, or scalars that are equal but for the identity of an atom. Nothing is said of the places
of the pairs in their heaps, of their positions and handles, and of the pairs that cannot be reached.

* `Heap.Copies.sameTexts`: both kinds of text are the same for both values, or missing for both. The
  machines that write them work side by side for ever, or finish at the same step.
* `Heap.copies_of_injOn`: where partners hold partners, it is enough that no two pairs have the same
  partner.
-/

namespace Sexpr

namespace Heap

/-! ## Copies -/

/-- The pairs that can be reached from a value. -/
def within (heap : Heap) (value : Value) : Set PairId :=
  { p | ∃ q, value = .pair q ∧ heap.Leads q p }

/-- The pairs that can be reached from one value and from the other are partners, one to one, and
the values and the slots of partners hold partners or scalars that are equal when masked. -/
structure Copies (heap other : Heap) (partner : PairId → PairId) (value copy : Value) : Prop where
  onto : Set.BijOn partner (heap.within value) (other.within copy)
  root : Render.Renamed (partner · = ·) value copy
  slots : ∀ p ∈ heap.within value, ∀ slot,
    Render.Renamed (partner · = ·) (heap.read p slot) (other.read (partner p) slot)

variable {heap other : Heap} {partner : PairId → PairId} {value copy : Value} {p q : PairId}

theorem self_mem_within (same : value = .pair p) : p ∈ heap.within value := ⟨p, same, .refl p⟩

theorem mem_within_of_child (member : p ∈ heap.within value) (child : heap.Child p q) :
    q ∈ heap.within value := by
  obtain ⟨root, same, leads⟩ := member
  exact ⟨root, same, leads.trans child.leads⟩

section

variable (root : Render.Renamed (partner · = ·) value copy)
  (slots : ∀ p ∈ heap.within value, ∀ slot,
    Render.Renamed (partner · = ·) (heap.read p slot) (other.read (partner p) slot))

include root slots

theorem mapsTo_within : Set.MapsTo partner (heap.within value) (other.within copy) := by
  rintro p ⟨first, rfl, leads⟩
  cases root with | pair top
  induction leads with
  | refl => exact self_mem_within (congrArg Value.pair top.symm)
  | @tail q r leads child ih =>
    obtain ⟨slot, read⟩ := child
    have held := slots q ⟨first, rfl, leads⟩ slot
    rw [read] at held
    generalize read' : other.read (partner q) slot = value' at held
    cases held with | pair same
    exact mem_within_of_child ih ⟨slot, same ▸ read'⟩

theorem surjOn_within : Set.SurjOn partner (heap.within value) (other.within copy) := by
  rintro p' ⟨first', rfl, leads⟩
  cases root with | @pair first _ top
  induction leads with
  | refl => exact ⟨first, self_mem_within rfl, top⟩
  | tail _ child ih =>
    obtain ⟨q, member, rfl⟩ := ih
    obtain ⟨slot, read'⟩ := child
    have held := slots q member slot
    rw [read'] at held
    generalize read : heap.read q slot = value at held
    cases held with | @pair r _ same
    exact ⟨r, mem_within_of_child member ⟨slot, read⟩, same⟩

/-- Where partners hold partners, they are partners one to one if no two pairs have the same. -/
theorem copies_of_injOn (single : Set.InjOn partner (heap.within value)) :
    heap.Copies other partner value copy :=
  ⟨⟨mapsTo_within root slots, single, surjOn_within root slots⟩, root, slots⟩

end

namespace Copies

/-- Pairs that can be reached from the value are related to their partners. -/
abbrev Partners (heap : Heap) (partner : PairId → PairId) (value : Value) (p p' : PairId) : Prop :=
  p ∈ heap.within value ∧ partner p = p'

theorem renamed {held held' : Value} (same : Render.Renamed (partner · = ·) held held')
    (inside : ∀ p, held = .pair p → p ∈ heap.within value) :
    Render.Renamed (Partners heap partner value) held held' := by
  cases same with
  | scalar equal => exact .scalar equal
  | pair equal => exact .pair ⟨inside _ rfl, equal⟩

theorem renames (copies : heap.Copies other partner value copy) :
    Render.Renaming (Partners heap partner value) heap other where
  single := by
    rintro p q _ _ ⟨member, rfl⟩ ⟨member', rfl⟩
    exact (copies.onto.injOn.eq_iff member member').symm
  reads := by
    rintro p _ ⟨member, rfl⟩ slot
    exact renamed (copies.slots p member slot) fun q read => mem_within_of_child member ⟨slot, read⟩

end Copies

end Heap

/-! ## Texts -/

namespace Render

variable {heap other : Heap} {value copy : Value}

/-- Two values have the same texts, each in its heap, or neither has one. -/
structure SameTexts (heap other : Heap) (value copy : Value) : Prop where
  structural : structural? heap value = structural? other copy
  listing : listing? heap value = listing? other copy
  /-- At no moment has one of the machines finished and the other not. -/
  structuralSteps : ∀ p q, value = .pair p → copy = .pair q → ∀ count,
    ((Machine.start Structural.format p).after Structural.format heap count).text? =
      ((Machine.start Structural.format q).after Structural.format other count).text?
  listingSteps : ∀ p q, value = .pair p → copy = .pair q → ∀ count,
    ((Machine.start Listing.format p).after Listing.format heap count).text? =
      ((Machine.start Listing.format q).after Listing.format other count).text?

end Render

/-- Copies have the same texts, and the same ones have none. -/
theorem Heap.Copies.sameTexts (heap other : Heap) (partner : PairId → PairId) (value copy : Value)
    (copies : heap.Copies other partner value copy) : Render.SameTexts heap other value copy := by
  have renames := copies.renames
  have root : Render.Renamed (Partners heap partner value) value copy :=
    renamed copies.root fun _ same => self_mem_within same
  have partners : ∀ p q, value = .pair p → copy = .pair q → Partners heap partner value p q := by
    rintro p q rfl rfl
    cases root with | pair same
    exact same
  refine ⟨renames.structural?_eq root, renames.listing?_eq root, ?_, ?_⟩
  · intro p q same same'
    exact renames.text?_structural (partners p q same same')
  · intro p q same same'
    exact renames.text?_listing (partners p q same same')

/-- A tangle, in which the inner chain lifts the marks of the outer one, and a copy of it with the
pairs in reverse order behind a pair that holds the first one, with other handles, with a position
and with another atom of the same name. From the outer chain neither machine ever finishes; from the
inner one both write the same texts. -/
theorem Heap.sameTexts_of_moved_tangle :
    let first : Atom := ⟨1, .symbol, "x"⟩
    let heap : Heap := ⟨#[some ⟨.pair ⟨2⟩, .pair ⟨1⟩, none, 3⟩, some ⟨.pair ⟨0⟩, .nil, none, 1⟩,
      some ⟨.atom first, .pair ⟨0⟩, none, 1⟩]⟩
    let other : Heap := ⟨#[some ⟨.pair ⟨3⟩, .nil, none, 1⟩,
      some ⟨.atom { first with id := 7 }, .pair ⟨3⟩, none, 2⟩, some ⟨.pair ⟨3⟩, .nil, none, 1⟩,
      some ⟨.pair ⟨1⟩, .pair ⟨2⟩, some ⟨4, 2⟩, 5⟩]⟩
    (heap.Copies other (fun p => ⟨3 - p.index⟩) (.pair ⟨0⟩) (.pair ⟨3⟩) ∧
      Render.structural? heap (.pair ⟨0⟩) = none ∧ Render.structural? other (.pair ⟨3⟩) = none ∧
      Render.listing? heap (.pair ⟨0⟩) = none ∧ Render.listing? other (.pair ⟨3⟩) = none) ∧
    heap.Copies other (fun p => ⟨3 - p.index⟩) (.pair ⟨2⟩) (.pair ⟨1⟩) ∧
      Render.structural? heap (.pair ⟨2⟩) = some "cons(<symbol 'x'>, ..., ..., nil)" ∧
      Render.structural? other (.pair ⟨1⟩) = some "cons(<symbol 'x'>, ..., ..., nil)" ∧
      Render.listing? heap (.pair ⟨2⟩) = some "(x ... ...)" ∧
      Render.listing? other (.pair ⟨1⟩) = some "(x ... ...)" := by
  intro first heap other
  have few : ∀ root : PairId, root.index < 3 → ∀ p ∈ heap.within (.pair root), p.index < 3 := by
    rintro root inside p ⟨_, ⟨⟩, leads⟩
    induction leads with
    | refl => exact inside
    | @tail q r _ child small =>
      obtain ⟨slot, read⟩ := child
      obtain ⟨_ | _ | _ | index⟩ := q
      · cases slot <;> cases read <;> decide
      · cases slot
        · cases read
          decide
        · cases read
      · cases slot
        · cases read
        · cases read
          decide
      · change index + 3 < 3 at small
        omega
  have copies : ∀ root : PairId, root.index < 3 →
      heap.Copies other (fun p => ⟨3 - p.index⟩) (.pair root) (.pair ⟨3 - root.index⟩) := by
    intro root inside
    refine copies_of_injOn (.pair rfl) ?_ ?_
    · intro p member slot
      have small := few root inside p member
      obtain ⟨_ | _ | _ | index⟩ := p
      · cases slot <;> exact .pair rfl
      · cases slot
        · exact .pair rfl
        · exact .scalar rfl
      · cases slot
        · exact .scalar rfl
        · exact .pair rfl
      · change index + 3 < 3 at small
        omega
    · intro p member q member' same
      have small := few root inside p member
      have small' := few root inside q member'
      cases p with | mk index
      cases q with | mk index'
      simp only [PairId.mk.injEq] at small small' same ⊢
      omega
  have tangled : Render.Tangled heap ⟨0⟩ ⟨1⟩ ⟨2⟩ (.atom first) := by
    constructor <;> decide +kernel
  constructor
  · have outer := copies ⟨0⟩ (by decide)
    have texts := Copies.sameTexts heap other _ _ _ outer
    have endless : ¬∃ shape, Render.Draws heap (.pair ⟨0⟩) shape := by
      intro drawn
      exact Render.exists_draws_iff.1 drawn tangled.reopens
    have structural : Render.structural? heap (.pair ⟨0⟩) = none :=
      Option.not_isSome_iff_eq_none.1 fun shown => endless (Render.isSome_structural?_iff.1 shown)
    have listing : Render.listing? heap (.pair ⟨0⟩) = none :=
      Option.not_isSome_iff_eq_none.1 fun shown => endless (Render.isSome_listing?_iff.1 shown)
    exact ⟨outer, structural, texts.structural.symm.trans structural, listing,
      texts.listing.symm.trans listing⟩
  · have inner := copies ⟨2⟩ (by decide)
    have texts := Copies.sameTexts heap other _ _ _ inner
    have unmarked : ∀ r, PairSet.empty.contains r = true → r = ⟨0⟩ ∨ r = ⟨1⟩ := by simp
    obtain ⟨last, writes, -⟩ := tangled.writes_inner unmarked
    have structural : Render.structural? heap (.pair ⟨2⟩) =
        some "cons(<symbol 'x'>, ..., ..., nil)" :=
      Render.structural?_eq_some_iff.2 ⟨_, .pair writes, by decide +kernel⟩
    have listing : Render.listing? heap (.pair ⟨2⟩) = some "(x ... ...)" :=
      Render.listing?_eq_some_iff.2 ⟨_, .pair writes, by decide +kernel⟩
    exact ⟨inner, structural, texts.structural.symm.trans structural, listing,
      texts.listing.symm.trans listing⟩

end Sexpr
