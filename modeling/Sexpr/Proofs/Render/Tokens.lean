import Mathlib.Data.List.TakeDrop
import Sexpr.Render.Listing
import Sexpr.Render.Structural

/-!
# Texts from tokens

Both kinds of text come together piece by piece. A structural text puts a comma behind every head,
and where a chain comes back to one of its pairs it opens again at the place of that pair's head,
which was remembered. A list text puts a blank in front of every item and makes the first one its
opening bracket in the end. Here the same texts are said of the texts of the heads all at once.

* `Structural.Frame.finish_eq`, `Structural.Frame.finishAgain_eq`: the tokens of a chain make
  `Structural.chainText` of its heads and its ending.
* `Listing.Frame.finish_eq`: the parts of a chain make `Listing.chainText` of its items.
* `everyOther_tokensOf`, `everyOther_partsOf`: the texts of the heads can be read off the pieces.
-/

namespace Sexpr.Render

/-- What stands at the end of a chain. -/
inductive Ending where
  /-- A value that is not a pair. -/
  | stop (value : Scalar)
  /-- The pair with `index` pairs of the chain before it. -/
  | reenter (index : Nat)
deriving DecidableEq

/-! ## Structural texts -/

namespace Structural

/-- Each text with a comma after it. -/
def listed (heads : List String) : String := String.join (heads.map (· ++ ", "))

/-- The text of a chain with the given texts of its heads. -/
def chainText (heads : List String) : Ending → String
  | .stop value => "cons(" ++ listed heads ++ value.structural ++ ")"
  | .reenter 0 => "cons(" ++ listed heads ++ "recursive=True)"
  | .reenter index =>
    "cons(" ++ listed (heads.take index) ++ "cons(" ++ listed (heads.drop index) ++
      "recursive=True))"

/-- The tokens of a chain as long as it is being written. -/
def tokensOf (heads : List String) : List String := opening :: heads.flatMap ([·, comma])

/-- Where the head of the pair with `index` pairs before it stands among the tokens. -/
def place (index : Nat) : Nat := 2 * index + 1

variable {heads : List String}

theorem length_tokensOf (heads : List String) : (tokensOf heads).length = place heads.length := by
  induction heads with
  | nil => rfl
  | cons head heads ih =>
    simp only [tokensOf, place, List.flatMap_cons, List.length_cons, List.length_append] at ih ⊢
    simp only [List.length_nil]
    omega

theorem tokensOf_append (heads : List String) (text : String) :
    tokensOf (heads ++ [text]) = tokensOf heads ++ [text, comma] := by
  simp [tokensOf]

theorem join_flatMap_comma (heads : List String) :
    String.join (heads.flatMap ([·, comma])) = listed heads := by
  induction heads with
  | nil => rfl
  | cons head heads ih =>
    rw [listed, List.map_cons, String.join_cons, ← listed, ← ih]
    simp [comma, String.append_assoc]

/-- The tokens fall apart at the place of a head. -/
theorem tokensOf_split {index : Nat} (within : index ≤ heads.length) :
    tokensOf heads = tokensOf (heads.take index) ++ (heads.drop index).flatMap ([·, comma]) ∧
      (tokensOf (heads.take index)).length = place index := by
  constructor
  · rw [tokensOf, tokensOf, List.cons_append, ← List.flatMap_append, List.take_append_drop]
  · rw [length_tokensOf, List.length_take, Nat.min_eq_left within]

namespace Frame

variable {written : Array String}

theorem toList_pushHead (same : written.toList = tokensOf heads) (text : String) :
    (pushHead written text).toList = tokensOf (heads ++ [text]) := by
  simp [pushHead, same, tokensOf_append]

theorem finish_eq (same : written.toList = tokensOf heads) (value : Scalar) :
    finish (written.push value.structural) = chainText heads (.stop value) := by
  simp [finish, same, tokensOf, chainText, join_flatMap_comma, opening, closing,
    String.append_assoc]

/-- At the place of a head the text opens again. -/
theorem toList_reopened {index : Nat} (same : written.toList = tokensOf heads)
    (within : index ≤ heads.length) :
    ((written.push recursive).insertIdxIfInBounds (place index) opening).toList =
      tokensOf (heads.take index) ++
        opening :: ((heads.drop index).flatMap ([·, comma]) ++ [recursive]) := by
  obtain ⟨split, front⟩ := tokensOf_split within
  have inside : place index ≤ (written.push recursive).size := by
    rw [← Array.length_toList, Array.toList_push, same, split, List.length_append,
      List.length_append, front]
    omega
  rw [Array.insertIdxIfInBounds, dif_pos inside, Array.toList_insertIdx, Array.toList_push, same,
    split, List.append_assoc, List.insertIdx, ← front]
  exact List.modifyTailIdx_add (opening :: ·) 0 _ _

theorem finishAgain_eq {index : Nat} (same : written.toList = tokensOf heads)
    (within : index ≤ heads.length) :
    finishAgain written (place index) (index == 0) = chainText heads (.reenter index) := by
  cases index with
  | zero =>
    simp [finishAgain, finish, same, tokensOf, chainText, join_flatMap_comma, opening, recursive,
      closing, String.append_assoc]
  | succ index =>
    have closed : finishAgain written (place (index + 1)) (index + 1 == 0) = String.join
        (((written.push recursive).insertIdxIfInBounds (place (index + 1)) opening).toList ++
          [closing, closing]) := by
      simp [finishAgain, finish]
    rw [closed, toList_reopened same within]
    simp [tokensOf, chainText, join_flatMap_comma, opening, recursive, closing, String.append_assoc]

end Frame

end Structural

/-! ## List texts -/

namespace Listing

/-- The items with a blank between any two. -/
def spaced (items : List String) : String := String.intercalate " " items

/-- The text behind the last item when the chain ends in a scalar. -/
def endText : Scalar → String
  | .nil => ""
  | value => " . " ++ value.plain

/-- The text of a chain with the given items and what stands behind them. -/
def chainText (items : List String) (behind : String) : String :=
  "(" ++ spaced items ++ behind ++ ")"

/-- The parts of a chain as long as it is being written. -/
def partsOf (items : List String) : List String := items.flatMap ([" ", ·])

theorem partsOf_append (items : List String) (text : String) :
    partsOf (items ++ [text]) = partsOf items ++ [" ", text] := by
  simp [partsOf]

/-- Behind the first item, a blank in front of each item is a blank between any two. -/
theorem append_join_partsOf (item : String) (items : List String) :
    item ++ String.join (partsOf items) = spaced (item :: items) := by
  induction items generalizing item with
  | nil => simp [partsOf, spaced]
  | cons next items ih =>
    rw [spaced, String.intercalate_cons_cons, ← spaced, ← ih]
    simp [partsOf, String.append_assoc]

/-- The first blank gives its place to the bracket. -/
theorem Frame.finish_eq {written : Array String} {items : List String} (filled : items ≠ [])
    (behind : List String) (same : written.toList = partsOf items ++ behind) :
    finish written = chainText items (String.join behind) := by
  obtain ⟨item, items, rfl⟩ := List.exists_cons_of_ne_nil filled
  have patched : (written.setIfInBounds 0 "(").toList =
      "(" :: item :: (partsOf items ++ behind) := by
    rw [Array.toList_setIfInBounds, same]
    rfl
  rw [finish, Array.toList_push, patched, chainText, ← append_join_partsOf]
  simp [String.append_assoc]

end Listing

/-! ## Heads from tokens -/

/-- The texts at every other place, beginning with the second. -/
def everyOther : List String → List String
  | _ :: text :: rest => text :: everyOther rest
  | _ => []

theorem everyOther_tokensOf (heads : List String) :
    everyOther (Structural.tokensOf heads) = heads := by
  have behind : ∀ token, everyOther (token :: heads.flatMap ([·, Structural.comma])) = heads := by
    induction heads with
    | nil => exact fun _ => rfl
    | cons head heads ih => exact fun _ => congrArg (head :: ·) (ih _)
  exact behind _

theorem everyOther_partsOf (items : List String) (due : Nat) (few : due ≤ 1) :
    everyOther (Listing.partsOf items ++ List.replicate due " ") = items := by
  induction items with
  | nil =>
    obtain rfl | rfl : due = 0 ∨ due = 1 := by omega
    · rfl
    · rfl
  | cons item items ih => exact congrArg (item :: ·) ih

end Sexpr.Render
