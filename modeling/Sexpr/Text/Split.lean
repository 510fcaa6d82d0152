import Sexpr.Fault
import Sexpr.Text.Blank

/-!
# Cutting a text into pieces

Without a separator a text is cut into its words, the runs of characters that are not blank.
With a separator it is cut at each occurrence, and empty pieces are kept. A limit bounds the
number of cuts; what is left after the last cut stays in one piece.

Cuts are taken from the left or from the right. Words are taken off either end by a loop of its own.
Cutting at a separator from the right is cutting the reversed text from the left, so there both
sides share one definition.
-/

namespace Sexpr.Text

/-- The end of a text from which cuts are taken. -/
inductive Side where
  | left
  | right
deriving DecidableEq

/-- The number of cuts that are left after one of them; `none` is no limit. -/
def spend (limit : Option Nat) : Option Nat := limit.map (· - 1)

/-! ## Words -/

/-- The words of `cs`. After `limit` cuts the rest is one piece, up to the very end. -/
def words (limit : Option Nat) (cs : List Char) : List (List Char) :=
  match _trimmed : cs.dropWhile isBlank with
  | [] => []
  | c :: rest =>
    if limit = some 0 then [c :: rest]
    else
      (c :: rest.takeWhile (!isBlank ·)) :: words (spend limit) (rest.dropWhile (!isBlank ·))
termination_by cs.length
decreasing_by
  have shorter := (List.dropWhile_sublist isBlank (l := cs)).length_le
  have shortest := (List.dropWhile_sublist (!isBlank ·) (l := rest)).length_le
  simp only [_trimmed, List.length_cons] at shorter
  omega

/-- The words of `cs` in front of the words in `found`, the last one first. After `limit` cuts the
rest is one piece, from the very beginning. -/
def wordsBefore (limit : Option Nat) (found : List (List Char)) (cs : List Char) :
    List (List Char) :=
  match _trimmed : cs.reverse.dropWhile isBlank with
  | [] => found
  | c :: rest =>
    if limit = some 0 then (c :: rest).reverse :: found
    else
      wordsBefore (spend limit) ((c :: rest.takeWhile (!isBlank ·)).reverse :: found)
        (rest.dropWhile (!isBlank ·)).reverse
termination_by cs.length
decreasing_by
  have shorter := (List.dropWhile_sublist isBlank (l := cs.reverse)).length_le
  have shortest := (List.dropWhile_sublist (!isBlank ·) (l := rest)).length_le
  simp only [_trimmed, List.length_cons, List.length_reverse] at *
  omega

/-! ## Pieces between separators -/

/-- Looks for the first occurrence of `sep`, where the characters in `passed`, the last one first,
lie behind. -/
def cutAfter? (sep passed : List Char) : List Char → Option (List Char × List Char)
  | [] => if sep = [] then some (passed.reverse, []) else none
  | c :: cs =>
    if sep.isPrefixOf (c :: cs) then some (passed.reverse, (c :: cs).drop sep.length)
    else cutAfter? sep (c :: passed) cs

/-- What stands before and after the first occurrence of `sep`. -/
def cut? (sep cs : List Char) : Option (List Char × List Char) := cutAfter? sep [] cs

theorem eq_append_of_cutAfter? {sep passed cs before after : List Char}
    (cut : cutAfter? sep passed cs = some (before, after)) :
    passed.reverse ++ cs = before ++ sep ++ after := by
  induction cs generalizing passed with
  | nil =>
    simp only [cutAfter?] at cut
    split at cut
    · next empty => simp_all
    · simp at cut
  | cons c cs ih =>
    simp only [cutAfter?] at cut
    split at cut
    · next starts =>
      obtain ⟨rest, whole⟩ := List.isPrefixOf_iff_prefix.1 starts
      simp only [Option.some.injEq, Prod.mk.injEq] at cut
      rw [← cut.1, ← cut.2, ← whole]
      simp
    · simpa using ih cut

/-- A cut takes the separator out and keeps all else in place. -/
theorem eq_append_of_cut? {sep cs before after : List Char}
    (cut : cut? sep cs = some (before, after)) : cs = before ++ sep ++ after :=
  eq_append_of_cutAfter? cut

/-- The pieces of `cs` between occurrences of `sep`, matched from the left without overlap.
After `limit` cuts the rest is one piece. -/
def pieces (sep : List Char) (nonempty : sep ≠ []) (limit : Option Nat) (cs : List Char) :
    List (List Char) :=
  if limit = some 0 then [cs]
  else
    match _found : cut? sep cs with
    | none => [cs]
    | some (before, after) => before :: pieces sep nonempty (spend limit) after
termination_by cs.length
decreasing_by
  have whole := congrArg List.length (eq_append_of_cut? _found)
  have positive := List.length_pos_iff.2 nonempty
  simp only [List.length_append] at whole
  omega

/-! ## Sides -/

/-- The pieces that `cutter` finds from the right: those of the reversed text, turned back. -/
def fromRight (cutter : List Char → List (List Char)) (cs : List Char) : List (List Char) :=
  ((cutter cs.reverse).map List.reverse).reverse

/-- The words of `cs`, with cuts taken from `side`. -/
def wordsFrom (side : Side) (limit : Option Nat) (cs : List Char) : List (List Char) :=
  match side with
  | .left => words limit cs
  | .right => wordsBefore limit [] cs

/-- The pieces of `cs` between occurrences of `sep`, matched from `side`. -/
def piecesFrom (side : Side) (sep : List Char) (nonempty : sep ≠ []) (limit : Option Nat)
    (cs : List Char) : List (List Char) :=
  match side with
  | .left => pieces sep nonempty limit cs
  | .right =>
    fromRight (pieces sep.reverse (fun empty => nonempty (List.reverse_eq_nil_iff.1 empty)) limit) cs

/-- The pieces of `text`, with at most `limit` cuts taken from `side`: at blanks without a
separator, else at each occurrence of it. An empty separator is refused. -/
def split (side : Side) (sep : Option String) (limit : Option Nat) (text : String) :
    Except Fault (List String) :=
  match sep with
  | none => .ok ((wordsFrom side limit text.toList).map String.ofList)
  | some sep =>
    if empty : sep.toList = [] then .error .emptySeparator
    else .ok ((piecesFrom side sep.toList empty limit text.toList).map String.ofList)

end Sexpr.Text
