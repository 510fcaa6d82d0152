import Sexpr.Proofs.Text.Separators

/-!
# Separators without borders

A border of a word stands both at its beginning and at its end. Where two occurrences of a word
overlap, the overlap is a border of it, so the occurrences of a word without borders lie apart. Cut
at such a separator, a text has one list of pieces that do not hold it (`Peels.of_bare`), whichever
side the cuts are taken from.
-/

namespace Sexpr.Text

/-- Nothing but the empty word and the whole one is both a prefix and a suffix of `sep`. -/
def BorderFree (sep : List Char) : Prop :=
  ∀ border, border <+: sep → border <:+ sep → border = [] ∨ border = sep

instance (sep : List Char) : Decidable (BorderFree sep) :=
  decidable_of_iff (∀ border ∈ sep.inits, border <:+ sep → border = [] ∨ border = sep) (by
    simp only [BorderFree, List.mem_inits])

theorem borderFree_singleton (c : Char) : BorderFree [c] := by
  intro border start _
  rcases List.prefix_cons_iff.1 start with none | ⟨more, rfl, nothing⟩
  · exact Or.inl none
  · rw [List.prefix_nil.1 nothing]
    exact Or.inr rfl

/-- Behind a piece that does not hold the separator, the first occurrence is the one that ends the
piece. -/
theorem BorderFree.firstCut {sep piece : List Char} (free : BorderFree sep)
    (bare : ¬sep <:+: piece) (rest : List Char) :
    FirstCut .left sep (piece ++ sep ++ rest) piece rest := by
  refine ⟨rfl, fun outer inner whole => Nat.le_of_not_lt fun earlier => ?_⟩
  rw [Side.around, List.append_assoc, List.append_assoc] at whole
  rcases List.append_eq_append_iff.1 whole with ⟨more, longer, tail⟩ | ⟨more, longer, -⟩
  · rcases List.append_eq_append_iff.1 tail with ⟨lap, past, -⟩ | ⟨lap, past, both⟩
    · -- An earlier occurrence lies inside the piece.
      exact bare ⟨outer, lap, by rw [longer, past, List.append_assoc]⟩
    · -- Or `lap` is its end and the beginning of the occurrence behind the piece.
      have shorter : lap.length ≤ sep.length := by
        rw [past, List.length_append]
        exact Nat.le_add_left _ _
      have start : lap <+: sep :=
        List.prefix_of_prefix_length_le ⟨inner, both.symm⟩ (List.prefix_append sep rest) shorter
      rcases free lap start ⟨more, past.symm⟩ with none | all
      · rw [none, List.append_nil] at past
        exact bare ⟨outer, [], by rw [longer, past, List.append_nil]⟩
      · have length := congrArg List.length past
        rw [all, List.length_append] at length
        rw [longer, List.length_append] at earlier
        omega
  · rw [longer, List.length_append] at earlier
    omega

/-- Pieces that do not hold the separator are those that are found when the text is cut. -/
theorem Peels.of_bare {sep : List Char} {pieces : List (List Char)} (free : BorderFree sep)
    (filled : pieces ≠ []) (bare : ∀ piece ∈ pieces, ¬sep <:+: piece) :
    Peels .left sep none (sep.intercalate pieces) pieces := by
  induction pieces with
  | nil => exact absurd rfl filled
  | cons piece pieces ih =>
    have here := bare piece List.mem_cons_self
    cases pieces with
    | nil =>
      rw [List.intercalate_singleton]
      exact .absent here
    | cons second pieces =>
      rw [List.intercalate_cons_cons]
      refine .cut nofun (free.firstCut here _) (ih (List.cons_ne_nil _ _) fun other member => ?_)
      exact bare other (List.mem_cons_of_mem _ member)

/-- Without a limit, the pieces found from the right are those found from the left. -/
theorem BorderFree.split_eq {sep text : String} (free : BorderFree sep.toList)
    (filled : sep.toList ≠ []) :
    split .left (some sep) none text = split .right (some sep) none text := by
  obtain ⟨pieces, cut⟩ := exists_split_eq_ok .right filled none text
  have peels := (split_eq_ok_iff filled).1 cut
  have bare : ∀ piece ∈ pieces.map String.toList, ¬sep.toList <:+: piece := fun piece member =>
    peels.not_isInfix_of_mem filled (List.mem_reverse.2 member)
  have present : pieces.map String.toList ≠ [] := fun empty =>
    peels.ne_nil (List.reverse_eq_nil_iff.2 empty)
  rw [cut, split_eq_ok_iff filled, ← intercalate_of_split filled cut]
  exact .of_bare free present bare

/-- At a separator without borders, which every single character is, a text is cut into the same
pieces from either side, and under any limit into equally many. -/
theorem sidesAgree : (∀ c, BorderFree [c]) ∧ ∀ sep text : String, sep ≠ "" →
    BorderFree sep.toList →
      split .left (some sep) none text = split .right (some sep) none text ∧
      ∀ limit, ∃ left right, split .left (some sep) limit text = .ok left ∧
        split .right (some sep) limit text = .ok right ∧ left.length = right.length := by
  refine ⟨borderFree_singleton, fun sep text nonempty free => ?_⟩
  have filled := toList_ne_nil nonempty
  have same : split .left (some sep) none text = split .right (some sep) none text :=
    free.split_eq filled
  refine ⟨same, fun limit => ?_⟩
  obtain ⟨all, fromLeft⟩ := exists_split_eq_ok .left filled none text
  have fromRight := same.symm.trans fromLeft
  obtain ⟨count, found⟩ := ((split_eq_ok_iff filled).1 fromLeft).exists_found
  obtain ⟨count', found'⟩ := ((split_eq_ok_iff filled).1 fromRight).exists_found
  have equal : count = count' := by
    have length := length_of_split filled found fromLeft
    exact Nat.succ.inj (length.symm.trans (length_of_split filled found' fromRight))
  obtain ⟨left, cut⟩ := exists_split_eq_ok .left filled limit text
  obtain ⟨right, cut'⟩ := exists_split_eq_ok .right filled limit text
  refine ⟨left, right, cut, cut', ?_⟩
  rw [length_of_split filled found cut, length_of_split filled found' cut', equal]

/-- Of three occurrences two touch each other, and letters of the separator stand beside them. -/
theorem sidesAgree_of_touching : BorderFree "ab".toList ∧
    split .left (some "ab") none "aababbab" = .ok ["a", "", "b", ""] ∧
    split .right (some "ab") none "aababbab" = .ok ["a", "", "b", ""] := by
  have free : BorderFree "ab".toList := by decide
  have cut : split .left (some "ab") none "aababbab" = .ok ["a", "", "b", ""] := by decide +kernel
  exact ⟨free, cut, (sidesAgree.2 "ab" "aababbab" (by decide) free).1 ▸ cut⟩

/-- A separator with a border can be found at other places from the other side. -/
example : ¬BorderFree "aba".toList ∧
    split .left (some "aba") none "ababa" = .ok ["", "ba"] ∧
    split .right (some "aba") none "ababa" = .ok ["ab", ""] := by
  decide +kernel

end Sexpr.Text
