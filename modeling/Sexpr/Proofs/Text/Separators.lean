import Mathlib.Data.List.Infix
import Sexpr.Text.Split

/-!
# The pieces of a text between separators

A `FirstCut` cuts a text at the occurrence of a separator that is nearest to one of its ends:
`outer` comes off at that end, and `inner` is left. `Found` counts the occurrences that are met when
each is looked for in what the one before has left. `Peels` lists what comes off, from the end
inwards, until the limit is spent or no occurrence is left.

Both sides are spoken of at once: `Side.inward` lists the pieces of a text from the end at which
cutting begins. What is known of `Peels` is proved by one induction each, without a look at the
side, and `peels_piecesFrom` says that it is what cutting does. From the right this is so because
reversing a text turns the occurrences nearest to its left end into those nearest to its right end
(`Peels.reverse`). `cutsAtSeparator` puts all of it together.
-/

namespace Sexpr.Text

/-! ## Ends of a text -/

namespace Side

variable {α β : Type} {side : Side} {sep : List Char}

/-- The text with `outer` at the end `side`, `inner` at the other end, and the separator between. -/
def around (side : Side) (sep outer inner : List Char) : List Char :=
  match side with
  | left => outer ++ sep ++ inner
  | right => inner ++ sep ++ outer

/-- What stands from left to right, listed from `side` inwards, and back again. -/
def inward (side : Side) (items : List α) : List α :=
  match side with
  | left => items
  | right => items.reverse

/-- The text with the given pieces, these listed from `side` inwards. -/
def join (side : Side) (sep : List Char) (parts : List (List Char)) : List Char :=
  sep.intercalate (side.inward parts)

@[simp] theorem inward_inward (side : Side) (items : List α) :
    side.inward (side.inward items) = items := by
  cases side with
  | left => rfl
  | right => exact List.reverse_reverse items

@[simp] theorem length_inward (side : Side) (items : List α) :
    (side.inward items).length = items.length := by
  cases side with
  | left => rfl
  | right => exact List.length_reverse

theorem inward_map (side : Side) (f : α → β) (items : List α) :
    side.inward (items.map f) = (side.inward items).map f := by
  cases side with
  | left => rfl
  | right => exact List.map_reverse.symm

theorem length_around (side : Side) (sep outer inner : List Char) :
    (side.around sep outer inner).length = outer.length + sep.length + inner.length := by
  cases side with
  | left => simp only [around, List.length_append]
  | right =>
    simp only [around, List.length_append]
    omega

/-- Texts with ends of the same length have the same ends and the same rest. -/
theorem around_inj {outer outer' inner inner' : List Char}
    (same : side.around sep outer inner = side.around sep outer' inner')
    (length : outer.length = outer'.length) : outer = outer' ∧ inner = inner' := by
  cases side with
  | left =>
    rw [around, around, List.append_assoc, List.append_assoc] at same
    obtain ⟨ends, rest⟩ := List.append_inj same length
    exact ⟨ends, List.append_cancel_left rest⟩
  | right =>
    obtain ⟨rest, ends⟩ := List.append_inj' same length
    exact ⟨ends, List.append_cancel_right rest⟩

theorem infix_around (side : Side) (sep outer inner : List Char) :
    sep <:+: side.around sep outer inner := by
  cases side with
  | left => exact ⟨outer, inner, rfl⟩
  | right => exact ⟨inner, outer, rfl⟩

theorem join_singleton (side : Side) (sep piece : List Char) : side.join sep [piece] = piece := by
  cases side with
  | left => exact List.intercalate_singleton
  | right => exact List.intercalate_singleton

theorem intercalate_concat {pieces : List (List Char)} (filled : pieces ≠ []) (piece : List Char) :
    sep.intercalate (pieces ++ [piece]) = sep.intercalate pieces ++ sep ++ piece := by
  induction pieces with
  | nil => exact absurd rfl filled
  | cons first pieces ih =>
    cases pieces with
    | nil => simp
    | cons second pieces =>
      rw [List.cons_append, List.intercalate_cons_of_ne_nil (by simp), ih (by simp),
        List.intercalate_cons_cons]
      simp only [List.append_assoc]

theorem join_cons {parts : List (List Char)} (filled : parts ≠ []) (outer : List Char) :
    side.join sep (outer :: parts) = side.around sep outer (side.join sep parts) := by
  cases side with
  | left => exact List.intercalate_cons_of_ne_nil filled
  | right =>
    rw [join, inward, List.reverse_cons, intercalate_concat (by simpa using filled)]
    rfl

end Side

/-! ## Cuts at the nearest occurrence -/

/-- `outer` comes off `cs` at the occurrence of `sep` that is nearest to `side`, and `inner` is
left. -/
structure FirstCut (side : Side) (sep cs outer inner : List Char) : Prop where
  whole : side.around sep outer inner = cs
  nearest : ∀ outer' inner', side.around sep outer' inner' = cs → outer.length ≤ outer'.length

namespace FirstCut

variable {side : Side} {sep cs outer outer' inner inner' : List Char}

/-- An occurrence at the very end is the nearest one. -/
theorem atEnd (side : Side) (sep inner : List Char) :
    FirstCut side sep (side.around sep [] inner) [] inner :=
  ⟨rfl, fun _ _ _ => Nat.zero_le _⟩

theorem unique (cut : FirstCut side sep cs outer inner)
    (cut' : FirstCut side sep cs outer' inner') :
    outer = outer' ∧ inner = inner' := by
  have less := cut.nearest outer' inner' cut'.whole
  have more := cut'.nearest outer inner cut.whole
  exact Side.around_inj (cut.whole.trans cut'.whole.symm) (Nat.le_antisymm less more)

theorem isInfix (cut : FirstCut side sep cs outer inner) : sep <:+: cs := by
  rw [← cut.whole]
  exact side.infix_around sep outer inner

/-- What comes off holds no separator: that one would have been nearer. -/
theorem not_isInfix (filled : sep ≠ []) (cut : FirstCut side sep cs outer inner) :
    ¬sep <:+: outer := by
  rintro ⟨before, after, rfl⟩
  have positive := List.length_pos_iff.2 filled
  cases side with
  | left =>
    have shorter := cut.nearest before (after ++ sep ++ inner) (by
      rw [← cut.whole]
      simp [Side.around])
    simp only [List.length_append] at shorter
    omega
  | right =>
    have shorter := cut.nearest after (inner ++ sep ++ before) (by
      rw [← cut.whole]
      simp [Side.around])
    simp only [List.length_append] at shorter
    omega

/-- In the reversed text the nearest occurrence is nearest to the other end. -/
theorem reverse (cut : FirstCut .left sep cs outer inner) :
    FirstCut .right sep.reverse cs.reverse outer.reverse inner.reverse := by
  constructor
  · rw [← cut.whole]
    simp [Side.around]
  · intro outer' inner' whole
    have back := cut.nearest outer'.reverse inner'.reverse (by
      rw [← List.reverse_reverse cs, ← whole]
      simp [Side.around])
    simpa using back

/-- One more character in front, at which the separator does not begin. -/
theorem cons {c : Char} (later : ¬sep <+: c :: cs) (cut : FirstCut .left sep cs outer inner) :
    FirstCut .left sep (c :: cs) (c :: outer) inner := by
  constructor
  · rw [← cut.whole]
    rfl
  · intro outer' inner' whole
    cases outer' with
    | nil => exact absurd ⟨inner', whole⟩ later
    | cons d outer' =>
      have shorter := cut.nearest outer' inner' (List.cons.inj whole).2
      exact Nat.succ_le_succ shorter

end FirstCut

/-! ## The search for the first occurrence -/

section Search

variable {sep cs before after : List Char}

theorem cutAfter?_eq (sep passed cs : List Char) :
    cutAfter? sep passed cs = (cut? sep cs).map fun cut => (passed.reverse ++ cut.1, cut.2) := by
  unfold cut?
  induction cs generalizing passed with
  | nil =>
    simp only [cutAfter?]
    split <;> simp
  | cons c cs ih =>
    simp only [cutAfter?]
    split
    · simp
    · rw [ih, ih [c], Option.map_map]
      simp [Function.comp_def]

theorem cut?_cons (sep : List Char) (c : Char) (cs : List Char) :
    cut? sep (c :: cs) =
      if sep.isPrefixOf (c :: cs) then some ([], (c :: cs).drop sep.length)
      else (cut? sep cs).map fun cut => (c :: cut.1, cut.2) := by
  rw [cut?, cutAfter?, cutAfter?_eq]
  rfl

theorem firstCut_of_cut? (cut : cut? sep cs = some (before, after)) :
    FirstCut .left sep cs before after := by
  induction cs generalizing before with
  | nil =>
    obtain ⟨rfl, rfl, rfl⟩ : before = [] ∧ sep = [] ∧ after = [] := by
      simpa using (eq_append_of_cut? cut).symm
    exact .atEnd .left [] []
  | cons c cs ih =>
    rw [cut?_cons] at cut
    split at cut
    · next starts =>
      obtain ⟨rest, whole⟩ := List.isPrefixOf_iff_prefix.1 starts
      cases cut
      rw [← whole, List.drop_left]
      exact .atEnd .left sep rest
    · next later =>
      obtain ⟨⟨before', after'⟩, found, same⟩ := Option.map_eq_some_iff.1 cut
      cases same
      exact (ih found).cons fun starts => later (List.isPrefixOf_iff_prefix.2 starts)

theorem not_isInfix_of_cut? (filled : sep ≠ []) (none : cut? sep cs = none) : ¬sep <:+: cs := by
  induction cs with
  | nil => exact fun inside => filled (List.infix_nil.1 inside)
  | cons c cs ih =>
    rw [cut?_cons] at none
    split at none
    · cases none
    · next later =>
      rw [List.infix_cons_iff]
      rintro (starts | inside)
      · exact later (List.isPrefixOf_iff_prefix.2 starts)
      · exact ih (Option.map_eq_none_iff.1 none) inside

end Search

/-! ## Occurrences met one after the other -/

/-- So many occurrences of `sep` are met in `cs` from `side` inwards, each being the nearest one in
what the one before has left. -/
inductive Found (side : Side) (sep : List Char) : List Char → Nat → Prop
  | absent {cs : List Char} (without : ¬sep <:+: cs) : Found side sep cs 0
  | next {cs outer inner : List Char} {count : Nat} (cut : FirstCut side sep cs outer inner)
      (rest : Found side sep inner count) : Found side sep cs (count + 1)

theorem Found.le_length {side : Side} {sep cs : List Char} {count : Nat} (filled : sep ≠ [])
    (found : Found side sep cs count) : count ≤ cs.length := by
  induction found with
  | absent => exact Nat.zero_le _
  | next cut _ ih =>
    have length := congrArg List.length cut.whole
    have positive := List.length_pos_iff.2 filled
    rw [Side.length_around] at length
    omega

/-- The parts of `cs` from `side` inwards, one for each cut at the nearest occurrence that is left;
the last part is what remains when the limit is spent or no occurrence is left. -/
inductive Peels (side : Side) (sep : List Char) :
    Option Nat → List Char → List (List Char) → Prop
  | spent (cs : List Char) : Peels side sep (some 0) cs [cs]
  | absent {limit : Option Nat} {cs : List Char} (without : ¬sep <:+: cs) :
      Peels side sep limit cs [cs]
  | cut {limit : Option Nat} {cs outer inner : List Char} {parts : List (List Char)}
      (more : limit ≠ some 0) (cut : FirstCut side sep cs outer inner)
      (rest : Peels side sep (spend limit) inner parts) : Peels side sep limit cs (outer :: parts)

namespace Peels

variable {side : Side} {sep cs outer inner : List Char} {limit : Option Nat}
  {parts parts' : List (List Char)} {count : Nat}

theorem ne_nil (peels : Peels side sep limit cs parts) : parts ≠ [] := by
  cases peels <;> exact List.cons_ne_nil _ _

theorem of_spent (peels : Peels side sep (some 0) cs parts) : parts = [cs] := by
  cases peels with
  | spent | absent => rfl
  | cut more => exact absurd rfl more

theorem of_absent (without : ¬sep <:+: cs) (peels : Peels side sep limit cs parts) :
    parts = [cs] := by
  cases peels with
  | spent | absent => rfl
  | cut _ cut => exact absurd cut.isInfix without

theorem of_cut (more : limit ≠ some 0) (cut : FirstCut side sep cs outer inner)
    (peels : Peels side sep limit cs parts) :
    ∃ rest, parts = outer :: rest ∧ Peels side sep (spend limit) inner rest := by
  cases peels with
  | spent => exact absurd rfl more
  | absent without => exact absurd cut.isInfix without
  | cut _ cut' rest =>
    obtain ⟨rfl, rfl⟩ := cut.unique cut'
    exact ⟨_, rfl, rest⟩

/-- The limit and the text determine the parts. -/
theorem unique (peels : Peels side sep limit cs parts) (peels' : Peels side sep limit cs parts') :
    parts = parts' := by
  induction peels generalizing parts' with
  | spent => exact peels'.of_spent.symm
  | absent without => exact (peels'.of_absent without).symm
  | cut more cut _ ih =>
    obtain ⟨rest, rfl, left⟩ := peels'.of_cut more cut
    rw [ih left]

/-- Put together again, the parts are the text. -/
theorem join_eq (peels : Peels side sep limit cs parts) : side.join sep parts = cs := by
  induction peels with
  | spent cs | absent => exact side.join_singleton sep _
  | cut _ cut rest ih => rw [Side.join_cons rest.ne_nil, ih, cut.whole]

/-- There are as many cuts as occurrences are met, unless the limit is lower. -/
theorem length_eq (found : Found side sep cs count) (peels : Peels side sep limit cs parts) :
    parts.length = limit.elim count (min · count) + 1 := by
  induction found generalizing limit parts with
  | absent without =>
    rw [peels.of_absent without]
    cases limit <;> simp
  | next cut _ ih =>
    by_cases more : limit = some 0
    · subst more
      rw [peels.of_spent]
      simp
    · obtain ⟨rest, rfl, left⟩ := peels.of_cut more cut
      rw [List.length_cons, ih left]
      cases limit with
      | none => rfl
      | some n =>
        have positive : n ≠ 0 := fun zero => more (congrArg some zero)
        simp only [spend, Option.map_some, Option.elim_some]
        omega

/-- Every part but the last comes off at the nearest occurrence in what was left before. -/
theorem firstCut (peels : Peels side sep limit cs parts) {front back : List (List Char)}
    {next : List Char} (split : parts = front ++ outer :: next :: back) :
    FirstCut side sep (side.join sep (outer :: next :: back)) outer
      (side.join sep (next :: back)) := by
  induction peels generalizing front with
  | spent | absent =>
    have length := congrArg List.length split
    simp only [List.length_cons, List.length_append, List.length_nil] at length
    omega
  | cut more cut rest ih =>
    cases front with
    | nil =>
      cases split
      rw [Side.join_cons (List.cons_ne_nil _ _), rest.join_eq, cut.whole]
      exact cut
    | cons _ front => exact ih (List.cons.inj split).2

/-- No part but the last holds the separator. -/
theorem not_isInfix_of_mem_dropLast (filled : sep ≠ []) (peels : Peels side sep limit cs parts)
    {part : List Char} (member : part ∈ parts.dropLast) : ¬sep <:+: part := by
  induction peels with
  | spent | absent => cases member
  | cut _ cut rest ih =>
    rw [List.dropLast_cons_of_ne_nil rest.ne_nil] at member
    rcases List.mem_cons.1 member with rfl | member
    · exact cut.not_isInfix filled
    · exact ih member

/-- Without a limit the last part does not hold it either. -/
theorem not_isInfix_of_mem (filled : sep ≠ []) (peels : Peels side sep none cs parts)
    {part : List Char} (member : part ∈ parts) : ¬sep <:+: part := by
  generalize unlimited : (none : Option Nat) = limit at peels
  induction peels with
  | spent => cases unlimited
  | absent without => exact List.mem_singleton.1 member ▸ without
  | cut _ cut _ ih =>
    subst unlimited
    rcases List.mem_cons.1 member with rfl | member
    · exact cut.not_isInfix filled
    · exact ih member rfl

/-- Without a limit all occurrences are met. -/
theorem exists_found (peels : Peels side sep none cs parts) : ∃ count, Found side sep cs count := by
  generalize unlimited : (none : Option Nat) = limit at peels
  induction peels with
  | spent => cases unlimited
  | absent without => exact ⟨0, .absent without⟩
  | cut _ cut _ ih =>
    subst unlimited
    obtain ⟨count, found⟩ := ih rfl
    exact ⟨count + 1, .next cut found⟩

/-- A limit that is no less than the number of occurrences changes nothing. -/
theorem limited (found : Found side sep cs count) (peels : Peels side sep none cs parts) {n : Nat}
    (enough : count ≤ n) : Peels side sep (some n) cs parts := by
  induction found generalizing n parts with
  | absent without =>
    rw [peels.of_absent without]
    exact .absent without
  | next cut _ ih =>
    obtain ⟨rest, rfl, left⟩ := peels.of_cut (by simp) cut
    cases n with
    | zero => exact absurd enough (Nat.not_succ_le_zero _)
    | succ n => exact .cut (by simp) cut (ih left (Nat.le_of_succ_le_succ enough))

/-- Cutting what the first cuts have left goes on where they stopped. -/
theorem resume {a : Nat} {b : Option Nat} {front : List (List Char)} {left : List Char}
    (peels : Peels side sep (some a) cs (front ++ [left])) (rest : Peels side sep b left parts) :
    Peels side sep (b.map (a + ·)) cs (front ++ parts) := by
  generalize limited : some a = limit at peels
  generalize split : front ++ [left] = whole at peels
  induction peels generalizing a front with
  | spent cs =>
    obtain ⟨rfl, rfl⟩ : front = [] ∧ left = cs := by
      simpa [List.append_eq_singleton_iff] using split
    cases limited
    simpa using rest
  | @absent limit cs without =>
    obtain ⟨rfl, rfl⟩ : front = [] ∧ left = cs := by
      simpa [List.append_eq_singleton_iff] using split
    rw [rest.of_absent without]
    exact .absent without
  | cut more cut peels ih =>
    subst limited
    cases front with
    | nil => exact absurd (List.cons.inj split).2.symm peels.ne_nil
    | cons outer front =>
      obtain ⟨rfl, behind⟩ := List.cons.inj split
      obtain ⟨a, rfl⟩ := Nat.exists_eq_succ_of_ne_zero fun zero => more (congrArg some zero)
      refine .cut ?_ cut ?_
      · cases b <;> simp
      · have inner := ih rfl behind
        cases b with
        | none => exact inner
        | some b => simpa [spend, Nat.add_right_comm] using inner

/-- The parts of the reversed text come off from the other end. -/
theorem reverse (peels : Peels .left sep limit cs parts) :
    Peels .right sep.reverse limit cs.reverse (parts.map List.reverse) := by
  induction peels with
  | spent cs => exact .spent cs.reverse
  | absent without => exact .absent fun inside => without (List.reverse_infix.1 inside)
  | cut more cut _ ih => exact .cut more cut.reverse ih

end Peels

/-! ## Cutting -/

section Cutting

variable {sep : List Char}

theorem peels_pieces (filled : sep ≠ []) (limit : Option Nat) (cs : List Char) :
    Peels .left sep limit cs (pieces sep filled limit cs) := by
  fun_induction pieces sep filled limit cs with
  | case1 cs => exact .spent cs
  | case2 limit cs more none => exact .absent (not_isInfix_of_cut? filled none)
  | case3 limit cs more before after found ih => exact .cut more (firstCut_of_cut? found) ih

/-- Cutting peels the text from the side on which it begins. -/
theorem peels_piecesFrom (side : Side) (filled : sep ≠ []) (limit : Option Nat) (cs : List Char) :
    Peels side sep limit cs (side.inward (piecesFrom side sep filled limit cs)) := by
  cases side with
  | left => exact peels_pieces filled limit cs
  | right =>
    have mirrored := (peels_pieces (fun empty => filled (List.reverse_eq_nil_iff.1 empty)) limit
      cs.reverse).reverse
    rw [List.reverse_reverse, List.reverse_reverse] at mirrored
    rw [Side.inward, piecesFrom, fromRight, List.reverse_reverse]
    exact mirrored

end Cutting

section Split

variable {side : Side} {sep text : String} {limit : Option Nat} {pieces : List String}

theorem toList_ne_nil (filled : sep ≠ "") : sep.toList ≠ [] := fun empty =>
  filled (String.toList_eq_nil_iff.1 empty)

theorem exists_split_eq_ok (side : Side) (filled : sep.toList ≠ []) (limit : Option Nat)
    (text : String) : ∃ pieces, split side (some sep) limit text = .ok pieces :=
  ⟨_, dif_neg filled⟩

/-- The pieces of a text are its parts, put back in order. -/
theorem split_eq_ok_iff (filled : sep.toList ≠ []) :
    split side (some sep) limit text = .ok pieces ↔
      Peels side sep.toList limit text.toList (side.inward (pieces.map String.toList)) := by
  have peels := peels_piecesFrom side filled limit text.toList
  rw [split, dif_neg filled, Except.ok.injEq]
  constructor
  · rintro rfl
    simpa [Function.comp_def] using peels
  · intro given
    have same := congrArg side.inward (peels.unique given)
    rw [Side.inward_inward, Side.inward_inward] at same
    simp [same, Function.comp_def]

theorem intercalate_of_split (filled : sep.toList ≠ [])
    (cut : split side (some sep) limit text = .ok pieces) :
    sep.toList.intercalate (pieces.map String.toList) = text.toList := by
  have joined := ((split_eq_ok_iff filled).1 cut).join_eq
  rwa [Side.join, Side.inward_inward] at joined

theorem length_of_split {count : Nat} (filled : sep.toList ≠ [])
    (found : Found side sep.toList text.toList count)
    (cut : split side (some sep) limit text = .ok pieces) :
    pieces.length = limit.elim count (min · count) + 1 := by
  have length := ((split_eq_ok_iff filled).1 cut).length_eq found
  rwa [Side.length_inward, List.length_map] at length

end Split

/-- The pieces of a text between occurrences of a separator, where `count` occurrences are met from
`side` inwards. -/
structure CutsAtSeparator (side : Side) (sep text : String) (count : Nat) : Prop where
  /-- Every limit gives pieces. -/
  answers : ∀ limit, ∃ pieces, split side (some sep) limit text = .ok pieces
  /-- Joined by the separator, the pieces are the text. -/
  joined : ∀ limit pieces, split side (some sep) limit text = .ok pieces →
    sep.intercalate pieces = text
  /-- There are as many cuts as occurrences are met, unless the limit is lower. -/
  counted : ∀ limit pieces, split side (some sep) limit text = .ok pieces →
    pieces.length = limit.elim count (min · count) + 1
  /-- Every cut is at the nearest occurrence in what the cuts before have left. -/
  nearest : ∀ limit pieces, split side (some sep) limit text = .ok pieces →
    ∀ front outer next back,
      side.inward (pieces.map String.toList) = front ++ outer :: next :: back →
      FirstCut side sep.toList (side.join sep.toList (outer :: next :: back)) outer
        (side.join sep.toList (next :: back))
  /-- Only the innermost piece can hold the separator. -/
  bare : ∀ limit pieces, split side (some sep) limit text = .ok pieces →
    ∀ piece ∈ (side.inward pieces).dropLast, ¬sep.toList <:+: piece.toList
  /-- A limit that is no less than the number of occurrences changes nothing. -/
  enough : ∀ n, count ≤ n → split side (some sep) (some n) text = split side (some sep) none text
  /-- Cutting the innermost piece goes on where the cuts before have stopped. -/
  resumed : ∀ a b pieces front left more, split side (some sep) (some a) text = .ok pieces →
    side.inward pieces = front ++ [left] → split side (some sep) b left = .ok more →
    split side (some sep) (b.map (a + ·)) text = .ok (side.inward (front ++ side.inward more))
  /-- A count of pieces that stops at the greatest number of 64 bits is as good as one that goes
  on, for every text whose characters such a number can count. -/
  saturated : ∀ n, text.length < UInt64.size - 1 →
    split side (some sep) (some (min (n + 1) (UInt64.size - 1) - 1)) text =
      split side (some sep) (some n) text

/-- An empty separator is refused. Every other separator is met a definite number of times from
either side, and the text is cut at each of these occurrences as far as the limit goes. -/
theorem cutsAtSeparator (side : Side) (sep text : String) :
    (sep = "" → ∀ limit, split side (some sep) limit text = .error .emptySeparator ∧
      Fault.emptySeparator.kind = .usage) ∧
    (sep ≠ "" → (∃ count, Found side sep.toList text.toList count) ∧
      ∀ count, Found side sep.toList text.toList count → CutsAtSeparator side sep text count) := by
  constructor
  · rintro rfl limit
    exact ⟨rfl, rfl⟩
  intro nonempty
  have filled := toList_ne_nil nonempty
  obtain ⟨all, whole⟩ := exists_split_eq_ok side filled none text
  have unlimited := (split_eq_ok_iff filled).1 whole
  refine ⟨unlimited.exists_found, fun count found => ?_⟩
  have enough : ∀ n, count ≤ n →
      split side (some sep) (some n) text = split side (some sep) none text := by
    intro n most
    rw [whole]
    exact (split_eq_ok_iff filled).2 (unlimited.limited found most)
  constructor
  case answers => exact fun limit => exists_split_eq_ok side filled limit text
  case enough => exact enough
  case joined =>
    intro limit pieces cut
    rw [← String.toList_inj, String.toList_intercalate]
    exact intercalate_of_split filled cut
  case counted => exact fun limit pieces => length_of_split filled found
  case nearest =>
    intro limit pieces cut front outer next back parts
    exact ((split_eq_ok_iff filled).1 cut).firstCut parts
  case bare =>
    intro limit pieces cut piece member
    refine ((split_eq_ok_iff filled).1 cut).not_isInfix_of_mem_dropLast filled ?_
    rw [Side.inward_map, ← List.map_dropLast]
    exact List.mem_map_of_mem member
  case resumed =>
    intro a b pieces front left more cut parts again
    have first := (split_eq_ok_iff filled).1 cut
    rw [Side.inward_map, parts, List.map_append] at first
    have both := first.resume ((split_eq_ok_iff filled).1 again)
    refine (split_eq_ok_iff filled).2 ?_
    rwa [Side.inward_map, Side.inward_inward, List.map_append, ← Side.inward_map]
  case saturated =>
    intro n small
    have few := found.le_length filled
    rw [String.length_toList] at few
    by_cases least : n + 1 ≤ UInt64.size - 1
    · rw [Nat.min_eq_left least, Nat.add_sub_cancel]
    · rw [enough n (by omega), enough _ (by omega)]

/-- Five times the letter of a separator that overlaps itself: it is met twice from either side, and
the odd letter stays at the other end. -/
theorem cutsAtSeparator_of_overlaps :
    Found .left "aa".toList "aaaaa".toList 2 ∧ Found .right "aa".toList "aaaaa".toList 2 ∧
      CutsAtSeparator .left "aa" "aaaaa" 2 ∧ CutsAtSeparator .right "aa" "aaaaa" 2 ∧
      split .left (some "aa") none "aaaaa" = .ok ["", "", "a"] ∧
      split .right (some "aa") none "aaaaa" = .ok ["a", "", ""] ∧
      split .left (some "") none "aaaaa" = .error .emptySeparator := by
  have twice : ∀ side, side.around ['a', 'a'] [] ['a', 'a', 'a'] = "aaaaa".toList →
      side.around ['a', 'a'] [] ['a'] = ['a', 'a', 'a'] →
      Found side "aa".toList "aaaaa".toList 2 := by
    intro side first second
    have rest : Found side ['a', 'a'] ['a'] 0 := .absent (by decide)
    have inner : Found side ['a', 'a'] ['a', 'a', 'a'] 1 := second ▸ .next (.atEnd side _ _) rest
    exact first ▸ .next (.atEnd side _ _) inner
  have left := twice .left rfl rfl
  have right := twice .right rfl rfl
  have filled : "aa" ≠ "" := by decide
  refine ⟨left, right, ((cutsAtSeparator .left "aa" "aaaaa").2 filled).2 2 left,
    ((cutsAtSeparator .right "aa" "aaaaa").2 filled).2 2 right, ?_, ?_,
    ((cutsAtSeparator .left "" "aaaaa").1 rfl none).1⟩
  · decide +kernel
  · decide +kernel

end Sexpr.Text
