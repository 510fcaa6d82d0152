import Mathlib.Data.List.TakeWhile
import Sexpr.Text.Split

/-!
# The words of a text

A `Run` is a part of a text together with what stands before and behind it. It is a word of the text
if it holds no blank and cannot be made longer at either end; `Runs` says that a list has all words
of a text, each ending before the next one begins. Every text has one such list
(`exists_runs`, `Runs.unique`).

`words` takes the words off the front one by one, and what it has not taken when its limit is spent
stays in one piece up to the end of the text (`words_eq_taken`). `wordsBefore` takes them off the
end, and finds what `words` finds in the reversed text (`wordsBefore_eq`). The words of the reversed
text are those of the text, reversed and in the opposite order (`Runs.reverse`), so the same holds
from the other side. `cutsAtBlanks` puts both sides together.
-/

namespace Sexpr.Text

/-! ## Runs -/

/-- A part of a text, with what stands before and behind it. -/
structure Run where
  before : List Char
  word : List Char
  after : List Char

namespace Run

/-- The part holds no blank, and a blank or an end of the text stands on either side of it. -/
structure In (run : Run) (cs : List Char) : Prop where
  whole : run.before ++ run.word ++ run.after = cs
  filled : run.word ≠ []
  solid : ∀ c ∈ run.word, isBlank c = false
  opens : ∀ c, run.before.getLast? = some c → isBlank c = true
  closes : ∀ c, run.after.head? = some c → isBlank c = true

/-- The run as a part of a text that goes on in front. -/
def behind (passed : List Char) (run : Run) : Run := { run with before := passed ++ run.before }

/-- The run as a part of the reversed text. -/
def reverse (run : Run) : Run := ⟨run.after.reverse, run.word.reverse, run.before.reverse⟩

/-- The part of the text up to the end of the run. -/
def upTo (run : Run) : List Char := run.before ++ run.word

/-- The part of the text from the beginning of the run on. -/
def onward (run : Run) : List Char := run.word ++ run.after

@[simp] theorem reverse_reverse (run : Run) : run.reverse.reverse = run := by
  simp [reverse]

@[simp] theorem word_reverse (run : Run) : run.reverse.word = run.word.reverse := rfl

@[simp] theorem onward_reverse (run : Run) : run.reverse.onward = run.upTo.reverse := by
  simp [reverse, onward, upTo]

namespace In

variable {run : Run} {cs : List Char}

theorem exists_first (inside : run.In cs) : ∃ c rest, run.word = c :: rest ∧ isBlank c = false := by
  obtain ⟨c, rest, begins⟩ := List.exists_cons_of_ne_nil inside.filled
  refine ⟨c, rest, begins, inside.solid c ?_⟩
  rw [begins]
  exact List.mem_cons_self

/-- A text that begins with a blank does not begin with a word. -/
theorem before_ne_nil (inside : run.In cs) (blank : ∀ c, cs.head? = some c → isBlank c = true) :
    run.before ≠ [] := by
  intro none
  obtain ⟨c, rest, begins, black⟩ := inside.exists_first
  have start := inside.whole
  rw [none, begins] at start
  have white := blank c (by rw [← start]; rfl)
  rw [white] at black
  cases black

theorem reverse (inside : run.In cs) : run.reverse.In cs.reverse := by
  constructor
  · rw [← inside.whole]
    simp [Run.reverse]
  · simpa [Run.reverse] using inside.filled
  · simpa [Run.reverse] using inside.solid
  · simpa [Run.reverse] using inside.closes
  · simpa [Run.reverse] using inside.opens

end In

end Run

/-- The words of a text from left to right: all of them, each ending before the next one begins. -/
structure Runs (cs : List Char) (runs : List Run) : Prop where
  exact : ∀ run, run ∈ runs ↔ run.In cs
  ordered : runs.Pairwise fun first second => first.upTo.length < second.before.length

/-! ## Taking a text apart -/

section Lead

variable {cs lead word after : List Char} {c : Char} {run : Run}

theorem isBlank_of_mem_takeWhile (member : c ∈ cs.takeWhile isBlank) : isBlank c = true :=
  List.all_eq_true.1 List.all_takeWhile c member

theorem isBlank_of_head?_dropWhile (first : (cs.dropWhile (!isBlank ·)).head? = some c) :
    isBlank c = true := by
  have stopped := List.head?_dropWhile_not (!isBlank ·) cs
  rw [first] at stopped
  simpa using stopped

/-- Two words that begin at one place are one word. -/
theorem word_eq_of_append_eq {word' after' : List Char} (same : word ++ after = word' ++ after')
    (solid : ∀ c ∈ word, isBlank c = false) (solid' : ∀ c ∈ word', isBlank c = false)
    (closes : ∀ c, after.head? = some c → isBlank c = true)
    (closes' : ∀ c, after'.head? = some c → isBlank c = true) : word = word' := by
  -- Were one of them longer, its next character would be a blank.
  rcases List.append_eq_append_iff.1 same with ⟨more, longer, rest⟩ | ⟨more, longer, rest⟩
  · cases more with
    | nil => rw [longer, List.append_nil]
    | cons c more =>
      have blank := closes c (by rw [rest]; rfl)
      have black := solid' c (by rw [longer]; simp)
      rw [blank] at black
      cases black
  · cases more with
    | nil => rw [longer, List.append_nil]
    | cons c more =>
      have blank := closes' c (by rw [rest]; rfl)
      have black := solid c (by rw [longer]; simp)
      rw [blank] at black
      cases black

/-- A word that does not begin behind the first word of a text is that word. -/
theorem before_eq_of_in (blank : ∀ c ∈ lead, isBlank c = true)
    (solid : ∀ c ∈ word, isBlank c = false) {rest : List Char}
    (inside : run.In (lead ++ word ++ after)) (split : lead ++ word = run.before ++ rest)
    (tail : run.word ++ run.after = rest ++ after) : run.before = lead := by
  rcases List.append_eq_append_iff.1 split with ⟨more, longer, whole⟩ | ⟨more, longer, whole⟩
  · -- It begins inside the word, behind one of its characters.
    cases last : more.getLast? with
    | none =>
      rw [List.getLast?_eq_none_iff.1 last] at longer
      rw [longer, List.append_nil]
    | some c =>
      have white := inside.opens c (by rw [longer, List.getLast?_append, last]; rfl)
      have black := solid c (by rw [whole]; exact List.mem_append_left _ (List.mem_of_getLast? last))
      rw [white] at black
      cases black
  · -- It begins in the blanks.
    cases more with
    | nil => rw [longer, List.append_nil]
    | cons c more =>
      obtain ⟨d, word', begins, black⟩ := inside.exists_first
      rw [begins, whole] at tail
      have same : d = c := (List.cons.inj tail).1
      have white := blank c (by rw [longer]; simp)
      rw [same, white] at black
      cases black

/-- The words of a text are its first word and the words behind it. -/
theorem in_append_iff (blank : ∀ c ∈ lead, isBlank c = true) (filled : word ≠ [])
    (solid : ∀ c ∈ word, isBlank c = false)
    (closes : ∀ c, after.head? = some c → isBlank c = true) :
    run.In (lead ++ word ++ after) ↔
      run = ⟨lead, word, after⟩ ∨ ∃ inner : Run, inner.In after ∧ run = inner.behind (lead ++ word) := by
  constructor
  · intro inside
    have whole := inside.whole
    rw [List.append_assoc run.before] at whole
    rcases List.append_eq_append_iff.1 whole with ⟨rest, split, tail⟩ | ⟨passed, longer, tail⟩
    · by_cases empty : rest = []
      · -- It begins right behind the first word.
        subst empty
        rw [List.append_nil] at split
        refine Or.inr ⟨⟨[], run.word, run.after⟩, ⟨tail, inside.filled, inside.solid, ?_,
          inside.closes⟩, ?_⟩
        · intro c last
          cases last
        · rw [split, Run.behind, List.append_nil]
      · have begins := before_eq_of_in blank solid inside split tail
        rw [begins] at split
        rw [← List.append_cancel_left split] at tail
        have same := word_eq_of_append_eq tail inside.solid solid inside.closes closes
        rw [same] at tail
        have ends := List.append_cancel_left tail
        left
        rw [← begins, ← same, ← ends]
    · refine Or.inr ⟨⟨passed, run.word, run.after⟩, ⟨?_, inside.filled, inside.solid, ?_,
        inside.closes⟩, ?_⟩
      · rw [tail, List.append_assoc]
      · intro c last
        exact inside.opens c (by rw [longer, List.getLast?_append, last]; rfl)
      · rw [Run.behind, ← longer]
  · intro found
    rcases found with rfl | ⟨inner, inside, rfl⟩
    · refine ⟨rfl, filled, solid, fun c last => ?_, closes⟩
      exact blank c (List.mem_of_getLast? last)
    · refine ⟨?_, inside.filled, inside.solid, fun c last => ?_, inside.closes⟩
      · rw [← inside.whole]
        simp [Run.behind]
      · cases own : inner.before.getLast? with
        | some d =>
          rw [Run.behind, List.getLast?_append, own] at last
          exact inside.opens c (own.trans last)
        | none => exact absurd (List.getLast?_eq_none_iff.1 own) (inside.before_ne_nil closes)

end Lead

/-! ## The list of all words -/

namespace Runs

variable {cs lead word after : List Char} {runs others : List Run}

theorem nodup (given : Runs cs runs) : runs.Nodup := by
  refine given.ordered.imp fun {first second} earlier same => ?_
  rw [same, Run.upTo, List.length_append] at earlier
  omega

/-- A text has one list of words. -/
theorem unique (given : Runs cs runs) (given' : Runs cs others) : runs = others := by
  have perm : runs.Perm others := by
    rw [List.perm_ext_iff_of_nodup given.nodup given'.nodup]
    intro run
    rw [given.exact, given'.exact]
  refine perm.eq_of_pairwise (fun first second _ _ earlier later => ?_) given.ordered given'.ordered
  rw [Run.upTo, List.length_append] at earlier later
  omega

theorem of_blank (blank : cs.dropWhile isBlank = []) : Runs cs [] := by
  refine ⟨fun run => ⟨fun member => absurd member List.not_mem_nil, fun inside => ?_⟩, .nil⟩
  obtain ⟨c, word, begins, black⟩ := inside.exists_first
  have white := List.dropWhile_eq_nil_iff.1 blank c (by rw [← inside.whole, begins]; simp)
  rw [white] at black
  cases black

/-- One more word in front. -/
theorem cons (blank : ∀ c ∈ lead, isBlank c = true) (filled : word ≠ [])
    (solid : ∀ c ∈ word, isBlank c = false)
    (closes : ∀ c, after.head? = some c → isBlank c = true) (given : Runs after runs) :
    Runs (lead ++ word ++ after)
      (⟨lead, word, after⟩ :: runs.map (Run.behind (lead ++ word))) := by
  constructor
  · intro run
    rw [in_append_iff blank filled solid closes, List.mem_cons, List.mem_map]
    refine or_congr_right (exists_congr fun inner => ?_)
    rw [given.exact, eq_comm (a := run)]
  · refine List.pairwise_cons.2 ⟨fun run member => ?_, ?_⟩
    · obtain ⟨inner, listed, rfl⟩ := List.mem_map.1 member
      -- A blank lies between the two.
      have apart := ((given.exact inner).1 listed).before_ne_nil closes
      have positive := List.length_pos_iff.2 apart
      simp only [Run.upTo, Run.behind, List.length_append]
      omega
    · rw [List.pairwise_map]
      refine given.ordered.imp fun {first second} earlier => ?_
      simp only [Run.upTo, Run.behind, List.length_append] at earlier ⊢
      omega

/-- The words of the reversed text. -/
theorem reverse (given : Runs cs runs) : Runs cs.reverse (runs.map Run.reverse).reverse := by
  constructor
  · intro run
    rw [List.mem_reverse, List.mem_map]
    constructor
    · intro found
      obtain ⟨own, listed, rfl⟩ := found
      exact ((given.exact own).1 listed).reverse
    · intro inside
      have back := inside.reverse
      rw [List.reverse_reverse] at back
      exact ⟨run.reverse, (given.exact _).2 back, run.reverse_reverse⟩
  · rw [List.pairwise_reverse, List.pairwise_map]
    refine given.ordered.imp_of_mem fun {first second} listed listed' earlier => ?_
    have length := congrArg List.length ((given.exact first).1 listed).whole
    have length' := congrArg List.length ((given.exact second).1 listed').whole
    simp only [Run.upTo, Run.reverse, List.length_append, List.length_reverse] at *
    omega

end Runs

/-- The first word of a text that has one, with the blanks before it. -/
theorem first_word {cs rest : List Char} {c : Char} (trimmed : cs.dropWhile isBlank = c :: rest) :
    cs = cs.takeWhile isBlank ++ (c :: rest.takeWhile (!isBlank ·)) ++ rest.dropWhile (!isBlank ·) ∧
      ∀ d ∈ c :: rest.takeWhile (!isBlank ·), isBlank d = false := by
  constructor
  · rw [List.append_assoc, List.cons_append, List.takeWhile_append_dropWhile, ← trimmed,
      List.takeWhile_append_dropWhile]
  · intro d member
    rcases List.mem_cons.1 member with rfl | member
    · have stopped := List.head?_dropWhile_not isBlank cs
      rw [trimmed] at stopped
      exact stopped
    · have black := List.all_eq_true.1 List.all_takeWhile d member
      simpa using black

/-- The words of a text with a first word. -/
theorem Runs.of_first {cs rest : List Char} {c : Char} {more : List Run}
    (trimmed : cs.dropWhile isBlank = c :: rest)
    (given : Runs (rest.dropWhile (!isBlank ·)) more) :
    Runs cs (⟨cs.takeWhile isBlank, c :: rest.takeWhile (!isBlank ·), rest.dropWhile (!isBlank ·)⟩ ::
      more.map (Run.behind (cs.takeWhile isBlank ++ (c :: rest.takeWhile (!isBlank ·))))) := by
  obtain ⟨whole, solid⟩ := first_word trimmed
  have blank : ∀ d ∈ cs.takeWhile isBlank, isBlank d = true := fun d => isBlank_of_mem_takeWhile
  have all := given.cons blank (List.cons_ne_nil _ _) solid fun d => isBlank_of_head?_dropWhile
  rwa [← whole] at all

/-- Every text has a list of its words. -/
theorem exists_runs (cs : List Char) : ∃ runs, Runs cs runs := by
  induction size : cs.length using Nat.strongRecOn generalizing cs with
  | ind n ih =>
    cases trimmed : cs.dropWhile isBlank with
    | nil => exact ⟨[], .of_blank trimmed⟩
    | cons c rest =>
      have shorter : (rest.dropWhile (!isBlank ·)).length < n := by
        have trim := (List.dropWhile_sublist isBlank (l := cs)).length_le
        have skip := (List.dropWhile_sublist (!isBlank ·) (l := rest)).length_le
        rw [trimmed, List.length_cons] at trim
        omega
      obtain ⟨more, given⟩ := ih _ shorter _ rfl
      exact ⟨_, given.of_first trimmed⟩

/-! ## Cutting -/

/-- The pieces of a text with the given words: the words as far as the limit goes, and the rest of
the text from the next word on. -/
def taken (limit : Option Nat) (runs : List Run) : List (List Char) :=
  match limit with
  | none => runs.map Run.word
  | some m => (runs.take m).map Run.word ++ (runs[m]?).toList.map Run.onward

theorem taken_eq_map {limit : Option Nat} {runs : List Run}
    (few : ∀ m, limit = some m → runs.length ≤ m) : taken limit runs = runs.map Run.word := by
  cases limit with
  | none => rfl
  | some m =>
    have small := few m rfl
    rw [taken, List.take_of_length_le small, List.getElem?_eq_none small]
    exact List.append_nil _

theorem taken_length (front back : List Run) (run : Run) :
    taken (some front.length) (front ++ run :: back) = front.map Run.word ++ [run.onward] := by
  simp [taken]

theorem taken_cons {limit : Option Nat} (more : limit ≠ some 0) (run : Run) (runs : List Run) :
    taken limit (run :: runs) = run.word :: taken (spend limit) runs := by
  cases limit with
  | none => rfl
  | some m =>
    cases m with
    | zero => exact absurd rfl more
    | succ m => rfl

theorem taken_behind (limit : Option Nat) (passed : List Char) (runs : List Run) :
    taken limit (runs.map (Run.behind passed)) = taken limit runs := by
  have words : Run.word ∘ Run.behind passed = Run.word := rfl
  have rests : Run.onward ∘ Run.behind passed = Run.onward := rfl
  cases limit with
  | none => rw [taken, List.map_map, words, taken]
  | some m =>
    rw [taken, ← List.map_take, List.map_map, words, List.getElem?_map, Option.toList_map,
      List.map_map, rests, taken]

/-- Cutting at blanks takes words off the front. -/
theorem words_eq_taken {limit : Option Nat} {cs : List Char} {runs : List Run}
    (given : Runs cs runs) : words limit cs = taken limit runs := by
  fun_induction words limit cs generalizing runs with
  | case1 limit cs blank =>
    rw [given.unique (.of_blank blank), taken_eq_map]
    · rfl
    · exact fun m _ => Nat.zero_le m
  | case2 cs c rest trimmed =>
    obtain ⟨more, behind⟩ := exists_runs (rest.dropWhile (!isBlank ·))
    rw [given.unique (behind.of_first trimmed)]
    simp [taken, Run.onward]
  | case3 limit cs c rest trimmed left ih =>
    obtain ⟨more, behind⟩ := exists_runs (rest.dropWhile (!isBlank ·))
    rw [given.unique (behind.of_first trimmed), taken_cons left, taken_behind, ih behind]

theorem words_of_blank {cs : List Char} (limit : Option Nat) (blank : cs.dropWhile isBlank = []) :
    words limit cs = [] := by
  rw [words]
  split
  · rfl
  · next trimmed =>
    rw [blank] at trimmed
    cases trimmed

theorem words_of_first {cs rest : List Char} {c : Char} (limit : Option Nat)
    (trimmed : cs.dropWhile isBlank = c :: rest) : words limit cs =
      if limit = some 0 then [c :: rest]
      else (c :: rest.takeWhile (!isBlank ·)) ::
        words (spend limit) (rest.dropWhile (!isBlank ·)) := by
  rw [words]
  split
  · next blank =>
    rw [trimmed] at blank
    cases blank
  · next first =>
    rw [trimmed] at first
    cases first
    rfl

/-- The loop from the right finds what the loop from the left finds in the reversed text. -/
theorem wordsBefore_eq (limit : Option Nat) (found : List (List Char)) (cs : List Char) :
    wordsBefore limit found cs = fromRight (words limit) cs ++ found := by
  fun_induction wordsBefore limit found cs with
  | case1 limit found cs blank =>
    rw [fromRight, words_of_blank limit blank]
    rfl
  | case2 found cs c rest trimmed =>
    rw [fromRight, words_of_first _ trimmed]
    rfl
  | case3 limit found cs c rest trimmed left ih =>
    rw [ih, fromRight, fromRight, List.reverse_reverse, words_of_first limit trimmed, if_neg left]
    simp

theorem wordsFrom_right (limit : Option Nat) (cs : List Char) :
    wordsFrom .right limit cs = fromRight (words limit) cs := by
  rw [wordsFrom, wordsBefore_eq, List.append_nil]

/-- From the right, cutting at blanks takes words off the end. -/
theorem wordsFrom_right_eq_taken {limit : Option Nat} {cs : List Char} {runs : List Run}
    (given : Runs cs runs) : wordsFrom .right limit cs =
      ((taken limit (runs.map Run.reverse).reverse).map List.reverse).reverse := by
  rw [wordsFrom_right, fromRight, words_eq_taken given.reverse]

/-- No piece is empty. -/
theorem ne_nil_of_mem_taken {limit : Option Nat} {cs piece : List Char} {runs : List Run}
    (given : Runs cs runs) (member : piece ∈ taken limit runs) : piece ≠ [] := by
  have filled : ∀ run ∈ runs, run.word ≠ [] := fun run listed => ((given.exact run).1 listed).filled
  cases limit with
  | none =>
    obtain ⟨run, listed, rfl⟩ := List.mem_map.1 member
    exact filled run listed
  | some m =>
    rcases List.mem_append.1 member with front | rest
    · obtain ⟨run, listed, rfl⟩ := List.mem_map.1 front
      exact filled run (List.mem_of_mem_take listed)
    · obtain ⟨run, listed, rfl⟩ := List.mem_map.1 rest
      have word := filled run (List.mem_of_getElem? (Option.mem_toList.1 listed))
      rw [Run.onward]
      exact List.append_ne_nil_of_left_ne_nil word _

theorem ne_nil_of_mem_wordsFrom {side : Side} {limit : Option Nat} {cs piece : List Char}
    (member : piece ∈ wordsFrom side limit cs) : piece ≠ [] := by
  cases side with
  | left =>
    obtain ⟨runs, given⟩ := exists_runs cs
    rw [wordsFrom, words_eq_taken given] at member
    exact ne_nil_of_mem_taken given member
  | right =>
    obtain ⟨runs, given⟩ := exists_runs cs.reverse
    rw [wordsFrom_right, fromRight, words_eq_taken given, List.mem_reverse] at member
    obtain ⟨flipped, taken, rfl⟩ := List.mem_map.1 member
    have filled := ne_nil_of_mem_taken given taken
    simpa using filled

/-- The text read backwards. -/
def mirror (text : String) : String := String.ofList text.toList.reverse

/-- Cutting a text at blanks gives its words, as many as the limit allows, and the rest unchanged. -/
structure CutsAtBlanks (text : String) (runs : List Run) : Prop where
  /-- A limit that is no less than the number of words changes nothing. -/
  all : ∀ side limit, (∀ m, limit = some m → runs.length ≤ m) →
    split side none limit text = .ok (runs.map fun run => String.ofList run.word)
  /-- From the left, the rest goes from the beginning of the next word to the end of the text. -/
  left : ∀ front run back, runs = front ++ run :: back →
    split .left none (some front.length) text =
      .ok ((front.map Run.word ++ [run.word ++ run.after]).map String.ofList)
  /-- From the right, the rest goes from the beginning of the text to the end of the next word. -/
  right : ∀ front run back, runs = front ++ run :: back →
    split .right none (some back.length) text =
      .ok (((run.before ++ run.word) :: back.map Run.word).map String.ofList)
  filled : ∀ side limit pieces, split side none limit text = .ok pieces → "" ∉ pieces
  /-- From the right, the text is cut like the reversed text from the left. -/
  mirrored : ∀ limit, split .right none limit text =
    (split .left none limit (mirror text)).map fun pieces => (pieces.map mirror).reverse

/-- Every text has one list of words, and is cut at blanks as its words say. -/
theorem cutsAtBlanks (text : String) :
    (∃ runs, Runs text.toList runs) ∧ ∀ runs, Runs text.toList runs → CutsAtBlanks text runs := by
  refine ⟨exists_runs _, fun runs given => ⟨fun side limit few => ?_, ?_, ?_, ?_, fun limit => ?_⟩⟩
  · cases side with
    | left => rw [split, wordsFrom, words_eq_taken given, taken_eq_map few, List.map_map]; rfl
    | right =>
      have few' : ∀ m, limit = some m → (runs.map Run.reverse).reverse.length ≤ m := by
        simpa using few
      rw [split, wordsFrom_right_eq_taken given, taken_eq_map few']
      simp [Function.comp_def]
  · rintro front run back rfl
    rw [split, wordsFrom, words_eq_taken given, taken_length]
    rfl
  · rintro front run back rfl
    have flipped : ((front ++ run :: back).map Run.reverse).reverse =
        (back.map Run.reverse).reverse ++ run.reverse :: (front.map Run.reverse).reverse := by
      simp
    have count : back.length = (back.map Run.reverse).reverse.length := by simp
    rw [split, wordsFrom_right_eq_taken given, flipped, count, taken_length]
    simp [Function.comp_def, Run.upTo]
  · intro side limit pieces cut member
    cases cut
    obtain ⟨piece, among, empty⟩ := List.mem_map.1 member
    exact ne_nil_of_mem_wordsFrom among (String.ofList_eq_empty_iff.1 empty)
  · rw [split, wordsFrom_right]
    simp [split, wordsFrom, fromRight, mirror, Except.map, Function.comp_def]

/-- A text with an ideographic space in front, an em space after a usual one, and a no-break space:
it has three words, and keeps its blanks in what is left after one cut from either side. -/
theorem cutsAtBlanks_of_wide_blanks :
    let text := "\u3000ab \u2003c\u00a0d "
    let first : Run := ⟨['\u3000'], ['a', 'b'], [' ', '\u2003', 'c', '\u00a0', 'd', ' ']⟩
    let second : Run := ⟨['\u3000', 'a', 'b', ' ', '\u2003'], ['c'], ['\u00a0', 'd', ' ']⟩
    let third : Run := ⟨['\u3000', 'a', 'b', ' ', '\u2003', 'c', '\u00a0'], ['d'], [' ']⟩
    Runs text.toList [first, second, third] ∧ CutsAtBlanks text [first, second, third] ∧
      split .left none (some 1) text = .ok ["ab", "c\u00a0d "] ∧
      split .right none (some 1) text = .ok ["\u3000ab \u2003c", "d"] := by
  intro text first second third
  have none : Runs [' '] [] := .of_blank rfl
  have last : Runs ['\u00a0', 'd', ' '] [⟨['\u00a0'], ['d'], [' ']⟩] :=
    @Runs.of_first _ [' '] 'd' [] rfl none
  have middle : Runs first.after [⟨[' ', '\u2003'], ['c'], ['\u00a0', 'd', ' ']⟩,
      ⟨[' ', '\u2003', 'c', '\u00a0'], ['d'], [' ']⟩] :=
    @Runs.of_first _ ['\u00a0', 'd', ' '] 'c' _ rfl last
  have given : Runs (first.before ++ first.word ++ first.after) [first, second, third] :=
    @Runs.of_first _ ('b' :: first.after) 'a' _ rfl middle
  have chars : text.toList = first.before ++ first.word ++ first.after := by decide +kernel
  rw [← chars] at given
  have cuts := (cutsAtBlanks text).2 _ given
  exact ⟨given, cuts, cuts.left [first] second [third] rfl, cuts.right [first] second [third] rfl⟩

end Sexpr.Text
