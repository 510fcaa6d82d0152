import Sexpr.Proofs.Store.Records
import Sexpr.Proofs.Store.Runs

/-!
# The trace replays to the table

What was noted about a name is enough to tell whether it has a live atom now: atoms are made and
removed by turns, and the last turn decides. An atom can be held in many places, by registers and
cursors and by slots of pairs that die together or are cleared by a collection; whichever of them
lets go last, the removal is noted once, in the operation in which that happens.

`Replays` says this of a ledger, and `Reached.replays` proves it of every ledger that operations
lead to. The turns of a run are those of its operations put together (`Reached.replay_turns`), and
each operation adds turns that fit the entry before it (`Step.records`).
-/

namespace Sexpr.Ledger

open Event

/-- The turns of every name lead from an empty table to the table as it is. -/
structure Replays (ledger : Ledger) : Prop where
  /-- Creations and removals take turns, and a creation comes first. -/
  alternates : ∀ kind name index turn,
    (turns kind name ledger.store.trace.toList)[index]? = some turn →
    turn = if index % 2 = 0 then .made else .gone
  /-- A name has a live atom exactly if its last turn was a creation. -/
  lives : ∀ kind name, (ledger.store.atoms.live? kind name).isSome = true ↔
    (turns kind name ledger.store.trace.toList).getLast? = some .made
  /-- Interning a name that has a live atom adds nothing; otherwise it adds a creation. -/
  interns : ∀ kind raw, (ledger.store.intern kind raw).2.trace =
    if ledger.store.atoms.isInterned kind raw then ledger.store.trace
    else ledger.store.trace.push (.interned kind (kind.normalize raw))
  /-- The operation in which the last holder of an atom goes away adds the removal of its entry
  once. As long as somebody holds the atom, no operation adds it. All removals come from such
  atoms, or from candidates for a fresh symbol. -/
  evicts : ∀ later, Step ledger later →
    ∃ more, later.store.trace.toList = ledger.store.trace.toList ++ more ∧
      (∀ a, ledger.Holds (.atom a) →
        (¬later.Holds (.atom a) → more.count (.evicted a.kind a.name) = 1) ∧
        (later.Holds (.atom a) → more.count (.evicted a.kind a.name) = 0)) ∧
      ∀ kind name, .evicted kind name ∈ more →
        (∃ a, ledger.Holds (.atom a) ∧ ¬later.Holds (.atom a) ∧ a.kind = kind ∧ a.name = name) ∨
        kind = .symbol ∧ .drawn name ∈ more
  /-- A search adds a creation and a removal for each candidate that is turned down, and a creation
  for the one that is accepted. -/
  searches : ∀ stem accepts draws drawn after,
    ledger.store.drawFresh stem accepts draws [] = (some drawn, after) →
    after.trace.toList = ledger.store.trace.toList ++
      drawn.candidates.dropLast.flatMap (fun name => [.drawn name, .evicted .symbol name]) ++
      [.drawn drawn.atom.name]

variable {ledger later : Ledger}

/-- The turns of a name can be replayed and lead to its entry. -/
theorem Reached.replay_turns (reached : Reached ledger) (kind : AtomKind) (name : String) :
    Turn.replay false (turns kind name ledger.store.trace.toList) =
      some (ledger.store.atoms.filed? kind name).isSome := by
  induction reached with
  | refl =>
    have none : Store.empty.atoms.filed? kind name = none := AtomTable.filed?_empty kind name
    rw [Ledger.empty, none]
    rfl
  | tail before step ih =>
    obtain ⟨more, records⟩ := step.records (Reached.sound before)
    rw [records.trace, turns_append, Turn.replay_append, ih]
    exact (records.entries kind name).replay

/-- What an operation adds about an atom that was held tells whether it is held still. -/
theorem count_evicted_of_records {more : List Event} {a : Atom} (sound : ledger.Sound)
    (sound' : later.Sound) (records : ledger.store.Records more later.store)
    (held : ledger.Holds (.atom a)) :
    (¬later.Holds (.atom a) → more.count (.evicted a.kind a.name) = 1) ∧
      (later.Holds (.atom a) → more.count (.evicted a.kind a.name) = 0) := by
  have entry : ledger.store.atoms.filed? a.kind a.name = some a :=
    sound.filed?_eq_some_iff.2 ⟨held, rfl, rfl⟩
  have held' : later.Holds (.atom a) ↔ later.store.atoms.filed? a.kind a.name = some a := by
    rw [sound'.filed?_eq_some_iff]
    exact (and_iff_left ⟨rfl, rfl⟩).symm
  have course := records.entries a.kind a.name
  rw [entry] at course
  rw [count_evicted, held']
  generalize later.store.atoms.filed? a.kind a.name = after at course
  generalize turns a.kind a.name more = taken at course
  cases course with
  | kept => exact ⟨fun gone => absurd rfl gone, fun _ => rfl⟩
  | gone => exact ⟨fun _ => rfl, fun kept => by cases kept⟩

/-- An operation removes only entries of atoms that nobody holds any more, and candidates. -/
theorem removed_of_records {more : List Event} {kind : AtomKind} {name : String}
    (sound : ledger.Sound) (sound' : later.Sound) (records : ledger.store.Records more later.store)
    (member : .evicted kind name ∈ more) :
    (∃ a, ledger.Holds (.atom a) ∧ ¬later.Holds (.atom a) ∧ a.kind = kind ∧ a.name = name) ∨
      kind = .symbol ∧ .drawn name ∈ more := by
  rcases records.removed kind name member with filed | candidate
  · obtain ⟨a, entry⟩ := Option.isSome_iff_exists.1 filed
    obtain ⟨held, rfl, rfl⟩ := sound.filed?_eq_some_iff.1 entry
    refine Or.inl ⟨a, held, fun kept => ?_, rfl, rfl⟩
    have none := (count_evicted_of_records sound sound' records held).2 kept
    exact List.count_eq_zero.1 none member
  · exact Or.inr candidate

/-- In every run, the trace replays to the table. -/
theorem Reached.replays (reached : Reached ledger) : ledger.Replays := by
  have sound := reached.sound
  refine ⟨?_, ?_, fun kind raw => Store.trace_intern kind raw _, ?_, ?_⟩
  · intro kind name index turn found
    simpa using Turn.eq_of_replay (reached.replay_turns kind name) found
  · intro kind name
    rw [sound.atoms.live?_eq_filed?, Turn.eq_getLast?_of_replay (reached.replay_turns kind name)]
    cases (turns kind name ledger.store.trace.toList).getLast? <;> simp
  · intro later step
    obtain ⟨more, records⟩ := step.records sound
    have sound' := step.sound sound
    exact ⟨more, records.trace, fun a => count_evicted_of_records sound sound' records,
      fun kind name => removed_of_records sound sound' records⟩
  · intro stem accepts draws drawn after done
    obtain ⟨count, finds⟩ := sound.finds_of_drawFresh done
    exact finds.trace

/-- A symbol is held by both slots of a pair and by nobody else. The pair is given up, which removes
the symbol once, and the name is interned again. -/
theorem replays_of_doubled :
    let named := Store.empty.intern .symbol "x"
    let made := (named.2.retain (.atom named.1)).pair (.atom named.1) (.atom named.1)
    let again := (made.2.release (.pair made.1)).intern .symbol "x"
    Reached ⟨again.2, [.atom again.1], []⟩ ∧ Replays ⟨again.2, [.atom again.1], []⟩ ∧
      again.2.trace.toList = [.interned .symbol "x", .evicted .symbol "x", .interned .symbol "x"] ∧
      turns .symbol "x" again.2.trace.toList = [.made, .gone, .made] := by
  intro named made again
  have filed : Reached ⟨named.2, [.atom named.1], []⟩ := .single (.intern .symbol "x")
  have paired : Reached ⟨made.2, [.pair made.1], []⟩ :=
    (filed.step (.copy List.mem_cons_self)).step .pair
  have reached : Reached ⟨again.2, [.atom again.1], []⟩ :=
    (paired.step .release).step (.intern .symbol "x")
  refine ⟨reached, reached.replays, ?_, ?_⟩ <;> decide +kernel

end Sexpr.Ledger
