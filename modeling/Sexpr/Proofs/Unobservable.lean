import Sexpr.Proofs.Session.Agreement

/-!
# Collections cannot be observed

Collections clear what no holder leads to, so whoever only uses what is held does not notice them.
`Session.replies` is what a run says to its user: the results of all steps but the collections, and
the texts of the watched registers behind each. `Session.Twins` relates two sessions between steps
that cannot be told apart. A step that does not probe what is alive has the same reply in both and
leaves twins (`Twins.advance`); a collection in one of them has no counterpart in the other
(`Twins.collect`). By induction along the steps, a run says the same with and without its
collections.

A step that takes its operands from registers is a single operation, so that collections can stand
between any two operations.
-/

namespace Sexpr

open Ledger

namespace Step

/-- Whether the step asks what is still alive, or makes a fresh name. -/
def probes (step : Step) : Bool := step.command.probes

/-- Whether the step is a collection. -/
def collects (step : Step) : Bool := step.command.collects

/-- Every other step agrees. -/
theorem agrees {step : Step} (plain : step.probes = false) (keeps : step.collects = false) :
    Act.Agrees [] [] [] [] step.perform step.perform id Act.nothing Act.nothing := by
  refine .bind (.perform plain keeps) fun made made' same => ?_
  obtain ⟨answer, value⟩ := made
  obtain ⟨answer', value'⟩ := made'
  obtain ⟨rfl, values⟩ := Prod.mk.inj same
  cases step.into with
  | none => exact .done rfl
  | some name =>
    cases value with
    | none =>
      cases Option.map_eq_none_iff.1 values.symm
      exact .done rfl
    | some value =>
      obtain ⟨value', rfl, masks⟩ := Option.map_eq_some_iff.1 values.symm
      refine .bind (.assign name masks.symm ?_ ?_) fun _ _ _ => .done rfl
      · exact List.mem_concat_self
      · exact List.mem_concat_self

theorem run_perform_collect {step : Step} (collects : step.collects = true) (session : Session) :
    (step.perform.run session).2 = { session with store := session.store.collect.2 } := by
  obtain ⟨command, into⟩ := step
  cases command with
  | collect => cases into <;> rfl
  | _ => cases collects

theorem probes_of_collects {step : Step} (collects : step.collects = true) :
    step.probes = false := by
  obtain ⟨command, into⟩ := step
  cases command with
  | collect => rfl
  | _ => cases collects

end Step

namespace Session

/-! ## Sessions between steps -/

/-- Between steps, holders cannot tell the sessions apart. -/
structure Twins (session other : Session) : Prop where
  kept : session.Kept []
  kept' : other.Kept []
  alike : session.Alike [] [] other
  settled : session.temporaries = []

theorem Alike.settle {session other : Session} (alike : session.Alike [] [] other)
    (kept : session.Kept []) (kept' : other.Kept []) :
    session.settle.Alike [] [] other.settle := by
  obtain ⟨store, registers, cursors, weaks, temporaries⟩ := session
  obtain ⟨store', registers', cursors', weaks', temporaries'⟩ := other
  refine ⟨rfl, alike.registers, alike.cursors, rfl, ?_⟩
  have split := (alike.twins kept kept').perm (perm_held_settled ..) (perm_held_settled ..)
  exact split.releaseAll alike.temporaries

namespace Twins

variable {session other : Session} {step : Step}

theorem empty : Twins .empty .empty :=
  ⟨.empty, .empty, ⟨rfl, rfl, rfl, rfl, fun _ => False, ⟨rfl, nofun, nofun, nofun⟩, nofun⟩, rfl⟩

/-- Registers show the same texts. -/
theorem watch (twins : Twins session other) (name : String) :
    session.watch name = other.watch name := by
  obtain ⟨common, mirrors, inside⟩ := twins.alike.mirrored
  have same := Scope.find?_eq twins.alike.registers name
  unfold Session.watch
  cases found : session.registers.find? name with
  | none =>
    rw [found] at same
    rw [Option.map_eq_none_iff.1 same.symm]
    rfl
  | some value =>
    rw [found] at same
    obtain ⟨value', found', masks⟩ := Option.map_eq_some_iff.1 same.symm
    rw [found']
    refine mirrors.renames.structural?_eq (Heap.Mirrors.renamed masks.symm ?_)
    rintro q rfl
    exact inside q (mem_held_of_find? found)

/-- A step that does not probe has the same result, and leaves twins. -/
theorem advance (twins : Twins session other) (plain : step.probes = false)
    (keeps : step.collects = false) : (session.advance step).1 = (other.advance step).1 ∧
      Twins (session.advance step).2 (other.advance step).2 := by
  have after := twins.kept.advance step
  have after' := twins.kept'.advance step
  have left := (Step.agrees plain keeps).left session twins.kept (List.forall_mem_nil _)
  have right := (Step.agrees plain keeps).right other twins.kept' (List.forall_mem_nil _)
  have same := (Step.agrees plain keeps).same twins.kept twins.kept' twins.alike
    (List.forall_mem_nil _) (List.forall_mem_nil _)
  unfold Session.advance at after after' ⊢
  generalize step.perform.run session = outcome at after left same ⊢
  generalize step.perform.run other = outcome' at after' right same ⊢
  cases same with
  | ok equal alike =>
    exact ⟨congrArg Except.ok equal, after, after', alike.settle left.1 right.1, rfl⟩
  | stop alike => exact ⟨rfl, after, after', alike.settle left right, rfl⟩

/-- A collection in one of two sessions is nothing that holders can tell. -/
theorem collect (twins : Twins session other) (collects : step.collects = true) :
    Twins (session.advance step).2 other := by
  have after := twins.kept.advance step
  obtain ⟨kept, kept', alike, settled⟩ := twins
  obtain ⟨store, registers, cursors, weaks, temporaries⟩ := session
  cases settled
  have run := Step.run_perform_collect collects ⟨store, registers, cursors, weaks, []⟩
  have advanced : (Session.advance step ⟨store, registers, cursors, weaks, []⟩).2 =
      ⟨store.collect.2, registers, cursors, weaks, []⟩ := by
    change (step.perform.run _).2.settle = _
    rw [run]
    change Session.mk (store.collect.2.releaseAll []) registers cursors weaks [] = _
    rw [Store.releaseAll]
  rw [advanced] at after ⊢
  refine ⟨after, kept', ⟨rfl, alike.registers, alike.cursors, alike.temporaries, ?_⟩, rfl⟩
  exact (alike.twins kept kept').collect.mirrored

end Twins

/-! ## Runs -/

/-- What a run says to its user: results and watched texts of all steps but the collections. -/
def replies (watched : List String) (steps : List Step) (session : Session) :
    List (Except Stop Answer × List (String × Option String)) :=
  ((steps.zip (session.run watched steps).1).filter fun entry => !entry.1.collects).map
    fun entry => (entry.2.result, entry.2.watched)

theorem replies_cons_of_collects {step : Step} (collects : step.collects = true)
    (watched : List String) (steps : List Step) (session : Session) :
    session.replies watched (step :: steps) = (session.advance step).2.replies watched steps := by
  have dropped : (!step.collects) = false := by rw [collects, Bool.not_true]
  simp only [replies, run, report, List.zip_cons_cons, List.filter_cons, dropped]
  rfl

theorem replies_cons_of_keeps {step : Step} (keeps : step.collects = false)
    (watched : List String) (steps : List Step) (session : Session) :
    session.replies watched (step :: steps) =
      ((session.advance step).1,
        watched.map fun name => (name, (session.advance step).2.watch name)) ::
          (session.advance step).2.replies watched steps := by
  have listed : (!step.collects) = true := by rw [keeps, Bool.not_false]
  simp only [replies, run, report, List.zip_cons_cons, List.filter_cons, listed]
  rfl

/-- A run says the same as the run of its steps without collections. -/
theorem Twins.replies_eq {session other : Session} (twins : Twins session other)
    (watched : List String) {steps : List Step} (plain : ∀ step ∈ steps, step.probes = false) :
    session.replies watched steps =
      other.replies watched (steps.filter fun step => !step.collects) := by
  -- A collection moves only the session that has it, any other step moves both.
  induction steps generalizing session other with
  | nil => rfl
  | cons step steps ih =>
    have rest : ∀ step ∈ steps, step.probes = false :=
      fun step member => plain step (List.mem_cons_of_mem _ member)
    cases collects : step.collects with
    | true =>
      rw [replies_cons_of_collects collects, List.filter_cons_of_neg (by simp [collects])]
      exact ih (twins.collect collects) rest
    | false =>
      obtain ⟨result, after⟩ := twins.advance (plain step List.mem_cons_self) collects
      rw [List.filter_cons_of_pos (by simp [collects]), replies_cons_of_keeps collects,
        replies_cons_of_keeps collects, result, ih after rest]
      simp only [after.watch]

/-- Two runs with the same steps apart from collections, none of which probes what is alive, say the
same: the same results and errors, types, texts, positions, items and comparisons. -/
theorem replies_eq_apart_from_collections (watched : List String) (steps more : List Step)
    (plain : ∀ step ∈ steps, step.probes = false)
    (same : steps.filter (fun step => !step.collects) = more.filter fun step => !step.collects) :
    Session.empty.replies watched steps = Session.empty.replies watched more := by
  have plain' : ∀ step ∈ more, step.probes = false := by
    intro step member
    cases collects : step.collects with
    | true => exact Step.probes_of_collects collects
    | false =>
      have kept : step ∈ more.filter fun step => !step.collects :=
        List.mem_filter.2 ⟨member, by simp [collects]⟩
      rw [← same] at kept
      exact plain step (List.mem_filter.1 kept).1
  rw [Twins.empty.replies_eq watched plain, Twins.empty.replies_eq watched plain', same]

/-- A ring with a symbol in it is dropped. Where it is collected the symbol dies with it, and its
name leads to another atom afterwards; where not, the name leads to the old atom. The runs say the
same. -/
theorem replies_of_dropped_ring :
    let ring : Step := ⟨.typeOf (.cons [.atom .symbol "x", .literal (.int 1)] true), some "a"⟩
    let drop : Step := ⟨.dropRegister "a", none⟩
    let collect : Step := ⟨.collect, none⟩
    let name : Step := ⟨.typeOf (.atom .symbol "x"), some "b"⟩
    let again : Step := ⟨.compare (.register "b") (.atom .symbol "x"), none⟩
    let steps := [ring, drop, collect, name, again]
    let more := [ring, drop, name, again]
    (∀ step ∈ steps, step.probes = false) ∧
      steps.filter (fun step => !step.collects) = more.filter (fun step => !step.collects) ∧
      Session.empty.replies ["a", "b"] steps = Session.empty.replies ["a", "b"] more ∧
      (Session.empty.run [] steps).2.registers.find? "b" = some (.atom ⟨1, .symbol, "x"⟩) ∧
      (Session.empty.run [] more).2.registers.find? "b" = some (.atom ⟨0, .symbol, "x"⟩) := by
  intro ring drop collect name again steps more
  have plain : ∀ step ∈ steps, step.probes = false := by decide
  refine ⟨plain, rfl, replies_eq_apart_from_collections _ steps more plain rfl, ?_, ?_⟩
  · decide +kernel
  · decide +kernel

end Session

end Sexpr
