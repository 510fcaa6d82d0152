import Sexpr.Proofs.Session.Handles

/-!
# Runs of sessions

Every command keeps the books of its session, and so does every step, with its temporaries released
in the end. `Session.reached_run` is the run lemma: whatever steps a session runs from the start,
its ledger is one that operations on a store lead to, so all that holds of reached ledgers holds of
sessions.
-/

namespace Sexpr

open Ledger

/-- Moving on reads a slot, and gives up the pair with the last one. -/
theorem Cursor.reached_next {cursor : Cursor} {store : Store} {outside : List Value}
    {weaks : List Weak} (reached : Reached ⟨store, cursor.held ++ outside, weaks⟩) :
    Reached ⟨(cursor.next store).2, (cursor.next store).1.1.toList ++
      ((cursor.next store).1.2.held ++ outside), weaks⟩ := by
  cases cursor with
  | finished => exact reached
  | atHead p => exact reached.step (.read .head List.mem_cons_self)
  | atTail p =>
    have item := reached.step (.read .tail List.mem_cons_self)
    exact (item.perm (List.Perm.swap ..)).step .release

/-! ## Registers, cursors and weak references -/

namespace Session

variable (store : Store) {registers : Scope Value} {cursors : Scope Cursor} (weaks : Scope Weak)
  (temporaries : List Value)

theorem perm_held_register (cursors : Scope Cursor) (proper : registers.Proper) (name : String) :
    (held ⟨store, registers, cursors, weaks, temporaries⟩).Perm ((registers.find? name).toList ++
      held ⟨store, registers.erase name, cursors, weaks, temporaries⟩) := by
  unfold held
  have parts := Scope.perm_values proper name
  rw [← List.append_assoc, ← List.append_assoc]
  exact (parts.append_right _).append_right _

theorem perm_held_cursor (registers : Scope Value) (proper : cursors.Proper) (name : String) :
    (held ⟨store, registers, cursors, weaks, temporaries⟩).Perm
      ((cursors.find? name).toList.flatMap Cursor.held ++
        held ⟨store, registers, cursors.erase name, weaks, temporaries⟩) := by
  unfold held
  have parts := (Scope.perm_values proper name).flatMap_right Cursor.held
  rw [List.flatMap_append] at parts
  dsimp only
  rw [← List.append_assoc]
  refine List.Perm.append_right _ ?_
  exact (parts.append_left _).trans (List.perm_append_comm_assoc ..)

theorem perm_held_put_cursor (registers : Scope Value) (cursors : Scope Cursor) (name : String)
    (cursor : Cursor) :
    (cursor.held ++ held ⟨store, registers, cursors.erase name, weaks, temporaries⟩).Perm
      (held ⟨store, registers, cursors.put name cursor, weaks, temporaries⟩) := by
  unfold held
  dsimp only
  rw [← List.append_assoc]
  refine List.Perm.append_right _ ?_
  exact List.perm_append_comm_assoc ..

end Session

namespace Act

/-- What moving a cursor on does to a session. -/
theorem run_advance {session : Session} {name : String} {cursor : Cursor}
    (found : session.cursors.find? name = some cursor) :
    (Act.advance name).run session =
      (.ok (cursor.next session.store).1,
        ⟨(cursor.next session.store).2, session.registers,
          session.cursors.put name (cursor.next session.store).1.2, session.weaks,
          (cursor.next session.store).1.1.toList ++ session.temporaries⟩) := by
  unfold Act.advance
  rw [run_get_bind, found]
  obtain ⟨store, registers, cursors, weaks, temporaries⟩ := session
  cases cursor with
  | atHead p => rfl
  | atTail p => rfl
  | finished => rfl

theorem run_advance_none {session : Session} {name : String}
    (missing : session.cursors.find? name = none) :
    (Act.advance name).run session = (.error (.misuse (.noCursor name)), session) := by
  unfold Act.advance
  rw [run_get_bind, missing]
  rfl

namespace Conducts

variable {needs : List Value} {value : Value}

theorem assign (name : String) (member : value ∈ needs) :
    Conducts needs [] (Act.assign name value) nothing nothing := by
  intro session kept available
  obtain ⟨store, registers, cursors, weaks, temporaries⟩ := session
  have usable : Available (Session.held ⟨store, registers, cursors, weaks, temporaries⟩) value :=
    Session.available_held (available value member)
  have retained := kept.reached.retain usable
  refine ⟨⟨?_, kept.registers.put name value, kept.cursors⟩, List.Subset.refl _,
    List.forall_mem_nil _⟩
  have parts := Session.perm_held_register store weaks temporaries cursors kept.registers name
  exact (retained.perm ((parts.cons value).trans List.perm_middle.symm)).releaseAll

theorem unassign (name : String) :
    Conducts needs [] (Act.unassign name) nothing nothing := by
  intro session kept _
  obtain ⟨store, registers, cursors, weaks, temporaries⟩ := session
  refine ⟨⟨?_, kept.registers.erase name, kept.cursors⟩, List.Subset.refl _,
    List.forall_mem_nil _⟩
  have parts := Session.perm_held_register store weaks temporaries cursors kept.registers name
  exact (kept.reached.perm parts).releaseAll

theorem setCursor (name : String) (cursor : Cursor) :
    Conducts needs cursor.held (Act.setCursor name cursor) nothing nothing := by
  intro session kept _
  obtain ⟨store, registers, cursors, weaks, temporaries⟩ := session
  refine ⟨⟨?_, kept.registers, kept.cursors.put name cursor⟩, List.Subset.refl _,
    List.forall_mem_nil _⟩
  have parts := Session.perm_held_cursor store weaks temporaries registers kept.cursors name
  have order := (parts.append_left cursor.held).trans (List.perm_append_comm_assoc ..)
  have released := (kept.reached.perm order).releaseAll
  exact released.perm (Session.perm_held_put_cursor ..)

theorem dropCursor (name : String) :
    Conducts needs [] (Act.dropCursor name) nothing nothing := by
  intro session kept _
  obtain ⟨store, registers, cursors, weaks, temporaries⟩ := session
  refine ⟨⟨?_, kept.registers, kept.cursors.erase name⟩, List.Subset.refl _,
    List.forall_mem_nil _⟩
  have parts := Session.perm_held_cursor store weaks temporaries registers kept.cursors name
  exact (kept.reached.perm parts).releaseAll

theorem advance (name : String) :
    Conducts needs [] (Act.advance name) nothing fun answer => answer.1.toList := by
  intro session kept _
  cases found : session.cursors.find? name with
  | none =>
    rw [run_advance_none found]
    exact kept
  | some cursor =>
    rw [run_advance found]
    obtain ⟨store, registers, cursors, weaks, temporaries⟩ := session
    have parts := Session.perm_held_cursor store weaks temporaries registers kept.cursors name
    rw [found, Option.toList_some, List.flatMap_singleton] at parts
    have moved := Cursor.reached_next (kept.reached.perm parts)
    have placed := moved.perm ((Session.perm_held_put_cursor ..).append_left _)
    refine ⟨⟨placed.perm ?_, kept.registers, kept.cursors.put ..⟩, List.subset_append_right .., ?_⟩
    · exact List.perm_append_comm_assoc ..
    · exact fun value member => Or.inl (List.mem_append_left _ member)

/-- A weak reference to what is held can be kept. -/
theorem weaken (name : String) (weak : Weak) (member : weak.value ∈ needs) :
    Conducts needs [] (modify fun session : Session =>
      { session with weaks := session.weaks.put name weak } : Act Unit) nothing nothing := by
  intro session kept available
  have held : weak.value ∈ session.held :=
    Session.mem_held_of_mem_temporaries (available _ member).mem_of_weak
  have added := kept.reached.step (.weaken held)
  have fewer : (session.weaks.put name weak).values ⊆ weak :: session.weaks.values :=
    (List.Sublist.cons_cons weak (List.filter_sublist.map Prod.snd)).subset
  refine ⟨⟨?_, kept.registers, kept.cursors⟩, List.Subset.refl _,
    List.forall_mem_nil _⟩
  exact added.step (.regroup (.refl _) fewer)

/-! ## Looking at values -/

theorem mapM {α β : Type} {look : α → Act β} {yields : β → List Value} {inputs : List α}
    (each : ∀ input ∈ inputs, Conducts needs [] (look input) nothing yields) :
    Conducts needs [] (inputs.mapM look) nothing fun answers => answers.flatMap yields := by
  induction inputs generalizing needs with
  | nil => exact pure [] (List.forall_mem_nil _)
  | cons input inputs ih =>
    rw [List.mapM_cons]
    refine bind (each input List.mem_cons_self) fun first => ?_
    refine bind (ih fun other member => ?_) fun rest => ?_
    · exact (each other (List.mem_cons_of_mem _ member)).mono (List.subset_append_left ..)
    · refine pure (first :: rest) fun value member => Or.inl ?_
      rw [List.flatMap_cons, List.append_assoc] at *
      exact List.mem_append_right _ member

theorem describe (value : Value) : Conducts needs [] (Act.describe value) nothing nothing := by
  refine bind (query _) fun description => ?_
  cases description with
  | none => exact stop _
  | some description => exact done _

theorem describeItem (item : Option Value) :
    Conducts needs [] (item.mapM Act.describe) nothing nothing := by
  cases item with
  | none => exact done _
  | some value =>
    rw [Option.mapM_some, ← bind_pure_comp]
    exact bind (describe value) fun _ => done _

/-- The answer of a command that makes nothing. -/
theorem answer (answer : Answer) :
    Conducts needs [] (Pure.pure (answer, none) : Act (Answer × Option Value)) nothing
      fun answer => answer.2.toList :=
  pure _ (List.forall_mem_nil _)

/-- The answer of a command that makes a value. -/
theorem answerWith (answer : Answer) (member : value ∈ needs) :
    Conducts needs [] (Pure.pure (answer, some value) : Act (Answer × Option Value)) nothing
      fun answer => answer.2.toList := by
  refine pure _ fun other same => ?_
  rw [List.mem_singleton.1 same]
  exact Or.inl member

theorem made (member : value ∈ needs) :
    Conducts needs [] (Act.made value) nothing fun answer => answer.2.toList :=
  bind (describe value) fun _ => answerWith _ (List.mem_append_left _ member)

theorem pairOf (member : value ∈ needs) :
    Conducts needs [] (Act.pairOf value) nothing fun p => [.pair p] := by
  cases value with
  | scalar s => exact stop _
  | pair p =>
    refine pure p fun other same => ?_
    rw [List.mem_singleton.1 same]
    exact Or.inl member

theorem atomOf (member : value ∈ needs) :
    Conducts needs [] (Act.atomOf value) nothing fun a => [.atom a] := by
  cases value with
  | pair p => exact stop _
  | scalar s =>
    cases s with
    | atom a =>
      refine pure a fun other same => ?_
      rw [List.mem_singleton.1 same]
      exact Or.inl member
    | _ => exact stop _

theorem evalPair (e : Expr) : Conducts needs [] (Act.evalPair e) nothing fun p => [.pair p] :=
  bind (eval e _) fun _ => pairOf List.mem_concat_self

theorem evalPairs (es : List Expr) : Conducts needs [] (Act.evalPairs es) nothing
    fun pairs => pairs.flatMap fun p => [.pair p] :=
  bind (evalAll es _) fun _ => mapM fun _ member => pairOf (List.mem_append_right _ member)

/-! ## Commands -/

theorem performDescend (slot : Slot) (p : PairId) :
    Conducts needs [] (Command.performDescend slot p) nothing fun answer => answer.2.toList := by
  refine bind (query _) fun trail => bind (query _) fun positions => ?_
  exact bind (describe _) fun _ => answer _

/-- A handle can be taken on what a weak reference still leads to. -/
theorem upgrade_weak {session : Session} {weak : Weak} (kept : session.Kept [])
    (member : weak ∈ session.weaks.values) :
    Leaves Option.toList nothing session ((Act.onStore weak.upgrade).run session) := by
  obtain ⟨store, registers, cursors, weaks, temporaries⟩ := session
  change Leaves _ _ _ (.ok (weak.upgrade store).1,
    ⟨(weak.upgrade store).2, registers, cursors, weaks, temporaries⟩)
  unfold Weak.upgrade
  by_cases alive : store.isLive weak.value = true
  · rw [if_pos alive]
    have taken := kept.reached.step (.upgrade member alive)
    exact ⟨⟨taken, kept.registers, kept.cursors⟩, List.Subset.refl _, List.forall_mem_nil _⟩
  · rw [if_neg alive]
    exact ⟨kept, List.Subset.refl _, List.forall_mem_nil _⟩

theorem performUpgrade {session : Session} {weak : Weak} (kept : session.Kept [])
    (member : weak ∈ session.weaks.values) : Leaves nothing (fun answer => answer.2.toList) session
      ((Command.performUpgrade weak).run session) := by
  refine (upgrade_weak kept member).bind (List.forall_mem_nil _) fun item => ?_
  cases item with
  | none => exact answer _
  | some value =>
    refine bind (hold value) fun _ => bind (describe value) fun _ => ?_
    exact answerWith _ (by simp)

theorem upgrade (name : String) :
    Conducts needs [] (Command.upgrade name).perform nothing fun answer => answer.2.toList := by
  intro session kept available
  unfold Command.perform
  rw [run_get_bind]
  cases found : session.weaks.find? name with
  | none => exact kept
  | some weak => exact performUpgrade kept (Scope.mem_values_of_find? found)

/-- A weak reference is to a pair or to an atom. -/
theorem weakenTo (name : String) (target : Expr) :
    Conducts needs [] (Command.weaken name target).perform nothing
      fun answer => answer.2.toList := by
  refine bind (eval target _) fun value => ?_
  cases value with
  | pair p =>
    dsimp only [Value.pair?]
    rw [pure_bind]
    refine bind (weaken name (.pair p) ?_) fun _ => answer _
    exact List.mem_concat_self
  | scalar s =>
    refine bind (atomOf List.mem_concat_self) fun a => ?_
    rw [pure_bind]
    refine bind (weaken name (.atom a) ?_) fun _ => answer _
    exact List.mem_concat_self

theorem callEntry (name : String) (positional : List Expr) (named : List (String × Expr)) :
    Conducts needs [] (Command.call name positional named).perform nothing
      fun answer => answer.2.toList := by
  refine bind (evalAll positional _) fun values => ?_
  have bound : Conducts (needs ++ values) [] (Act.evalNamed named) nothing nothing :=
    bind (evalAll _ _) fun _ => done _
  refine bind bound fun arguments => ?_
  cases Entry.named? name with
  | none => exact answer _
  | some entry =>
    have called := @Ledger.Conducts.call entry ⟨values, arguments⟩
    refine bind (tryObtain (called.mono ?_)) fun value => ?_
    · simp
    · exact made List.mem_concat_self

/-- Writing takes a handle on the value, whether or not it succeeds. -/
theorem write {α : Type} {targets : List Value} {operation : Store → Except Fault α × Store}
    (conducts : Ledger.Conducts targets [value] operation fun _ => []) (shown : Value)
    (less : targets ⊆ needs) (member : value ∈ needs) :
    Conducts needs [] (do
      let _ ← Act.attempt fun store => operation (store.retain value)
      return (Answer.described (← Act.describe shown), (none : Option Value)))
      nothing fun answer => answer.2.toList := by
  refine bind (attempt ((conducts.mono less).retaining member)) fun _ => ?_
  exact bind (describe shown) fun _ => answer _

theorem integers (start : Int) (count : Nat) :
    ∀ value ∈ (List.range count).map (fun index : Nat => Value.int (start + index)),
      ∃ written : Literal, written.value = value := by
  intro value member
  obtain ⟨index, _, rfl⟩ := List.mem_map.1 member
  exact ⟨.int (start + index), rfl⟩

/-- Every command keeps the books. -/
theorem perform (command : Command) :
    Conducts [] [] command.perform nothing fun answer => answer.2.toList := by
  cases command with
  | describe value => exact bind (eval value _) fun _ => made List.mem_concat_self
  | typeOf value => exact bind (eval value _) fun _ => answerWith _ List.mem_concat_self
  | dropRegister name => exact bind (unassign name) fun _ => answer _
  | inspect value => exact bind (eval value _) fun _ => answer _
  | compare first second =>
    exact bind (eval first _) fun _ => bind (eval second _) fun _ => answer _
  | getSlot slot target =>
    refine bind (eval target _) fun target => ?_
    refine bind (tryObtain (Ledger.Conducts.slotOf.mono (List.subset_append_right ..))) fun _ => ?_
    exact made List.mem_concat_self
  | setSlot slot target value =>
    refine bind (eval target _) fun target => bind (eval value _) fun value => ?_
    exact write Ledger.Conducts.setSlotOf target (by simp) List.mem_concat_self
  | getItem target index =>
    refine bind (eval target _) fun target => ?_
    refine bind (tryObtain ((Ledger.Conducts.item index).mono (List.subset_append_right ..)))
      fun _ => ?_
    exact made List.mem_concat_self
  | setItem target index value =>
    refine bind (eval target _) fun target => bind (eval value _) fun value => ?_
    exact write (Ledger.Conducts.setItem index) target (by simp) List.mem_concat_self
  | getPairItem target index =>
    refine bind (evalPair target) fun p => ?_
    refine bind (tryObtain ((Ledger.Conducts.pairItem index).mono (List.subset_append_right ..)))
      fun _ => ?_
    exact made List.mem_concat_self
  | setPairItem target index value =>
    refine bind (evalPair target) fun p => bind (eval value _) fun value => ?_
    exact write (Ledger.Conducts.setPairItem index) (.pair p) (by simp) List.mem_concat_self
  | showSlots target =>
    refine bind (evalPair target) fun p => bind (query _) fun slots => ?_
    refine bind (describe slots.1) fun _ => bind (describe slots.2) fun _ => ?_
    exact bind (describe (.pair p)) fun _ => answer _
  | identify first second =>
    exact bind (evalPair first) fun _ => bind (evalPair second) fun _ => answer _
  | isEndless target => exact bind (evalPair target) fun _ => bind (query _) fun _ => answer _
  | digest value => exact bind (eval value _) fun value => bind (describe value) fun _ => answer _
  | grow seed count growth numbered =>
    refine bind (eval seed _) fun seed => ?_
    refine bind (obtain ?_) fun _ => answerWith _ List.mem_concat_self
    intro store outside weaks reached available
    exact (reached.retain (available seed List.mem_concat_self)).grow
  | descend slot target => exact bind (evalPair target) fun p => performDescend slot p
  | openCursor name target =>
    refine bind (eval target _) fun target => ?_
    have opened := Ledger.Conducts.start.mono (List.subset_append_right [] [target])
    refine bind (attempt opened) fun cursor => ?_
    exact bind (setCursor name cursor) fun _ => answer _
  | nextItem name =>
    refine bind (advance name) fun moved => bind (describeItem moved.1) fun _ => ?_
    exact pure _ fun value member => Or.inl (by simpa using member)
  | dropCursor name => exact bind (dropCursor name) fun _ => answer _
  | weaken name target => exact weakenTo name target
  | upgrade name => exact upgrade name
  | assignPosition target position follow =>
    refine bind (evalPair target) fun p => ?_
    refine bind (onStore ?_) fun _ => bind (query _) fun _ => answer _
    exact fun store outside weaks reached _ => reached.step (.assignPosition p position follow)
  | fillPosition target position follow =>
    refine bind (evalPair target) fun p => ?_
    refine bind (onStore ?_) fun _ => bind (query _) fun _ => answer _
    exact fun store outside weaks reached _ => reached.step (.fillPosition p position follow)
  | positions targets => exact bind (evalPairs targets) fun _ => bind (query _) fun _ => answer _
  | internValue kind value =>
    refine bind (eval value _) fun value => ?_
    refine bind (attempt (Ledger.Conducts.internValue kind value)) fun a => ?_
    exact bind (hold (.atom a)) fun _ => made List.mem_concat_self
  | isInterned kind raw => exact bind (query _) fun _ => answer _
  | distinct targets =>
    refine bind (evalAll targets _) fun values => ?_
    exact bind (mapM fun _ member => atomOf (List.mem_append_right _ member)) fun _ => answer _
  | splitAtom side sep limit target =>
    refine bind (eval target _) fun target => bind (atomOf List.mem_concat_self) fun a => ?_
    refine bind (attempt (Ledger.Conducts.splitAtom side sep limit a)) fun atoms => ?_
    refine bind (obtain ?_) fun _ => answerWith _ List.mem_concat_self
    exact fun store outside weaks reached _ => reached.list
  | fresh stem =>
    refine bind (attempt (Ledger.Conducts.fresh stem 0)) fun drawn => ?_
    exact bind (hold (.atom drawn.atom)) fun _ => made List.mem_concat_self
  | freshAfter stem rejects =>
    refine bind (attempt (Ledger.Conducts.fresh stem rejects)) fun drawn => ?_
    refine bind (hold (.atom drawn.atom)) fun _ => bind (describe _) fun _ => ?_
    exact answerWith _ (by simp)
  | call name positional named => exact callEntry name positional named
  | collect =>
    refine bind (onStore ?_) fun _ => answer _
    exact fun store outside weaks reached _ => reached.step .collect
  | tracked => exact bind (query _) fun _ => answer _
  | threadList start count =>
    refine bind (obtain ?_) fun _ => answerWith _ List.mem_concat_self
    intro store outside weaks reached _
    have items := (reached.step .startThread).literals (integers start count.toNat)
    exact items.list.step (.resumeThread _)
  | threadDrop name => exact bind (unassign name) fun _ => answer _
  | threadIntern threads kind raw =>
    refine bind (evalAll _ _) fun values => ?_
    refine bind (mapM fun _ member => atomOf (List.mem_append_right _ member)) fun atoms => ?_
    cases atoms with
    | nil => exact stop _
    | cons first rest => exact answer _

end Conducts

end Act

/-! ## Steps and runs -/

/-- Every step keeps the books. -/
theorem Step.conducts (step : Step) : Act.Conducts [] [] step.perform Act.nothing Act.nothing := by
  refine .bind (.perform step.command) fun made => ?_
  obtain ⟨answer, value⟩ := made
  cases step.into with
  | none => exact .done _
  | some name =>
    cases value with
    | none => exact .done _
    | some value => exact .bind (.assign name List.mem_concat_self) fun _ => .done _

namespace Session

theorem perm_held_settled (store : Store) (registers : Scope Value) (cursors : Scope Cursor)
    (weaks : Scope Weak) (temporaries : List Value) :
    (held ⟨store, registers, cursors, weaks, temporaries⟩).Perm
      (temporaries ++ held ⟨store, registers, cursors, weaks, []⟩) := by
  unfold held
  rw [List.append_nil]
  exact List.perm_append_comm

theorem Kept.empty : Session.empty.Kept [] := ⟨.refl, List.nodup_nil, List.nodup_nil⟩

theorem Kept.settle {session : Session} (kept : session.Kept []) : session.settle.Kept [] := by
  obtain ⟨store, registers, cursors, weaks, temporaries⟩ := session
  refine ⟨?_, kept.registers, kept.cursors⟩
  exact (kept.reached.perm (perm_held_settled ..)).releaseAll

theorem Kept.advance {session : Session} (kept : session.Kept []) (step : Step) :
    (session.advance step).2.Kept [] := by
  have left := step.conducts session kept (List.forall_mem_nil _)
  unfold Session.advance
  generalize step.perform.run session = outcome at left ⊢
  rcases outcome with ⟨stop | answer, after⟩
  · exact left.settle
  · exact left.1.settle

theorem Kept.run {session : Session} (kept : session.Kept []) (watched : List String)
    (steps : List Step) : (session.run watched steps).2.Kept [] := by
  induction steps generalizing session with
  | nil => exact kept
  | cons step steps ih => exact ih (kept.advance step)

/-- Whatever steps a session runs, its ledger is reached. -/
theorem reached_run (watched : List String) (steps : List Step) :
    Reached (Session.empty.run watched steps).2.ledger :=
  (Kept.empty.run watched steps).reached

end Session

end Sexpr
