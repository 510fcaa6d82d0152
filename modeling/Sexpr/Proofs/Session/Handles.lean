import Sexpr.Proofs.Store.Conduct
import Sexpr.Session.Run

/-!
# Sessions keep their books

A session holds what its registers, cursors and temporaries hold. `Session.Kept` says that the
ledger of a session is one that operations on a store lead to, with some handles still in flight:
made by an operation, but not yet put anywhere.

`Act.Conducts` is the rule for what happens in a step. An action uses temporaries, takes over the
handles in flight, and hands over others; it never loses a temporary, and when it stops nothing is
in flight. The rule is proved for the primitive actions, then for actions in sequence
(`Conducts.bind`), and so for all expressions and commands. `Session.reached_run` draws the
conclusion: whatever steps a session runs, its ledger is reached.
-/

namespace Sexpr

open Ledger

/-! ## Scopes -/

namespace Scope

variable {α : Type} {scope : Scope α} {name : String} {a : α}

/-- No name is bound twice. -/
def Proper (scope : Scope α) : Prop := (scope.bindings.map Prod.fst).Nodup

theorem Proper.erase (proper : scope.Proper) (name : String) : (scope.erase name).Proper :=
  proper.sublist (List.filter_sublist.map _)

theorem Proper.put (proper : scope.Proper) (name : String) (a : α) : (scope.put name a).Proper := by
  refine List.nodup_cons.2 ⟨?_, proper.erase name⟩
  intro member
  obtain ⟨binding, kept, same⟩ := List.mem_map.1 member
  have other := (List.mem_filter.1 kept).2
  simp [same] at other

theorem mem_values_of_find? (found : scope.find? name = some a) : a ∈ scope.values := by
  obtain ⟨bindings⟩ := scope
  unfold find? at found
  induction bindings with
  | nil => cases found
  | cons binding bindings ih =>
    obtain ⟨key, b⟩ := binding
    rw [List.lookup_cons] at found
    split at found
    · cases found
      exact List.mem_cons_self
    · exact List.mem_cons_of_mem _ (ih found)

/-- A scope has what the name is bound to, and what is left without the name. -/
theorem perm_values (proper : scope.Proper) (name : String) :
    scope.values.Perm ((scope.find? name).toList ++ (scope.erase name).values) := by
  obtain ⟨bindings⟩ := scope
  unfold Proper at proper
  unfold find? Scope.erase values
  dsimp only
  induction bindings with
  | nil => exact .refl _
  | cons binding bindings ih =>
    obtain ⟨key, b⟩ := binding
    obtain ⟨absent, proper⟩ := List.nodup_cons.1 proper
    rw [List.lookup_cons]
    by_cases same : name = key
    · subst same
      have rest : bindings.filter (fun binding => binding.1 != name) = bindings := by
        refine List.filter_eq_self.2 fun binding member => ?_
        refine bne_iff_ne.2 fun bound => absent ?_
        exact List.mem_map.2 ⟨binding, member, bound⟩
      simp [rest]
    · have unequal : (name == key) = false := beq_eq_false_iff_ne.2 same
      have kept : ((key, b).1 != name) = true := bne_iff_ne.2 (Ne.symm same)
      rw [unequal, List.filter_cons, if_pos kept]
      exact ((ih proper).cons b).trans List.perm_middle.symm

end Scope

/-! ## The books of a session -/

namespace Session

/-- A session as a store with its holders. -/
def ledger (session : Session) : Ledger := ⟨session.store, session.held, session.weaks.values⟩

/-- The ledger is reached, with the handles in `flight` not yet put anywhere. -/
structure Kept (flight : List Value) (session : Session) : Prop where
  reached : Reached ⟨session.store, flight ++ session.held, session.weaks.values⟩
  registers : session.registers.Proper
  cursors : session.cursors.Proper

theorem mem_held_of_mem_temporaries {session : Session} {value : Value}
    (member : value ∈ session.temporaries) : value ∈ session.held :=
  List.mem_append_right _ member

theorem available_held {session : Session} {value : Value}
    (available : Available session.temporaries value) : Available session.held value :=
  available.mono fun _ => mem_held_of_mem_temporaries

theorem mem_held_of_find? {session : Session} {name : String} {value : Value}
    (found : session.registers.find? name = some value) : value ∈ session.held :=
  List.mem_append_left _ (List.mem_append_left _ (Scope.mem_values_of_find? found))

theorem perm_held (store : Store) (registers : Scope Value) (cursors : Scope Cursor)
    (weaks : Scope Weak) (temporaries : List Value) (value : Value) :
    (value :: held ⟨store, registers, cursors, weaks, temporaries⟩).Perm
      (held ⟨store, registers, cursors, weaks, value :: temporaries⟩) := by
  unfold held
  exact List.perm_middle.symm

end Session

/-! ## Actions -/

namespace Act

variable {α β : Type} {needs takes : List Value} {gives yields : α → List Value} {value : Value}

theorem run_bind (act : Act α) (next : α → Act β) (session : Session) :
    (act >>= next).run session =
      match act.run session with
      | (.ok answer, after) => (next answer).run after
      | (.error stop, after) => (.error stop, after) := by
  change (match act.run session with
    | (result, after) => (ExceptT.bindCont next result : StateM Session _) after) = _
  rcases act.run session with ⟨_ | _, _⟩
  · rfl
  · rfl

theorem run_get_bind (next : Session → Act β) (session : Session) :
    ((get : Act Session) >>= next).run session = (next session).run session := rfl

/-- Nothing is handed over. -/
abbrev nothing (_ : α) : List Value := []

/-- How an action leaves the session: it hands over `gives`, holds `yields`, and has not lost a
temporary. If it stops, nothing is in flight. -/
def Leaves (gives yields : α → List Value) (before : Session) :
    Except Stop α × Session → Prop
  | (.ok answer, after) => after.Kept (gives answer) ∧ before.temporaries ⊆ after.temporaries ∧
      ∀ value ∈ yields answer, Available after.temporaries value
  | (.error _, after) => after.Kept []

/-- The action uses the temporaries in `needs`, takes over the handles on `takes`, hands over
`gives` and holds `yields`. -/
def Conducts (needs takes : List Value) (act : Act α) (gives yields : α → List Value) : Prop :=
  ∀ session : Session, session.Kept takes →
    (∀ value ∈ needs, Available session.temporaries value) →
    Leaves gives yields session (act.run session)

/-- What comes next can use what is held already. -/
theorem Leaves.bind {session : Session} {act : Act α} {next : α → Act β}
    {gives' yields' : β → List Value} (middle : Leaves gives yields session (act.run session))
    (available : ∀ value ∈ needs, Available session.temporaries value)
    (second : ∀ answer,
      Conducts (needs ++ yields answer) (gives answer) (next answer) gives' yields') :
    Leaves gives' yields' session ((act >>= next).run session) := by
  rw [run_bind]
  generalize act.run session = outcome at middle ⊢
  rcases outcome with ⟨stop | answer, after⟩
  · exact middle
  obtain ⟨kept, grown, held⟩ := middle
  have usable : ∀ value ∈ needs ++ yields answer, Available after.temporaries value := by
    intro value member
    rcases List.mem_append.1 member with old | new
    · exact (available value old).mono grown
    · exact held value new
  have last := second answer after kept usable
  dsimp only
  generalize (next answer).run after = outcome at last ⊢
  rcases outcome with ⟨stop | answer', after'⟩
  · exact last
  · exact ⟨last.1, List.Subset.trans grown last.2.1, last.2.2⟩

namespace Conducts

theorem bind {act : Act α} {next : α → Act β} {gives' yields' : β → List Value}
    (first : Conducts needs takes act gives yields)
    (second : ∀ answer,
      Conducts (needs ++ yields answer) (gives answer) (next answer) gives' yields') :
    Conducts needs takes (act >>= next) gives' yields' :=
  fun session kept available => (first session kept available).bind available second

theorem mono {act : Act α} {more : List Value} (conducts : Conducts needs takes act gives yields)
    (less : needs ⊆ more) : Conducts more takes act gives yields :=
  fun session kept available =>
    conducts session kept fun value member => available value (less member)

theorem pure (answer : α) (available : ∀ value ∈ yields answer, Available needs value) :
    Conducts needs [] (Pure.pure answer) nothing yields := by
  intro session kept usable
  refine ⟨kept, List.Subset.refl _, fun value member => ?_⟩
  rcases available value member with need | literal
  · exact usable value need
  · exact Or.inr literal

theorem done (answer : α) : Conducts needs [] (Pure.pure answer) nothing nothing :=
  pure answer (List.forall_mem_nil _)

theorem stop (cause : Stop) : Conducts needs [] (throw cause) gives yields :=
  fun _ kept _ => kept

/-- An action that changes nothing. -/
theorem quiet {act : Act α} (same : ∀ session, (act.run session).2 = session) :
    Conducts needs [] act nothing nothing := by
  intro session kept _
  have unchanged := same session
  generalize act.run session = outcome at unchanged ⊢
  rcases outcome with ⟨stop | answer, after⟩
  · cases unchanged
    exact kept
  · cases unchanged
    exact ⟨kept, List.Subset.refl _, List.forall_mem_nil _⟩

theorem query (look : Store → α) : Conducts needs [] (query look) nothing nothing :=
  quiet fun _ => rfl

/-! ## Operations on the store -/

theorem attempt {operation : Store → Except Fault α × Store}
    (conducts : Ledger.Conducts needs takes operation gives) :
    Conducts needs takes (Act.attempt operation) gives nothing := by
  intro session kept available
  obtain ⟨store, registers, cursors, weaks, temporaries⟩ := session
  have reached := conducts store _ _ kept.reached fun value member =>
    Session.available_held (available value member)
  dsimp only [Act.attempt, ExceptT.run, ExceptT.mk]
  generalize operation store = outcome at reached ⊢
  rcases outcome with ⟨cause | answer, after⟩
  · exact ⟨reached, kept.registers, kept.cursors⟩
  · exact ⟨⟨reached, kept.registers, kept.cursors⟩, List.Subset.refl _,
      List.forall_mem_nil _⟩

/-- An operation that cannot fail. -/
theorem onStore {operation : Store → α × Store}
    (conducts : Ledger.Conducts needs takes
      (fun store => (.ok (operation store).1, (operation store).2)) gives) :
    Conducts needs takes (Act.onStore operation) gives nothing :=
  attempt conducts

theorem hold (value : Value) :
    Conducts needs [value] (Act.hold value) nothing fun _ => [value] := by
  intro session kept _
  obtain ⟨store, registers, cursors, weaks, temporaries⟩ := session
  refine ⟨⟨?_, kept.registers, kept.cursors⟩, List.subset_cons_self .., ?_⟩
  · exact kept.reached.perm (Session.perm_held ..)
  · intro other member
    rw [List.mem_singleton.1 member]
    exact Or.inl List.mem_cons_self

theorem obtain {operation : Store → Value × Store}
    (conducts : Ledger.Conducts needs takes
      (fun store => (.ok (operation store).1, (operation store).2)) fun value => [value]) :
    Conducts needs takes (Act.obtain operation) nothing fun value => [value] := by
  refine bind (onStore conducts) fun value => bind (hold value) fun _ => ?_
  refine pure value fun other member => ?_
  exact Or.inl (List.mem_append_right _ member)

theorem tryObtain {operation : Store → Except Fault Value × Store}
    (conducts : Ledger.Conducts needs [] operation fun value => [value]) :
    Conducts needs [] (Act.tryObtain operation) nothing fun value => [value] := by
  refine bind (attempt conducts) fun value => bind (hold value) fun _ => ?_
  refine pure value fun other member => ?_
  exact Or.inl (List.mem_append_right _ member)

/-! ## Expressions -/

/-- A handle on a value that is held anywhere, or is still alive, can be taken. -/
theorem share_of_reached {session : Session} (kept : session.Kept [])
    (retained : Reached ⟨session.store.retain value, value :: session.held, session.weaks.values⟩) :
    Leaves nothing (fun value => [value]) session ((Act.share value).run session) := by
  obtain ⟨store, registers, cursors, weaks, temporaries⟩ := session
  refine ⟨⟨?_, kept.registers, kept.cursors⟩, List.subset_cons_self .., ?_⟩
  · exact retained.perm (Session.perm_held ..)
  · intro other member
    rw [List.mem_singleton.1 member]
    exact Or.inl List.mem_cons_self

theorem register (name : String) :
    Conducts needs [] (Act.register name) nothing fun value => [value] := by
  intro session kept _
  unfold Act.register
  rw [run_get_bind]
  cases found : session.registers.find? name with
  | none => exact kept
  | some value =>
    exact share_of_reached kept (kept.reached.retain (Or.inl (Session.mem_held_of_find? found)))

theorem descend (slots : List Slot) (value : Value) (member : value ∈ needs) :
    Conducts needs [] (Act.descend slots value) nothing fun value => [value] := by
  induction slots generalizing needs value with
  | nil =>
    refine pure value fun other same => ?_
    rw [List.mem_singleton.1 same]
    exact Or.inl member
  | cons slot slots ih =>
    refine bind (tryObtain (Ledger.Conducts.slotOf.mono (by simpa using member))) ?_
    exact fun next => ih next (List.mem_append_right _ (List.mem_singleton_self next))

mutual

theorem eval (e : Expr) (needs : List Value) :
    Conducts needs [] e.eval nothing fun value => [value] := by
  match e with
  | .literal written =>
    refine pure written.value fun other member => ?_
    rw [List.mem_singleton.1 member]
    exact Or.inr ⟨written, rfl⟩
  | .atom kind raw =>
    refine obtain ?_
    intro store outside weaks reached _
    exact reached.step (.intern kind raw)
  | .register name => exact register name
  | .pair head tail =>
    refine bind (eval head _) fun head => bind (eval tail _) fun tail => obtain ?_
    intro store outside weaks reached available
    have both : ∀ value ∈ [head, tail], Available outside value :=
      fun value member => available value (by simp at member ⊢; tauto)
    exact (reached.retainAll both).step .pair
  | .list items =>
    refine bind (evalAll items _) fun items => obtain ?_
    intro store outside weaks reached available
    have all : ∀ value ∈ items, Available outside value :=
      fun value member => available value (List.mem_append_right _ member)
    exact (reached.retainAll all).list
  | .cons members ring =>
    refine bind (evalAll members _) fun members => obtain ?_
    intro store outside weaks reached available
    have all : ∀ value ∈ members, Available outside value :=
      fun value member => available value (List.mem_append_right _ member)
    exact (reached.retainAll all).cons
  | .path slots origin =>
    refine bind (eval origin _) fun value => ?_
    exact descend slots value (List.mem_append_right _ (List.mem_singleton_self value))

theorem evalAll (es : List Expr) (needs : List Value) :
    Conducts needs [] (Expr.evalAll es) nothing fun values => values := by
  match es with
  | [] => exact done []
  | e :: es =>
    refine bind (eval e _) fun value => bind (evalAll es _) fun values => ?_
    refine pure (value :: values) fun other member => Or.inl ?_
    simp at member ⊢
    tauto

end

end Conducts

end Act

end Sexpr
