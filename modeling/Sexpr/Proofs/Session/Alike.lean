import Sexpr.Proofs.Session.Runs
import Sexpr.Proofs.Store.Agreement

/-!
# Sessions that look alike

Two sessions are alike if their registers, cursors and temporaries hold the same, identities of
atoms aside, and all of it leads to a common part of the two heaps. `Act.Agrees` is the rule for one
action in two such sessions: both stop for the same reason, or both have answers that look the same,
and the sessions are alike afterwards. As with `Act.Conducts`, the rule is proved for the primitive
actions and for actions in sequence, and so for all expressions.

An action that only looks at the store may come by values that nobody holds. `Act.Sees` is the rule
for such actions; it speaks of two fixed stores, so that what was seen before can be used later.
-/

namespace Sexpr

open Ledger

/-! ## Scopes -/

namespace Scope

variable {α β : Type}

/-- The scope with `f` applied to all that is bound. -/
def map (f : α → β) (scope : Scope α) : Scope β := ⟨scope.bindings.map (Prod.map id f)⟩

variable {f : α → β} {scope other : Scope α}

theorem find?_map (f : α → β) (scope : Scope α) (name : String) :
    (scope.map f).find? name = (scope.find? name).map f := by
  obtain ⟨bindings⟩ := scope
  unfold find? map
  dsimp only
  induction bindings with
  | nil => rfl
  | cons binding bindings ih =>
    obtain ⟨key, a⟩ := binding
    rw [List.map_cons, Prod.map_apply, List.lookup_cons, List.lookup_cons, id_eq]
    split
    · rfl
    · exact ih

theorem map_erase (f : α → β) (scope : Scope α) (name : String) :
    (scope.erase name).map f = (scope.map f).erase name := by
  unfold erase map
  rw [List.filter_map]
  rfl

theorem map_put (f : α → β) (scope : Scope α) (name : String) (a : α) :
    (scope.put name a).map f = (scope.map f).put name (f a) := by
  have rest := congrArg Scope.bindings (map_erase f scope name)
  exact congrArg (fun bindings => Scope.mk ((name, f a) :: bindings)) rest

theorem values_map (f : α → β) (scope : Scope α) : (scope.map f).values = scope.values.map f := by
  unfold values map
  rw [List.map_map, List.map_map]
  rfl

theorem find?_eq (same : scope.map f = other.map f) (name : String) :
    (scope.find? name).map f = (other.find? name).map f := by
  rw [← find?_map, same, find?_map]

theorem erase_eq (same : scope.map f = other.map f) (name : String) :
    (scope.erase name).map f = (other.erase name).map f := by
  rw [map_erase, same, map_erase]

theorem put_eq {a b : α} (same : scope.map f = other.map f) (name : String) (equal : f a = f b) :
    (scope.put name a).map f = (other.put name b).map f := by
  rw [map_put, same, equal, map_put]

end Scope

/-! ## Sessions -/

namespace Session

/-- Holders cannot tell the sessions apart, with the handles in `flight` and `flight'` not yet put
anywhere. -/
structure Alike (flight flight' : List Value) (session other : Session) : Prop where
  flights : flight.map Value.mask = flight'.map Value.mask
  registers : session.registers.map Value.mask = other.registers.map Value.mask
  cursors : session.cursors = other.cursors
  temporaries : session.temporaries.map Value.mask = other.temporaries.map Value.mask
  mirrored : session.store.heap.Mirrored other.store.heap (flight ++ session.held)

namespace Alike

variable {flight flight' : List Value} {session other : Session}

theorem held (alike : session.Alike flight flight' other) :
    session.held.map Value.mask = other.held.map Value.mask := by
  have registers := congrArg Scope.values alike.registers
  rw [Scope.values_map, Scope.values_map] at registers
  simp only [Session.held, List.map_append, registers, alike.cursors, alike.temporaries]

/-- Sessions that are alike and keep their books have ledgers that cannot be told apart. -/
theorem twins (alike : session.Alike flight flight' other) (kept : session.Kept flight)
    (kept' : other.Kept flight') :
    Twins ⟨session.store, flight ++ session.held, session.weaks.values⟩
      ⟨other.store, flight' ++ other.held, other.weaks.values⟩ where
  reached := kept.reached
  reached' := kept'.reached
  pairs := count_pair_append alike.flights (count_pair_eq alike.held)
  mirrored := alike.mirrored

end Alike

end Session

/-! ## The rule -/

namespace Act

variable {α β γ δ : Type}

/-- What an action has come to in two sessions: the same stop, or answers that look the same. -/
inductive Matches (view : α → β) (gives : α → List Value) :
    Except Stop α × Session → Except Stop α × Session → Prop
  | ok {answer answer' : α} {after after' : Session} : view answer = view answer' →
    after.Alike (gives answer) (gives answer') after' →
    Matches view gives (.ok answer, after) (.ok answer', after')
  | stop {cause : Stop} {after after' : Session} : after.Alike [] [] after' →
    Matches view gives (.error cause, after) (.error cause, after')

/-- Two actions keep the books, and holders cannot tell what they do apart. -/
structure Agrees (needs needs' takes takes' : List Value) (act act' : Act α) (view : α → β)
    (gives yields : α → List Value) : Prop where
  left : Conducts needs takes act gives yields
  right : Conducts needs' takes' act' gives yields
  same : ∀ {session session' : Session}, session.Kept takes → session'.Kept takes' →
    session.Alike takes takes' session' →
    (∀ value ∈ needs, Available session.temporaries value) →
    (∀ value ∈ needs', Available session'.temporaries value) →
    Matches view gives (act.run session) (act'.run session')

/-- In two stores the actions change nothing, and stop for the same reason or have related
answers. -/
def Sees (store store' : Store) (act act' : Act α) (related : α → α → Prop) : Prop :=
  ∀ session session' : Session, session.store = store → session'.store = store' →
    (∃ cause, act.run session = (.error cause, session) ∧
      act'.run session' = (.error cause, session')) ∨
    ∃ answer answer', act.run session = (.ok answer, session) ∧
      act'.run session' = (.ok answer', session') ∧ related answer answer'

/-! ## Looking at a store -/

namespace Sees

variable {store store' : Store} {act act' : Act α} {related : α → α → Prop}

theorem bind {next next' : α → Act γ} {further : γ → γ → Prop}
    (first : Sees store store' act act' related)
    (second : ∀ answer answer', related answer answer' →
      Sees store store' (next answer) (next' answer') further) :
    Sees store store' (act >>= next) (act' >>= next') further := by
  intro session session' at_ at'
  rw [run_bind, run_bind]
  rcases first session session' at_ at' with
    ⟨cause, stopped, stopped'⟩ | ⟨answer, answer', run, run', same⟩
  · rw [stopped, stopped']
    exact Or.inl ⟨cause, rfl, rfl⟩
  · rw [run, run']
    exact second answer answer' same session session' at_ at'

theorem pure {answer answer' : α} (same : related answer answer') :
    Sees store store' (Pure.pure answer) (Pure.pure answer') related :=
  fun _ _ _ _ => Or.inr ⟨answer, answer', rfl, rfl, same⟩

theorem stop (cause : Stop) : Sees store store' (throw cause) (throw cause) related :=
  fun _ _ _ _ => Or.inl ⟨cause, rfl, rfl⟩

theorem query {look look' : Store → γ} {next next' : γ → Act α}
    (rest : Sees store store' (next (look store)) (next' (look' store')) related) :
    Sees store store' (Act.query look >>= next) (Act.query look' >>= next') related := by
  rintro session session' rfl rfl
  exact rest session session' rfl rfl

/-- Texts do not show the identities of atoms. -/
theorem describe {common : PairId → Prop} {value value' : Value}
    (mirrors : store.heap.Mirrors store'.heap common) (same : value.mask = value'.mask)
    (inside : ∀ q, value = .pair q → common q) :
    Sees store store' (Act.describe value) (Act.describe value') Eq := by
  have renamed := Heap.Mirrors.renamed same inside
  have equal : description? store value = description? store' value' := by
    unfold description?
    rw [mirrors.renames.listing?_eq renamed, mirrors.renames.structural?_eq renamed,
      Value.typeName_eq same]
  refine query ?_
  rw [equal]
  cases description? store' value' with
  | none => exact stop _
  | some description => exact pure rfl

end Sees

/-! ## Sequences -/

namespace Agrees

variable {needs needs' takes takes' : List Value} {view : α → β} {gives yields : α → List Value}
  {value value' : Value}

theorem bind {act act' : Act α} {next next' : α → Act γ} {view' : γ → δ}
    {gives' yields' : γ → List Value}
    (first : Agrees needs needs' takes takes' act act' view gives yields)
    (second : ∀ answer answer', view answer = view answer' →
      Agrees (needs ++ yields answer) (needs' ++ yields answer') (gives answer) (gives answer')
        (next answer) (next' answer') view' gives' yields') :
    Agrees needs needs' takes takes' (act >>= next) (act' >>= next') view' gives' yields' where
  left := first.left.bind fun answer => (second answer answer rfl).left
  right := first.right.bind fun answer => (second answer answer rfl).right
  same {session session'} kept kept' alike available available' := by
    -- Each side keeps its own books, so the sessions in between are fit for what comes next.
    have leaves := first.left session kept available
    have leaves' := first.right session' kept' available'
    have middle := first.same kept kept' alike available available'
    rw [run_bind, run_bind]
    generalize act.run session = outcome at leaves middle ⊢
    generalize act'.run session' = outcome' at leaves' middle ⊢
    cases middle with
    | stop alike => exact .stop alike
    | @ok answer answer' after after' same alike =>
      obtain ⟨kept, grown, held⟩ := leaves
      obtain ⟨kept', grown', held'⟩ := leaves'
      refine (second answer answer' same).same kept kept' alike ?_ ?_
      · exact List.forall_mem_append.2
          ⟨fun value member => (available value member).mono grown, held⟩
      · exact List.forall_mem_append.2
          ⟨fun value member => (available' value member).mono grown', held'⟩

theorem mono {more more' : List Value} {act act' : Act α}
    (agrees : Agrees needs needs' takes takes' act act' view gives yields) (less : needs ⊆ more)
    (less' : needs' ⊆ more') : Agrees more more' takes takes' act act' view gives yields where
  left := agrees.left.mono less
  right := agrees.right.mono less'
  same kept kept' alike available available' := agrees.same kept kept' alike
    (fun value member => available value (less member))
    fun value member => available' value (less' member)

/-- Answers that the books of both sessions show to be the same. -/
theorem judge {answer answer' : α} (available : ∀ value ∈ yields answer, Available needs value)
    (available' : ∀ value ∈ yields answer', Available needs' value)
    (same : ∀ {ledger ledger' : Ledger}, Reached ledger → Reached ledger' →
      (∀ value ∈ needs, Available ledger.outside value) →
      (∀ value ∈ needs', Available ledger'.outside value) → view answer = view answer') :
    Agrees needs needs' [] [] (Pure.pure answer) (Pure.pure answer') view nothing yields where
  left := .pure answer available
  right := .pure answer' available'
  same kept kept' alike usable usable' := by
    have equal := same kept.reached kept'.reached
      (fun value member => Session.available_held (usable value member))
      fun value member => Session.available_held (usable' value member)
    exact .ok equal alike

theorem pure {answer answer' : α} (same : view answer = view answer')
    (available : ∀ value ∈ yields answer, Available needs value)
    (available' : ∀ value ∈ yields answer', Available needs' value) :
    Agrees needs needs' [] [] (Pure.pure answer) (Pure.pure answer') view nothing yields :=
  judge available available' fun _ _ _ _ => same

theorem done {answer answer' : α} (same : view answer = view answer') :
    Agrees needs needs' [] [] (Pure.pure answer) (Pure.pure answer') view nothing nothing :=
  pure same (List.forall_mem_nil _) (List.forall_mem_nil _)

theorem available_single (member : value ∈ needs) : ∀ other ∈ [value], Available needs other := by
  intro other equal
  rw [List.mem_singleton.1 equal]
  exact Or.inl member

/-- The answer is a value that is held. -/
theorem found (same : value.mask = value'.mask) (member : value ∈ needs)
    (member' : value' ∈ needs') :
    Agrees needs needs' [] [] (Pure.pure value) (Pure.pure value') Value.mask nothing
      fun value => [value] :=
  pure same (available_single member) (available_single member')

theorem stop (cause : Stop) :
    Agrees needs needs' [] [] (throw cause) (throw cause) view gives yields where
  left := .stop cause
  right := .stop cause
  same _ _ alike _ _ := .stop alike

/-- What both see in their stores looks the same. -/
theorem observe {act act' : Act α} (left : Conducts needs [] act nothing yields)
    (right : Conducts needs' [] act' nothing yields)
    (sees : ∀ {store store' : Store} {common : PairId → Prop},
      store.heap.Mirrors store'.heap common → (∀ q, .pair q ∈ needs → common q) →
      Sees store store' act act' fun answer answer' => view answer = view answer') :
    Agrees needs needs' [] [] act act' view nothing yields where
  left := left
  right := right
  same {session session'} kept kept' alike available _ := by
    obtain ⟨common, mirrors, inside⟩ := alike.mirrored
    have roots : ∀ q, .pair q ∈ needs → common q := fun q member =>
      inside q (Session.available_held (available _ member)).mem_of_pair
    rcases sees mirrors roots session session' rfl rfl with
      ⟨cause, stopped, stopped'⟩ | ⟨answer, answer', run, run', same⟩
    · rw [stopped, stopped']
      exact .stop alike
    · rw [run, run']
      exact .ok same alike

/-! ## Operations on the store -/

theorem attempt {operation operation' : Store → Except Fault α × Store}
    (agrees : Ledger.Agrees needs needs' takes takes' operation operation' view gives)
    (flights : ∀ {answer answer'}, view answer = view answer' →
      (gives answer).map Value.mask = (gives answer').map Value.mask) :
    Agrees needs needs' takes takes' (Act.attempt operation) (Act.attempt operation') view gives
      nothing where
  left := .attempt agrees.left
  right := .attempt agrees.right
  same {session session'} kept kept' alike available available' := by
    obtain ⟨store, registers, cursors, weaks, temporaries⟩ := session
    obtain ⟨store', registers', cursors', weaks', temporaries'⟩ := session'
    have same := agrees.same (alike.twins kept kept')
      (fun value member => Session.available_held (available value member))
      fun value member => Session.available_held (available' value member)
    dsimp only [Act.attempt, ExceptT.run, ExceptT.mk]
    generalize operation store = outcome at same ⊢
    generalize operation' store' = outcome' at same ⊢
    cases same with
    | ok same mirrored =>
      exact .ok same ⟨flights same, alike.registers, alike.cursors, alike.temporaries, mirrored⟩
    | error mirrored =>
      exact .stop ⟨rfl, alike.registers, alike.cursors, alike.temporaries, mirrored⟩

/-- An operation that cannot fail. -/
theorem onStore {operation operation' : Store → α × Store}
    (agrees : Ledger.Agrees needs needs' takes takes'
      (fun store => (.ok (operation store).1, (operation store).2))
      (fun store => (.ok (operation' store).1, (operation' store).2)) view gives)
    (flights : ∀ {answer answer'}, view answer = view answer' →
      (gives answer).map Value.mask = (gives answer').map Value.mask) :
    Agrees needs needs' takes takes' (Act.onStore operation) (Act.onStore operation') view gives
      nothing :=
  attempt agrees flights

/-- Both hold what they were given, for all that comes next. -/
theorem hold {next next' : Act α} (same : value.mask = value'.mask)
    (rest : Agrees (needs ++ [value]) (needs' ++ [value']) [] [] next next' view gives yields) :
    Agrees needs needs' [value] [value'] (Act.hold value >>= fun _ => next)
      (Act.hold value' >>= fun _ => next') view gives yields where
  left := (Conducts.hold value).bind fun _ => rest.left
  right := (Conducts.hold value').bind fun _ => rest.right
  same {session session'} kept kept' alike available available' := by
    obtain ⟨store, registers, cursors, weaks, temporaries⟩ := session
    obtain ⟨store', registers', cursors', weaks', temporaries'⟩ := session'
    obtain ⟨kept, grown, held⟩ := Conducts.hold value _ kept available
    obtain ⟨kept', grown', held'⟩ := Conducts.hold value' _ kept' available'
    refine rest.same kept kept' ⟨rfl, alike.registers, alike.cursors, ?_, ?_⟩ ?_ ?_
    · exact congrArg₂ List.cons same alike.temporaries
    · exact alike.mirrored.mono fun q root => (Session.perm_held ..).mem_iff.2 root
    · exact List.forall_mem_append.2 ⟨fun value member => (available value member).mono grown, held⟩
    · exact List.forall_mem_append.2
        ⟨fun value member => (available' value member).mono grown', held'⟩

/-- Both hold a value and answer with it. -/
theorem holding (same : value.mask = value'.mask) :
    Agrees needs needs' [value] [value'] (do Act.hold value; return value)
      (do Act.hold value'; return value') Value.mask nothing fun value => [value] :=
  hold same (found same List.mem_concat_self List.mem_concat_self)

theorem mask_single (same : value.mask = value'.mask) :
    [value].map Value.mask = [value'].map Value.mask :=
  congrArg (fun mask => [mask]) same

theorem obtain {operation operation' : Store → Value × Store}
    (agrees : Ledger.Agrees needs needs' takes takes'
      (fun store => (.ok (operation store).1, (operation store).2))
      (fun store => (.ok (operation' store).1, (operation' store).2)) Value.mask
      fun value => [value]) :
    Agrees needs needs' takes takes' (Act.obtain operation) (Act.obtain operation') Value.mask
      nothing fun value => [value] :=
  bind (onStore agrees mask_single) fun _ _ same => holding same

theorem tryObtain {operation operation' : Store → Except Fault Value × Store}
    (agrees : Ledger.Agrees needs needs' takes takes' operation operation' Value.mask
      fun value => [value]) :
    Agrees needs needs' takes takes' (Act.tryObtain operation) (Act.tryObtain operation')
      Value.mask nothing fun value => [value] :=
  bind (attempt agrees mask_single) fun _ _ same => holding same

/-! ## Expressions -/

/-- Both take a handle on what is held, anywhere in the session. -/
theorem matches_share {session session' : Session} (kept : session.Kept [])
    (kept' : session'.Kept []) (alike : session.Alike [] [] session')
    (same : value.mask = value'.mask) (held : value ∈ session.held)
    (held' : value' ∈ session'.held) :
    Matches Value.mask nothing ((Act.share value).run session)
      ((Act.share value').run session') := by
  obtain ⟨store, registers, cursors, weaks, temporaries⟩ := session
  obtain ⟨store', registers', cursors', weaks', temporaries'⟩ := session'
  have twins := (alike.twins kept kept').retain same (Or.inl held) (Or.inl held')
  refine .ok same ⟨rfl, alike.registers, alike.cursors, ?_, ?_⟩
  · exact congrArg₂ List.cons same alike.temporaries
  · exact twins.mirrored.mono fun q root => (Session.perm_held ..).mem_iff.2 root

theorem register (name : String) :
    Agrees needs needs' [] [] (Act.register name) (Act.register name) Value.mask nothing
      fun value => [value] where
  left := .register name
  right := .register name
  same {session session'} kept kept' alike _ _ := by
    have same := Scope.find?_eq alike.registers name
    unfold Act.register
    rw [run_get_bind, run_get_bind]
    cases found : session.registers.find? name with
    | none =>
      rw [found, Option.map_none] at same
      rw [Option.map_eq_none_iff.1 same.symm]
      exact .stop alike
    | some value =>
      rw [found, Option.map_some] at same
      obtain ⟨value', found', masks⟩ := Option.map_eq_some_iff.1 same.symm
      rw [found']
      exact matches_share kept kept' alike masks.symm (Session.mem_held_of_find? found)
        (Session.mem_held_of_find? found')

theorem descend (slots : List Slot) (same : value.mask = value'.mask) (member : value ∈ needs)
    (member' : value' ∈ needs') :
    Agrees needs needs' [] [] (Act.descend slots value) (Act.descend slots value') Value.mask
      nothing fun value => [value] := by
  induction slots generalizing needs needs' value value' with
  | nil => exact found same member member'
  | cons slot slots ih =>
    refine bind (tryObtain ((Ledger.Agrees.slotOf same).mono ?_ ?_)) fun _ _ next => ?_
    · simpa using member
    · simpa using member'
    · exact ih next List.mem_concat_self List.mem_concat_self

mutual

theorem eval (e : Expr) (needs needs' : List Value) :
    Agrees needs needs' [] [] e.eval e.eval Value.mask nothing fun value => [value] := by
  match e with
  | .literal written =>
    have literal : ∀ other ∈ [written.value], ∃ given : Literal, given.value = other :=
      fun other member => ⟨written, (List.mem_singleton.1 member).symm⟩
    exact pure rfl (fun other member => Or.inr (literal other member))
      fun other member => Or.inr (literal other member)
  | .atom kind raw => exact obtain (.internAtom kind raw)
  | .register name => exact register name
  | .pair head tail =>
    refine bind (eval head _ _) fun head head' heads => ?_
    refine bind (eval tail _ _) fun tail tail' tails => ?_
    exact obtain (.pair heads tails (by simp) (by simp))
  | .list items =>
    refine bind (evalAll items _ _) fun items items' same => obtain ?_
    exact .list same (List.subset_append_right ..) (List.subset_append_right ..)
  | .cons members ring =>
    refine bind (evalAll members _ _) fun members members' same => obtain ?_
    exact .cons ring same (List.subset_append_right ..) (List.subset_append_right ..)
  | .path slots origin =>
    refine bind (eval origin _ _) fun value value' same => ?_
    exact descend slots same List.mem_concat_self List.mem_concat_self

theorem evalAll (es : List Expr) (needs needs' : List Value) :
    Agrees needs needs' [] [] (Expr.evalAll es) (Expr.evalAll es) (List.map Value.mask) nothing
      fun values => values := by
  match es with
  | [] => exact pure rfl (List.forall_mem_nil _) (List.forall_mem_nil _)
  | e :: es =>
    refine bind (eval e _ _) fun value value' same => ?_
    refine bind (evalAll es _ _) fun values values' alike => ?_
    refine pure (congrArg₂ List.cons same alike) (fun other member => Or.inl ?_)
      fun other member => Or.inl ?_
    · rw [List.append_assoc]
      exact List.mem_append_right _ member
    · rw [List.append_assoc]
      exact List.mem_append_right _ member

end

end Agrees

end Act

end Sexpr
