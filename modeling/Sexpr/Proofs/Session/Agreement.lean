import Sexpr.Proofs.Session.Alike

/-!
# Commands that agree

Sessions that are alike give the same answers to all commands, as far as these do not probe what
is still alive (`Command.probes`). Where an answer compares atoms, identities of held atoms tell no
more than kinds and names. Where a command lets go of handles, what is still held leads to a common
part of the heaps. `Agrees.perform` collects the commands case by case.
-/

namespace Sexpr

open Ledger

namespace Command

/-- Whether a command asks what is still alive, or makes a fresh name, which depends on it. -/
def probes : Command → Bool
  | upgrade _ => true
  | isInterned _ _ => true
  | fresh _ => true
  | freshAfter _ _ => true
  | call name _ _ => Entry.named? name == some .gensym
  | tracked => true
  | _ => false

/-- Whether a command is a collection. -/
def collects : Command → Bool
  | collect => true
  | _ => false

end Command

/-! ## What answers tell of identities -/

theorem Atom.description_mask (a : Atom) : a.mask.description = a.description := rfl

theorem Atom.description_eq {a b : Atom} (same : a.mask = b.mask) :
    a.description = b.description := by
  rw [← description_mask, same, description_mask]

theorem Atom.descriptions_eq {atoms atoms' : List Atom}
    (same : atoms.map Atom.mask = atoms'.map Atom.mask) :
    atoms.map Atom.description = atoms'.map Atom.description := by
  have masked : ∀ atoms : List Atom,
      atoms.map Atom.description = (atoms.map Atom.mask).map Atom.description := fun atoms => by
    rw [List.map_map]
    exact List.map_congr_left fun a _ => (description_mask a).symm
  rw [masked, same, ← masked]

theorem Value.inspection_eq {value value' : Value} (same : value.mask = value'.mask) :
    value.inspection = value'.inspection := by
  obtain rfl | ⟨id, id', kind, name, rfl, rfl⟩ := Value.mask_eq_cases same
  · rfl
  · rfl

/-- Only between atoms does equality look at identities that a mask hides. -/
theorem Value.equal_mask (first second : Value) (plain : first.atom? = none ∨ second.atom? = none) :
    first.mask.equal second.mask = first.equal second := by
  rcases first with (_ | _ | _ | _ | _ | a) | p
  case scalar.atom =>
    rcases second with (_ | _ | _ | _ | _ | b) | q
    case scalar.atom => rcases plain with none | none <;> cases none
    all_goals rfl
  all_goals rcases second with (_ | _ | _ | _ | _ | b) | q <;> rfl

theorem Value.eq_atom {value value' : Value} {a : Atom} (same : value.mask = value'.mask)
    (atom : value.atom? = some a) :
    value = .atom a ∧ ∃ a', value' = .atom a' ∧ a.mask = a'.mask := by
  obtain rfl | ⟨id, id', kind, name, rfl, rfl⟩ := Value.mask_eq_cases same
  · rcases value with (_ | _ | _ | _ | _ | b) | p
    case scalar.atom =>
      cases atom
      exact ⟨rfl, a, rfl, rfl⟩
    all_goals cases atom
  · cases atom
    exact ⟨rfl, _, rfl, rfl⟩

/-- Lists have as many different members if they tell the same members apart. Each round takes out
one member with all that are the same, so both lists shrink together. -/
theorem length_eraseDups_map {α β γ : Type} [BEq β] [LawfulBEq β] [BEq γ] [LawfulBEq γ] {f : α → β}
    {g : α → γ} (members : List α)
    (same : ∀ a ∈ members, ∀ b ∈ members, f a = f b ↔ g a = g b) :
    (members.map f).eraseDups.length = (members.map g).eraseDups.length := by
  match members with
  | [] => rfl
  | first :: rest =>
    have rests : rest.filter ((fun b => !b == f first) ∘ f) =
        rest.filter ((fun b => !b == g first) ∘ g) := by
      refine List.filter_congr fun a member => congrArg not ?_
      rw [Bool.eq_iff_iff, beq_iff_eq, beq_iff_eq]
      exact same a (List.mem_cons_of_mem _ member) first List.mem_cons_self
    rw [List.map_cons, List.map_cons, List.eraseDups_cons, List.eraseDups_cons, List.filter_map,
      List.filter_map, rests, List.length_cons, List.length_cons]
    refine congrArg Nat.succ (length_eraseDups_map _ fun a inA b inB => ?_)
    exact same a (List.mem_cons_of_mem _ (List.mem_filter.1 inA).1) b
      (List.mem_cons_of_mem _ (List.mem_filter.1 inB).1)
termination_by members.length
decreasing_by exact Nat.lt_succ_of_le (List.length_filter_le ..)

namespace Ledger

variable {ledger ledger' : Ledger}

theorem Available.holds {a : Atom} (available : Available ledger.outside (.atom a)) :
    ledger.Holds (.atom a) :=
  Or.inl (@Available.mem_of_weak _ (.atom a) available)

/-- Held atoms are as many as their kinds with names. -/
theorem Reached.countDistinct_eq (reached : Reached ledger) {atoms : List Atom}
    (available : ∀ a ∈ atoms, Available ledger.outside (.atom a)) :
    Atom.countDistinct atoms = (atoms.map Atom.mask).eraseDups.length := by
  refine length_eraseDups_map atoms fun a inA b inB => ?_
  rw [reached.sound.id_eq_iff (available a inA).holds (available b inB).holds, Atom.mask_eq_iff]

/-- Equality of values that are held on both sides. -/
theorem Reached.equal_eq (reached : Reached ledger) (reached' : Reached ledger')
    {first second first' second' : Value} (same : first.mask = first'.mask)
    (same' : second.mask = second'.mask)
    (usable : Available ledger.outside first) (usable' : Available ledger'.outside first')
    (ready : Available ledger.outside second) (ready' : Available ledger'.outside second') :
    first.equal second = first'.equal second' := by
  have plain : (first.atom? = none ∨ second.atom? = none) →
      (first'.atom? = none ∨ second'.atom? = none) →
      first.equal second = first'.equal second' := fun named named' => by
    rw [← Value.equal_mask _ _ named, same, same', Value.equal_mask _ _ named']
  cases found : first.atom? with
  | none => exact plain (Or.inl found) (Or.inl ((Value.atom?_eq_none same).1 found))
  | some a =>
    cases found' : second.atom? with
    | none => exact plain (Or.inr found') (Or.inr ((Value.atom?_eq_none same').1 found'))
    | some b =>
      obtain ⟨rfl, a', rfl, masksA⟩ := Value.eq_atom same found
      obtain ⟨rfl, b', rfl, masksB⟩ := Value.eq_atom same' found'
      have tells := reached.sound.id_eq_iff usable.holds ready.holds
      have tells' := reached'.sound.id_eq_iff usable'.holds ready'.holds
      change (a.id == b.id) = (a'.id == b'.id)
      rw [Bool.eq_iff_iff, beq_iff_eq, beq_iff_eq, tells, tells', ← Atom.mask_eq_iff,
        ← Atom.mask_eq_iff, masksA, masksB]

end Ledger

namespace Act.Agrees

variable {α β γ δ : Type} {needs needs' : List Value} {value value' : Value}

/-! ## Registers, cursors and weak references -/

theorem map_mask_toList {item item' : Option Value}
    (same : item.map Value.mask = item'.map Value.mask) :
    item.toList.map Value.mask = item'.toList.map Value.mask := by
  rw [← Option.toList_map, same, Option.toList_map]

theorem assign (name : String) (same : value.mask = value'.mask) (member : value ∈ needs)
    (member' : value' ∈ needs') :
    Agrees needs needs' [] [] (Act.assign name value) (Act.assign name value') id nothing
      nothing where
  left := .assign name member
  right := .assign name member'
  same {session session'} kept kept' alike available available' := by
    obtain ⟨store, registers, cursors, weaks, temporaries⟩ := session
    obtain ⟨store', registers', cursors', weaks', temporaries'⟩ := session'
    have parts := Session.perm_held_register store weaks temporaries cursors kept.registers name
    have parts' :=
      Session.perm_held_register store' weaks' temporaries' cursors' kept'.registers name
    have retained := (alike.twins kept kept').retain same
      (Session.available_held (available value member))
      (Session.available_held (available' value' member'))
    have order := retained.perm ((parts.cons value).trans List.perm_middle.symm)
      ((parts'.cons value').trans List.perm_middle.symm)
    refine .ok rfl ⟨rfl, ?_, alike.cursors, alike.temporaries, ?_⟩
    · exact Scope.put_eq alike.registers name same
    · exact order.releaseAll (map_mask_toList (Scope.find?_eq alike.registers name))

theorem unassign (name : String) :
    Agrees needs needs' [] [] (Act.unassign name) (Act.unassign name) id nothing nothing where
  left := .unassign name
  right := .unassign name
  same {session session'} kept kept' alike _ _ := by
    obtain ⟨store, registers, cursors, weaks, temporaries⟩ := session
    obtain ⟨store', registers', cursors', weaks', temporaries'⟩ := session'
    have parts := Session.perm_held_register store weaks temporaries cursors kept.registers name
    have parts' :=
      Session.perm_held_register store' weaks' temporaries' cursors' kept'.registers name
    have found := Scope.find?_eq alike.registers name
    have existed : (registers.find? name).isSome = (registers'.find? name).isSome := by
      simpa using congrArg Option.isSome found
    refine .ok existed ⟨rfl, ?_, alike.cursors, alike.temporaries, ?_⟩
    · exact Scope.erase_eq alike.registers name
    · exact ((alike.twins kept kept').perm parts parts').releaseAll (map_mask_toList found)

theorem setCursor (name : String) (cursor : Cursor) :
    Agrees needs needs' cursor.held cursor.held (Act.setCursor name cursor)
      (Act.setCursor name cursor) id nothing nothing where
  left := .setCursor name cursor
  right := .setCursor name cursor
  same {session session'} kept kept' alike _ _ := by
    obtain ⟨store, registers, cursors, weaks, temporaries⟩ := session
    obtain ⟨store', registers', cursors', weaks', temporaries'⟩ := session'
    cases alike.cursors
    have parts := Session.perm_held_cursor store weaks temporaries registers kept.cursors name
    have parts' := Session.perm_held_cursor store' weaks' temporaries' registers' kept'.cursors name
    have order := (alike.twins kept kept').perm
      ((parts.append_left cursor.held).trans (List.perm_append_comm_assoc ..))
      ((parts'.append_left cursor.held).trans (List.perm_append_comm_assoc ..))
    refine .ok rfl ⟨rfl, alike.registers, rfl, alike.temporaries, ?_⟩
    refine (order.releaseAll rfl).mono fun q root => ?_
    exact (Session.perm_held_put_cursor ..).mem_iff.2 root

theorem dropCursor (name : String) :
    Agrees needs needs' [] [] (Act.dropCursor name) (Act.dropCursor name) id nothing nothing where
  left := .dropCursor name
  right := .dropCursor name
  same {session session'} kept kept' alike _ _ := by
    obtain ⟨store, registers, cursors, weaks, temporaries⟩ := session
    obtain ⟨store', registers', cursors', weaks', temporaries'⟩ := session'
    cases alike.cursors
    have parts := Session.perm_held_cursor store weaks temporaries registers kept.cursors name
    have parts' := Session.perm_held_cursor store' weaks' temporaries' registers' kept'.cursors name
    refine .ok rfl ⟨rfl, alike.registers, rfl, alike.temporaries, ?_⟩
    exact ((alike.twins kept kept').perm parts parts').releaseAll rfl

theorem advance (name : String) :
    Agrees needs needs' [] [] (Act.advance name) (Act.advance name)
      (Prod.map (Option.map Value.mask) id) nothing fun answer => answer.1.toList where
  left := .advance name
  right := .advance name
  same {session session'} kept kept' alike _ _ := by
    have same := congrArg (Scope.find? · name) alike.cursors
    cases found : session.cursors.find? name with
    | none =>
      rw [run_advance_none found, run_advance_none (same.symm.trans found)]
      exact .stop alike
    | some cursor =>
      have found' := same.symm.trans found
      rw [run_advance found, run_advance found']
      obtain ⟨store, registers, cursors, weaks, temporaries⟩ := session
      obtain ⟨store', registers', cursors', weaks', temporaries'⟩ := session'
      have parts := Session.perm_held_cursor store weaks temporaries registers kept.cursors name
      have parts' :=
        Session.perm_held_cursor store' weaks' temporaries' registers' kept'.cursors name
      rw [found, Option.toList_some, List.flatMap_singleton] at parts
      rw [found', Option.toList_some, List.flatMap_singleton] at parts'
      obtain ⟨items, behind, mirrored⟩ := ((alike.twins kept kept').perm parts parts').next
      refine .ok (Prod.ext items behind) ⟨rfl, alike.registers, ?_, ?_, mirrored.mono ?_⟩
      · exact congrArg₂ (fun cursors cursor => Scope.put cursors name cursor) alike.cursors behind
      · rw [List.map_append, List.map_append, map_mask_toList items, alike.temporaries]
      · intro q root
        have order := ((Session.perm_held_put_cursor store weaks temporaries registers cursors name
          (cursor.next store).1.2).append_left (cursor.next store).1.1.toList).trans
            (List.perm_append_comm_assoc ..)
        exact order.mem_iff.2 root

/-- Weak references are not looked at. -/
theorem weaken (name : String) (weak weak' : Weak) (member : weak.value ∈ needs)
    (member' : weak'.value ∈ needs') :
    Agrees needs needs' [] []
      (modify fun session => { session with weaks := session.weaks.put name weak } : Act Unit)
      (modify fun session => { session with weaks := session.weaks.put name weak' } : Act Unit)
      id nothing nothing where
  left := .weaken name weak member
  right := .weaken name weak' member'
  same _ _ alike _ _ := .ok rfl
    ⟨rfl, alike.registers, alike.cursors, alike.temporaries, alike.mirrored⟩

/-! ## Looking at values -/

theorem mapM {view : γ → β} {yields : γ → List Value} {look : α → Act γ} {key : α → δ}
    {inputs inputs' : List α} (same : inputs.map key = inputs'.map key)
    (each : ∀ input ∈ inputs, ∀ input' ∈ inputs', key input = key input' →
      Agrees needs needs' [] [] (look input) (look input') view nothing yields) :
    Agrees needs needs' [] [] (inputs.mapM look) (inputs'.mapM look) (List.map view) nothing
      fun answers => answers.flatMap yields := by
  induction inputs generalizing needs needs' inputs' with
  | nil =>
    cases List.map_eq_nil_iff.1 same.symm
    exact pure rfl (List.forall_mem_nil _) (List.forall_mem_nil _)
  | cons input inputs ih =>
    obtain ⟨input', inputs', rfl, equal, rests⟩ := List.map_eq_cons_iff.1 same.symm
    rw [List.mapM_cons, List.mapM_cons]
    have seen := each input List.mem_cons_self input' List.mem_cons_self equal.symm
    refine bind seen fun first first' firsts => ?_
    refine bind (ih rests.symm fun other member other' member' equal => ?_)
      fun rest rest' rests => ?_
    · have seen := each other (List.mem_cons_of_mem _ member) other'
        (List.mem_cons_of_mem _ member') equal
      exact seen.mono (List.subset_append_left ..) (List.subset_append_left ..)
    · refine pure (congrArg₂ List.cons firsts rests) (fun value member => Or.inl ?_)
        fun value member => Or.inl ?_
      · rw [List.append_assoc]
        exact List.mem_append_right _ member
      · rw [List.append_assoc]
        exact List.mem_append_right _ member

theorem describe (same : value.mask = value'.mask) (member : value ∈ needs) :
    Agrees needs needs' [] [] (Act.describe value) (Act.describe value') id nothing nothing := by
  refine observe (.describe value) (.describe value') fun mirrors inside => ?_
  refine Sees.describe mirrors same ?_
  rintro q rfl
  exact inside q member

theorem describeItem {item item' : Option Value}
    (same : item.map Value.mask = item'.map Value.mask) (member : item.toList ⊆ needs) :
    Agrees needs needs' [] [] (item.mapM Act.describe) (item'.mapM Act.describe) id nothing
      nothing := by
  cases item with
  | none =>
    cases Option.map_eq_none_iff.1 same.symm
    exact done rfl
  | some value =>
    obtain ⟨value', rfl, masks⟩ := Option.map_eq_some_iff.1 same.symm
    rw [Option.mapM_some, Option.mapM_some, ← bind_pure_comp, ← bind_pure_comp]
    refine bind (describe masks.symm (member List.mem_cons_self)) fun _ _ equal => ?_
    exact done (congrArg some equal)

/-- What is seen of an answer and of the value that comes with it. -/
def seen (answer : Answer × Option Value) : Answer × Option Value :=
  (answer.1, answer.2.map Value.mask)

/-- The answer of a command that makes nothing. -/
theorem answer {answer answer' : Answer} (same : answer = answer') :
    Agrees needs needs' [] [] (Pure.pure (answer, none)) (Pure.pure (answer', none)) seen nothing
      fun answer => answer.2.toList :=
  pure (congrArg (fun answer => seen (answer, none)) same) (List.forall_mem_nil _)
    (List.forall_mem_nil _)

/-- The answer of a command that makes a value. -/
theorem answerWith {answer answer' : Answer} (same : answer = answer')
    (masks : value.mask = value'.mask) (member : value ∈ needs) (member' : value' ∈ needs') :
    Agrees needs needs' [] [] (Pure.pure (answer, some value)) (Pure.pure (answer', some value'))
      seen nothing fun answer => answer.2.toList :=
  pure (Prod.ext same (congrArg some masks)) (available_single member) (available_single member')

theorem made (same : value.mask = value'.mask) (member : value ∈ needs)
    (member' : value' ∈ needs') :
    Agrees needs needs' [] [] (Act.made value) (Act.made value') seen nothing
      fun answer => answer.2.toList := by
  refine bind (describe same member) fun _ _ equal => ?_
  exact answerWith (congrArg Answer.described equal) same (List.mem_append_left _ member)
    (List.mem_append_left _ member')

theorem pairOf (same : value.mask = value'.mask) (member : value ∈ needs)
    (member' : value' ∈ needs') :
    Agrees needs needs' [] [] (Act.pairOf value) (Act.pairOf value') id nothing
      fun p => [.pair p] := by
  obtain rfl | ⟨id, id', kind, name, rfl, rfl⟩ := Value.mask_eq_cases same
  · cases value with
    | scalar s => exact stop _
    | pair p =>
      exact pure rfl (available_single member) (available_single member')
  · exact stop _

theorem atomOf (same : value.mask = value'.mask) (member : value ∈ needs)
    (member' : value' ∈ needs') :
    Agrees needs needs' [] [] (Act.atomOf value) (Act.atomOf value') Atom.mask nothing
      fun a => [.atom a] := by
  unfold Act.atomOf
  cases found : value.atom? with
  | none =>
    rw [(Value.atom?_eq_none same).1 found]
    exact stop _
  | some a =>
    obtain ⟨rfl, a', rfl, masks⟩ := Value.eq_atom same found
    exact pure masks (available_single member) (available_single member')

/-- The atoms that values are. -/
theorem atomsOf {values values' : List Value}
    (same : values.map Value.mask = values'.map Value.mask) (less : values ⊆ needs)
    (less' : values' ⊆ needs') :
    Agrees needs needs' [] [] (values.mapM Act.atomOf) (values'.mapM Act.atomOf)
      (List.map Atom.mask) nothing fun atoms => atoms.flatMap fun a => [.atom a] :=
  mapM same fun _ member _ member' equal => atomOf equal (less member) (less' member')

theorem evalPair (e : Expr) :
    Agrees needs needs' [] [] (Act.evalPair e) (Act.evalPair e) id nothing fun p => [.pair p] :=
  bind (eval e _ _) fun _ _ same => pairOf same List.mem_concat_self List.mem_concat_self

theorem evalPairs (es : List Expr) :
    Agrees needs needs' [] [] (Act.evalPairs es) (Act.evalPairs es) (List.map id) nothing
      fun pairs => pairs.flatMap fun p => [.pair p] := by
  refine bind (evalAll es _ _) fun values values' same => ?_
  refine mapM same fun value member value' member' same => ?_
  exact pairOf same (List.mem_append_right _ member) (List.mem_append_right _ member')

/-! ## Commands -/

/-- Both come by a value and describe it. -/
theorem fetch {targets targets' : List Value}
    {operation operation' : Store → Except Fault Value × Store}
    (agrees : Ledger.Agrees targets targets' [] [] operation operation' Value.mask
      fun value => [value])
    (less : targets ⊆ needs) (less' : targets' ⊆ needs') :
    Agrees needs needs' [] [] (do Act.made (← Act.tryObtain operation))
      (do Act.made (← Act.tryObtain operation')) seen nothing fun answer => answer.2.toList := by
  refine bind (tryObtain (agrees.mono less less')) fun _ _ same => ?_
  exact made same List.mem_concat_self List.mem_concat_self

/-- Writing takes a handle on the value, whether or not it succeeds. -/
theorem write {targets targets' : List Value}
    {operation operation' : Store → Except Fault Unit × Store} {shown shown' : Value}
    (agrees : Ledger.Agrees targets targets' [value] [value'] operation operation' id fun _ => [])
    (masks : value.mask = value'.mask) (same : shown.mask = shown'.mask)
    (less : shown :: targets ⊆ needs) (less' : targets' ⊆ needs') (member : value ∈ needs)
    (member' : value' ∈ needs') :
    Agrees needs needs' [] []
      (do
        let _ ← Act.attempt fun store => operation (store.retain value)
        return (Answer.described (← Act.describe shown), (none : Option Value)))
      (do
        let _ ← Act.attempt fun store => operation' (store.retain value')
        return (Answer.described (← Act.describe shown'), (none : Option Value)))
      seen nothing fun answer => answer.2.toList := by
  obtain ⟨first, rest⟩ := List.cons_subset.1 less
  refine bind (attempt ((agrees.mono rest less').retaining masks member member') fun _ => rfl)
    fun _ _ _ => ?_
  refine bind (describe same (List.mem_append_left _ first)) fun _ _ equal => ?_
  exact answer (congrArg Answer.described equal)

theorem showSlots (target : Expr) :
    Agrees needs needs' [] [] (Command.showSlots target).perform (Command.showSlots target).perform
      seen nothing fun answer => answer.2.toList := by
  refine bind (evalPair target) fun p p' same => ?_
  cases same
  -- Nobody holds what stands in the slots, so all three descriptions are seen in one store.
  refine observe ?left ?right fun mirrors inside => ?_
  case left | right =>
    refine .bind (.query _) fun slots => ?_
    refine .bind (.describe slots.1) fun _ => .bind (.describe slots.2) fun _ => ?_
    exact .bind (.describe (.pair p)) fun _ => .answer _
  have inner := inside p List.mem_concat_self
  have heads := mirrors.mask_read inner .head
  have tails := mirrors.mask_read inner .tail
  refine .query ?_
  refine (Sees.describe mirrors heads fun q => mirrors.closed p .head q inner).bind ?_
  rintro head _ rfl
  refine (Sees.describe mirrors tails fun q => mirrors.closed p .tail q inner).bind ?_
  rintro tail _ rfl
  refine (Sees.describe mirrors rfl fun q same => Value.pair.inj same ▸ inner).bind ?_
  rintro whole _ rfl
  exact .pure (congrArg₂
    (fun first second => seen (.slots ⟨head, tail, first, second, whole⟩, none))
    (Value.isTruthy_eq heads) (Value.isTruthy_eq tails))

theorem performDescend (slot : Slot) {p : PairId} (member : .pair p ∈ needs) :
    Agrees needs needs' [] [] (Command.performDescend slot p) (Command.performDescend slot p) seen
      nothing fun answer => answer.2.toList := by
  refine observe (.performDescend slot p) (.performDescend slot p) ?_
  intro store store' common mirrors inside
  have follows := mirrors.follow slot (inside p member)
  refine .query (.query ?_)
  refine (Sees.describe mirrors follows.stop follows.behind).bind ?_
  rintro stop _ rfl
  have positions : (store.heap.follow slot p).pairs.map store.heap.position? =
      (store'.heap.follow slot p).pairs.map store'.heap.position? := by
    rw [← follows.pairs]
    exact List.map_congr_left fun q visited => mirrors.position? (follows.visited q visited)
  refine .pure ?_
  rw [positions, follows.pairs]

/-- Both change positions in the same way, and look at that of a pair. -/
theorem reposition {p : PairId} (change : Heap → Heap) (member : .pair p ∈ needs)
    (reaches : ∀ {store : Store} {outside : List Value} {weaks : List Weak},
      Reached ⟨store, outside, weaks⟩ → Reached ⟨store.mapHeap change, outside, weaks⟩)
    (mirrors : ∀ {heap other : Heap} {common : PairId → Prop}, heap.Mirrors other common →
      common p → (change heap).Mirrors (change other) common) :
    Agrees needs needs' [] []
      (do
        Act.onStore fun store => ((), store.mapHeap change)
        return (Answer.position (← Act.query (·.heap.position? p)), (none : Option Value)))
      (do
        Act.onStore fun store => ((), store.mapHeap change)
        return (Answer.position (← Act.query (·.heap.position? p)), (none : Option Value)))
      seen nothing fun answer => answer.2.toList := by
  refine bind (onStore (.position change member reaches mirrors) fun _ => rfl) fun _ _ _ => ?_
  refine observe ?left ?right fun mirrors inside => ?_
  case left | right => exact .bind (.query _) fun _ => .answer _
  refine .query (.pure ?_)
  rw [mirrors.position? (inside p (List.mem_append_left _ member))]

/-- A weak reference is to a pair or to an atom. -/
theorem weakenTo (name : String) (target : Expr) :
    Agrees needs needs' [] [] (Command.weaken name target).perform
      (Command.weaken name target).perform seen nothing fun answer => answer.2.toList := by
  refine bind (eval target _ _) fun value value' same => ?_
  have types := congrArg Answer.weak (Value.typeName_eq same)
  cases value with
  | pair p =>
    cases Value.mask_eq_pair_iff.1 same.symm
    dsimp only [Value.pair?]
    rw [pure_bind]
    refine bind (weaken name (.pair p) (.pair p) ?_ ?_) fun _ _ _ => answer types
    · exact List.mem_concat_self
    · exact List.mem_concat_self
  | scalar s =>
    obtain ⟨s', rfl⟩ : ∃ s', value' = .scalar s' := by
      cases value' with
      | scalar s' => exact ⟨s', rfl⟩
      | pair q => cases same
    dsimp only [Value.pair?]
    refine bind (atomOf same List.mem_concat_self List.mem_concat_self) fun a a' _ => ?_
    rw [pure_bind, pure_bind]
    refine bind (weaken name (.atom a) (.atom a') ?_ ?_) fun _ _ _ => answer types
    · exact List.mem_concat_self
    · exact List.mem_concat_self

theorem callEntry (name : String) (positional : List Expr) (named : List (String × Expr))
    (plain : Entry.named? name ≠ some .gensym) :
    Agrees needs needs' [] [] (Command.call name positional named).perform
      (Command.call name positional named).perform seen nothing fun answer => answer.2.toList := by
  refine bind (evalAll positional _ _) fun values values' same => ?_
  have bound : Agrees (needs ++ values) (needs' ++ values') [] [] (Act.evalNamed named)
      (Act.evalNamed named) (List.map (Prod.map id Value.mask)) nothing nothing := by
    refine bind (evalAll _ _ _) fun given given' equal => done ?_
    rw [← List.zip_map, ← List.zip_map, equal]
  refine bind bound fun arguments arguments' equal => ?_
  cases found : Entry.named? name with
  | none => exact answer rfl
  | some entry =>
    have masks : Arguments.mask ⟨values, arguments⟩ = Arguments.mask ⟨values', arguments'⟩ :=
      congrArg₂ Arguments.mk same equal
    have called := @Ledger.Agrees.call entry _ _ masks fun gensym => plain (gensym ▸ found)
    exact fetch called (by simp) (by simp)

/-- How many different atoms there are. -/
theorem countOf {atoms atoms' : List Atom} (report : Nat → Answer)
    (same : atoms.map Atom.mask = atoms'.map Atom.mask) :
    Agrees (needs ++ atoms.flatMap fun a => [.atom a]) (needs' ++ atoms'.flatMap fun a => [.atom a])
      [] [] (Pure.pure (report (Atom.countDistinct atoms), none))
      (Pure.pure (report (Atom.countDistinct atoms'), none)) seen nothing
      fun answer => answer.2.toList := by
  refine judge (List.forall_mem_nil _) (List.forall_mem_nil _) fun reached reached' held held' => ?_
  have listed : ∀ {needs : List Value} {atoms : List Atom}, ∀ a ∈ atoms,
      Value.atom a ∈ needs ++ atoms.flatMap fun a => [.atom a] := fun a member =>
    List.mem_append_right _ (List.mem_flatMap_of_mem member List.mem_cons_self)
  have count := reached.countDistinct_eq fun a member => held _ (listed a member)
  have count' := reached'.countDistinct_eq fun a member => held' _ (listed a member)
  rw [count, count', same]

/-- Every command that does not probe what is alive agrees, collections apart. -/
theorem perform {command : Command} (plain : command.probes = false)
    (keeps : command.collects = false) :
    Agrees [] [] [] [] command.perform command.perform seen nothing
      fun answer => answer.2.toList := by
  cases command with
  | describe value =>
    exact bind (eval value _ _) fun _ _ same => made same List.mem_concat_self List.mem_concat_self
  | typeOf value =>
    refine bind (eval value _ _) fun _ _ same => ?_
    exact answerWith (congrArg Answer.typed (Value.typeName_eq same)) same List.mem_concat_self
      List.mem_concat_self
  | dropRegister name =>
    exact bind (unassign name) fun _ _ same => answer (congrArg Answer.dropped same)
  | inspect value =>
    refine bind (eval value _ _) fun _ _ same => ?_
    exact answer (congrArg Answer.inspected (Value.inspection_eq same))
  | compare first second =>
    refine bind (eval first _ _) fun first first' same => ?_
    refine bind (eval second _ _) fun second second' same' => ?_
    refine judge (List.forall_mem_nil _) (List.forall_mem_nil _)
      fun reached reached' held held' => ?_
    have equal := reached.equal_eq reached' same same' (held _ (by simp)) (held' _ (by simp))
      (held _ (by simp)) (held' _ (by simp))
    exact congrArg (fun equal => seen (.compared equal, none)) equal
  | getSlot slot target =>
    refine bind (eval target _ _) fun target target' same => ?_
    exact fetch (.slotOf same) (List.subset_append_right ..) (List.subset_append_right ..)
  | setSlot slot target value =>
    refine bind (eval target _ _) fun target target' same => ?_
    refine bind (eval value _ _) fun value value' masks => ?_
    exact write (.setSlotOf same masks) masks same (by simp) (by simp) List.mem_concat_self
      List.mem_concat_self
  | getItem target index =>
    refine bind (eval target _ _) fun target target' same => ?_
    exact fetch (.item index same) (List.subset_append_right ..) (List.subset_append_right ..)
  | setItem target index value =>
    refine bind (eval target _ _) fun target target' same => ?_
    refine bind (eval value _ _) fun value value' masks => ?_
    exact write (.setItem index same masks) masks same (by simp) (by simp) List.mem_concat_self
      List.mem_concat_self
  | getPairItem target index =>
    refine bind (evalPair target) fun p p' same => ?_
    cases same
    exact fetch (.pairItem index) (List.subset_append_right ..) (List.subset_append_right ..)
  | setPairItem target index value =>
    refine bind (evalPair target) fun p p' same => ?_
    cases same
    refine bind (eval value _ _) fun value value' masks => ?_
    exact write (.setPairItem index masks) masks rfl (by simp) (by simp) List.mem_concat_self
      List.mem_concat_self
  | showSlots target => exact showSlots target
  | identify first second =>
    refine bind (evalPair first) fun p p' same => bind (evalPair second) fun q q' same' => ?_
    cases same
    cases same'
    exact answer rfl
  | isEndless target =>
    refine bind (evalPair target) fun p p' same => ?_
    cases same
    refine observe ?left ?right fun mirrors inside => ?_
    case left | right => exact .bind (.query _) fun _ => .answer _
    have follows := mirrors.follow .tail (inside p List.mem_concat_self)
    refine .query (.pure (congrArg (fun endless => seen (.endless endless, none)) ?_))
    exact Value.isPair_eq follows.stop
  | digest value =>
    refine bind (eval value _ _) fun _ _ same => ?_
    refine bind (describe same List.mem_concat_self) fun description description' equal => ?_
    cases equal
    exact answer rfl
  | grow seed count growth numbered =>
    refine bind (eval seed _ _) fun seed seed' same => ?_
    refine bind (obtain (.grow growth numbered count.toNat same ?_ ?_)) fun _ _ same => ?_
    · exact List.mem_concat_self
    · exact List.mem_concat_self
    · exact answerWith (congrArg Answer.typed (Value.typeName_eq same)) same List.mem_concat_self
        List.mem_concat_self
  | descend slot target =>
    refine bind (evalPair target) fun p p' same => ?_
    cases same
    exact performDescend slot List.mem_concat_self
  | openCursor name target =>
    refine bind (eval target _ _) fun target target' same => ?_
    refine bind (attempt ((Ledger.Agrees.start same).mono ?_ ?_) ?_) fun cursor cursor' equal => ?_
    · exact List.subset_append_right ..
    · exact List.subset_append_right ..
    · exact fun equal => congrArg (fun cursor => cursor.held.map Value.mask) equal
    · cases equal
      exact bind (setCursor name cursor) fun _ _ _ => answer rfl
  | nextItem name =>
    refine bind (advance name) fun moved moved' same => ?_
    obtain ⟨items, cursors⟩ := Prod.mk.inj same
    refine bind (describeItem items (List.subset_append_right ..)) fun shown shown' equal => ?_
    cases equal
    refine pure (Prod.ext ?_ items) (fun value member => ?_) fun value member => ?_
    · exact congrArg (fun cursor : Cursor => Answer.item shown cursor.remaining cursor.isExhausted)
        cursors
    · exact Or.inl (by simpa using member)
    · exact Or.inl (by simpa using member)
  | dropCursor name =>
    exact bind (dropCursor name) fun _ _ same => answer (congrArg Answer.dropped same)
  | weaken name target => exact weakenTo name target
  | upgrade name => cases plain
  | assignPosition target position follow =>
    refine bind (evalPair target) fun p p' same => ?_
    cases same
    refine reposition (·.assignPosition p position follow) List.mem_concat_self ?_ ?_
    · exact fun reached => reached.step (.assignPosition p position follow)
    · exact fun mirrors inner => mirrors.assignPosition inner position follow
  | fillPosition target position follow =>
    refine bind (evalPair target) fun p p' same => ?_
    cases same
    refine reposition (·.fillPosition p position follow) List.mem_concat_self ?_ ?_
    · exact fun reached => reached.step (.fillPosition p position follow)
    · exact fun mirrors inner => mirrors.fillPosition inner position follow
  | positions targets =>
    refine bind (evalPairs targets) fun pairs pairs' same => ?_
    rw [List.map_id, List.map_id] at same
    cases same
    refine observe ?left ?right fun mirrors inside => ?_
    case left | right => exact .bind (.query _) fun _ => .answer _
    refine .query (.pure (congrArg (fun positions => seen (.positions positions, none)) ?_))
    refine List.map_congr_left fun p member => mirrors.position? (inside p ?_)
    exact List.mem_append_right _ (List.mem_flatMap_of_mem member List.mem_cons_self)
  | internValue kind value =>
    refine bind (eval value _ _) fun value value' same => ?_
    refine bind (attempt ((Ledger.Agrees.internValue kind same).mono ?_ ?_) ?_) fun a a' masks => ?_
    · exact List.subset_append_right ..
    · exact List.subset_append_right ..
    · exact fun masks => congrArg (fun a => [Value.atom a]) masks
    · have equal : (Value.atom a).mask = (Value.atom a').mask := congrArg Value.atom masks
      exact hold equal (made equal List.mem_concat_self List.mem_concat_self)
  | isInterned kind raw => cases plain
  | distinct targets =>
    refine bind (evalAll targets _ _) fun values values' same => ?_
    refine bind (atomsOf same (List.subset_append_right ..) (List.subset_append_right ..))
      fun atoms atoms' equal => ?_
    exact countOf Answer.distinct equal
  | splitAtom side sep limit target =>
    refine bind (eval target _ _) fun target target' same => ?_
    refine bind (atomOf same List.mem_concat_self List.mem_concat_self) fun a a' masks => ?_
    refine bind (attempt (.splitAtom side sep limit masks) Ledger.Agrees.map_mask_atoms)
      fun atoms atoms' equal => ?_
    refine bind (obtain (.listAtoms equal)) fun _ _ lists => ?_
    exact answerWith (congrArg Answer.pieces (Atom.descriptions_eq equal)) lists
      List.mem_concat_self List.mem_concat_self
  | fresh stem => cases plain
  | freshAfter stem rejects => cases plain
  | call name positional named =>
    refine callEntry name positional named fun gensym => ?_
    rw [Command.probes, gensym] at plain
    cases plain
  | collect => cases keeps
  | tracked => cases plain
  | threadList start count =>
    refine bind (obtain (.listOnThread (Conducts.integers start count.toNat))) fun _ _ same => ?_
    exact answerWith (congrArg Answer.typed (Value.typeName_eq same)) same List.mem_concat_self
      List.mem_concat_self
  | threadDrop name =>
    exact bind (unassign name) fun _ _ same => answer (congrArg Answer.dropped same)
  | threadIntern threads kind raw =>
    refine bind (evalAll _ _ _) fun values values' same => ?_
    refine bind (atomsOf same (List.subset_append_right ..) (List.subset_append_right ..))
      fun atoms atoms' equal => ?_
    cases atoms with
    | nil =>
      cases List.map_eq_nil_iff.1 equal.symm
      exact stop _
    | cons first rest =>
      obtain ⟨first', rest', rfl, masks, -⟩ := List.map_eq_cons_iff.1 equal.symm
      dsimp only
      rw [Atom.description_eq masks]
      exact countOf (fun count => .agreed count first.description) equal

end Act.Agrees

end Sexpr
