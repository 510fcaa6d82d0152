import Sexpr.Proofs.Interning
import Sexpr.Proofs.Store.Twins

/-!
# Operations that agree

`Ledger.Agrees` is the rule for one operation on two ledgers that holders cannot tell apart, with
arguments that are equal when masked: both are refused for the same reason, or both have answers
that look the same, and holders cannot tell the ledgers apart afterwards. Slots by name and by
index, names, cursors, positions and host calls all agree; fresh names do not, because the names
that are taken depend on what is still alive.
-/

namespace Sexpr

/-! ## What masks leave -/

namespace Value

variable {value value' : Value}

@[simp] theorem typeName_mask (value : Value) : value.mask.typeName = value.typeName := by
  rcases value with (_ | _ | _ | _ | _ | _) | _ <;> rfl

@[simp] theorem isTruthy_mask (value : Value) : value.mask.isTruthy = value.isTruthy := by
  rcases value with (_ | ⟨_ | _⟩ | _ | _ | _ | _) | _ <;> rfl

theorem atom?_mask (value : Value) : value.mask.atom? = value.atom?.map Atom.mask := by
  rcases value with (_ | _ | _ | _ | _ | _) | _ <;> rfl

theorem typeName_eq (same : value.mask = value'.mask) : value.typeName = value'.typeName := by
  rw [← value.typeName_mask, same, value'.typeName_mask]

theorem isTruthy_eq (same : value.mask = value'.mask) : value.isTruthy = value'.isTruthy := by
  rw [← value.isTruthy_mask, same, value'.isTruthy_mask]

theorem atom?_eq (same : value.mask = value'.mask) :
    value.atom?.map Atom.mask = value'.atom?.map Atom.mask := by
  rw [← atom?_mask, same, atom?_mask]

theorem atom?_eq_none (same : value.mask = value'.mask) :
    value.atom? = none ↔ value'.atom? = none := by
  have atoms := atom?_eq same
  constructor
  · intro none
    rw [none] at atoms
    exact Option.map_eq_none_iff.1 atoms.symm
  · intro none
    rw [none] at atoms
    exact Option.map_eq_none_iff.1 atoms

end Value

/-- The arguments with atoms masked. -/
def Arguments.mask (arguments : Arguments) : Arguments :=
  ⟨arguments.positional.map Value.mask, arguments.named.map (Prod.map id Value.mask)⟩

namespace Entry

variable {entry : Entry}

/-- The plan with its atom masked. -/
def SplitPlan.mask (plan : SplitPlan) : SplitPlan := { plan with atom := plan.atom.mask }

theorem separatorOf_mask (value : Value) :
    entry.separatorOf value.mask = entry.separatorOf value := by
  rcases value with (_ | _ | _ | _ | _ | _) | _ <;> rfl

theorem limitOf_mask (value : Value) : entry.limitOf value.mask = entry.limitOf value := by
  rcases value with (_ | _ | _ | _ | _ | _) | _ <;> rfl

theorem takeNamed_mask (given : Nat) (named : List (String × Value)) (sep limit : Value) :
    entry.takeNamed given (named.map (Prod.map id Value.mask)) sep.mask limit.mask =
      (entry.takeNamed given named sep limit).map (Prod.map Value.mask Value.mask) := by
  induction named generalizing sep limit with
  | nil => rfl
  | cons argument named ih =>
    obtain ⟨key, value⟩ := argument
    simp only [List.map_cons, Prod.map, id_eq, takeNamed] at ih ⊢
    split
    · split
      · exact ih value limit
      · rfl
    · split
      · split
        · exact ih sep value
        · rfl
      · rfl

/-- Identities of atoms do not enter the checks of a call that cuts a name. -/
theorem splitPlan_mask (arguments : Arguments) :
    entry.splitPlan arguments.mask = (entry.splitPlan arguments).map SplitPlan.mask := by
  obtain ⟨positional, named⟩ := arguments
  cases positional with
  | nil => rfl
  | cons first rest =>
    have given : ∀ index : Nat, (rest.map Value.mask)[index]?.getD .nil =
        (rest[index]?.getD .nil).mask := by
      intro index
      rw [List.getElem?_map]
      exact Option.getD_map Value.mask .nil rest[index]?
    simp only [splitPlan, Arguments.mask, List.map_cons, List.length_map, Value.atom?_mask, given,
      takeNamed_mask, Value.typeName_mask]
    split
    · rfl
    · cases first.atom? with
      | none => rfl
      | some a =>
        dsimp only [Option.map_some]
        rcases entry.takeNamed rest.length named _ _ with fault | ⟨sep, limit⟩
        · rfl
        · simp only [Except.map, Except.bind, bind, Prod.map, separatorOf_mask, limitOf_mask]
          cases entry.separatorOf sep with
          | error fault => rfl
          | ok separator => cases entry.limitOf limit <;> rfl

end Entry

/-! ## The rule -/

namespace Ledger

variable {α β : Type}

/-- What an operation has come to in two stores: the same refusal, or answers that look the same.
All that is held afterwards leads to a common part of the heaps. -/
inductive Matches (view : α → β) (gives : α → List Value) (outside : List Value) :
    Except Fault α × Store → Except Fault α × Store → Prop
  | ok {answer answer' : α} {after after' : Store} : view answer = view answer' →
    after.heap.Mirrored after'.heap (gives answer ++ outside) →
    Matches view gives outside (.ok answer, after) (.ok answer', after')
  | error {fault : Fault} {after after' : Store} : after.heap.Mirrored after'.heap outside →
    Matches view gives outside (.error fault, after) (.error fault, after')

/-- Two operations conduct themselves, and holders cannot tell what they do apart. -/
structure Agrees (needs needs' takes takes' : List Value)
    (operation operation' : Store → Except Fault α × Store) (view : α → β)
    (gives : α → List Value) : Prop where
  left : Conducts needs takes operation gives
  right : Conducts needs' takes' operation' gives
  same : ∀ {store store' : Store} {outside outside' : List Value} {weaks weaks' : List Weak},
    Twins ⟨store, takes ++ outside, weaks⟩ ⟨store', takes' ++ outside', weaks'⟩ →
    (∀ value ∈ needs, Available outside value) → (∀ value ∈ needs', Available outside' value) →
    Matches view gives outside (operation store) (operation' store')

namespace Agrees

variable {needs needs' takes takes' : List Value} {value value' target target' : Value}
  {p : PairId} {slot : Slot} {view : α → β} {gives : α → List Value}

theorem mono {more more' : List Value} {operation operation' : Store → Except Fault α × Store}
    (agrees : Agrees needs needs' takes takes' operation operation' view gives)
    (less : needs ⊆ more) (less' : needs' ⊆ more') :
    Agrees more more' takes takes' operation operation' view gives where
  left := agrees.left.mono less
  right := agrees.right.mono less'
  same twins available available' := agrees.same twins
    (fun value member => available value (less member))
    fun value member => available' value (less' member)

/-- Both are refused without a change. -/
theorem fail (fault : Fault) : Agrees needs needs' [] [] (fun store => (.error fault, store))
    (fun store => (.error fault, store)) view gives where
  left := .fail fault
  right := .fail fault
  same twins _ _ := .error twins.mirrored

/-- Both are refused, and release what they were given. -/
theorem refuse (fault : Fault) (same : value.mask = value'.mask) :
    Agrees needs needs' [value] [value'] (fun store => (.error fault, store.release value))
      (fun store => (.error fault, store.release value')) view gives where
  left := .refuse fault
  right := .refuse fault
  same twins _ _ := .error (twins.releaseAll (congrArg (fun mask => [mask]) same))

/-- Both take a handle on copies of values that they need. -/
theorem retaining {operation operation' : Store → Except Fault α × Store}
    (agrees : Agrees needs needs' [value] [value'] operation operation' view gives)
    (same : value.mask = value'.mask) (member : value ∈ needs) (member' : value' ∈ needs') :
    Agrees needs needs' [] [] (fun store => operation (store.retain value))
      (fun store => operation' (store.retain value')) view gives where
  left := agrees.left.retaining member
  right := agrees.right.retaining member'
  same twins available available' := agrees.same
    (twins.retain same (available value member) (available' value' member')) available available'

/-- Both make something out of what they need and take. -/
theorem build (make make' : Store → Value × Store)
    (left : Conducts needs takes (fun store => (.ok (make store).1, (make store).2))
      fun value => [value])
    (right : Conducts needs' takes' (fun store => (.ok (make' store).1, (make' store).2))
      fun value => [value])
    (built : ∀ {common : PairId → Prop} {store store' : Store},
      store.heap.Mirrors store'.heap common → (∀ q, .pair q ∈ takes ++ needs → common q) →
      Store.Builds common (make store) (make' store')) :
    Agrees needs needs' takes takes' (fun store => (.ok (make store).1, (make store).2))
      (fun store => (.ok (make' store).1, (make' store).2)) Value.mask fun value => [value] where
  left := left
  right := right
  same {store store' outside outside' weaks weaks'} twins available available' := by
    obtain ⟨common, mirrors, inside⟩ := twins.mirrored
    obtain ⟨more, grown, after, masks, made⟩ := built mirrors fun q member => inside q (by
      rcases List.mem_append.1 member with taken | needed
      · exact List.mem_append_left _ taken
      · exact List.mem_append_right _ (available _ needed).mem_of_pair)
    refine .ok masks ⟨more, after, fun q root => ?_⟩
    rcases List.mem_cons.1 root with root | root
    · exact made q root.symm
    · exact grown q (inside q (List.mem_append_right _ root))

/-! ## Slots -/

theorem read (member : .pair p ∈ needs) (member' : .pair p ∈ needs') :
    Agrees needs needs' [] [] (fun store => (.ok (store.read p slot).1, (store.read p slot).2))
      (fun store => (.ok (store.read p slot).1, (store.read p slot).2)) Value.mask
      fun value => [value] := by
  refine build (Store.read p slot) (Store.read p slot) (Conducts.read.mono (by simpa using member))
    (Conducts.read.mono (by simpa using member')) ?_
  intro common store store' mirrors inside
  have inner := inside p member
  refine ⟨common, fun q => id, mirrors.retain _ _, mirrors.mask_read inner slot, ?_⟩
  exact fun q => mirrors.closed p slot q inner

theorem write (same : value.mask = value'.mask) (member : .pair p ∈ needs)
    (member' : .pair p ∈ needs') :
    Agrees needs needs' [value] [value'] (fun store => (.ok (), store.write p slot value))
      (fun store => (.ok (), store.write p slot value')) id fun _ => [] where
  left := Conducts.write.mono (by simpa using member)
  right := Conducts.write.mono (by simpa using member')
  same twins available _ :=
    .ok rfl (twins.write slot same (available _ member).mem_of_pair)

theorem slotOf (same : value.mask = value'.mask) :
    Agrees [value] [value'] [] [] (Store.slotOf slot value) (Store.slotOf slot value') Value.mask
      fun value => [value] := by
  obtain rfl | ⟨id, id', kind, name, rfl, rfl⟩ := Value.mask_eq_cases same
  · cases value with
    | pair p => exact read List.mem_cons_self List.mem_cons_self
    | scalar s =>
      cases s with
      | nil => exact fail _
      | _ => exact fail _
  · exact fail _

theorem pairItem (index : Int) : Agrees [.pair p] [.pair p] [] [] (Store.pairItem p index)
    (Store.pairItem p index) Value.mask fun value => [value] := by
  unfold Store.pairItem
  cases Slot.atIndex? index with
  | some slot => exact read List.mem_cons_self List.mem_cons_self
  | none => exact fail _

theorem item (index : Int) (same : target.mask = target'.mask) :
    Agrees [target] [target'] [] [] (Store.item target index) (Store.item target' index) Value.mask
      fun value => [value] := by
  obtain rfl | ⟨id, id', kind, name, rfl, rfl⟩ := Value.mask_eq_cases same
  · cases target with
    | pair p => exact pairItem index
    | scalar s =>
      cases s with
      | nil => exact fail _
      | _ => exact fail _
  · exact fail _

theorem setSlotOf (same : target.mask = target'.mask) (masks : value.mask = value'.mask) :
    Agrees [target] [target'] [value] [value'] (Store.setSlotOf slot target value)
      (Store.setSlotOf slot target' value') id fun _ => [] := by
  obtain rfl | ⟨id, id', kind, name, rfl, rfl⟩ := Value.mask_eq_cases same
  · cases target with
    | pair p => exact write masks List.mem_cons_self List.mem_cons_self
    | scalar s =>
      cases s with
      | nil => exact refuse _ masks
      | _ => exact refuse _ masks
  · exact refuse _ masks

theorem setPairItem (index : Int) (masks : value.mask = value'.mask) :
    Agrees [.pair p] [.pair p] [value] [value'] (Store.setPairItem p index value)
      (Store.setPairItem p index value') id fun _ => [] := by
  unfold Store.setPairItem
  cases Slot.atIndex? index with
  | some slot => exact write masks List.mem_cons_self List.mem_cons_self
  | none => exact refuse _ masks

theorem setItem (index : Int) (same : target.mask = target'.mask)
    (masks : value.mask = value'.mask) :
    Agrees [target] [target'] [value] [value'] (Store.setItem target index value)
      (Store.setItem target' index value') id fun _ => [] := by
  obtain rfl | ⟨id, id', kind, name, rfl, rfl⟩ := Value.mask_eq_cases same
  · cases target with
    | pair p => exact setPairItem index masks
    | scalar s =>
      cases s with
      | nil => exact refuse _ masks
      | _ => exact refuse _ masks
  · exact refuse _ masks

/-! ## Making pairs -/

theorem pair {head head' tail tail' : Value} (sameHead : head.mask = head'.mask)
    (sameTail : tail.mask = tail'.mask) (members : [head, tail] ⊆ needs)
    (members' : [head', tail'] ⊆ needs') :
    Agrees needs needs' [] []
      (fun store => (.ok (.pair ((store.retainAll [head, tail]).pair head tail).1),
        ((store.retainAll [head, tail]).pair head tail).2))
      (fun store => (.ok (.pair ((store.retainAll [head', tail']).pair head' tail').1),
        ((store.retainAll [head', tail']).pair head' tail').2)) Value.mask
      fun value => [value] := by
  refine build
    (fun store => (.pair ((store.retainAll [head, tail]).pair head tail).1,
      ((store.retainAll [head, tail]).pair head tail).2))
    (fun store => (.pair ((store.retainAll [head', tail']).pair head' tail').1,
      ((store.retainAll [head', tail']).pair head' tail').2)) ?_ ?_ ?_
  · intro store outside weaks reached available
    exact (reached.retainAll fun value member => available value (members member)).step .pair
  · intro store outside weaks reached available
    exact (reached.retainAll fun value member => available value (members' member)).step .pair
  · intro common store store' mirrors inside
    refine Store.builds_pair (mirrors.retainAll rfl) sameHead sameTail ?_
    rintro q (rfl | rfl)
    · exact inside q (members List.mem_cons_self)
    · exact inside q (members (List.mem_cons_of_mem _ List.mem_cons_self))

theorem list {items items' : List Value} (same : items.map Value.mask = items'.map Value.mask)
    (members : items ⊆ needs) (members' : items' ⊆ needs') :
    Agrees needs needs' [] []
      (fun store => (.ok ((store.retainAll items).list items).1,
        ((store.retainAll items).list items).2))
      (fun store => (.ok ((store.retainAll items').list items').1,
        ((store.retainAll items').list items').2)) Value.mask fun value => [value] := by
  refine build (fun store => (store.retainAll items).list items)
    (fun store => (store.retainAll items').list items') ?_ ?_ ?_
  · intro store outside weaks reached available
    exact (reached.retainAll fun value member => available value (members member)).list
  · intro store outside weaks reached available
    exact (reached.retainAll fun value member => available value (members' member)).list
  · intro common store store' mirrors inside
    refine Store.builds_list (mirrors.retainAll ?_) same fun q member => inside q (members member)
    simpa using congrArg List.length same

theorem cons {members members' : List Value} (ring : Bool)
    (same : members.map Value.mask = members'.map Value.mask) (less : members ⊆ needs)
    (less' : members' ⊆ needs') :
    Agrees needs needs' [] []
      (fun store => (.ok ((store.retainAll members).cons members ring).1,
        ((store.retainAll members).cons members ring).2))
      (fun store => (.ok ((store.retainAll members').cons members' ring).1,
        ((store.retainAll members').cons members' ring).2)) Value.mask fun value => [value] := by
  refine build (fun store => (store.retainAll members).cons members ring)
    (fun store => (store.retainAll members').cons members' ring) ?_ ?_ ?_
  · intro store outside weaks reached available
    exact (reached.retainAll fun value member => available value (less member)).cons
  · intro store outside weaks reached available
    exact (reached.retainAll fun value member => available value (less' member)).cons
  · intro common store store' mirrors inside
    refine Store.builds_cons ring (mirrors.retainAll ?_) same fun q member => inside q (less member)
    simpa using congrArg List.length same

theorem grow (growth : Growth) (numbered : Bool) (count : Nat) (same : value.mask = value'.mask)
    (member : value ∈ needs) (member' : value' ∈ needs') :
    Agrees needs needs' [] []
      (fun store => (.ok ((store.retain value).grow growth numbered count 0 value).1,
        ((store.retain value).grow growth numbered count 0 value).2))
      (fun store => (.ok ((store.retain value').grow growth numbered count 0 value').1,
        ((store.retain value').grow growth numbered count 0 value').2)) Value.mask
      fun value => [value] := by
  refine build (fun store => (store.retain value).grow growth numbered count 0 value)
    (fun store => (store.retain value').grow growth numbered count 0 value') ?_ ?_ ?_
  · intro store outside weaks reached available
    exact (reached.retain (available value member)).grow
  · intro store outside weaks reached available
    exact (reached.retain (available value' member')).grow
  · intro common store store' mirrors inside
    refine Store.builds_grow growth numbered count 0 (mirrors.retain value value') same ?_
    rintro q rfl
    exact inside q member

/-- Both list literals on a thread of their own. -/
theorem listOnThread {items : List Value}
    (literals : ∀ value ∈ items, ∃ written : Literal, written.value = value) :
    Agrees needs needs' [] []
      (fun store => (.ok (Store.onThread (Store.list items) store).1,
        (Store.onThread (Store.list items) store).2))
      (fun store => (.ok (Store.onThread (Store.list items) store).1,
        (Store.onThread (Store.list items) store).2)) Value.mask fun value => [value] := by
  have conducts : ∀ needs, Conducts needs []
      (fun store => (.ok (Store.onThread (Store.list items) store).1,
        (Store.onThread (Store.list items) store).2)) fun value => [value] := by
    intro needs store outside weaks reached _
    have made := ((reached.step .startThread).literals literals).list
    exact made.step (.resumeThread _)
  refine build (Store.onThread (Store.list items)) (Store.onThread (Store.list items))
    (conducts needs) (conducts needs') ?_
  intro common store store' mirrors _
  have started : (store.mapRegistry Registry.startThread).heap.Mirrors
      (store'.mapRegistry Registry.startThread).heap common := mirrors
  refine Store.builds_list started rfl fun q member => ?_
  obtain ⟨written, same⟩ := literals _ member
  cases written <;> cases same

/-! ## Names -/

theorem mask_intern {store : Store} {outside : List Value} {weaks : List Weak}
    (reached : Reached ⟨store, outside, weaks⟩) (kind : AtomKind) (raw : String) :
    (store.intern kind raw).1.mask = ⟨0, kind, kind.normalize raw⟩ := by
  obtain ⟨kinds, names⟩ := reached.sound.kind_name_intern kind raw
  rw [Atom.mask, kinds, names]

theorem intern (kind : AtomKind) (raw : String) :
    Agrees needs needs' [] []
      (fun store => (.ok (store.intern kind raw).1, (store.intern kind raw).2))
      (fun store => (.ok (store.intern kind raw).1, (store.intern kind raw).2)) Atom.mask
      fun a => [.atom a] where
  left store outside weaks reached _ := reached.step (.intern kind raw)
  right store outside weaks reached _ := reached.step (.intern kind raw)
  same twins _ _ := by
    refine .ok ?_ (twins.mirrored.mono fun q root => ?_)
    · rw [mask_intern twins.reached, mask_intern twins.reached']
    · exact (List.mem_cons.1 root).resolve_left nofun

/-- The atom as a value. -/
theorem internAtom (kind : AtomKind) (raw : String) :
    Agrees needs needs' [] []
      (fun store => (.ok (.atom (store.intern kind raw).1), (store.intern kind raw).2))
      (fun store => (.ok (.atom (store.intern kind raw).1), (store.intern kind raw).2)) Value.mask
      fun value => [value] where
  left store outside weaks reached _ := reached.step (.intern kind raw)
  right store outside weaks reached _ := reached.step (.intern kind raw)
  same twins available available' := by
    cases (intern kind raw).same twins available available' with
    | ok atoms after => exact .ok (congrArg Value.atom atoms) after

theorem internValue (kind : AtomKind) (same : value.mask = value'.mask) :
    Agrees [value] [value'] [] [] (Store.internValue kind value) (Store.internValue kind value')
      Atom.mask fun a => [.atom a] where
  left := .internValue kind value
  right := .internValue kind value'
  same {store store' outside outside' weaks weaks'} twins available available' := by
    obtain ⟨common, mirrors, inside⟩ := twins.mirrored
    have texts : Render.listing? store.heap value = Render.listing? store'.heap value' := by
      refine mirrors.renames.listing?_eq (Heap.Mirrors.renamed same ?_)
      rintro q rfl
      exact inside q (available _ List.mem_cons_self).mem_of_pair
    unfold Store.internValue
    rw [texts]
    cases Render.listing? store'.heap value' with
    | some raw => exact (intern kind raw).same twins available available'
    | none => exact .error twins.mirrored

theorem mask_internAll {store : Store} {outside : List Value} {weaks : List Weak}
    (reached : Reached ⟨store, outside, weaks⟩) (kind : AtomKind) (raws : List String) :
    (store.internAll kind raws).1.map Atom.mask =
      raws.map fun raw => ⟨0, kind, kind.normalize raw⟩ := by
  induction raws generalizing store outside with
  | nil => rfl
  | cons raw raws ih =>
    exact congrArg₂ List.cons (mask_intern reached kind raw) (ih (reached.step (.intern kind raw)))

theorem not_mem_atoms {atoms : List Atom} : Value.pair p ∉ atoms.map Value.atom := by
  intro member
  obtain ⟨a, -, same⟩ := List.mem_map.1 member
  cases same

theorem map_mask_atoms {atoms atoms' : List Atom}
    (same : atoms.map Atom.mask = atoms'.map Atom.mask) :
    (atoms.map Value.atom).map Value.mask = (atoms'.map Value.atom).map Value.mask := by
  have masks := congrArg (List.map Value.atom) same
  rw [List.map_map, List.map_map] at masks ⊢
  exact masks

theorem splitAtom (side : Text.Side) (sep : Option String) (limit : Option Nat) {a a' : Atom}
    (same : a.mask = a'.mask) :
    Agrees needs needs' [] [] (Store.splitAtom side sep limit a) (Store.splitAtom side sep limit a')
      (List.map Atom.mask) fun atoms => atoms.map Value.atom where
  left := .splitAtom side sep limit a
  right := .splitAtom side sep limit a'
  same {store store' outside outside' weaks weaks'} twins _ _ := by
    obtain ⟨kinds, names⟩ := Atom.mask_eq_iff.1 same
    unfold Store.splitAtom
    rw [kinds, names]
    cases Text.split side sep limit a'.name with
    | error fault => exact .error twins.mirrored
    | ok pieces =>
      refine .ok ?_ ?_
      · rw [mask_internAll twins.reached, mask_internAll twins.reached']
      · rw [Store.heap_internAll, Store.heap_internAll]
        exact twins.mirrored.mono fun q root =>
          (List.mem_append.1 root).resolve_left not_mem_atoms

/-- The atoms that were cut off are put into a list. -/
theorem listAtoms {atoms atoms' : List Atom} (same : atoms.map Atom.mask = atoms'.map Atom.mask) :
    Agrees needs needs' (atoms.map Value.atom) (atoms'.map Value.atom)
      (fun store => (.ok (store.list (atoms.map Value.atom)).1,
        (store.list (atoms.map Value.atom)).2))
      (fun store => (.ok (store.list (atoms'.map Value.atom)).1,
        (store.list (atoms'.map Value.atom)).2)) Value.mask fun value => [value] := by
  refine build (Store.list (atoms.map Value.atom)) (Store.list (atoms'.map Value.atom)) ?_ ?_ ?_
  · exact fun store outside weaks reached _ => reached.list
  · exact fun store outside weaks reached _ => reached.list
  · intro common store store' mirrors inside
    exact Store.builds_list mirrors (map_mask_atoms same) fun q member =>
      absurd member not_mem_atoms

/-! ## Cursors and positions -/

theorem start (same : value.mask = value'.mask) :
    Agrees [value] [value'] [] [] (Cursor.start value) (Cursor.start value') id Cursor.held := by
  obtain rfl | ⟨id, id', kind, name, rfl, rfl⟩ := Value.mask_eq_cases same
  · refine ⟨.start, .start, ?_⟩
    intro store store' outside outside' weaks weaks' twins available available'
    cases value with
    | pair p =>
      obtain ⟨common, mirrors, inside⟩ := twins.mirrored
      refine .ok rfl ⟨common, mirrors.retain _ _, fun q root => inside q ?_⟩
      rcases List.mem_cons.1 root with same | root
      · cases same
        exact (available _ List.mem_cons_self).mem_of_pair
      · exact root
    | scalar s =>
      cases s with
      | nil => exact .ok rfl twins.mirrored
      | _ => exact .error twins.mirrored
  · exact fail _

/-- Both change positions in the same way. -/
theorem position (change : Heap → Heap) (member : .pair p ∈ needs)
    (reaches : ∀ {store : Store} {outside : List Value} {weaks : List Weak},
      Reached ⟨store, outside, weaks⟩ → Reached ⟨store.mapHeap change, outside, weaks⟩)
    (mirrors : ∀ {heap other : Heap} {common : PairId → Prop}, heap.Mirrors other common →
      common p → (change heap).Mirrors (change other) common) :
    Agrees needs needs' [] [] (fun store => (.ok (), store.mapHeap change))
      (fun store => (.ok (), store.mapHeap change)) id fun _ => [] where
  left _ _ _ reached _ := reaches reached
  right _ _ _ reached _ := reaches reached
  same twins available _ := by
    obtain ⟨common, before, inside⟩ := twins.mirrored
    exact .ok rfl ⟨common, mirrors before (inside p (available _ member).mem_of_pair), inside⟩

/-! ## Calls -/

section Calls

variable {entry : Entry} {arguments arguments' : Arguments}

/-- A call that takes no named arguments sees how many arguments there are, and each of them. -/
theorem unnamed_cases (same : arguments.mask = arguments'.mask) :
    (∃ fault, entry.unnamed arguments = .error fault ∧ entry.unnamed arguments' = .error fault) ∨
      entry.unnamed arguments = .ok arguments.positional ∧
        entry.unnamed arguments' = .ok arguments'.positional := by
  have names : arguments.named.isEmpty = arguments'.named.isEmpty := by
    have masks := congrArg (fun arguments => arguments.named.isEmpty) same
    simpa [Arguments.mask] using masks
  unfold Entry.unnamed
  rw [names]
  split
  · exact Or.inr ⟨rfl, rfl⟩
  · exact Or.inl ⟨_, rfl, rfl⟩

theorem positional_alike (same : arguments.mask = arguments'.mask) :
    List.Forall₂ (fun value value' => Value.mask value = Value.mask value') arguments.positional
      arguments'.positional := by
  have masks : arguments.positional.map Value.mask = arguments'.positional.map Value.mask :=
    congrArg Arguments.positional same
  rw [← List.forall₂_eq_eq_eq, List.forall₂_map_left_iff, List.forall₂_map_right_iff] at masks
  exact masks

theorem callSlot (same : arguments.mask = arguments'.mask) :
    Agrees arguments.positional arguments'.positional [] [] (entry.callSlot slot arguments)
      (entry.callSlot slot arguments') Value.mask fun value => [value] := by
  unfold Entry.callSlot
  obtain ⟨fault, no, no'⟩ | ⟨given, given'⟩ := unnamed_cases same
  · rw [no, no']
    exact fail fault
  rw [given, given']
  have alike := positional_alike same
  generalize arguments.positional = values at alike ⊢
  generalize arguments'.positional = values' at alike ⊢
  rcases alike with _ | ⟨first, _ | ⟨second, rest⟩⟩
  · exact fail _
  · exact slotOf first
  · simp only [List.length_cons, rest.length_eq]
    exact fail _

theorem callSetSlot (same : arguments.mask = arguments'.mask) :
    Agrees arguments.positional arguments'.positional [] [] (entry.callSetSlot slot arguments)
      (entry.callSetSlot slot arguments') Value.mask fun value => [value] := by
  refine ⟨.callSetSlot, .callSetSlot, ?_⟩
  intro store store' outside outside' weaks weaks' twins available available'
  unfold Entry.callSetSlot
  obtain ⟨fault, no, no'⟩ | ⟨given, given'⟩ := unnamed_cases same
  · rw [no, no']
    exact .error twins.mirrored
  rw [given, given']
  have alike := positional_alike same
  generalize arguments.positional = values at alike available ⊢
  generalize arguments'.positional = values' at alike available' ⊢
  rcases alike with _ | @⟨target, target', _, _, targets, _ | @⟨value, value', _, _, masks, rest⟩⟩
  · exact .error twins.mirrored
  · exact .error twins.mirrored
  rcases rest with _ | ⟨third, rest⟩
  · have both : Agrees [target, value] [target', value'] [value] [value']
        (Store.setSlotOf slot target value) (Store.setSlotOf slot target' value') id fun _ => [] :=
      (setSlotOf targets masks).mono (by simp) (by simp)
    have written := (both.retaining masks (by simp) (by simp)).same twins available available'
    dsimp only at written ⊢
    generalize (store.retain value).setSlotOf slot target value = outcome at written ⊢
    generalize (store'.retain value').setSlotOf slot target' value' = outcome' at written ⊢
    cases written with
    | ok _ after =>
      exact .ok rfl (after.mono fun q root => (List.mem_cons.1 root).resolve_left nofun)
    | error after => exact .error after
  · simp only [List.length_cons, rest.length_eq]
    exact .error twins.mirrored

theorem callPair (same : arguments.mask = arguments'.mask) :
    Agrees arguments.positional arguments'.positional [] [] (entry.callPair arguments)
      (entry.callPair arguments') Value.mask fun value => [value] := by
  unfold Entry.callPair
  obtain ⟨fault, no, no'⟩ | ⟨given, given'⟩ := unnamed_cases same
  · rw [no, no']
    exact fail fault
  rw [given, given']
  have alike := positional_alike same
  generalize arguments.positional = values at alike ⊢
  generalize arguments'.positional = values' at alike ⊢
  rcases alike with _ | ⟨head, _ | ⟨tail, _ | ⟨third, rest⟩⟩⟩
  · exact fail _
  · exact fail _
  · exact pair head tail (List.Subset.refl _) (List.Subset.refl _)
  · simp only [List.length_cons, rest.length_eq]
    exact fail _

theorem callCons (same : arguments.mask = arguments'.mask) :
    Agrees arguments.positional arguments'.positional [] [] (Entry.callCons arguments)
      (Entry.callCons arguments') Value.mask fun value => [value] := by
  obtain ⟨positional, named⟩ := arguments
  obtain ⟨positional', named'⟩ := arguments'
  have masks : positional.map Value.mask = positional'.map Value.mask :=
    congrArg Arguments.positional same
  have build (ring : Bool) := cons ring masks (List.Subset.refl _) (List.Subset.refl _)
  have names : named.map (Prod.map id Value.mask) = named'.map (Prod.map id Value.mask) :=
    congrArg Arguments.named same
  unfold Entry.callCons
  dsimp only
  rcases named with _ | ⟨⟨key, flag⟩, _ | ⟨second, rest⟩⟩
  · cases List.map_eq_nil_iff.1 names.symm
    exact build false
  · obtain ⟨⟨key', flag'⟩, rest', rfl, first, others⟩ := List.map_eq_cons_iff.1 names.symm
    cases List.map_eq_nil_iff.1 others
    obtain ⟨keys, flags⟩ := Prod.mk.inj first
    dsimp only [id] at keys
    subst keys
    dsimp only
    rw [Value.isTruthy_eq flags]
    split
    · exact build _
    · exact fail _
  · obtain ⟨first', rest', rfl, -, others⟩ := List.map_eq_cons_iff.1 names.symm
    obtain ⟨second', rest', rfl, -, -⟩ := List.map_eq_cons_iff.1 others
    exact fail _

theorem callAtom (kind : AtomKind) (same : arguments.mask = arguments'.mask) :
    Agrees arguments.positional arguments'.positional [] [] (entry.callAtom kind arguments)
      (entry.callAtom kind arguments') Value.mask fun value => [value] := by
  refine ⟨.callAtom kind, .callAtom kind, ?_⟩
  intro store store' outside outside' weaks weaks' twins available available'
  unfold Entry.callAtom
  obtain ⟨fault, no, no'⟩ | ⟨given, given'⟩ := unnamed_cases same
  · rw [no, no']
    exact .error twins.mirrored
  rw [given, given']
  have alike := positional_alike same
  generalize arguments.positional = values at alike available ⊢
  generalize arguments'.positional = values' at alike available' ⊢
  rcases alike with _ | @⟨value, value', _, _, masks, _ | ⟨second, rest⟩⟩
  · exact .error twins.mirrored
  · have made := (internValue kind masks).same twins available available'
    dsimp only
    generalize store.internValue kind value = outcome at made ⊢
    generalize store'.internValue kind value' = outcome' at made ⊢
    cases made with
    | ok atoms after => exact .ok (congrArg Value.atom atoms) after
    | error after => exact .error after
  · simp only [List.length_cons, rest.length_eq]
    exact .error twins.mirrored

theorem callSplit (side : Text.Side) (same : arguments.mask = arguments'.mask) :
    Agrees arguments.positional arguments'.positional [] [] (entry.callSplit side arguments)
      (entry.callSplit side arguments') Value.mask fun value => [value] := by
  refine ⟨.callSplit side, .callSplit side, ?_⟩
  intro store store' outside outside' weaks weaks' twins available available'
  have plans : (entry.splitPlan arguments).map Entry.SplitPlan.mask =
      (entry.splitPlan arguments').map Entry.SplitPlan.mask := by
    rw [← Entry.splitPlan_mask, same, Entry.splitPlan_mask]
  unfold Entry.callSplit
  generalize entry.splitPlan arguments = plan at plans ⊢
  generalize entry.splitPlan arguments' = plan' at plans ⊢
  rcases plan with fault | ⟨a, separator, limit⟩
  · rcases plan' with fault' | plan'
    · cases plans
      exact .error twins.mirrored
    · cases plans
  rcases plan' with fault' | ⟨a', separator', limit'⟩
  · cases plans
  simp only [Except.map, Entry.SplitPlan.mask, Except.ok.injEq, Entry.SplitPlan.mk.injEq] at plans
  obtain ⟨atoms, rfl, rfl⟩ := plans
  have cut := (splitAtom side separator limit atoms).same twins available available'
  dsimp only
  generalize store.splitAtom side separator limit a = outcome at cut ⊢
  generalize store'.splitAtom side separator limit a' = outcome' at cut ⊢
  cases cut with
  | error after => exact .error after
  | @ok pieces pieces' after after' masks mirrored =>
    obtain ⟨common, mirrors, inside⟩ := mirrored
    have items : (pieces.map Value.atom).map Value.mask =
        (pieces'.map Value.atom).map Value.mask := map_mask_atoms masks
    obtain ⟨more, grown, built, lists, made⟩ := Store.builds_list mirrors items
      fun q member => absurd member not_mem_atoms
    refine .ok lists ⟨more, built, fun q root => ?_⟩
    rcases List.mem_cons.1 root with root | root
    · exact made q root.symm
    · exact grown q (inside q (List.mem_append_right _ root))

/-- All host calls agree, except for the one that makes fresh names. -/
theorem call (same : arguments.mask = arguments'.mask) (plain : entry ≠ .gensym) :
    Agrees arguments.positional arguments'.positional [] [] (entry.call arguments)
      (entry.call arguments') Value.mask fun value => [value] := by
  cases entry with
  | symbol => exact callAtom .symbol same
  | keyword => exact callAtom .keyword same
  | gensym => exact absurd rfl plain
  | split => exact callSplit .left same
  | rsplit => exact callSplit .right same
  | pair => exact callPair same
  | nil =>
    refine ⟨.call, .call, ?_⟩
    intro store store' outside outside' weaks weaks' twins _ _
    have none := congrArg
      (fun arguments => arguments.positional.isEmpty && arguments.named.isEmpty) same
    simp only [Arguments.mask, List.isEmpty_map] at none
    unfold Entry.call
    dsimp only
    rw [none]
    split
    · exact .ok rfl (twins.mirrored.mono fun q root => (List.mem_cons.1 root).resolve_left nofun)
    · exact .error twins.mirrored
  | cons => exact callCons same
  | car => exact callSlot same
  | cdr => exact callSlot same
  | setcar => exact callSetSlot same
  | setcdr => exact callSetSlot same

end Calls

end Agrees

end Ledger

end Sexpr
