import Sexpr.Cursor
import Sexpr.Entry.Call
import Sexpr.Proofs.Store.Runs

/-!
# Operations that can fail

`Ledger.Conducts` is what an operation that can fail has to do with handles: it uses values that
are available, takes over the handles that it is given, and hands over what it makes. If it fails
it keeps nothing. Slots by name and by index, names, cursors and host calls all conduct themselves
so; the proofs go through the operation branch by branch, and from one reached ledger to the next.
-/

namespace Sexpr.Ledger

/-- The handles that an operation hands over. -/
def handed {α : Type} (gives : α → List Value) : Except Fault α → List Value
  | .ok answer => gives answer
  | .error _ => []

/-- The operation uses `needs`, takes over the handles on `takes`, and hands over `gives`. -/
def Conducts {α : Type} (needs takes : List Value) (operation : Store → Except Fault α × Store)
    (gives : α → List Value) : Prop :=
  ∀ store outside weaks, Reached ⟨store, takes ++ outside, weaks⟩ →
    (∀ value ∈ needs, Available outside value) →
    Reached ⟨(operation store).2, handed gives (operation store).1 ++ outside, weaks⟩

namespace Conducts

variable {α : Type} {needs : List Value} {value target : Value} {p : PairId} {slot : Slot}
  {gives : α → List Value}

/-- A copy of an available value can be given away. -/
theorem retaining {operation : Store → Except Fault α × Store}
    (conducts : Conducts needs [value] operation gives) (member : value ∈ needs) :
    Conducts needs [] (fun store => operation (store.retain value)) gives := by
  intro store outside weaks reached available
  exact conducts _ outside weaks (reached.retain (available value member)) available

theorem mono {takes more : List Value} {operation : Store → Except Fault α × Store}
    (conducts : Conducts needs takes operation gives) (less : needs ⊆ more) :
    Conducts more takes operation gives := by
  intro store outside weaks reached available
  exact conducts store outside weaks reached fun value member => available value (less member)

/-! ## Slots -/

theorem read : Conducts [.pair p] []
    (fun store => (.ok (store.read p slot).1, (store.read p slot).2)) (fun value => [value]) := by
  intro store outside weaks reached available
  exact reached.step (.read slot (available _ List.mem_cons_self).mem_of_pair)

theorem write : Conducts [.pair p] [value] (fun store => (.ok (), store.write p slot value))
    (fun _ => []) := by
  intro store outside weaks reached available
  exact reached.step (.write slot (available _ List.mem_cons_self).mem_of_pair)

/-- A value that is refused is released. -/
theorem refuse (fault : Fault) :
    Conducts needs [value] (fun store => (.error fault, store.release value)) gives := by
  intro store outside weaks reached available
  exact reached.step .release

/-- An operation that is refused changes nothing. -/
theorem fail (fault : Fault) : Conducts needs [] (fun store => (.error fault, store)) gives := by
  intro store outside weaks reached available
  exact reached

theorem slotOf : Conducts [value] [] (Store.slotOf slot value) (fun value => [value]) := by
  cases value with
  | pair p => exact read
  | scalar s =>
    cases s with
    | nil => exact fail _
    | _ => exact fail _

theorem pairItem (index : Int) : Conducts [.pair p] [] (Store.pairItem p index)
    (fun value => [value]) := by
  unfold Store.pairItem
  cases Slot.atIndex? index with
  | some slot => exact read
  | none => exact fail _

theorem item (index : Int) : Conducts [target] [] (Store.item target index)
    (fun value => [value]) := by
  cases target with
  | pair p => exact pairItem index
  | scalar s =>
    cases s with
    | nil => exact fail _
    | _ => exact fail _

theorem setSlotOf : Conducts [target] [value] (Store.setSlotOf slot target value)
    (fun _ => []) := by
  cases target with
  | pair p => exact write
  | scalar s =>
    cases s with
    | nil => exact refuse _
    | _ => exact refuse _

theorem setPairItem (index : Int) : Conducts [.pair p] [value] (Store.setPairItem p index value)
    (fun _ => []) := by
  unfold Store.setPairItem
  cases Slot.atIndex? index with
  | some slot => exact write
  | none => exact refuse _

theorem setItem (index : Int) : Conducts [target] [value] (Store.setItem target index value)
    (fun _ => []) := by
  cases target with
  | pair p => exact setPairItem index
  | scalar s =>
    cases s with
    | nil => exact refuse _
    | _ => exact refuse _

/-! ## Names -/

theorem internValue (kind : AtomKind) (value : Value) :
    Conducts needs [] (Store.internValue kind value) (fun a => [.atom a]) := by
  intro store outside weaks reached available
  unfold Store.internValue
  cases Render.listing? store.heap value with
  | some raw => exact reached.step (.intern kind raw)
  | none => exact reached

theorem splitAtom (side : Text.Side) (sep : Option String) (limit : Option Nat) (a : Atom) :
    Conducts needs [] (Store.splitAtom side sep limit a) (fun atoms => atoms.map Value.atom) := by
  intro store outside weaks reached available
  unfold Store.splitAtom
  cases Text.split side sep limit a.name with
  | ok pieces => exact reached.internAll
  | error fault => exact reached

theorem fresh (stem : Option String) (rejects : Nat) :
    Conducts needs [] (Store.fresh stem rejects) (fun drawn => [.atom drawn.atom]) := by
  intro store outside weaks reached available
  cases drawn : store.fresh stem rejects with | mk result after
  cases result with
  | ok answer => exact reached.step (.fresh (Store.drawFresh_of_fresh drawn))
  | error fault =>
    have same : after = store := by
      unfold Store.fresh at drawn
      split at drawn
      · cases drawn
      · exact (Prod.mk.inj drawn).2.symm
    rw [same]
    exact reached

/-! ## Cursors -/

theorem start : Conducts [value] [] (Cursor.start value) Cursor.held := by
  intro store outside weaks reached available
  cases value with
  | pair p => exact reached.retain (available _ List.mem_cons_self)
  | scalar s =>
    cases s with
    | nil => exact reached
    | _ => exact reached

/-! ## Calls -/

variable {entry : Entry} {arguments : Arguments}

theorem callSplit (side : Text.Side) :
    Conducts needs [] (entry.callSplit side arguments) (fun value => [value]) := by
  intro store outside weaks reached available
  unfold Entry.callSplit
  cases entry.splitPlan arguments with
  | error fault => exact reached
  | ok plan =>
    have cut := splitAtom side plan.separator plan.limit plan.atom store outside weaks reached
      available
    dsimp only
    generalize store.splitAtom side plan.separator plan.limit plan.atom = outcome at cut ⊢
    obtain ⟨_ | atoms, after⟩ := outcome
    · exact cut
    · exact cut.list

theorem callFresh (stem : Option String) :
    Conducts needs [] (Entry.callFresh stem) (fun value => [value]) := by
  intro store outside weaks reached available
  have made := fresh stem 0 store outside weaks reached available
  unfold Entry.callFresh
  generalize store.fresh stem 0 = outcome at made ⊢
  rcases outcome with ⟨_ | _, _⟩
  · exact made
  · exact made

theorem unnamed_eq_ok {values : List Value} (given : entry.unnamed arguments = .ok values) :
    values = arguments.positional := by
  unfold Entry.unnamed at given
  split at given
  · exact (Except.ok.inj given).symm
  · cases given

theorem callAtom (kind : AtomKind) : Conducts arguments.positional []
    (entry.callAtom kind arguments) (fun value => [value]) := by
  intro store outside weaks reached available
  unfold Entry.callAtom
  split
  · exact reached
  · exact reached
  case h_3 value given =>
    have made := internValue kind value store outside weaks reached available
    generalize store.internValue kind value = outcome at made ⊢
    rcases outcome with ⟨_ | _, _⟩
    · exact made
    · exact made
  · exact reached

theorem callGensym : Conducts needs [] (entry.callGensym arguments) (fun value => [value]) := by
  intro store outside weaks reached available
  unfold Entry.callGensym
  split
  · exact reached
  · exact callFresh none store outside weaks reached available
  · exact callFresh none store outside weaks reached available
  · split
    · exact callFresh _ store outside weaks reached available
    · exact reached
  · exact reached

theorem callPair : Conducts arguments.positional [] (entry.callPair arguments)
    (fun value => [value]) := by
  intro store outside weaks reached available
  unfold Entry.callPair
  split
  · exact reached
  · exact reached
  · exact reached
  case h_4 head tail given =>
    rw [← unnamed_eq_ok given] at available
    exact (reached.retainAll available).step .pair
  · exact reached

theorem callCons : Conducts arguments.positional [] (Entry.callCons arguments)
    (fun value => [value]) := by
  intro store outside weaks reached available
  have build : ∀ ring, Reached ⟨((store.retainAll arguments.positional).cons arguments.positional
      ring).2, ((store.retainAll arguments.positional).cons arguments.positional ring).1 :: outside,
      weaks⟩ := fun ring => (reached.retainAll available).cons
  unfold Entry.callCons
  dsimp only
  split
  · exact build false
  · split
    · exact build _
    · exact reached
  · exact reached

theorem callSlot : Conducts arguments.positional [] (entry.callSlot slot arguments)
    (fun value => [value]) := by
  intro store outside weaks reached available
  unfold Entry.callSlot
  split
  · exact reached
  case h_2 value given =>
    rw [← unnamed_eq_ok given] at available
    exact slotOf store outside weaks reached available
  · exact reached

theorem callSetSlot : Conducts arguments.positional [] (entry.callSetSlot slot arguments)
    (fun value => [value]) := by
  intro store outside weaks reached available
  unfold Entry.callSetSlot
  split
  · exact reached
  case h_2 target value given =>
    rw [← unnamed_eq_ok given] at available
    have both : Conducts [target, value] [value] (Store.setSlotOf slot target value) fun _ => [] :=
      setSlotOf.mono (by simp)
    have written := both.retaining (by simp) store outside weaks reached available
    dsimp only at written ⊢
    generalize (store.retain value).setSlotOf slot target value = outcome at written ⊢
    rcases outcome with ⟨_ | _, _⟩
    · exact written
    · exact written.step (.literal .nil)
  · exact reached

/-- Every host call conducts itself. -/
theorem call : Conducts arguments.positional [] (entry.call arguments) (fun value => [value]) := by
  cases entry with
  | symbol => exact callAtom .symbol
  | keyword => exact callAtom .keyword
  | gensym => exact callGensym
  | split => exact callSplit .left
  | rsplit => exact callSplit .right
  | pair => exact callPair
  | nil =>
    intro store outside weaks reached available
    unfold Entry.call
    dsimp only
    split
    · exact reached.step (.literal .nil)
    · exact reached
  | cons => exact callCons
  | car => exact callSlot
  | cdr => exact callSlot
  | setcar => exact callSetSlot
  | setcdr => exact callSetSlot

end Conducts

end Sexpr.Ledger
