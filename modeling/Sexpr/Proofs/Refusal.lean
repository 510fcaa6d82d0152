import Mathlib.Data.List.Permutation
import Sexpr.Proofs.Store.Conduct

/-!
# Refused operations

`Request` is any operation that can be refused: slots by name and by index, lengths, cursors,
cutting texts and names, and host calls with all their arguments. `Ledger.Reverts` says of an
operation that it leaves no trace when it is refused: the store is what it was, down to the counts
of handles and the events, less the handles on the values that were given away with the request.

Most operations check first and change the store afterwards. Host calls that write a slot take
their handle on the value before the check, so for them the two changes have to cancel out
(`Ledger.Sound.release_retain`). `Ledger.Reached.refused` is the result for every request.
-/

namespace Sexpr

/-! ## Taking a handle and giving it up -/

theorem Heap.modify_modify_cancel (heap : Heap) (p : PairId) {f g : Cell → Cell}
    (cancel : ∀ cell, g (f cell) = cell) : (heap.modify p f).modify p g = heap := by
  obtain ⟨cells⟩ := heap
  simp only [modify, Heap.mk.injEq]
  refine Array.ext_getElem? fun index => ?_
  simp only [Array.getElem?_modify]
  split
  · rcases cells[index]? with _ | _ | cell <;> simp [cancel]
  · rfl

theorem AtomTable.drop_retain (table : AtomTable) (a : Atom) : (table.retain a).drop a = table := by
  obtain ⟨holders, symbols, keywords⟩ := table
  simp only [retain, drop, AtomTable.mk.injEq, and_self, and_true]
  refine Array.ext_getElem? fun index => ?_
  simp only [Array.getElem?_modify]
  split
  · cases holders[index]? <;> simp
  · rfl

namespace Ledger.Sound

variable {store : Store} {outside : List Value} {weaks : List Weak}

/-- A copy of a value that is held can be made and given up again without a trace. -/
theorem release_retain {value : Value} (sound : Sound ⟨store, outside, weaks⟩)
    (held : value ∈ holdings ⟨store, outside, weaks⟩) :
    (store.retain value).release value = store := by
  have kept : (store.retain value).drop value = ([], store) := by
    cases value with
    | pair p =>
      obtain ⟨cell, found, counted⟩ := sound.pairs.get?_of_mem held
      have found' : (store.heap.retain p).get? p =
          some { cell with handles := cell.handles + 1 } := by
        rw [Heap.retain, Heap.get?_modify, if_pos rfl, found]
        rfl
      have shared : ¬cell.handles + 1 ≤ 1 := by
        have positive := List.count_pos_iff.2 held
        omega
      obtain ⟨heap, registry, atoms, counter, trace⟩ := store
      simp only [Store.retain, Store.mapHeap, Store.drop, Store.onHeap, Heap.drop, found', shared,
        if_false]
      rw [Heap.retain, Heap.modify_modify_cancel]
      intro cell
      rfl
    | scalar s =>
      cases s with
      | atom a =>
        have alive : store.atoms.isAlive a = true :=
          AtomTable.isAlive_eq_true_iff.2 (sound.atoms.holdersAt_pos held)
        obtain ⟨heap, registry, atoms, counter, trace⟩ := store
        simp only [Store.retain, Store.mapAtoms, Store.drop, Store.releaseAtom, AtomTable.release,
          AtomTable.drop_retain] at alive ⊢
        simp [alive]
      | _ => rfl
  exact Store.release_of_drop kept

/-- A copy of an available value can be made and given up again without a trace. -/
theorem release_retain_of_available {value : Value} (sound : Sound ⟨store, outside, weaks⟩)
    (available : Available outside value) : (store.retain value).release value = store := by
  rcases available with held | ⟨written, rfl⟩
  · exact sound.release_retain (List.mem_append_left _ held)
  · exact (sound.literal written).release_retain List.mem_cons_self

end Ledger.Sound

/-! ## Operations without a trace -/

namespace Ledger

/-- An operation that uses `needs` and takes over the handles on `takes` gives those handles up
when it is refused, and changes nothing else. -/
def Reverts {α : Type} (needs takes : List Value)
    (operation : Store → Except Fault α × Store) : Prop :=
  ∀ store outside weaks, Reached ⟨store, takes ++ outside, weaks⟩ →
    (∀ value ∈ needs, Available outside value) →
    ∀ fault, (operation store).1 = .error fault → (operation store).2 = store.releaseAll takes

namespace Reverts

variable {α : Type} {needs : List Value} {value target : Value} {p : PairId} {slot : Slot}

/-- What is never refused. -/
theorem succeed {takes : List Value} (answer : Store → α) (change : Store → Store) :
    Reverts needs takes fun store => (.ok (answer store), change store) := by
  intro store outside weaks reached available fault refused
  cases refused

/-- What does not touch the store. -/
theorem pure (answer : Except Fault α) : Reverts needs [] fun store => (answer, store) := by
  intro store outside weaks reached available fault refused
  rw [Store.releaseAll]

theorem refuse (fault : Fault) :
    Reverts needs [value] fun store => ((.error fault : Except Fault α), store.release value) := by
  intro store outside weaks reached available fault refused
  rfl

/-! ### Slots -/

theorem slotOf : Reverts needs [] (Store.slotOf slot value) := by
  cases value with
  | pair p => exact succeed _ _
  | scalar s =>
    cases s with
    | nil => exact pure _
    | _ => exact pure _

theorem pairItem (index : Int) : Reverts needs [] (Store.pairItem p index) := by
  unfold Store.pairItem
  cases Slot.atIndex? index with
  | some slot => exact succeed _ _
  | none => exact pure _

theorem item (index : Int) : Reverts needs [] (Store.item target index) := by
  cases target with
  | pair p => exact pairItem index
  | scalar s =>
    cases s with
    | nil => exact pure _
    | _ => exact pure _

theorem setSlotOf (slot : Slot) (target : Value) :
    Reverts needs [value] (Store.setSlotOf slot target value) := by
  cases target with
  | pair p => exact succeed _ _
  | scalar s =>
    cases s with
    | nil => exact refuse _
    | _ => exact refuse _

theorem setPairItem (index : Int) : Reverts needs [value] (Store.setPairItem p index value) := by
  unfold Store.setPairItem
  cases Slot.atIndex? index with
  | some slot => exact succeed _ _
  | none => exact refuse _

theorem setItem (index : Int) : Reverts needs [value] (Store.setItem target index value) := by
  cases target with
  | pair p => exact setPairItem index
  | scalar s =>
    cases s with
    | nil => exact refuse _
    | _ => exact refuse _

/-! ### Names and cursors -/

theorem internValue (kind : AtomKind) (value : Value) :
    Reverts needs [] (Store.internValue kind value) := by
  intro store outside weaks reached available fault refused
  unfold Store.internValue at refused ⊢
  cases text : Render.listing? store.heap value with
  | some raw =>
    rw [text] at refused
    cases refused
  | none => rw [Store.releaseAll]

theorem splitAtom (side : Text.Side) (sep : Option String) (limit : Option Nat) (a : Atom) :
    Reverts needs [] (Store.splitAtom side sep limit a) := by
  unfold Store.splitAtom
  cases Text.split side sep limit a.name with
  | ok pieces => exact succeed _ _
  | error fault => exact pure _

theorem fresh (stem : Option String) (rejects : Nat) :
    Reverts needs [] (Store.fresh stem rejects) := by
  intro store outside weaks reached available fault refused
  unfold Store.fresh at refused ⊢
  split at refused
  · cases refused
  · rw [Store.releaseAll]

theorem start : Reverts needs [] (Cursor.start value) := by
  cases value with
  | pair p => exact succeed _ _
  | scalar s =>
    cases s with
    | nil => exact pure _
    | _ => exact pure _

/-! ### Calls -/

variable {entry : Entry} {arguments : Arguments}

theorem callSplit (side : Text.Side) : Reverts needs [] (entry.callSplit side arguments) := by
  unfold Entry.callSplit
  cases entry.splitPlan arguments with
  | error fault => exact pure _
  | ok plan =>
    intro store outside weaks reached available fault refused
    have cut := splitAtom side plan.separator plan.limit plan.atom store outside weaks reached
      available
    dsimp only at refused ⊢
    generalize store.splitAtom side plan.separator plan.limit plan.atom = outcome at cut refused ⊢
    obtain ⟨_ | atoms, after⟩ := outcome
    · exact cut _ rfl
    · cases refused

theorem callFresh (stem : Option String) : Reverts needs [] (Entry.callFresh stem) := by
  intro store outside weaks reached available fault refused
  have drawn := fresh stem 0 store outside weaks reached available
  unfold Entry.callFresh at refused ⊢
  generalize store.fresh stem 0 = outcome at drawn refused ⊢
  obtain ⟨_ | _, after⟩ := outcome
  · exact drawn _ rfl
  · cases refused

theorem callAtom (kind : AtomKind) : Reverts needs [] (entry.callAtom kind arguments) := by
  unfold Entry.callAtom
  split
  · exact pure _
  · exact pure _
  case h_3 value given =>
    intro store outside weaks reached available fault refused
    have made := internValue kind value store outside weaks reached available
    dsimp only at refused ⊢
    generalize store.internValue kind value = outcome at made refused ⊢
    obtain ⟨_ | _, after⟩ := outcome
    · exact made _ rfl
    · cases refused
  · exact pure _

theorem callGensym : Reverts needs [] (entry.callGensym arguments) := by
  unfold Entry.callGensym
  split
  · exact pure _
  · exact callFresh none
  · exact callFresh none
  case h_4 stem _ _ =>
    intro store outside weaks reached available fault refused
    dsimp only at refused ⊢
    cases text : Render.listing? store.heap stem with
    | some raw =>
      rw [text] at refused
      exact callFresh (some raw) store outside weaks reached available fault refused
    | none => rw [Store.releaseAll]
  · exact pure _

theorem callPair : Reverts needs [] (entry.callPair arguments) := by
  unfold Entry.callPair
  split
  · exact pure _
  · exact pure _
  · exact pure _
  · exact succeed _ _
  · exact pure _

theorem callCons : Reverts needs [] (Entry.callCons arguments) := by
  unfold Entry.callCons
  dsimp only
  split
  · exact succeed _ _
  · split
    · exact succeed _ _
    · exact pure _
  · exact pure _

theorem callSlot : Reverts needs [] (entry.callSlot slot arguments) := by
  unfold Entry.callSlot
  split
  · exact pure _
  · exact slotOf
  · exact pure _

/-- The handle that is taken on the value before the check is given up after it. -/
theorem callSetSlot :
    Reverts arguments.positional [] (entry.callSetSlot slot arguments) := by
  unfold Entry.callSetSlot
  split
  · exact pure _
  case h_2 target value given =>
    rw [← Conducts.unnamed_eq_ok given]
    intro store outside weaks reached available fault refused
    have kept := available value (by simp)
    have written := setSlotOf slot target (store.retain value) outside weaks
      (reached.retain kept) available
    dsimp only at refused ⊢
    generalize (store.retain value).setSlotOf slot target value = outcome at written refused ⊢
    obtain ⟨_ | _, after⟩ := outcome
    · rw [Store.releaseAll]
      exact (written _ rfl).trans (reached.sound.release_retain_of_available kept)
    · cases refused
  · exact pure _

theorem call : Reverts arguments.positional [] (entry.call arguments) := by
  cases entry with
  | symbol => exact callAtom .symbol
  | keyword => exact callAtom .keyword
  | gensym => exact callGensym
  | split => exact callSplit .left
  | rsplit => exact callSplit .right
  | pair => exact callPair
  | nil =>
    unfold Entry.call
    dsimp only
    split
    · exact succeed _ _
    · exact pure _
  | cons => exact callCons
  | car => exact callSlot
  | cdr => exact callSlot
  | setcar => exact callSetSlot
  | setcdr => exact callSetSlot

end Reverts

end Ledger

/-! ## Requests -/

/-- An operation that can be refused, with its arguments. -/
inductive Request where
  | slot (which : Slot) (target : Value)
  | setSlot (which : Slot) (target value : Value)
  | pairItem (p : PairId) (index : Int)
  | setPairItem (p : PairId) (index : Int) (value : Value)
  | item (target : Value) (index : Int)
  | setItem (target : Value) (index : Int) (value : Value)
  | length (target : Value)
  | isEmpty (target : Value)
  | cursor (target : Value)
  | split (side : Text.Side) (separator : Option String) (limit : Option Nat) (text : String)
  | splitAtom (side : Text.Side) (separator : Option String) (limit : Option Nat) (a : Atom)
  | call (entry : Entry) (arguments : Arguments)

namespace Request

/-- What a request has come to, whatever the answer. -/
def verdict {α : Type} (outcome : Except Fault α × Store) : Except Fault Unit × Store :=
  (outcome.1.map fun _ => (), outcome.2)

/-- Makes a request. -/
def outcome (request : Request) (store : Store) : Except Fault Unit × Store :=
  match request with
  | slot which target => verdict (store.slotOf which target)
  | setSlot which target value => verdict (store.setSlotOf which target value)
  | pairItem p index => verdict (store.pairItem p index)
  | setPairItem p index value => verdict (store.setPairItem p index value)
  | item target index => verdict (store.item target index)
  | setItem target index value => verdict (store.setItem target index value)
  | length target => verdict (target.length, store)
  | isEmpty target => verdict (target.isEmpty, store)
  | cursor target => verdict (Cursor.start target store)
  | split side separator limit text => verdict (Text.split side separator limit text, store)
  | splitAtom side separator limit a => verdict (store.splitAtom side separator limit a)
  | call entry arguments => verdict (entry.call arguments store)

/-- The values that are lent to a request. -/
def lent : Request → List Value
  | slot _ target => [target]
  | setSlot _ target _ => [target]
  | pairItem p _ => [.pair p]
  | setPairItem p _ _ => [.pair p]
  | item target _ => [target]
  | setItem target _ _ => [target]
  | length target => [target]
  | isEmpty target => [target]
  | cursor target => [target]
  | split _ _ _ _ => []
  | splitAtom _ _ _ a => [.atom a]
  | call _ arguments => arguments.positional ++ arguments.named.map Prod.snd

/-- The values that are given away with a request. -/
def given : Request → List Value
  | setSlot _ _ value => [value]
  | setPairItem _ _ value => [value]
  | setItem _ _ value => [value]
  | _ => []

end Request

namespace Ledger

variable {α : Type} {store : Store} {outside : List Value} {weaks : List Weak}

theorem Reverts.verdict {needs takes : List Value} {operation : Store → Except Fault α × Store}
    (reverts : Reverts needs takes operation) :
    Reverts needs takes fun store => Request.verdict (operation store) := by
  intro store outside weaks reached available fault refused
  refine reverts store outside weaks reached available fault ?_
  dsimp only [Request.verdict] at refused
  cases answer : (operation store).1 with
  | error cause =>
    rw [answer] at refused
    exact congrArg _ (Except.error.inj refused)
  | ok value =>
    rw [answer] at refused
    cases refused

theorem Reverts.mono {needs more takes : List Value} {operation : Store → Except Fault α × Store}
    (reverts : Reverts needs takes operation) (less : needs ⊆ more) :
    Reverts more takes operation := by
  intro store outside weaks reached available
  exact reverts store outside weaks reached fun value member => available value (less member)

/-- No request leaves a trace when it is refused. -/
theorem Reverts.outcome (request : Request) :
    Reverts request.lent request.given request.outcome := by
  cases request with
  | slot which target => exact slotOf.verdict
  | setSlot which target value => exact (setSlotOf which target).verdict
  | pairItem p index => exact (pairItem index).verdict
  | setPairItem p index value => exact (setPairItem index).verdict
  | item target index => exact (item index).verdict
  | setItem target index value => exact (setItem index).verdict
  | length target => exact (pure target.length).verdict
  | isEmpty target => exact (pure target.isEmpty).verdict
  | cursor target => exact start.verdict
  | split side separator limit text => exact (pure (Text.split side separator limit text)).verdict
  | splitAtom side separator limit a => exact (splitAtom side separator limit a).verdict
  | call entry arguments => exact (call.mono (List.subset_append_left ..)).verdict

/-- A refused request leaves the store as it was, less the handle on a value that was given away
with it. If that was a copy, the store is what it was before the copy was made. -/
theorem Reached.refused {request : Request} {fault : Fault}
    (reached : Reached ⟨store, request.given ++ outside, weaks⟩)
    (available : ∀ value ∈ request.lent, Available outside value)
    (refused : (request.outcome store).1 = .error fault) :
    (request.outcome store).2 = store.releaseAll request.given ∧
      ∀ before value, Reached ⟨before, outside, weaks⟩ → request.given = [value] →
        Available outside value → store = before.retain value →
        (request.outcome store).2 = before := by
  have after := Reverts.outcome request store outside weaks reached available fault refused
  refine ⟨after, ?_⟩
  intro before value reachedBefore given kept copied
  rw [after, given, copied]
  exact reachedBefore.sound.release_retain_of_available kept

/-- A symbol and a pair are held, and the pair is to be put into a slot of the symbol: once with a
copy of the pair, and once by a host call. Each time the store is what it was. -/
theorem refused_of_symbol :
    let named := Store.empty.intern .symbol "a"
    let made := named.2.pair .nil .nil
    let symbol : Value := .atom named.1
    let pair : Value := .pair made.1
    let write := Request.setSlot .head symbol pair
    let call := Request.call .setcar ⟨[symbol, pair], []⟩
    Reached ⟨made.2, [pair, symbol], []⟩ ∧ (write.outcome (made.2.retain pair)).2 = made.2 ∧
      (call.outcome made.2).2 = made.2 := by
  intro named made symbol pair write call
  have held : Reached ⟨named.2, [symbol], []⟩ := .single (.intern .symbol "a")
  have reached : Reached ⟨made.2, [pair, symbol], []⟩ :=
    ((held.step (.literal .nil)).step (.literal .nil)).step .pair
  have available : ∀ value ∈ [symbol, pair], Available [pair, symbol] value := by
    intro value member
    exact Or.inl ((List.Perm.swap pair symbol []).mem_iff.1 member)
  refine ⟨reached, ?_, ?_⟩
  · have copied : Reached ⟨made.2.retain pair, write.given ++ [pair, symbol], []⟩ :=
      reached.step (.copy List.mem_cons_self)
    have no : (write.outcome (made.2.retain pair)).1 = .error (.slotOfOther .head .symbol) := rfl
    refine (copied.refused ?_ no).2 made.2 pair reached rfl (Or.inl List.mem_cons_self) rfl
    intro value member
    exact available value (List.mem_cons.2 (Or.inl (List.mem_singleton.1 member)))
  · have ready : Reached ⟨made.2, call.given ++ [pair, symbol], []⟩ := reached
    have no : (call.outcome made.2).1 = .error (.slotOfOther .head .symbol) := rfl
    have after : (call.outcome made.2).2 = made.2.releaseAll [] :=
      (ready.refused available no).1
    rwa [Store.releaseAll] at after

end Ledger

end Sexpr
