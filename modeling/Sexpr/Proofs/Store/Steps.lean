import Sexpr.Proofs.Heap.Positioning
import Sexpr.Proofs.Store.Drawing
import Sexpr.Proofs.Store.Sweep

/-!
# Everything that can happen to a store

`Ledger.Step` is one operation on a store by those who hold something in it: taking, copying and
giving up handles, reading and writing slots, making pairs and atoms, changing positions, switching
threads, collecting. Each operation uses only what is held outside, as its premises say.
`Ledger.Reached` is what any number of steps from the empty ledger leads to.

`Reached.sound` is the invariant of all runs. The other results say that the operations that are
built from several steps (chains, lists, rings, splitting, host calls) lead from reached ledgers to
reached ledgers, so that nothing has to be proved for them again.
-/

namespace Sexpr.Ledger

/-- One operation on a store. -/
inductive Step : Ledger → Ledger → Prop
  /-- The order of handles means nothing, and weak references can be given up. -/
  | regroup {store : Store} {outside others : List Value} {weaks fewer : List Weak} :
    outside.Perm others → fewer ⊆ weaks → Step ⟨store, outside, weaks⟩ ⟨store, others, fewer⟩
  | literal {store : Store} {outside : List Value} {weaks : List Weak} (written : Literal) :
    Step ⟨store, outside, weaks⟩ ⟨store, written.value :: outside, weaks⟩
  | copy {store : Store} {outside : List Value} {weaks : List Weak} {value : Value} :
    value ∈ outside → Step ⟨store, outside, weaks⟩ ⟨store.retain value, value :: outside, weaks⟩
  | release {store : Store} {outside : List Value} {weaks : List Weak} {value : Value} :
    Step ⟨store, value :: outside, weaks⟩ ⟨store.release value, outside, weaks⟩
  | weaken {store : Store} {outside : List Value} {weaks : List Weak} {weak : Weak} :
    weak.value ∈ outside → Step ⟨store, outside, weaks⟩ ⟨store, outside, weak :: weaks⟩
  | upgrade {store : Store} {outside : List Value} {weaks : List Weak} {weak : Weak} :
    weak ∈ weaks → store.isLive weak.value = true →
    Step ⟨store, outside, weaks⟩ ⟨store.retain weak.value, weak.value :: outside, weaks⟩
  | pair {store : Store} {outside : List Value} {weaks : List Weak} {head tail : Value} :
    Step ⟨store, head :: tail :: outside, weaks⟩
      ⟨(store.pair head tail).2, .pair (store.pair head tail).1 :: outside, weaks⟩
  | read {store : Store} {outside : List Value} {weaks : List Weak} {p : PairId} (slot : Slot) :
    .pair p ∈ outside → Step ⟨store, outside, weaks⟩
      ⟨(store.read p slot).2, (store.read p slot).1 :: outside, weaks⟩
  | write {store : Store} {outside : List Value} {weaks : List Weak} {p : PairId} {value : Value}
      (slot : Slot) : .pair p ∈ outside →
    Step ⟨store, value :: outside, weaks⟩ ⟨store.write p slot value, outside, weaks⟩
  | assignPosition {store : Store} {outside : List Value} {weaks : List Weak} (p : PairId)
      (position : Option Position) (follow : Bool) : Step ⟨store, outside, weaks⟩
      ⟨store.mapHeap (·.assignPosition p position follow), outside, weaks⟩
  | fillPosition {store : Store} {outside : List Value} {weaks : List Weak} (p : PairId)
      (position : Position) (follow : Bool) : Step ⟨store, outside, weaks⟩
      ⟨store.mapHeap (·.fillPosition p position follow), outside, weaks⟩
  | intern {store : Store} {outside : List Value} {weaks : List Weak} (kind : AtomKind)
      (raw : String) : Step ⟨store, outside, weaks⟩
      ⟨(store.intern kind raw).2, .atom (store.intern kind raw).1 :: outside, weaks⟩
  | fresh {store after : Store} {outside : List Value} {weaks : List Weak}
      {stem : Option String} {accepts : Store.Approval} {draws : Nat} {drawn : Store.Fresh} :
    store.drawFresh stem accepts draws [] = (some drawn, after) →
    Step ⟨store, outside, weaks⟩ ⟨after, .atom drawn.atom :: outside, weaks⟩
  | startThread {store : Store} {outside : List Value} {weaks : List Weak} :
    Step ⟨store, outside, weaks⟩ ⟨store.mapRegistry Registry.startThread, outside, weaks⟩
  | resumeThread {store : Store} {outside : List Value} {weaks : List Weak} (thread : Nat) :
    Step ⟨store, outside, weaks⟩
      ⟨store.mapRegistry (Registry.resumeThread thread), outside, weaks⟩
  | collect {store : Store} {outside : List Value} {weaks : List Weak} :
    Step ⟨store, outside, weaks⟩ ⟨store.collect.2, outside, weaks⟩

/-- What any number of operations on an empty store leads to. -/
def Reached : Ledger → Prop := Relation.ReflTransGen Step .empty

theorem Step.sound {ledger later : Ledger} (step : Step ledger later) (sound : ledger.Sound) :
    later.Sound := by
  cases step with
  | regroup same less => exact (sound.perm same).forget less
  | literal written => exact sound.literal written
  | copy held => exact sound.retain (List.mem_append_left _ held)
  | release => exact sound.release
  | weaken held => exact sound.weaken held
  | upgrade kept live => exact sound.retain (sound.mem_holdings_of_isLive kept live)
  | pair => exact sound.pair
  | @read store outside weaks p slot held =>
    have live := sound.pairs.isLive_iff.2 (List.mem_append_left _ held)
    exact sound.retain (mem_holdings.2 (Or.inr ⟨p, slot, live, rfl⟩))
  | write slot held => exact sound.write held
  | assignPosition p position follow =>
    exact sound.of_positions (Heap.agrees_assignPosition ..)
  | fillPosition p position follow => exact sound.of_positions (Heap.agrees_fillPosition ..)
  | intern kind raw => exact sound.intern kind raw
  | fresh drawn => exact sound.drawFresh drawn
  | startThread => exact sound.mapRegistry _ sound.registered.startThread
  | resumeThread thread => exact sound.mapRegistry _ (sound.registered.resumeThread thread)
  | collect => exact sound.collect

/-- The invariant holds in every run. -/
theorem Reached.sound {ledger : Ledger} (reached : Reached ledger) : ledger.Sound := by
  induction reached with
  | refl => exact .of_empty
  | tail _ step ih => exact step.sound ih

end Sexpr.Ledger
