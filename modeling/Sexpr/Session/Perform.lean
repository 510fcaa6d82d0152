import Sexpr.Entry.Call
import Sexpr.Heap.Chain
import Sexpr.Heap.Position
import Sexpr.Session.Answer
import Sexpr.Session.Command
import Sexpr.Store.Collect

/-!
# What commands do

`Command.perform` is what each command does. Its operands are evaluated first, then the store
takes one step, then the answer is read off the store. It comes with the value that the command
made, so that the value can be put into a register.
-/

namespace Sexpr

namespace Act

/-! ## Descriptions -/

/-- The description of a value in a store, if its texts end. -/
def description? (store : Store) (value : Value) : Option Description := do
  let listing ← Render.listing? store.heap value
  let structural ← Render.structural? store.heap value
  return ⟨value.typeName, listing, structural⟩

/-- The description of a value. -/
def describe (value : Value) : Act Description := do
  match ← query (description? · value) with
  | some description => return description
  | none => throw (.fault .endlessText)

/-- The answer that describes a value which the step made. -/
def made (value : Value) : Act (Answer × Option Value) := do
  return (.described (← describe value), some value)

/-- The pair that an expression stands for. -/
def evalPair (e : Expr) : Act PairId := do
  let value ← e.eval
  pairOf value

/-- The pairs that expressions stand for. -/
def evalPairs (es : List Expr) : Act (List PairId) := do
  let values ← Expr.evalAll es
  values.mapM pairOf

/-- The arguments by name of a call. -/
def evalNamed (named : List (String × Expr)) : Act (List (String × Value)) := do
  let values ← Expr.evalAll (named.map Prod.snd)
  return (named.map Prod.fst).zip values

end Act

/-! ## Commands -/

namespace Command

open Act

/-- Follows a slot and reports where that leads. -/
def performDescend (slot : Slot) (p : PairId) : Act (Answer × Option Value) := do
  let trail ← query fun store => store.heap.follow slot p
  let positions ← query fun store => trail.pairs.map store.heap.position?
  let stop ← Act.describe trail.stop
  let descent : Descent :=
    ⟨trail.pairs.length, positions.countP Option.isSome, positions.head?.join, stop⟩
  return (.descended descent, none)

/-- Looks where a weak reference leads. What is still alive is held. -/
def performUpgrade (weak : Weak) : Act (Answer × Option Value) := do
  match ← onStore weak.upgrade with
  | some value =>
    hold value
    return (.upgraded (some (← Act.describe value)) (weak.text? true), some value)
  | none => return (.upgraded none (weak.text? false), none)

/-- Does what a command says. The answer comes with the value that the command made, if it made
one. -/
def perform : Command → Act (Answer × Option Value)
  | describe value => do made (← value.eval)
  | typeOf value => do
    let value ← value.eval
    return (.typed value.typeName, some value)
  | dropRegister name => do return (.dropped (← unassign name), none)
  | inspect value => do return (.inspected (← value.eval).inspection, none)
  | compare first second => do
    let first ← first.eval
    let second ← second.eval
    return (.compared (first.equal second), none)
  | getSlot slot target => do
    let target ← target.eval
    made (← tryObtain (Store.slotOf slot target))
  | setSlot slot target value => do
    let target ← target.eval
    let value ← value.eval
    attempt fun store => (store.retain value).setSlotOf slot target value
    return (.described (← Act.describe target), none)
  | getItem target index => do
    let target ← target.eval
    made (← tryObtain (Store.item target index))
  | setItem target index value => do
    let target ← target.eval
    let value ← value.eval
    attempt fun store => (store.retain value).setItem target index value
    return (.described (← Act.describe target), none)
  | getPairItem target index => do
    let p ← evalPair target
    made (← tryObtain (Store.pairItem p index))
  | setPairItem target index value => do
    let p ← evalPair target
    let value ← value.eval
    attempt fun store => (store.retain value).setPairItem p index value
    return (.described (← Act.describe (.pair p)), none)
  | showSlots target => do
    let p ← evalPair target
    let (head, tail) ← query (·.heap.slots p)
    let view : SlotsView :=
      ⟨← Act.describe head, ← Act.describe tail, head.isTruthy, tail.isTruthy,
        ← Act.describe (.pair p)⟩
    return (.slots view, none)
  | identify first second => do
    let first ← evalPair first
    let second ← evalPair second
    return (.identified (first == second), none)
  | isEndless target => do
    let p ← evalPair target
    return (.endless (← query (·.heap.isEndless p)), none)
  | digest value => do
    let description ← Act.describe (← value.eval)
    return (.digested (Text.digest description.listing) (Text.digest description.structural), none)
  | grow seed count growth numbered => do
    let seed ← seed.eval
    let value ← obtain fun store => (store.retain seed).grow growth numbered count.toNat 0 seed
    return (.typed value.typeName, some value)
  | descend slot target => do performDescend slot (← evalPair target)
  | openCursor name target => do
    let target ← target.eval
    let cursor ← attempt (Cursor.start target)
    setCursor name cursor
    return (.cursor cursor.remaining cursor.isExhausted, none)
  | nextItem name => do
    let (value, cursor) ← advance name
    let description ← value.mapM Act.describe
    return (.item description cursor.remaining cursor.isExhausted, value)
  | dropCursor name => do return (.dropped (← Act.dropCursor name), none)
  | weaken name target => do
    let target ← target.eval
    let weak ←
      match target.pair? with
      | some p => pure (Weak.pair p)
      | none => do pure (Weak.atom (← atomOf target))
    modify fun session => { session with weaks := session.weaks.put name weak }
    return (.weak target.typeName, none)
  | upgrade name => do
    match (← get).weaks.find? name with
    | some weak => performUpgrade weak
    | none => refuse (.noWeak name)
  | assignPosition target position follow => do
    let p ← evalPair target
    onStore fun store => ((), store.mapHeap (·.assignPosition p position follow))
    return (.position (← query (·.heap.position? p)), none)
  | fillPosition target position follow => do
    let p ← evalPair target
    onStore fun store => ((), store.mapHeap (·.fillPosition p position follow))
    return (.position (← query (·.heap.position? p)), none)
  | positions targets => do
    let pairs ← evalPairs targets
    return (.positions (← query fun store => pairs.map store.heap.position?), none)
  | internValue kind value => do
    let value ← value.eval
    let a ← attempt (Store.internValue kind value)
    hold (.atom a)
    made (.atom a)
  | isInterned kind raw => do return (.interned (← query (·.atoms.isInterned kind raw)), none)
  | distinct targets => do
    let values ← Expr.evalAll targets
    let atoms ← values.mapM atomOf
    return (.distinct (Atom.countDistinct atoms), none)
  | splitAtom side sep limit target => do
    let target ← target.eval
    let atoms ← attempt (Store.splitAtom side sep limit (← atomOf target))
    let value ← obtain (Store.list (atoms.map Value.atom))
    return (.pieces (atoms.map Atom.description), some value)
  | fresh stem => do
    let drawn ← attempt (Store.fresh stem 0)
    hold (.atom drawn.atom)
    made (.atom drawn.atom)
  | freshAfter stem rejects => do
    let drawn ← attempt (Store.fresh stem rejects)
    hold (.atom drawn.atom)
    return (.drawn drawn.candidates (← Act.describe (.atom drawn.atom)), some (.atom drawn.atom))
  | call name positional named => do
    let positional ← Expr.evalAll positional
    let named ← evalNamed named
    match Entry.named? name with
    | none => return (.unknownEntry, none)
    | some entry => made (← tryObtain (entry.call ⟨positional, named⟩))
  | collect => do return (.collected (← onStore Store.collect), none)
  | tracked => do return (.tracked (← query Store.trackedCount), none)
  | threadList start count => do
    let items := (List.range count.toNat).map fun index : Nat => Value.int (start + index)
    let value ← obtain (Store.onThread (Store.list items))
    return (.typed value.typeName, some value)
  | threadDrop name => do return (.dropped (← unassign name), none)
  | threadIntern threads kind raw => do
    let values ← Expr.evalAll (List.replicate threads (.atom kind raw))
    let atoms ← values.mapM atomOf
    match atoms with
    | [] => refuse .notAtom
    | first :: _ => return (.agreed (Atom.countDistinct atoms) first.description, none)

end Command

end Sexpr
