import Sexpr.Atom.Quoted
import Sexpr.Cursor
import Sexpr.Render.Listing
import Sexpr.Render.Structural
import Sexpr.Session.Scope

/-!
# Sessions

A session works on a store step by step. Between steps it keeps registers, which hold values,
cursors, which hold pairs, and weak references, which hold nothing. Every value that a step comes
by is held as a temporary until the step ends, so nothing that a step has seen dies under it.

`Act` is the monad of what happens in a step: it can read and change the session, and it can stop.
What it has changed before it stops stays changed.
-/

namespace Sexpr

/-- A reference that does not keep its pair or atom alive. -/
inductive Weak where
  | pair (p : PairId)
  | atom (a : Atom)

/-- The value that a weak reference is to. -/
def Weak.value : Weak → Value
  | pair p => .pair p
  | atom a => .atom a

/-- Takes a handle on what a weak reference is to, if that is still alive. -/
def Weak.upgrade (weak : Weak) (store : Store) : Option Value × Store :=
  if store.isLive weak.value then (some weak.value, store.retain weak.value) else (none, store)

/-- The text of a weak reference to an atom; one to a pair has none. -/
def Weak.text? (alive : Bool) : Weak → Option String
  | pair _ => none
  | atom a => some (a.weakText alive)

/-- A store with all that is held outside of it. -/
structure Session where
  store : Store
  registers : Scope Value
  cursors : Scope Cursor
  weaks : Scope Weak
  /-- The values that are held until the end of the step, the latest first. -/
  temporaries : List Value

/-- The session before the first step. -/
def Session.empty : Session := ⟨.empty, .empty, .empty, .empty, []⟩

/-- A step that asks for something that the session does not have. -/
inductive Misuse where
  | noRegister (name : String)
  | noCursor (name : String)
  | noWeak (name : String)
  | notPair
  | notAtom

/-- The wording of a misuse. -/
def Misuse.message : Misuse → String
  | noRegister name => "no register " ++ name
  | noCursor name => "no iterator " ++ name
  | noWeak name => "no weak handle " ++ name
  | notPair => "not a pair"
  | notAtom => "not an atom"

/-- Why a step stopped. -/
inductive Stop where
  | fault (cause : Fault)
  | misuse (cause : Misuse)

/-- What happens in a step. -/
abbrev Act := ExceptT Stop (StateM Session)

namespace Session

/-- Every value that is held outside the store, once for each handle. -/
def held (session : Session) : List Value :=
  session.registers.values ++ session.cursors.values.flatMap Cursor.held ++ session.temporaries

/-- Gives up all temporaries. -/
def settle (session : Session) : Session :=
  match session with
  | ⟨store, registers, cursors, weaks, temporaries⟩ =>
    ⟨store.releaseAll temporaries, registers, cursors, weaks, []⟩

end Session

namespace Act

/-- Applies a step of the store that cannot fail. -/
def onStore {α : Type} (step : Store → α × Store) : Act α :=
  ExceptT.mk fun session =>
    match session with
    | ⟨store, registers, cursors, weaks, temporaries⟩ =>
      let (answer, store) := step store
      (.ok answer, ⟨store, registers, cursors, weaks, temporaries⟩)

/-- Applies a step of the store that can fail. -/
def attempt {α : Type} (step : Store → Except Fault α × Store) : Act α :=
  ExceptT.mk fun session =>
    match session with
    | ⟨store, registers, cursors, weaks, temporaries⟩ =>
      match step store with
      | (.ok answer, store) => (.ok answer, ⟨store, registers, cursors, weaks, temporaries⟩)
      | (.error cause, store) =>
        (.error (.fault cause), ⟨store, registers, cursors, weaks, temporaries⟩)

/-- Looks something up in the store. -/
def query {α : Type} (look : Store → α) : Act α := do return look (← get).store

/-- Makes the handle on a value a temporary. -/
def hold (value : Value) : Act Unit :=
  modify fun session =>
    match session with
    | ⟨store, registers, cursors, weaks, temporaries⟩ =>
      ⟨store, registers, cursors, weaks, value :: temporaries⟩

/-- Applies a step of the store that makes a value, and holds the value. -/
def obtain (step : Store → Value × Store) : Act Value := do
  let value ← onStore step
  hold value
  return value

/-- Applies a step of the store that may make a value, and holds the value. -/
def tryObtain (step : Store → Except Fault Value × Store) : Act Value := do
  let value ← attempt step
  hold value
  return value

/-- Takes a handle on a value and holds it. -/
def share (value : Value) : Act Value := obtain fun store => (value, store.retain value)

/-- Stops for a misuse. -/
def refuse {α : Type} (cause : Misuse) : Act α := throw (.misuse cause)

/-- The pair that a value is. -/
def pairOf (value : Value) : Act PairId :=
  match value with
  | .pair p => pure p
  | .scalar _ => refuse .notPair

/-- The atom that a value is. -/
def atomOf (value : Value) : Act Atom :=
  match value.atom? with
  | some a => pure a
  | none => refuse .notAtom

/-! ## Registers -/

/-- Puts a value into a register, with a handle of its own, and releases what was there. -/
def assign (name : String) (value : Value) : Act Unit :=
  modify fun session =>
    match session with
    | ⟨store, registers, cursors, weaks, temporaries⟩ =>
      let previous := registers.find? name
      ⟨(store.retain value).releaseAll previous.toList, registers.put name value, cursors, weaks,
        temporaries⟩

/-- Removes a register and releases what was there. The answer says whether there was one. -/
def unassign (name : String) : Act Bool :=
  modifyGet fun session =>
    match session with
    | ⟨store, registers, cursors, weaks, temporaries⟩ =>
      let previous := registers.find? name
      (previous.isSome, ⟨store.releaseAll previous.toList, registers.erase name, cursors, weaks,
        temporaries⟩)

/-! ## Cursors -/

/-- Puts a cursor under a name and releases what the one that was there held. -/
def setCursor (name : String) (cursor : Cursor) : Act Unit :=
  modify fun session =>
    match session with
    | ⟨store, registers, cursors, weaks, temporaries⟩ =>
      let previous := (cursors.find? name).toList.flatMap Cursor.held
      ⟨store.releaseAll previous, registers, cursors.put name cursor, weaks, temporaries⟩

/-- Removes a cursor and releases what it held. The answer says whether there was one. -/
def dropCursor (name : String) : Act Bool :=
  modifyGet fun session =>
    match session with
    | ⟨store, registers, cursors, weaks, temporaries⟩ =>
      let previous := cursors.find? name
      (previous.isSome, ⟨store.releaseAll (previous.toList.flatMap Cursor.held), registers,
        cursors.erase name, weaks, temporaries⟩)

/-- Moves a cursor on. The item, if there is one, becomes a temporary. -/
def advance (name : String) : Act (Option Value × Cursor) := do
  match (← get).cursors.find? name with
  | none => refuse (.noCursor name)
  | some cursor =>
    let (item, cursor) ← onStore cursor.next
    modify fun session => { session with cursors := session.cursors.put name cursor }
    match item with
    | some value => hold value
    | none => pure ()
    return (item, cursor)

end Act

end Sexpr
