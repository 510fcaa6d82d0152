import Sexpr.Entry.Name
import Sexpr.Store.Build
import Sexpr.Store.Name
import Sexpr.Store.Slots

/-!
# Calls of entry points

A call has positional and named arguments. Every check comes before the first change of the
store, so a refused call changes nothing. The caller keeps the arguments; what a call puts into a
pair gets a handle of its own, and so does the result.
-/

namespace Sexpr

/-- The arguments of a call. -/
structure Arguments where
  positional : List Value
  /-- Arguments by name, in the order in which they were given. -/
  named : List (String × Value)

namespace Entry

/-- What is needed to cut a name. -/
structure SplitPlan where
  atom : Atom
  separator : Option String
  limit : Option Nat

/-- A separator is a text, or nil for none. -/
def separatorOf (entry : Entry) : Value → Except Fault (Option String)
  | .scalar .nil => .ok none
  | .scalar (.text sep) => .ok (some sep)
  | other => .error (.badSeparator entry other.typeName)

/-- A limit is an integer, or nil for none; a negative one is no limit. -/
def limitOf (entry : Entry) : Value → Except Fault (Option Nat)
  | .scalar .nil => .ok none
  | .scalar (.int n) => .ok (if 0 ≤ n then some n.toNat else none)
  | other => .error (.badLimit entry other.typeName)

/-- Takes up the named arguments after `given` arguments that follow the atom by position. Of two
with one name the last counts. -/
def takeNamed (entry : Entry) (given : Nat) (named : List (String × Value)) (sep limit : Value) :
    Except Fault (Value × Value) :=
  match named with
  | [] => .ok (sep, limit)
  | (key, value) :: named =>
    if key = "sep" then
      if given = 0 then entry.takeNamed given named value limit
      else .error (.givenTwice entry key)
    else if key = "maxsplit" then
      if given < 2 then entry.takeNamed given named sep value
      else .error (.givenTwice entry key)
    else .error (.unknownKey entry key)

/-- Checks the arguments of a call that cuts a name. -/
def splitPlan (entry : Entry) (arguments : Arguments) : Except Fault SplitPlan :=
  match arguments.positional with
  | [] => .error (.missingAtom entry)
  | first :: rest =>
    if 2 < rest.length then .error (.tooMany entry 3 (rest.length + 1))
    else
      match first.atom? with
      | none => .error (.notAtom entry first.typeName)
      | some atom => do
        let (sep, limit) ← entry.takeNamed rest.length arguments.named
          (rest[0]?.getD .nil) (rest[1]?.getD .nil)
        let separator ← entry.separatorOf sep
        let limit ← entry.limitOf limit
        return ⟨atom, separator, limit⟩

/-- Cuts the name of an atom into a list of atoms. -/
def callSplit (entry : Entry) (side : Text.Side) (arguments : Arguments) (store : Store) :
    Except Fault Value × Store :=
  match entry.splitPlan arguments with
  | .error fault => (.error fault, store)
  | .ok plan =>
    match store.splitAtom side plan.separator plan.limit plan.atom with
    | (.error fault, store) => (.error fault, store)
    | (.ok atoms, store) =>
      let (value, store) := store.list (atoms.map Value.atom)
      (.ok value, store)

/-- The arguments of a call that takes none by name. -/
def unnamed (entry : Entry) (arguments : Arguments) : Except Fault (List Value) :=
  if arguments.named.isEmpty then .ok arguments.positional else .error (.namedArguments entry)

/-- Makes the atom named after the one argument. -/
def callAtom (entry : Entry) (kind : AtomKind) (arguments : Arguments) (store : Store) :
    Except Fault Value × Store :=
  match entry.unnamed arguments with
  | .error fault => (.error fault, store)
  | .ok [] => (.error (.missingName kind), store)
  | .ok [value] =>
    match store.internValue kind value with
    | (.ok a, store) => (.ok (.atom a), store)
    | (.error fault, store) => (.error fault, store)
  | .ok values => (.error (.wrongCount entry 1 values.length), store)

/-- Makes a fresh symbol with the given stem. -/
def callFresh (stem : Option String) (store : Store) : Except Fault Value × Store :=
  match store.fresh stem 0 with
  | (.ok drawn, store) => (.ok (.atom drawn.atom), store)
  | (.error fault, store) => (.error fault, store)

/-- Makes a fresh symbol; the stem is the list text of the argument, if there is one. -/
def callGensym (entry : Entry) (arguments : Arguments) (store : Store) :
    Except Fault Value × Store :=
  match entry.unnamed arguments with
  | .error fault => (.error fault, store)
  | .ok [] => callFresh none store
  | .ok [.scalar .nil] => callFresh none store
  | .ok [stem] =>
    match Render.listing? store.heap stem with
    | some stem => callFresh (some stem) store
    | none => (.error .endlessText, store)
  | .ok values => (.error (.tooMany entry 1 values.length), store)

/-- Makes a pair of the two arguments. -/
def callPair (entry : Entry) (arguments : Arguments) (store : Store) :
    Except Fault Value × Store :=
  match entry.unnamed arguments with
  | .error fault => (.error fault, store)
  | .ok [] => (.error .missingSlots, store)
  | .ok [_] => (.error .missingSlots, store)
  | .ok [head, tail] =>
    let (p, store) := (store.retainAll [head, tail]).pair head tail
    (.ok (.pair p), store)
  | .ok values => (.error (.wrongCount entry 2 values.length), store)

/-- Makes a chain of the arguments, or a ring if the argument `recursive` counts as true. -/
def callCons (arguments : Arguments) (store : Store) : Except Fault Value × Store :=
  let build (ring : Bool) : Except Fault Value × Store :=
    let (value, store) := (store.retainAll arguments.positional).cons arguments.positional ring
    (.ok value, store)
  match arguments.named with
  | [] => build false
  | [(key, flag)] =>
    if key = "recursive" then build flag.isTruthy else (.error .chainKeys, store)
  | _ => (.error .chainKeys, store)

/-- Reads a slot of the one argument. -/
def callSlot (entry : Entry) (slot : Slot) (arguments : Arguments) (store : Store) :
    Except Fault Value × Store :=
  match entry.unnamed arguments with
  | .error fault => (.error fault, store)
  | .ok [value] => store.slotOf slot value
  | .ok values => (.error (.wrongCount entry 1 values.length), store)

/-- Writes the second argument into a slot of the first. The result is nil. -/
def callSetSlot (entry : Entry) (slot : Slot) (arguments : Arguments) (store : Store) :
    Except Fault Value × Store :=
  match entry.unnamed arguments with
  | .error fault => (.error fault, store)
  | .ok [target, value] =>
    match (store.retain value).setSlotOf slot target value with
    | (.ok (), store) => (.ok .nil, store)
    | (.error fault, store) => (.error fault, store)
  | .ok values => (.error (.wrongCount entry 2 values.length), store)

/-- Calls an entry point. -/
def call (entry : Entry) (arguments : Arguments) (store : Store) : Except Fault Value × Store :=
  match entry with
  | symbol => entry.callAtom .symbol arguments store
  | keyword => entry.callAtom .keyword arguments store
  | gensym => entry.callGensym arguments store
  | split => entry.callSplit .left arguments store
  | rsplit => entry.callSplit .right arguments store
  | pair => entry.callPair arguments store
  | nil =>
    if arguments.positional.isEmpty && arguments.named.isEmpty then (.ok .nil, store)
    else (.error .nilArguments, store)
  | cons => callCons arguments store
  | car => entry.callSlot .head arguments store
  | cdr => entry.callSlot .tail arguments store
  | setcar => entry.callSetSlot .head arguments store
  | setcdr => entry.callSetSlot .tail arguments store

end Entry

end Sexpr
