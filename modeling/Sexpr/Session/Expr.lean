import Sexpr.Session.Basic
import Sexpr.Store.Build
import Sexpr.Store.Name

/-!
# Value expressions

An expression says how a step comes by a value: a literal, an atom by name, the contents of a
register, new pairs made of other values, or a slot some way down another value. Parts are
evaluated from left to right, and every value on the way is held until the step ends.
-/

namespace Sexpr

/-- A value that can be written down: no pair and no atom. -/
inductive Literal where
  | nil
  | bool (value : Bool)
  | int (value : Int)
  | float (value : Binary64)
  | text (value : String)

/-- The value that a literal stands for. -/
def Literal.value : Literal → Value
  | nil => .scalar .nil
  | bool b => .scalar (.bool b)
  | int n => .scalar (.int n)
  | float x => .scalar (.float x)
  | text s => .scalar (.text s)

/-- How a step comes by a value. -/
inductive Expr where
  | literal (written : Literal)
  | atom (kind : AtomKind) (raw : String)
  | register (name : String)
  | pair (head tail : Expr)
  | list (items : List Expr)
  | cons (members : List Expr) (ring : Bool)
  /-- The slot that is reached by going through `slots` in turn. -/
  | path (slots : List Slot) (origin : Expr)

namespace Act

/-- Goes through slots in turn. -/
def descend (slots : List Slot) (value : Value) : Act Value :=
  match slots with
  | [] => pure value
  | slot :: slots => do
    let value ← tryObtain (Store.slotOf slot value)
    descend slots value

/-- The contents of a register, with a handle of its own. -/
def register (name : String) : Act Value := do
  match (← get).registers.find? name with
  | some value => share value
  | none => refuse (.noRegister name)

end Act

mutual

/-- The value of an expression. It is held until the step ends. -/
def Expr.eval : Expr → Act Value
  | .literal written => pure written.value
  | .atom kind raw => Act.obtain fun store =>
      let (a, store) := store.intern kind raw
      (.atom a, store)
  | .register name => Act.register name
  | .pair head tail => do
    let head ← head.eval
    let tail ← tail.eval
    Act.obtain fun store =>
      let (p, store) := (store.retainAll [head, tail]).pair head tail
      (.pair p, store)
  | .list items => do
    let items ← Expr.evalAll items
    Act.obtain fun store => (store.retainAll items).list items
  | .cons members ring => do
    let members ← Expr.evalAll members
    Act.obtain fun store => (store.retainAll members).cons members ring
  | .path slots origin => do
    let value ← origin.eval
    Act.descend slots value

/-- The values of several expressions, in turn. -/
def Expr.evalAll : List Expr → Act (List Value)
  | [] => pure []
  | e :: es => do
    let value ← e.eval
    let values ← Expr.evalAll es
    return value :: values

end

end Sexpr
