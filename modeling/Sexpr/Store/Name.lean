import Sexpr.Render.Listing
import Sexpr.Store.Basic
import Sexpr.Text.Split

/-!
# Making atoms

Atoms are made from names, from other values by their list text, from the pieces of another
atom's name, and from fresh names. The caller gets one handle on each atom.
-/

namespace Sexpr.Store

/-- The atom of a name. -/
def intern (kind : AtomKind) (raw : String) (store : Store) : Atom × Store :=
  match store with
  | ⟨heap, registry, atoms, counter, trace⟩ =>
    let ((a, new), atoms) := atoms.intern kind raw
    (a, ⟨heap, registry, atoms, counter,
      if new then trace.push (.interned a.kind a.name) else trace⟩)

/-- The atoms of several names, in turn. -/
def internAll (kind : AtomKind) (raws : List String) (store : Store) : List Atom × Store :=
  match raws with
  | [] => ([], store)
  | raw :: raws =>
    let (a, store) := store.intern kind raw
    let (others, store) := store.internAll kind raws
    (a :: others, store)

/-- The atom named after a value: a text by itself, an atom by its name, all else by its list
text. -/
def internValue (kind : AtomKind) (value : Value) (store : Store) : Except Fault Atom × Store :=
  match Render.listing? store.heap value with
  | some raw =>
    let (a, store) := store.intern kind raw
    (.ok a, store)
  | none => (.error .endlessText, store)

/-- The pieces of an atom's name as atoms of the same kind. -/
def splitAtom (side : Text.Side) (sep : Option String) (limit : Option Nat) (a : Atom)
    (store : Store) : Except Fault (List Atom) × Store :=
  match Text.split side sep limit a.name with
  | .ok pieces =>
    let (atoms, store) := store.internAll a.kind pieces
    (.ok atoms, store)
  | .error fault => (.error fault, store)

/-! ## Fresh symbols -/

/-- A fresh symbol, and the names that were looked at until it was accepted. -/
structure Fresh where
  /-- The names of the candidates, in the order in which they were drawn. -/
  candidates : List String
  atom : Atom

/-- What a caller says of a candidate's name, given the names that it was shown before, the last of
them first. -/
abbrev Approval := List String → String → Bool

/-- The caller that turns down a number of candidates and accepts the next one. -/
def Approval.rejecting (rejects : Nat) : Approval := fun shown _ => rejects ≤ shown.length

/-- Draws names until one is not taken and its candidate is accepted, with `draws` draws at most. A
candidate that is turned down is released at once. -/
def drawFresh (stem : Option String) (accepts : Approval) (draws : Nat) (shown : List String)
    (store : Store) : Option Fresh × Store :=
  match draws with
  | 0 => (none, store)
  | draws + 1 =>
    match store with
    | ⟨heap, registry, atoms, counter, trace⟩ =>
      let name := Counter.freshName stem counter
      match atoms.internNew .symbol name with
      | (none, atoms) =>
        drawFresh stem accepts draws shown ⟨heap, registry, atoms, Counter.next counter, trace⟩
      | (some a, atoms) =>
        let store : Store :=
          ⟨heap, registry, atoms, Counter.next counter, trace.push (.drawn name)⟩
        match accepts shown name with
        | true => (some ⟨(name :: shown).reverse, a⟩, store)
        | false => drawFresh stem accepts draws (name :: shown) (store.releaseAtom a)

/-- A symbol with a fresh name, after `rejects` candidates were turned down. A draw fails only on
a name that is taken, so one draw more than there are symbols and rejections suffices. If all of
them fail the store stays as it was. -/
def fresh (stem : Option String) (rejects : Nat) (store : Store) : Except Fault Fresh × Store :=
  match store.drawFresh stem (.rejecting rejects) (store.atoms.symbols.size + rejects + 1) [] with
  | (some drawn, after) => (.ok drawn, after)
  | (none, _) => (.error .noFreshName, store)

end Sexpr.Store
