import Std.Data.ExtTreeMap.Basic
import Sexpr.Atom.Basic

/-!
# The table of interned atoms

For each kind the table files atoms under their names. An entry does not keep its atom alive: the
table also counts the holders of every atom that was ever made, and an atom is alive as long as it
has one.

The operations are the steps that are taken without interruption when several threads share the
table. Giving up the last hold on an atom and removing its entry are two steps. In between another
thread may file a new atom under the name, which is why `finalize` removes an entry only if it
still refers to the atom that died.
-/

namespace Sexpr

/-- Atoms by kind and name, with the number of holders of every atom ever made. -/
structure AtomTable where
  holders : Array Nat
  symbols : Std.ExtTreeMap String Atom compare
  keywords : Std.ExtTreeMap String Atom compare

namespace AtomTable

/-- The table before any atom was made. -/
def empty : AtomTable := ⟨#[], ∅, ∅⟩

/-- The entries for atoms of a kind. -/
def entries (table : AtomTable) : AtomKind → Std.ExtTreeMap String Atom compare
  | .symbol => table.symbols
  | .keyword => table.keywords

/-- The atom that is filed under a name, dead or alive. -/
def filed? (table : AtomTable) (kind : AtomKind) (name : String) : Option Atom :=
  (table.entries kind)[name]?

/-- The number of holders of an atom. -/
def holdersOf (table : AtomTable) (a : Atom) : Nat := (table.holders[a.id]?).getD 0

/-- Whether the atom has a holder. -/
def isAlive (table : AtomTable) (a : Atom) : Bool := 0 < table.holdersOf a

/-- The live atom that is filed under a name. -/
def live? (table : AtomTable) (kind : AtomKind) (name : String) : Option Atom :=
  (table.filed? kind name).filter table.isAlive

/-- Whether a live atom is filed under the name that `raw` is normalized to. -/
def isInterned (table : AtomTable) (kind : AtomKind) (raw : String) : Bool :=
  (table.live? kind (kind.normalize raw)).isSome

/-! ## Steps -/

/-- One more holder of an atom. -/
def retain (table : AtomTable) (a : Atom) : AtomTable :=
  match table with
  | ⟨holders, symbols, keywords⟩ => ⟨holders.modify a.id (· + 1), symbols, keywords⟩

/-- One holder fewer of an atom. -/
def drop (table : AtomTable) (a : Atom) : AtomTable :=
  match table with
  | ⟨holders, symbols, keywords⟩ => ⟨holders.modify a.id (· - 1), symbols, keywords⟩

/-- Files an atom under its name in place of any other. -/
def file (table : AtomTable) (a : Atom) : AtomTable :=
  match table, a.kind with
  | ⟨holders, symbols, keywords⟩, .symbol => ⟨holders, symbols.insert a.name a, keywords⟩
  | ⟨holders, symbols, keywords⟩, .keyword => ⟨holders, symbols, keywords.insert a.name a⟩

/-- Removes the entry under the name of an atom. -/
def unfile (table : AtomTable) (a : Atom) : AtomTable :=
  match table, a.kind with
  | ⟨holders, symbols, keywords⟩, .symbol => ⟨holders, symbols.erase a.name, keywords⟩
  | ⟨holders, symbols, keywords⟩, .keyword => ⟨holders, symbols, keywords.erase a.name⟩

/-- A new atom with one holder, filed under its name. -/
def create (table : AtomTable) (kind : AtomKind) (name : String) : Atom × AtomTable :=
  match table with
  | ⟨holders, symbols, keywords⟩ =>
    let a : Atom := ⟨holders.size, kind, name⟩
    (a, AtomTable.file ⟨holders.push 1, symbols, keywords⟩ a)

/-- The live atom of a name with one more holder, or a new one if there is none. The flag says
whether it is new. -/
def intern (table : AtomTable) (kind : AtomKind) (raw : String) : (Atom × Bool) × AtomTable :=
  let name := kind.normalize raw
  match table.live? kind name with
  | some a => ((a, false), table.retain a)
  | none =>
    let (a, table) := table.create kind name
    ((a, true), table)

/-- A new atom, unless a live one has the name already. -/
def internNew (table : AtomTable) (kind : AtomKind) (name : String) : Option Atom × AtomTable :=
  match table.live? kind name with
  | some _ => (none, table)
  | none =>
    let (a, table) := table.create kind name
    (some a, table)

/-- Removes the entry of a dead atom, if its name still leads to it. The flag says whether an
entry was removed. -/
def finalize (table : AtomTable) (a : Atom) : Bool × AtomTable :=
  match table.filed? a.kind a.name with
  | some other => if other.id = a.id then (true, table.unfile a) else (false, table)
  | none => (false, table)

/-- Gives up one hold on an atom; the last one takes the entry with it. The flag says whether an
entry was removed. -/
def release (table : AtomTable) (a : Atom) : Bool × AtomTable :=
  let table := table.drop a
  if table.isAlive a then (false, table) else table.finalize a

end AtomTable

end Sexpr
