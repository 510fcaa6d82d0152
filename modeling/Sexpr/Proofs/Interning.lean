import Sexpr.Proofs.Store.Runs

/-!
# Names and atoms

The table files an atom under its name as long as somebody holds the atom, and not longer. So there
is one atom for a name at any time, and whoever holds two atoms can tell by their identities
whether they have one name. `InternsExactly` collects what a ledger owes to its atoms;
`Reached.internsExactly` proves it of every ledger that operations lead to.
-/

namespace Sexpr.Ledger

/-- The table of atoms says what the holders say. -/
structure InternsExactly (ledger : Ledger) : Prop where
  /-- A name leads to an atom exactly if the atom is held and has that kind and name. -/
  files : ∀ kind name a, ledger.store.atoms.filed? kind name = some a ↔
    ledger.Holds (.atom a) ∧ a.kind = kind ∧ a.name = name
  /-- The atoms with holders are those that are held outside or by a live pair. -/
  lives : ∀ a, ledger.store.atoms.isAlive a = true ↔ ∃ b, ledger.Holds (.atom b) ∧ b.id = a.id
  identifies : ∀ a b, ledger.Holds (.atom a) → ledger.Holds (.atom b) →
    (a.id = b.id ↔ a.kind = b.kind ∧ a.name = b.name)
  /-- Two names give one atom exactly if they are normalized to one name. The atoms may come from
  any two moments, as long as both are held now. -/
  interns : ∀ kind raw raw' before before', Reached before → Reached before' →
    ledger.Holds (.atom (before.store.intern kind raw).1) →
    ledger.Holds (.atom (before'.store.intern kind raw').1) →
    ((before.store.intern kind raw).1.id = (before'.store.intern kind raw').1.id ↔
      kind.normalize raw = kind.normalize raw')
  knows : ∀ kind raw, ledger.store.atoms.isInterned kind raw = true ↔
    ∃ a, ledger.Holds (.atom a) ∧ a.kind = kind ∧ a.name = kind.normalize raw
  /-- No keyword has a colon at an end of its name. -/
  trims : ∀ a, ledger.Holds (.atom a) → a.kind = .keyword →
    a.name.toList.head? ≠ some ':' ∧ a.name.toList.getLast? ≠ some ':'

namespace Sound

variable {ledger : Ledger} {a b : Atom}

theorem isAlive_iff (sound : ledger.Sound) :
    ledger.store.atoms.isAlive a = true ↔ ∃ b, ledger.Holds (.atom b) ∧ b.id = a.id := by
  rw [AtomTable.isAlive_eq_true_iff]
  constructor
  · intro positive
    obtain ⟨b, held, same⟩ := sound.atoms.spent a.id positive
    exact ⟨b, mem_holdings.1 held, same⟩
  · intro holder
    obtain ⟨b, held, same⟩ := holder
    rw [← same]
    exact sound.atoms.holdersAt_pos (mem_holdings.2 held)

/-- Held atoms have one identity exactly if they have one kind and name: the table has room for
one atom only. -/
theorem id_eq_iff (sound : ledger.Sound) (heldA : ledger.Holds (.atom a))
    (heldB : ledger.Holds (.atom b)) : a.id = b.id ↔ a.kind = b.kind ∧ a.name = b.name := by
  constructor
  · intro same
    have equal := sound.atoms.eq_of_id_eq (mem_holdings.2 heldA) (mem_holdings.2 heldB) same
    exact ⟨congrArg Atom.kind equal, congrArg Atom.name equal⟩
  · intro alike
    obtain ⟨sameKind, sameName⟩ := alike
    have filedA := sound.atoms.filed a (mem_holdings.2 heldA)
    have filedB := sound.atoms.filed b (mem_holdings.2 heldB)
    rw [sameKind, sameName, filedB] at filedA
    exact congrArg Atom.id (Option.some.inj filedA).symm

/-- Interning gives an atom of the kind, under the normalized name. -/
theorem kind_name_intern (sound : ledger.Sound) (kind : AtomKind) (raw : String) :
    (ledger.store.intern kind raw).1.kind = kind ∧
      (ledger.store.intern kind raw).1.name = kind.normalize raw := by
  have made : (ledger.store.intern kind raw).1 = (ledger.store.atoms.intern kind raw).1.1 := rfl
  rw [made, AtomTable.intern, sound.atoms.live?_eq_filed?]
  cases entry : ledger.store.atoms.filed? kind (kind.normalize raw) with
  | some a => exact (sound.filed?_eq_some_iff.1 entry).2
  | none => exact ⟨rfl, rfl⟩

theorem isInterned_iff (sound : ledger.Sound) (kind : AtomKind) (raw : String) :
    ledger.store.atoms.isInterned kind raw = true ↔
      ∃ a, ledger.Holds (.atom a) ∧ a.kind = kind ∧ a.name = kind.normalize raw := by
  rw [AtomTable.isInterned, sound.atoms.live?_eq_filed?, Option.isSome_iff_exists]
  exact exists_congr fun a => sound.filed?_eq_some_iff

/-- The name of a keyword stays what it is when colons are taken off its ends. -/
theorem trim_name (sound : ledger.Sound) (held : ledger.Holds (.atom a))
    (keyword : a.kind = .keyword) : AtomKind.keyword.trim a.name.toList = a.name.toList := by
  have normal := sound.atoms.normal a (mem_holdings.2 held)
  rw [keyword, AtomKind.normalize] at normal
  have characters := congrArg String.toList normal
  rwa [String.toList_ofList] at characters

end Sound

/-- Names and atoms agree in every run. -/
theorem Reached.internsExactly {ledger : Ledger} (reached : Reached ledger) :
    ledger.InternsExactly := by
  have sound := reached.sound
  refine ⟨fun kind name a => sound.filed?_eq_some_iff, fun a => sound.isAlive_iff,
    fun a b => sound.id_eq_iff, ?_, sound.isInterned_iff, fun a held keyword => ?_⟩
  · intro kind raw raw' before before' reachedBefore reachedBefore' held held'
    obtain ⟨ofKind, named⟩ := reachedBefore.sound.kind_name_intern kind raw
    obtain ⟨ofKind', named'⟩ := reachedBefore'.sound.kind_name_intern kind raw'
    rw [sound.id_eq_iff held held', ofKind, ofKind', named, named']
    exact and_iff_right rfl
  · rw [← sound.trim_name held keyword]
    exact ⟨AtomKind.head?_trim_keyword _, AtomKind.getLast?_trim_keyword _⟩

/-- One keyword is written with colons and without: both times it is the same atom. -/
theorem internsExactly_of_colons :
    let first := Store.empty.intern .keyword "::key:"
    let second := first.2.intern .keyword "key"
    Reached ⟨second.2, [.atom second.1, .atom first.1], []⟩ ∧
      InternsExactly ⟨second.2, [.atom second.1, .atom first.1], []⟩ ∧
      first.1.id = second.1.id ∧ second.2.atoms.isInterned .keyword ":key" = true ∧
      second.2.atoms.isInterned .symbol "key" = false := by
  intro first second
  have once : Reached ⟨first.2, [.atom first.1], []⟩ := .single (.intern .keyword "::key:")
  have twice : Reached ⟨second.2, [.atom second.1, .atom first.1], []⟩ :=
    once.step (.intern .keyword "key")
  refine ⟨twice, twice.internsExactly, ?_, ?_, ?_⟩ <;> decide +kernel

end Sexpr.Ledger
