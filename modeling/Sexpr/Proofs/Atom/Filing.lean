import Std.Data.ExtTreeMap.Lemmas
import Mathlib.Data.List.DropRight
import Sexpr.Atom.Table
import Sexpr.Value

/-!
# The table of atoms against their holders

`AtomTable.filed?` and `AtomTable.holdersAt` are the two views of the table; the first section says
what each step does to them.

`AtomTable.Exact` relates a table to the list of all values that are held anywhere. An atom is
filed exactly if it is held, under its own kind and name; it has as many holders as the list has
references to it; and two handles with one identity are the same atom. The last also covers
`known` atoms, which were held once and of which a weak reference may be left: identities are not
used again.

* `Exact.retain`, `Exact.release`: one handle more, one handle fewer.
* `Exact.intern`, `Exact.create`: the atom of a name, and a new atom if the name is free.
-/

namespace Sexpr

/-! ## Names -/

namespace AtomKind

theorem normalize_symbol (raw : String) : symbol.normalize raw = raw :=
  String.ofList_toList

theorem trim_keyword (raw : List Char) :
    keyword.trim raw = (raw.dropWhile (· == ':')).rdropWhile (· == ':') := rfl

/-- What is left when colons are taken off both ends has none in front. -/
theorem head?_trim_keyword (raw : List Char) : (keyword.trim raw).head? ≠ some ':' := by
  rw [trim_keyword]
  intro first
  have front := List.head?_dropWhile_not (· == ':') raw
  obtain ⟨rest, split⟩ := List.rdropWhile_prefix (· == ':') (raw.dropWhile (· == ':'))
  rw [← split, List.head?_append, first] at front
  simp at front

/-- What is left when colons are taken off both ends has none at the end. -/
theorem getLast?_trim_keyword (raw : List Char) : (keyword.trim raw).getLast? ≠ some ':' := by
  rw [trim_keyword]
  intro last
  have filled : (raw.dropWhile (· == ':')).rdropWhile (· == ':') ≠ [] := by
    intro none
    rw [none] at last
    cases last
  have back := List.rdropWhile_last_not (· == ':') _ filled
  rw [List.getLast?_eq_some_getLast filled] at last
  rw [Option.some.inj last] at back
  simp at back

theorem trim_trim (kind : AtomKind) (raw : List Char) :
    kind.trim (kind.trim raw) = kind.trim raw := by
  cases kind with
  | symbol => rfl
  | keyword =>
    have front : (keyword.trim raw).dropWhile (· == ':') = keyword.trim raw := by
      rw [List.dropWhile_eq_self_iff]
      intro filled colon
      refine head?_trim_keyword raw ?_
      rw [List.head?_eq_getElem?, List.getElem?_eq_getElem filled, beq_iff_eq.1 colon]
    rw [trim_keyword (keyword.trim raw), front, trim_keyword]
    exact List.rdropWhile_idempotent ..

theorem normalize_normalize (kind : AtomKind) (raw : String) :
    kind.normalize (kind.normalize raw) = kind.normalize raw := by
  simp only [normalize, String.toList_ofList, trim_trim]

end AtomKind

namespace AtomTable

variable {table : AtomTable}

/-- The number of holders of the atom with an identity. -/
def holdersAt (table : AtomTable) (id : Nat) : Nat := (table.holders[id]?).getD 0

theorem isAlive_eq_true_iff {a : Atom} : table.isAlive a = true ↔ 0 < table.holdersAt a.id :=
  decide_eq_true_iff

/-! ## What the steps do to the views -/

@[simp] theorem filed?_empty (kind : AtomKind) (name : String) : empty.filed? kind name = none := by
  cases kind <;> simp [filed?, entries, empty]

@[simp] theorem holdersAt_empty (id : Nat) : empty.holdersAt id = 0 := by
  simp [holdersAt, empty]

@[simp] theorem filed?_retain (a : Atom) (kind : AtomKind) (name : String) :
    (table.retain a).filed? kind name = table.filed? kind name := by
  cases kind <;> rfl

@[simp] theorem filed?_drop (a : Atom) (kind : AtomKind) (name : String) :
    (table.drop a).filed? kind name = table.filed? kind name := by
  cases kind <;> rfl

@[simp] theorem size_holders_retain (a : Atom) :
    (table.retain a).holders.size = table.holders.size := by
  simp [retain]

@[simp] theorem size_holders_drop (a : Atom) :
    (table.drop a).holders.size = table.holders.size := by
  simp [drop]

theorem holdersAt_retain {a : Atom} (issued : a.id < table.holders.size) (id : Nat) :
    (table.retain a).holdersAt id = table.holdersAt id + if a.id = id then 1 else 0 := by
  simp only [holdersAt, retain, Array.getElem?_modify]
  split
  case isTrue same =>
    subst same
    simp [issued]
  case isFalse => rfl

theorem holdersAt_drop (a : Atom) (id : Nat) :
    (table.drop a).holdersAt id = table.holdersAt id - if a.id = id then 1 else 0 := by
  simp only [holdersAt, drop, Array.getElem?_modify]
  split
  · cases table.holders[id]? <;> simp
  · simp

theorem filed?_file (a : Atom) (kind : AtomKind) (name : String) :
    (table.file a).filed? kind name =
      if a.kind = kind ∧ a.name = name then some a else table.filed? kind name := by
  obtain ⟨id, own, label⟩ := a
  cases own <;> cases kind <;>
    simp [file, filed?, entries, Std.ExtTreeMap.getElem?_insert]

theorem filed?_unfile (a : Atom) (kind : AtomKind) (name : String) :
    (table.unfile a).filed? kind name =
      if a.kind = kind ∧ a.name = name then none else table.filed? kind name := by
  obtain ⟨id, own, label⟩ := a
  cases own <;> cases kind <;>
    simp [unfile, filed?, entries, Std.ExtTreeMap.getElem?_erase]

@[simp] theorem holders_file (a : Atom) : (table.file a).holders = table.holders := by
  obtain ⟨id, own, label⟩ := a
  cases own <;> rfl

@[simp] theorem holders_unfile (a : Atom) : (table.unfile a).holders = table.holders := by
  obtain ⟨id, own, label⟩ := a
  cases own <;> rfl

@[simp] theorem holdersAt_unfile (a : Atom) (id : Nat) :
    (table.unfile a).holdersAt id = table.holdersAt id := by
  simp [holdersAt]

theorem create_atom (kind : AtomKind) (name : String) :
    (table.create kind name).1 = ⟨table.holders.size, kind, name⟩ := rfl

theorem size_holders_create (kind : AtomKind) (name : String) :
    (table.create kind name).2.holders.size = table.holders.size + 1 := by
  simp [create]

theorem filed?_create (kind : AtomKind) (name : String) (kind' : AtomKind) (name' : String) :
    (table.create kind name).2.filed? kind' name' =
      if kind = kind' ∧ name = name' then some (table.create kind name).1
      else table.filed? kind' name' := by
  unfold create
  rw [filed?_file]
  cases kind' <;> rfl

theorem holdersAt_create (kind : AtomKind) (name : String) (id : Nat) :
    (table.create kind name).2.holdersAt id =
      if id = (table.create kind name).1.id then 1 else table.holdersAt id := by
  have holders : (table.create kind name).2.holders = table.holders.push 1 := by
    simp [create]
  rw [create_atom, holdersAt, holders, Array.getElem?_push]
  split <;> rfl

/-! ## Exact tables -/

/-- The table files exactly the atoms that `holdings` has references to, and counts them. No
identity of an atom that is held or `known` stands for two atoms. -/
structure Exact (table : AtomTable) (holdings : List Value) (known : List Atom) : Prop where
  filed : ∀ a, .atom a ∈ holdings → table.filed? a.kind a.name = some a
  keyed : ∀ kind name a, table.filed? kind name = some a →
    .atom a ∈ holdings ∧ a.kind = kind ∧ a.name = name
  counted : ∀ a, .atom a ∈ holdings → table.holdersAt a.id = holdings.count (.atom a)
  spent : ∀ id, 0 < table.holdersAt id → ∃ a, .atom a ∈ holdings ∧ a.id = id
  issued : ∀ a, .atom a ∈ holdings ∨ a ∈ known → a.id < table.holders.size
  identified : ∀ a b, .atom a ∈ holdings ∨ a ∈ known → .atom b ∈ holdings ∨ b ∈ known →
    a.id = b.id → a = b
  normal : ∀ a, .atom a ∈ holdings → a.kind.normalize a.name = a.name

namespace Exact

variable {holdings others : List Value} {known : List Atom} {a b : Atom}

theorem of_empty : empty.Exact [] [] where
  filed := by simp
  keyed := by simp
  counted := by simp
  spent := by simp
  issued := by simp
  identified := by simp
  normal := by simp

/-- Only the number of references to each atom matters. -/
theorem congr (exact : table.Exact holdings known)
    (same : ∀ a, holdings.count (.atom a) = others.count (.atom a)) :
    table.Exact others known := by
  have member : ∀ a, Value.atom a ∈ others ↔ Value.atom a ∈ holdings := by
    intro a
    rw [← List.count_pos_iff, ← List.count_pos_iff, same]
  constructor
  · intro a held
    exact exact.filed a ((member a).1 held)
  · intro kind name a entry
    obtain ⟨held, key⟩ := exact.keyed kind name a entry
    exact ⟨(member a).2 held, key⟩
  · intro a held
    rw [exact.counted a ((member a).1 held), same]
  · intro id positive
    obtain ⟨a, held, same⟩ := exact.spent id positive
    exact ⟨a, (member a).2 held, same⟩
  · intro a held
    exact exact.issued a (held.imp_left (member a).1)
  · intro a b heldA heldB
    exact exact.identified a b (heldA.imp_left (member a).1) (heldB.imp_left (member b).1)
  · intro a held
    exact exact.normal a ((member a).1 held)

theorem perm (exact : table.Exact holdings known) (same : holdings.Perm others) :
    table.Exact others known :=
  exact.congr fun a => same.count_eq (.atom a)

/-- The atoms of which weak references are left can be forgotten. -/
theorem forget {fewer : List Atom} (exact : table.Exact holdings known) (less : fewer ⊆ known) :
    table.Exact holdings fewer :=
  { exact with
    issued := fun a held => exact.issued a (held.imp_right (@less a))
    identified := fun a b heldA heldB =>
      exact.identified a b (heldA.imp_right (@less a)) (heldB.imp_right (@less b)) }

/-- A weak reference to an atom that is held. -/
theorem know (exact : table.Exact holdings known) (held : .atom a ∈ holdings) :
    table.Exact holdings (a :: known) := by
  have old : ∀ b, .atom b ∈ holdings ∨ b ∈ a :: known → .atom b ∈ holdings ∨ b ∈ known := by
    rintro b (heldB | member)
    · exact Or.inl heldB
    · rcases List.mem_cons.1 member with rfl | member
      · exact Or.inl held
      · exact Or.inr member
  exact { exact with
    issued := fun b heldB => exact.issued b (old b heldB)
    identified := fun b c heldB heldC => exact.identified b c (old b heldB) (old c heldC) }

theorem eq_of_id_eq (exact : table.Exact holdings known) (heldA : .atom a ∈ holdings)
    (heldB : .atom b ∈ holdings) (same : a.id = b.id) : a = b :=
  exact.identified a b (Or.inl heldA) (Or.inl heldB) same

/-- An atom that is held is alive. -/
theorem holdersAt_pos (exact : table.Exact holdings known) (held : .atom a ∈ holdings) :
    0 < table.holdersAt a.id := by
  rw [exact.counted a held]
  exact List.count_pos_iff.2 held

/-- A known atom that is alive is held. -/
theorem mem_of_isAlive (exact : table.Exact holdings known) (seen : a ∈ known)
    (alive : table.isAlive a = true) : .atom a ∈ holdings := by
  obtain ⟨b, held, same⟩ := exact.spent a.id (isAlive_eq_true_iff.1 alive)
  rw [← exact.identified b a (Or.inl held) (Or.inr seen) same]
  exact held

/-- What is filed is alive, so the live atom of a name is the one that is filed. -/
theorem live?_eq_filed? (exact : table.Exact holdings known) (kind : AtomKind) (name : String) :
    table.live? kind name = table.filed? kind name := by
  unfold live?
  cases entry : table.filed? kind name with
  | none => rfl
  | some a =>
    have held := (exact.keyed kind name a entry).1
    exact Option.filter_some_pos (isAlive_eq_true_iff.2 (exact.holdersAt_pos held))

/-! ## Handles -/

theorem retain (exact : table.Exact holdings known) (held : .atom a ∈ holdings) :
    (table.retain a).Exact (.atom a :: holdings) known := by
  have member : ∀ b, .atom b ∈ Value.atom a :: holdings ↔ .atom b ∈ holdings := by
    intro b
    rw [List.mem_cons]
    constructor
    · intro holder
      rcases holder with same | heldB
      · exact same ▸ held
      · exact heldB
    · exact Or.inr
  have holders := holdersAt_retain (exact.issued a (Or.inl held))
  constructor
  · intro b heldB
    rw [filed?_retain]
    exact exact.filed b ((member b).1 heldB)
  · intro kind name b entry
    rw [filed?_retain] at entry
    obtain ⟨heldB, key⟩ := exact.keyed kind name b entry
    exact ⟨(member b).2 heldB, key⟩
  · intro b heldB
    have heldB := (member b).1 heldB
    rw [holders, exact.counted b heldB, List.count_cons]
    have same : a.id = b.id ↔ a = b :=
      ⟨exact.eq_of_id_eq held heldB, congrArg Atom.id⟩
    simp [same, Value.atom]
  · intro id positive
    rw [holders] at positive
    split at positive
    case isTrue same => exact ⟨a, List.mem_cons_self, same⟩
    case isFalse =>
      obtain ⟨b, heldB, same⟩ := exact.spent id positive
      exact ⟨b, (member b).2 heldB, same⟩
  · intro b heldB
    rw [size_holders_retain]
    exact exact.issued b (heldB.imp_left (member b).1)
  · intro b c heldB heldC
    exact exact.identified b c (heldB.imp_left (member b).1) (heldC.imp_left (member c).1)
  · intro b heldB
    exact exact.normal b ((member b).1 heldB)

/-- The number of references to an atom, with one more at the front. -/
theorem holdersAt_cons (exact : table.Exact (.atom a :: holdings) known)
    (heldB : .atom b ∈ Value.atom a :: holdings) :
    table.holdersAt b.id = holdings.count (.atom b) + if a.id = b.id then 1 else 0 := by
  rw [exact.counted b heldB, List.count_cons]
  have same : a.id = b.id ↔ a = b :=
    ⟨exact.eq_of_id_eq List.mem_cons_self heldB, congrArg Atom.id⟩
  simp [same, Value.atom]

/-- One handle fewer, of several. -/
theorem drop_shared (exact : table.Exact (.atom a :: holdings) known)
    (shared : .atom a ∈ holdings) : (table.drop a).Exact holdings known := by
  have later : ∀ b, .atom b ∈ holdings → .atom b ∈ Value.atom a :: holdings :=
    fun _ => List.mem_cons_of_mem _
  constructor
  · intro b held
    rw [filed?_drop]
    exact exact.filed b (later b held)
  · intro kind name b entry
    rw [filed?_drop] at entry
    obtain ⟨held, key⟩ := exact.keyed kind name b entry
    refine ⟨?_, key⟩
    rcases List.mem_cons.1 held with same | held
    · exact same ▸ shared
    · exact held
  · intro b held
    rw [holdersAt_drop, exact.holdersAt_cons (later b held), Nat.add_sub_cancel]
  · intro id positive
    have before : 0 < table.holdersAt id := by
      rw [holdersAt_drop] at positive
      omega
    obtain ⟨b, held, same⟩ := exact.spent id before
    rcases List.mem_cons.1 held with equal | held
    · exact ⟨b, equal ▸ shared, same⟩
    · exact ⟨b, held, same⟩
  · intro b held
    rw [size_holders_drop]
    exact exact.issued b (held.imp_left (later b))
  · intro b c heldB heldC
    exact exact.identified b c (heldB.imp_left (later b)) (heldC.imp_left (later c))
  · intro b held
    exact exact.normal b (later b held)

/-- The last handle goes, and the entry with it. -/
theorem drop_last (exact : table.Exact (.atom a :: holdings) known)
    (last : .atom a ∉ holdings) : ((table.drop a).unfile a).Exact holdings known := by
  have later : ∀ b, .atom b ∈ holdings → .atom b ∈ Value.atom a :: holdings :=
    fun _ => List.mem_cons_of_mem _
  have other : ∀ b, .atom b ∈ holdings → a.id ≠ b.id := by
    intro b held same
    have equal := exact.eq_of_id_eq List.mem_cons_self (later b held) same
    exact last (equal ▸ held)
  have entries : ∀ kind name, ((table.drop a).unfile a).filed? kind name =
      if a.kind = kind ∧ a.name = name then none else table.filed? kind name := by
    intro kind name
    rw [filed?_unfile, filed?_drop]
  constructor
  · intro b held
    rw [entries, if_neg]
    · exact exact.filed b (later b held)
    · -- Two atoms under one name would be one entry, hence one atom.
      intro alike
      obtain ⟨kinds, names⟩ := alike
      have own := exact.filed a List.mem_cons_self
      rw [kinds, names, exact.filed b (later b held)] at own
      exact other b held (congrArg Atom.id (Option.some.inj own).symm)
  · intro kind name b entry
    rw [entries] at entry
    split at entry
    · cases entry
    case isFalse different =>
      obtain ⟨held, kinds, names⟩ := exact.keyed kind name b entry
      refine ⟨?_, kinds, names⟩
      rcases List.mem_cons.1 held with same | held
      · injection same with same
        injection same with same
        exact absurd ⟨same ▸ kinds, same ▸ names⟩ different
      · exact held
  · intro b held
    rw [holdersAt_unfile, holdersAt_drop, exact.holdersAt_cons (later b held),
      Nat.add_sub_cancel]
  · intro id positive
    rw [holdersAt_unfile, holdersAt_drop] at positive
    have before : 0 < table.holdersAt id := by omega
    obtain ⟨b, held, same⟩ := exact.spent id before
    subst same
    rcases List.mem_cons.1 held with equal | held
    · -- Here the identity is that of the dead atom, whose only holder is gone.
      injection equal with equal
      injection equal with equal
      subst equal
      have one := exact.holdersAt_cons held
      rw [List.count_eq_zero.2 last, if_pos rfl] at one
      rw [one, if_pos rfl] at positive
      exact absurd positive (Nat.lt_irrefl 0)
    · exact ⟨b, held, rfl⟩
  · intro b held
    rw [holders_unfile, size_holders_drop]
    exact exact.issued b (held.imp_left (later b))
  · intro b c heldB heldC
    exact exact.identified b c (heldB.imp_left (later b)) (heldC.imp_left (later c))
  · intro b held
    exact exact.normal b (later b held)

/-- What giving up a handle does to the table. -/
theorem release_eq (exact : table.Exact (.atom a :: holdings) known) :
    table.release a =
      if .atom a ∈ holdings then (false, table.drop a) else (true, (table.drop a).unfile a) := by
  have left : (table.drop a).holdersAt a.id = holdings.count (.atom a) := by
    rw [holdersAt_drop, exact.holdersAt_cons List.mem_cons_self, Nat.add_sub_cancel]
  have alive : (table.drop a).isAlive a = true ↔ .atom a ∈ holdings := by
    rw [isAlive_eq_true_iff, left, List.count_pos_iff]
  unfold release
  by_cases shared : .atom a ∈ holdings
  · rw [if_pos (alive.2 shared), if_pos shared]
  · rw [if_neg (mt alive.1 shared), if_neg shared]
    have entry : (table.drop a).filed? a.kind a.name = some a := by
      rw [filed?_drop]
      exact exact.filed a List.mem_cons_self
    simp only [finalize, entry, if_true]

theorem release (exact : table.Exact (.atom a :: holdings) known) :
    (table.release a).2.Exact holdings known := by
  rw [exact.release_eq]
  split
  case isTrue shared => exact exact.drop_shared shared
  case isFalse last => exact exact.drop_last last

/-! ## New atoms -/

theorem create {kind : AtomKind} {name : String} (exact : table.Exact holdings known)
    (free : table.filed? kind name = none) (normal : kind.normalize name = name) :
    (table.create kind name).2.Exact (.atom (table.create kind name).1 :: holdings) known := by
  set a : Atom := (table.create kind name).1 with made
  have new : ∀ b, .atom b ∈ holdings ∨ b ∈ known → b.id ≠ a.id := by
    intro b held same
    have small := exact.issued b held
    rw [same, made, create_atom] at small
    exact Nat.lt_irrefl _ small
  have split : ∀ b, .atom b ∈ Value.atom a :: holdings → b = a ∨ .atom b ∈ holdings := by
    intro b held
    rcases List.mem_cons.1 held with same | held
    · injection same with same
      injection same with same
      exact Or.inl same
    · exact Or.inr held
  have split' : ∀ b, .atom b ∈ Value.atom a :: holdings ∨ b ∈ known →
      b = a ∨ (.atom b ∈ holdings ∨ b ∈ known) := by
    rintro b (held | seen)
    · rcases split b held with same | held
      · exact Or.inl same
      · exact Or.inr (Or.inl held)
    · exact Or.inr (Or.inr seen)
  constructor
  · intro b held
    rw [filed?_create]
    rcases split b held with rfl | held
    · rw [if_pos ⟨by rw [made]; rfl, by rw [made]; rfl⟩]
    · rw [if_neg]
      · exact exact.filed b held
      · intro alike
        obtain ⟨kinds, names⟩ := alike
        rw [kinds, names, exact.filed b held] at free
        cases free
  · intro kind' name' b entry
    rw [filed?_create] at entry
    split at entry
    case isTrue key =>
      cases Option.some.inj entry
      exact ⟨List.mem_cons_self, key⟩
    case isFalse =>
      obtain ⟨held, key⟩ := exact.keyed kind' name' b entry
      exact ⟨List.mem_cons_of_mem _ held, key⟩
  · intro b held
    rw [holdersAt_create, List.count_cons]
    rcases split b held with rfl | held
    · have absent : .atom a ∉ holdings := fun old => new a (Or.inl old) rfl
      rw [if_pos rfl, List.count_eq_zero.2 absent]
      simp
    · have different := new b (Or.inl held)
      rw [if_neg different, exact.counted b held]
      have other : a ≠ b := fun same => different (congrArg Atom.id same.symm)
      simp [Value.atom, other]
  · intro id positive
    rw [holdersAt_create] at positive
    split at positive
    case isTrue same => exact ⟨a, List.mem_cons_self, same.symm⟩
    case isFalse =>
      obtain ⟨b, held, same⟩ := exact.spent id positive
      exact ⟨b, List.mem_cons_of_mem _ held, same⟩
  · intro b held
    rw [size_holders_create]
    rcases split' b held with rfl | old
    · exact Nat.lt_succ_self _
    · exact Nat.lt_succ_of_lt (exact.issued b old)
  · intro b c heldB heldC same
    rcases split' b heldB with rfl | oldB <;> rcases split' c heldC with rfl | oldC
    · rfl
    · exact absurd same.symm (new c oldC)
    · exact absurd same (new b oldB)
    · exact exact.identified b c oldB oldC same
  · intro b held
    rcases split b held with rfl | held
    · exact normal
    · exact exact.normal b held

/-- The atom of a name is the one that is filed, or a new one; either way it is held once more. -/
theorem intern (exact : table.Exact holdings known) (kind : AtomKind) (raw : String) :
    (table.intern kind raw).2.Exact (.atom (table.intern kind raw).1.1 :: holdings) known := by
  simp only [AtomTable.intern, exact.live?_eq_filed?]
  cases entry : table.filed? kind (kind.normalize raw) with
  | some a => exact exact.retain (exact.keyed _ _ a entry).1
  | none => exact exact.create entry (AtomKind.normalize_normalize kind raw)

/-- A name that is taken changes nothing. -/
theorem internNew_none {kind : AtomKind} {name : String} {after : AtomTable}
    (drawn : table.internNew kind name = (none, after)) : after = table := by
  unfold internNew at drawn
  split at drawn
  · exact (Prod.mk.inj drawn).2.symm
  · cases (Prod.mk.inj drawn).1

end Exact

end AtomTable

end Sexpr
