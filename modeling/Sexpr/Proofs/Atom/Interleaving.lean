import Mathlib.Logic.Relation
import Sexpr.Proofs.Atom.Filing

/-!
# Threads that share the table of atoms

`Threads.Step` is one uninterrupted step of one of any number of threads: interning under the lock
of the table, copying a handle, passing one on, giving one up, and running a destructor. The last
two are apart, so that between them other threads may find the dead entry, replace it, and let the
atom that replaced it die in turn.

`AtomTable.Contended` is the invariant. An entry refers to an atom that is held or whose destructor
is due; a held atom is the one that its entry refers to. `Threads.Canonical` collects what follows
from it for the threads, and `Threads.Reached.canonical` proves it of every interleaving.
-/

namespace Sexpr

namespace AtomTable

variable {table : AtomTable}

/-! ## What interning can do -/

/-- Interning finds the live atom of the name, or makes a new one where there is none. -/
theorem intern_cases {kind : AtomKind} {raw : String} {a : Atom} {new : Bool} {after : AtomTable}
    (done : table.intern kind raw = ((a, new), after)) :
    (new = false ∧ table.live? kind (kind.normalize raw) = some a ∧ after = table.retain a) ∨
      (new = true ∧ table.live? kind (kind.normalize raw) = none ∧
        table.create kind (kind.normalize raw) = (a, after)) := by
  simp only [intern] at done
  cases found : table.live? kind (kind.normalize raw) with
  | some b =>
    simp only [found, Prod.mk.injEq] at done
    obtain ⟨⟨rfl, rfl⟩, rfl⟩ := done
    exact Or.inl ⟨rfl, rfl, rfl⟩
  | none =>
    simp only [found, Prod.mk.injEq] at done
    obtain ⟨⟨rfl, rfl⟩, rfl⟩ := done
    exact Or.inr ⟨rfl, rfl, rfl⟩

theorem internNew_some {kind : AtomKind} {name : String} {a : Atom} {after : AtomTable}
    (done : table.internNew kind name = (some a, after)) :
    table.live? kind name = none ∧ table.create kind name = (a, after) := by
  unfold internNew at done
  split at done
  case h_1 => cases done
  case h_2 free =>
    obtain ⟨same, rfl⟩ := Prod.mk.inj done
    cases same
    exact ⟨free, rfl⟩

/-! ## The invariant -/

/-- A table between the steps of several threads: `made` are all atoms so far, `held` has one atom
for every handle, and the destructors of the atoms in `dying` are still to run. -/
structure Contended (table : AtomTable) (made held dying : List Atom) : Prop where
  issued : ∀ a ∈ made, a.id < table.holders.size
  identified : ∀ a ∈ made, ∀ b ∈ made, a.id = b.id → a = b
  spent : ∀ id, 0 < table.holdersAt id → ∃ a ∈ made, a.id = id
  counted : ∀ a ∈ made, table.holdersAt a.id = held.count a
  owned : ∀ a ∈ held, a ∈ made
  dead : ∀ a ∈ dying, a ∈ made ∧ a ∉ held
  filed : ∀ a ∈ held, table.filed? a.kind a.name = some a
  keyed : ∀ kind name a, table.filed? kind name = some a →
    (a ∈ held ∨ a ∈ dying) ∧ a.kind = kind ∧ a.name = name

namespace Contended

variable {made held others dying : List Atom} {a b : Atom}

theorem of_empty : empty.Contended [] [] [] := by
  constructor <;> simp

/-- The order of the handles and of the destructors does not matter. -/
theorem perm {due : List Atom} (contended : table.Contended made held dying)
    (same : held.Perm others) (same' : dying.Perm due) : table.Contended made others due := by
  constructor
  · exact contended.issued
  · exact contended.identified
  · exact contended.spent
  · intro a old
    rw [contended.counted a old, same.count_eq]
  · intro a holds
    exact contended.owned a (same.mem_iff.2 holds)
  · intro a fated
    obtain ⟨old, free⟩ := contended.dead a (same'.mem_iff.2 fated)
    exact ⟨old, mt same.mem_iff.2 free⟩
  · intro a holds
    exact contended.filed a (same.mem_iff.2 holds)
  · intro kind name a entry
    obtain ⟨present, key⟩ := contended.keyed kind name a entry
    exact ⟨present.imp same.mem_iff.1 same'.mem_iff.1, key⟩

/-- The atoms with a positive count are those that some thread has a handle on. -/
theorem isAlive_iff (contended : table.Contended made held dying) (old : a ∈ made) :
    table.isAlive a = true ↔ a ∈ held := by
  rw [isAlive_eq_true_iff, contended.counted a old, List.count_pos_iff]

theorem mem_made_of_filed (contended : table.Contended made held dying) {kind : AtomKind}
    {name : String} (entry : table.filed? kind name = some a) : a ∈ made := by
  rcases (contended.keyed kind name a entry).1 with holds | due
  · exact contended.owned a holds
  · exact (contended.dead a due).1

/-- The live atom of a name is held, and has that name. -/
theorem of_live? (contended : table.Contended made held dying) {kind : AtomKind} {name : String}
    (found : table.live? kind name = some a) : a ∈ held ∧ a.kind = kind ∧ a.name = name := by
  obtain ⟨entry, alive⟩ := Option.filter_eq_some_iff.1 found
  have old := contended.mem_made_of_filed entry
  exact ⟨(contended.isAlive_iff old).1 alive, (contended.keyed kind name a entry).2⟩

/-- A name that leads to no live atom is not the name of a held one. -/
theorem not_mem_held_of_live? (contended : table.Contended made held dying) {kind : AtomKind}
    {name : String} (free : table.live? kind name = none) (holds : a ∈ held)
    (kinds : a.kind = kind) : a.name ≠ name := by
  intro names
  have alive := (contended.isAlive_iff (contended.owned a holds)).2 holds
  have found : table.live? kind name = some a := by
    rw [← kinds, ← names, live?, contended.filed a holds]
    exact Option.filter_some_pos alive
  rw [found] at free
  cases free

/-- One handle more counts for the atom of its identity. -/
theorem count_cons (contended : table.Contended made held dying) (oldA : a ∈ made)
    (oldB : b ∈ made) (rest : List Atom) :
    (a :: rest).count b = rest.count b + if a.id = b.id then 1 else 0 := by
  have same : a.id = b.id ↔ a = b :=
    ⟨contended.identified a oldA b oldB, congrArg Atom.id⟩
  simp [List.count_cons, same]

/-! ## What each step keeps -/

/-- One handle more on an atom that is held. -/
theorem retain (contended : table.Contended made held dying) (holds : a ∈ held) :
    (table.retain a).Contended made (a :: held) dying := by
  have old := contended.owned a holds
  have member : ∀ b, b ∈ a :: held ↔ b ∈ held := by
    intro b
    rw [List.mem_cons]
    exact or_iff_right_of_imp fun same => same ▸ holds
  have holders := holdersAt_retain (contended.issued a old)
  constructor
  · simpa using contended.issued
  · exact contended.identified
  · intro id positive
    rw [holders] at positive
    split at positive
    case isTrue same => exact ⟨a, old, same⟩
    case isFalse => exact contended.spent id positive
  · intro b oldB
    rw [holders, contended.counted b oldB, contended.count_cons old oldB]
  · intro b holdsB
    exact contended.owned b ((member b).1 holdsB)
  · intro b due
    obtain ⟨oldB, free⟩ := contended.dead b due
    exact ⟨oldB, mt (member b).1 free⟩
  · intro b holdsB
    rw [filed?_retain]
    exact contended.filed b ((member b).1 holdsB)
  · intro kind name b entry
    rw [filed?_retain] at entry
    obtain ⟨present, key⟩ := contended.keyed kind name b entry
    exact ⟨present.imp_left (member b).2, key⟩

/-- A new atom takes the place of a dead entry. The destructor of the atom that had the entry is
still due, and finds the entry taken. -/
theorem create {kind : AtomKind} {name : String} {after : AtomTable}
    (contended : table.Contended made held dying) (free : table.live? kind name = none)
    (done : table.create kind name = (a, after)) :
    after.Contended (a :: made) (a :: held) dying := by
  have atom : (table.create kind name).1 = a := congrArg Prod.fst done
  have same : (table.create kind name).2 = after := congrArg Prod.snd done
  subst same
  have new : ∀ b ∈ made, b.id ≠ a.id := by
    intro b old same
    have small := contended.issued b old
    rw [same, ← atom, create_atom] at small
    exact Nat.lt_irrefl _ small
  have absent : a ∉ made := fun old => new a old rfl
  constructor
  · intro b old
    rw [size_holders_create]
    rcases List.mem_cons.1 old with rfl | old
    · rw [← atom, create_atom]
      exact Nat.lt_succ_self _
    · exact Nat.lt_succ_of_lt (contended.issued b old)
  · intro b oldB c oldC same
    rcases List.mem_cons.1 oldB with newB | oldB <;>
      rcases List.mem_cons.1 oldC with newC | oldC
    · exact newB.trans newC.symm
    · exact absurd (newB ▸ same.symm) (new c oldC)
    · exact absurd (newC ▸ same) (new b oldB)
    · exact contended.identified b oldB c oldC same
  · intro id positive
    rw [holdersAt_create, atom] at positive
    split at positive
    case isTrue same => exact ⟨a, List.mem_cons_self, same.symm⟩
    case isFalse =>
      obtain ⟨b, old, same⟩ := contended.spent id positive
      exact ⟨b, List.mem_cons_of_mem _ old, same⟩
  · intro b old
    rw [holdersAt_create, atom]
    rcases List.mem_cons.1 old with rfl | old
    · rw [if_pos rfl, List.count_cons_self, List.count_eq_zero.2 (mt (contended.owned b) absent)]
    · have other : a ≠ b := fun same => absent (same ▸ old)
      rw [if_neg (new b old), List.count_cons_of_ne other, contended.counted b old]
  · intro b holds
    rcases List.mem_cons.1 holds with rfl | holds
    · exact List.mem_cons_self
    · exact List.mem_cons_of_mem _ (contended.owned b holds)
  · intro b due
    obtain ⟨old, gone⟩ := contended.dead b due
    refine ⟨List.mem_cons_of_mem _ old, ?_⟩
    intro holds
    rcases List.mem_cons.1 holds with rfl | holds
    · exact absent old
    · exact gone holds
  · intro b holds
    rw [filed?_create, atom]
    rcases List.mem_cons.1 holds with rfl | holds
    · rw [if_pos ⟨by rw [← atom]; rfl, by rw [← atom]; rfl⟩]
    · rw [if_neg, contended.filed b holds]
      intro alike
      exact contended.not_mem_held_of_live? free holds alike.1.symm alike.2.symm
  · intro kind' name' b entry
    rw [filed?_create, atom] at entry
    split at entry
    case isTrue key =>
      cases Option.some.inj entry
      exact ⟨Or.inl List.mem_cons_self, by rw [← atom]; exact key⟩
    case isFalse =>
      obtain ⟨present, key⟩ := contended.keyed kind' name' b entry
      exact ⟨present.imp_left (List.mem_cons_of_mem _), key⟩

/-- A created atom has the name, is alive and filed, and was not there before. -/
theorem new_of_create {kind : AtomKind} {name : String} {after : AtomTable}
    (contended : table.Contended made held dying) (free : table.live? kind name = none)
    (done : table.create kind name = (a, after)) :
    a.kind = kind ∧ a.name = name ∧ after.isAlive a = true ∧ after.filed? kind name = some a ∧
      a ∉ made := by
  have created := contended.create free done
  have atom : a = ⟨table.holders.size, kind, name⟩ :=
    (congrArg Prod.fst done).symm.trans (create_atom kind name)
  have entry := created.filed a List.mem_cons_self
  have alive := (created.isAlive_iff List.mem_cons_self).2 List.mem_cons_self
  subst atom
  refine ⟨rfl, rfl, alive, entry, ?_⟩
  intro old
  exact Nat.lt_irrefl _ (contended.issued _ old)

/-- An atom that was found has the name, is alive and filed, and was so before. -/
theorem old_of_live? {kind : AtomKind} {name : String}
    (contended : table.Contended made held dying) (found : table.live? kind name = some a) :
    a.kind = kind ∧ a.name = name ∧ (table.retain a).isAlive a = true ∧
      (table.retain a).filed? kind name = some a ∧ a ∈ made ∧ table.isAlive a = true := by
  obtain ⟨holds, rfl, rfl⟩ := contended.of_live? found
  have old := contended.owned a holds
  have kept := contended.retain holds
  exact ⟨rfl, rfl, (kept.isAlive_iff old).2 List.mem_cons_self,
    kept.filed a List.mem_cons_self, old, (contended.isAlive_iff old).2 holds⟩

/-- A live atom is the one that its entry refers to. -/
theorem filed?_of_isAlive (contended : table.Contended made held dying) (old : a ∈ made)
    (alive : table.isAlive a = true) : table.filed? a.kind a.name = some a :=
  contended.filed a ((contended.isAlive_iff old).1 alive)

/-- When no destructor is due the entries are the live atoms. -/
theorem filed?_iff_of_settled (contended : table.Contended made held []) (kind : AtomKind)
    (name : String) : table.filed? kind name = some a ↔
      a ∈ made ∧ table.isAlive a = true ∧ a.kind = kind ∧ a.name = name := by
  constructor
  · intro entry
    obtain ⟨present, key⟩ := contended.keyed kind name a entry
    have holds := present.resolve_right List.not_mem_nil
    have old := contended.owned a holds
    exact ⟨old, (contended.isAlive_iff old).2 holds, key⟩
  · rintro ⟨old, alive, rfl, rfl⟩
    exact contended.filed?_of_isAlive old alive

/-- One handle fewer. If it was the last one the destructor of the atom is due; the entry stays
until it has run. -/
theorem drop (contended : table.Contended made (a :: held) dying) :
    (table.drop a).Contended made held
      (if (table.drop a).isAlive a then dying else a :: dying) := by
  have old := contended.owned a List.mem_cons_self
  have counted : ∀ b ∈ made, (table.drop a).holdersAt b.id = held.count b := by
    intro b oldB
    rw [holdersAt_drop, contended.counted b oldB, contended.count_cons old oldB,
      Nat.add_sub_cancel]
  have alive : (table.drop a).isAlive a = true ↔ a ∈ held := by
    rw [isAlive_eq_true_iff, counted a old, List.count_pos_iff]
  -- An atom is due in the end if it was due before, or if it is the one that was dropped for good.
  have due_iff : ∀ b, b ∈ (if (table.drop a).isAlive a then dying else a :: dying) ↔
      b ∈ dying ∨ b = a ∧ a ∉ held := by
    intro b
    by_cases shared : a ∈ held
    · simp [alive.2 shared, shared]
    · rw [if_neg (mt alive.1 shared), List.mem_cons]
      tauto
  constructor
  · simpa using contended.issued
  · exact contended.identified
  · intro id positive
    rw [holdersAt_drop] at positive
    exact contended.spent id (by omega)
  · exact counted
  · intro b holds
    exact contended.owned b (List.mem_cons_of_mem _ holds)
  · intro b due
    rcases (due_iff b).1 due with due | ⟨rfl, last⟩
    · obtain ⟨oldB, gone⟩ := contended.dead b due
      exact ⟨oldB, mt (List.mem_cons_of_mem _) gone⟩
    · exact ⟨old, last⟩
  · intro b holds
    rw [filed?_drop]
    exact contended.filed b (List.mem_cons_of_mem _ holds)
  · intro kind name b entry
    rw [filed?_drop] at entry
    obtain ⟨present, key⟩ := contended.keyed kind name b entry
    refine ⟨?_, key⟩
    rw [due_iff]
    rcases present with holds | due
    · rcases List.mem_cons.1 holds with rfl | holds
      · by_cases shared : b ∈ held
        · exact Or.inl shared
        · exact Or.inr (Or.inr ⟨rfl, shared⟩)
      · exact Or.inl holds
    · exact Or.inr (Or.inl due)

/-- A destructor removes the entry under the name of its atom exactly if that is the entry of this
very atom. -/
theorem finalize_eq (contended : table.Contended made held dying) (due : a ∈ dying) :
    table.finalize a =
      if table.filed? a.kind a.name = some a then (true, table.unfile a) else (false, table) := by
  obtain ⟨old, -⟩ := contended.dead a due
  unfold AtomTable.finalize
  cases entry : table.filed? a.kind a.name with
  | none => rfl
  | some b =>
    have same : b.id = a.id ↔ b = a :=
      ⟨contended.identified b (contended.mem_made_of_filed entry) a old, congrArg Atom.id⟩
    simp only [same, Option.some.injEq]

/-- The entries that a destructor leaves are those of other atoms, also under the name of its
own. -/
theorem filed?_finalize (contended : table.Contended made held dying) (due : a ∈ dying)
    (kind : AtomKind) (name : String) :
    (table.finalize a).2.filed? kind name = some b ↔ table.filed? kind name = some b ∧ b ≠ a := by
  rw [contended.finalize_eq due]
  split
  case isTrue own =>
    rw [filed?_unfile]
    split
    case isTrue key =>
      obtain ⟨rfl, rfl⟩ := key
      rw [own, Option.some.injEq]
      exact iff_of_false nofun fun found => found.2 found.1.symm
    case isFalse different =>
      refine (and_iff_left_of_imp ?_).symm
      rintro entry rfl
      exact different (contended.keyed kind name b entry).2
  case isFalse foreign =>
    refine (and_iff_left_of_imp ?_).symm
    rintro entry rfl
    obtain ⟨-, rfl, rfl⟩ := contended.keyed kind name b entry
    exact foreign entry

theorem holders_finalize (a : Atom) : (table.finalize a).2.holders = table.holders := by
  unfold finalize
  split
  · split
    · exact holders_unfile a
    · rfl
  · rfl

/-- A destructor has run. -/
theorem finalize (contended : table.Contended made held (a :: dying)) :
    (table.finalize a).2.Contended made held dying := by
  have due : a ∈ a :: dying := List.mem_cons_self
  have holders : ∀ id, (table.finalize a).2.holdersAt id = table.holdersAt id := by
    intro id
    rw [holdersAt, holders_finalize, holdersAt]
  constructor
  · simpa only [holders_finalize] using contended.issued
  · exact contended.identified
  · simpa only [holders] using contended.spent
  · simpa only [holders] using contended.counted
  · exact contended.owned
  · intro b left
    exact contended.dead b (List.mem_cons_of_mem _ left)
  · intro b holds
    have other : b ≠ a := by
      rintro rfl
      exact (contended.dead b due).2 holds
    exact (contended.filed?_finalize due _ _).2 ⟨contended.filed b holds, other⟩
  · intro kind name b entry
    obtain ⟨entry, other⟩ := (contended.filed?_finalize due kind name).1 entry
    obtain ⟨present, key⟩ := contended.keyed kind name b entry
    exact ⟨present.imp_right fun left => (List.mem_cons.1 left).resolve_left other, key⟩

end Contended

end AtomTable

/-! ## Threads -/

/-- What several threads share, with the handles of each of them and the destructors that each of
them has still to run. A thread is a number; `made` lists all atoms so far. -/
structure Threads where
  table : AtomTable
  made : List Atom
  handles : List (Nat × Atom)
  dying : List (Nat × Atom)

namespace Threads

/-- The start. -/
def idle : Threads := ⟨.empty, [], [], []⟩

/-- One uninterrupted step of one thread. -/
inductive Step : Threads → Threads → Prop
  /-- The live entry of the name gives one more handle on its atom. -/
  | found {s : Threads} {table : AtomTable} {a : Atom} (thread : Nat) (kind : AtomKind)
      (raw : String) : s.table.intern kind raw = ((a, false), table) →
    Step s ⟨table, s.made, (thread, a) :: s.handles, s.dying⟩
  /-- A new atom is filed, in place of a dead entry if there is one. -/
  | interned {s : Threads} {table : AtomTable} {a : Atom} (thread : Nat) (kind : AtomKind)
      (raw : String) : s.table.intern kind raw = ((a, true), table) →
    Step s ⟨table, a :: s.made, (thread, a) :: s.handles, s.dying⟩
  | taken {s : Threads} {table : AtomTable} (kind : AtomKind) (name : String) :
    s.table.internNew kind name = (none, table) →
    Step s ⟨table, s.made, s.handles, s.dying⟩
  | drawn {s : Threads} {table : AtomTable} {a : Atom} (thread : Nat) (kind : AtomKind)
      (name : String) : s.table.internNew kind name = (some a, table) →
    Step s ⟨table, a :: s.made, (thread, a) :: s.handles, s.dying⟩
  /-- A thread copies a handle, of its own or one that it can see. -/
  | clone {s : Threads} {a : Atom} {owner : Nat} (thread : Nat) : (owner, a) ∈ s.handles →
    Step s ⟨s.table.retain a, s.made, (thread, a) :: s.handles, s.dying⟩
  | pass {s : Threads} {a : Atom} {owner : Nat} (thread : Nat) : (owner, a) ∈ s.handles →
    Step s ⟨s.table, s.made, (thread, a) :: s.handles.erase (owner, a), s.dying⟩
  /-- A thread gives up a handle, and there are others. -/
  | release {s : Threads} {a : Atom} {owner : Nat} : (owner, a) ∈ s.handles →
    (s.table.drop a).isAlive a = true →
    Step s ⟨s.table.drop a, s.made, s.handles.erase (owner, a), s.dying⟩
  /-- A thread gives up the last handle, and has the destructor to run. -/
  | die {s : Threads} {a : Atom} {owner : Nat} : (owner, a) ∈ s.handles →
    (s.table.drop a).isAlive a = false →
    Step s ⟨s.table.drop a, s.made, s.handles.erase (owner, a), (owner, a) :: s.dying⟩
  | finalize {s : Threads} {a : Atom} {owner : Nat} : (owner, a) ∈ s.dying →
    Step s ⟨(s.table.finalize a).2, s.made, s.handles, s.dying.erase (owner, a)⟩

/-- What any interleaving of steps leads to. -/
def Reached : Threads → Prop := Relation.ReflTransGen Step idle

/-- The invariant, for the atoms that the threads hold and for those that they have to destroy. -/
def Sound (s : Threads) : Prop :=
  s.table.Contended s.made (s.handles.map Prod.snd) (s.dying.map Prod.snd)

theorem perm_map_erase {l : List (Nat × Atom)} {owner : Nat} {a : Atom} (member : (owner, a) ∈ l) :
    (l.map Prod.snd).Perm (a :: (l.erase (owner, a)).map Prod.snd) :=
  (List.perm_cons_erase member).map Prod.snd

theorem Step.sound {s t : Threads} (step : Step s t) (sound : s.Sound) : t.Sound := by
  cases step with
  | found thread kind raw done =>
    obtain ⟨-, live, rfl⟩ | ⟨new, -⟩ := AtomTable.intern_cases done
    · exact AtomTable.Contended.retain sound (sound.of_live? live).1
    · cases new
  | interned thread kind raw done =>
    obtain ⟨old, -⟩ | ⟨-, free, made⟩ := AtomTable.intern_cases done
    · cases old
    · exact AtomTable.Contended.create sound free made
  | taken kind name done =>
    rw [AtomTable.Exact.internNew_none done]
    exact sound
  | drawn thread kind name done =>
    obtain ⟨free, made⟩ := AtomTable.internNew_some done
    exact AtomTable.Contended.create sound free made
  | clone thread member =>
    exact AtomTable.Contended.retain sound (List.mem_map_of_mem member)
  | pass thread member => exact AtomTable.Contended.perm sound (perm_map_erase member) (.refl _)
  | release member alive =>
    have dropped := (AtomTable.Contended.perm sound (perm_map_erase member) (.refl _)).drop
    rw [if_pos alive] at dropped
    exact dropped
  | die member gone =>
    have dropped := (AtomTable.Contended.perm sound (perm_map_erase member) (.refl _)).drop
    rw [gone] at dropped
    exact dropped
  | finalize member =>
    exact (AtomTable.Contended.perm sound (.refl _) (perm_map_erase member)).finalize

/-- The invariant holds in every interleaving. -/
theorem Reached.sound {s : Threads} (reached : Reached s) : s.Sound := by
  induction reached with
  | refl => exact AtomTable.Contended.of_empty
  | tail _ step ih => exact step.sound ih

/-- What the threads can rely on. -/
structure Canonical (s : Threads) : Prop where
  /-- The count of an atom is the number of handles on it, and only atoms have one. -/
  counts : ∀ a ∈ s.made, s.table.holdersOf a = s.handles.countP (·.2 = a)
  spends : ∀ id, 0 < s.table.holdersAt id → ∃ a ∈ s.made, a.id = id
  /-- One atom at most has a kind and a name and is alive. -/
  unique : ∀ a ∈ s.made, ∀ b ∈ s.made, s.table.isAlive a = true → s.table.isAlive b = true →
    a.kind = b.kind → a.name = b.name → a = b
  /-- A live atom is the one that its entry refers to. -/
  refers : ∀ a ∈ s.made, s.table.isAlive a = true → s.table.filed? a.kind a.name = some a
  /-- Interning gives an atom of the name that is alive, and that was alive before if it is not a
  new one. -/
  interns : ∀ kind raw a new table, s.table.intern kind raw = ((a, new), table) →
    a.kind = kind ∧ a.name = kind.normalize raw ∧ table.isAlive a = true ∧
      table.filed? kind (kind.normalize raw) = some a ∧
      if new then a ∉ s.made else a ∈ s.made ∧ s.table.isAlive a = true
  draws : ∀ kind name a table, s.table.internNew kind name = (some a, table) →
    a.kind = kind ∧ a.name = name ∧ table.isAlive a = true ∧
      table.filed? kind name = some a ∧ a ∉ s.made
  /-- A destructor removes the entry of its own atom and no other. -/
  removes : ∀ owner a, (owner, a) ∈ s.dying → ∀ kind name b,
    (s.table.finalize a).2.filed? kind name = some b ↔ s.table.filed? kind name = some b ∧ b ≠ a
  /-- When all destructors have run the entries are the live atoms. -/
  settles : s.dying = [] → ∀ kind name a, s.table.filed? kind name = some a ↔
    a ∈ s.made ∧ s.table.isAlive a = true ∧ a.kind = kind ∧ a.name = name

/-- Every interleaving of steps keeps atoms canonical. -/
theorem Reached.canonical {s : Threads} (reached : Reached s) : s.Canonical := by
  have sound : s.table.Contended s.made (s.handles.map Prod.snd) (s.dying.map Prod.snd) :=
    reached.sound
  constructor
  · intro a old
    have counted := sound.counted a old
    rw [List.count_eq_countP, List.countP_map] at counted
    refine counted.trans (List.countP_congr fun handle _ => ?_)
    simp
  · exact sound.spent
  · intro a oldA b oldB aliveA aliveB kinds names
    have entry := sound.filed?_of_isAlive oldA aliveA
    rw [kinds, names, sound.filed?_of_isAlive oldB aliveB] at entry
    exact (Option.some.inj entry).symm
  · exact fun a old => sound.filed?_of_isAlive old
  · intro kind raw a new table done
    obtain ⟨rfl, live, rfl⟩ | ⟨rfl, free, made⟩ := AtomTable.intern_cases done
    · exact sound.old_of_live? live
    · exact sound.new_of_create free made
  · intro kind name a table done
    obtain ⟨free, made⟩ := AtomTable.internNew_some done
    exact sound.new_of_create free made
  · intro owner a due kind name b
    exact sound.filed?_finalize (List.mem_map_of_mem due) kind name
  · intro quiet kind name a
    rw [quiet] at sound
    exact sound.filed?_iff_of_settled kind name

/-- Two atoms of one name die before the destructor of either has run, and a third one is made. Then
the destructor of the first one runs and leaves the entry of the third one alone. -/
theorem canonical_of_race :
    let a : Atom := ⟨0, .keyword, "race"⟩
    let b : Atom := ⟨1, .keyword, "race"⟩
    let c : Atom := ⟨2, .keyword, "race"⟩
    ∃ table, Reached ⟨table, [c, b, a], [(1, c)], [(2, b)]⟩ ∧
      Canonical ⟨table, [c, b, a], [(1, c)], [(2, b)]⟩ ∧
      table.filed? .keyword "race" = some c ∧ table.isAlive b = false := by
  intro a b c
  let interned (table : AtomTable) : AtomTable := (table.intern .keyword ":race").2
  let one := interned .empty
  let two := interned (one.drop a)
  let three := interned (two.drop b)
  have first : Reached ⟨one, [a], [(1, a)], []⟩ :=
    .single (.interned 1 .keyword ":race" (Prod.ext (by decide +kernel) rfl))
  have second : Reached ⟨two, [b, a], [(2, b)], [(1, a)]⟩ :=
    (first.tail (.die List.mem_cons_self (by decide +kernel))).tail
      (.interned 2 .keyword ":race" (Prod.ext (by decide +kernel) rfl))
  have third : Reached ⟨three, [c, b, a], [(1, c)], [(2, b), (1, a)]⟩ :=
    (second.tail (.die List.mem_cons_self (by decide +kernel))).tail
      (.interned 1 .keyword ":race" (Prod.ext (by decide +kernel) rfl))
  have due : (1, a) ∈ [(2, b), (1, a)] := List.mem_cons_of_mem _ List.mem_cons_self
  have reached : Reached ⟨(three.finalize a).2, [c, b, a], [(1, c)], [(2, b)]⟩ :=
    third.tail (Step.finalize (s := ⟨three, [c, b, a], [(1, c)], [(2, b), (1, a)]⟩) due)
  exact ⟨_, reached, reached.canonical, by decide +kernel, by decide +kernel⟩

end Threads

end Sexpr
