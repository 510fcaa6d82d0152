import Sexpr.Proofs.Store.Building
import Sexpr.Proofs.Store.Runs

/-!
# What the builders make

Lists, chains and rings are made of new pairs only, one for each head, and the pairs that were there
before are not touched. `BuildsExactly` says for each builder and any number of members which heads
the new pairs have and what stands behind the last of them; `Ledger.Sound.buildsExactly` proves it
of every store in which the members are held.

A chain never ends exactly if what stands behind it never ends. That is known before the chain is
made, since no pair that was there leads to a new one.
-/

namespace Sexpr

/-- What the builders make of the given members. -/
structure Store.BuildsExactly (store : Store) (members : List Value) : Prop where
  /-- No members make nil, and no pair. -/
  empty : members = [] →
    store.list members = (.nil, store) ∧ ∀ ring, store.cons members ring = (.nil, store)
  list : ∃ pairs, store.Strung (store.list members) pairs members .nil
  single : ∀ member, members = [member] →
    ∃ p, store.Strung (store.cons members false) [p] [member] .nil
  /-- The last of several members stands behind the others, and decides whether the chain ends. -/
  chain : 2 ≤ members.length → ∃ first rest last, members.getLast? = some last ∧
    store.Strung (store.cons members false) (first :: rest) members.dropLast last ∧
    ((store.cons members false).2.heap.isEndless first = true ↔
      ∃ q, last = .pair q ∧ store.heap.isEndless q = true)
  /-- The first pair stands behind all members. -/
  ring : members ≠ [] → ∃ first rest,
    store.Strung (store.cons members true) (first :: rest) members (.pair first) ∧
    ∀ p ∈ first :: rest, (store.cons members true).2.heap.isEndless p = true

namespace Store

variable {store : Store} {member : Value} {members : List Value}

theorem strung_cons (covers : store.registry.Covers store.heap) (member : Value)
    (members : List Value) : ∃ pairs, store.Strung (store.cons (member :: members) false)
      (⟨store.heap.size⟩ :: pairs) (member :: members.dropLast) (members.getLast?.getD .nil) :=
  strung_ahead (opens_pair covers member) ..

theorem strung_ring (covers : store.registry.Covers store.heap) (member : Value)
    (members : List Value) : ∃ pairs, store.Strung (store.cons (member :: members) true)
      (⟨store.heap.size⟩ :: pairs) (member :: members) (.pair ⟨store.heap.size⟩) :=
  strung_ahead (opens_pair covers member).retain ..

end Store

namespace Ledger.Sound

variable {store : Store} {members outside : List Value} {weaks : List Weak}

/-- Growing does not change whether a value that is held ever ends. -/
theorem endless_iff {later : Heap} {value : Value} (sound : Sound ⟨store, outside, weaks⟩)
    (grown : store.heap.Extends later) (held : value ∈ outside) :
    later.Endless value ↔ store.heap.Endless value := by
  apply Heap.endless_congr fun p => store.heap.isLive p = true
  · intro p q live tail
    exact sound.pairs.isLive_iff.2 (mem_holdings.2 (Or.inr ⟨p, .tail, live, tail⟩))
  · intro p live
    exact Heap.read_congr (grown.kept p (Heap.lt_size_of_isLive live)) .tail
  · rintro p rfl
    exact sound.pairs.isLive_iff.2 (List.mem_append_left _ held)

/-- A chain of new pairs never ends exactly if what stands behind it never ended before. -/
theorem isEndless_strung_iff {made : Value × Store} {first : PairId} {rest : List PairId}
    {heads : List Value} {last : Value} (sound : Sound ⟨store, outside, weaks⟩)
    (strung : store.Strung made (first :: rest) heads last) (held : last ∈ outside) :
    made.2.heap.isEndless first = true ↔ ∃ q, last = .pair q ∧ store.heap.isEndless q = true := by
  have whole : made.2.heap.Endless (.pair first) ↔ store.heap.Endless last := by
    rw [← strung.links.eq_pair, strung.links.endless_iff, sound.endless_iff strung.kept held]
  rw [Heap.isEndless_iff, whole]
  constructor
  · intro endless
    obtain ⟨q, rfl⟩ := endless.exists_pair
    exact ⟨q, rfl, Heap.isEndless_iff.2 endless⟩
  · rintro ⟨q, rfl, endless⟩
    exact Heap.isEndless_iff.1 endless

/-- The builders make what they are said to make, of any members that are held. -/
theorem buildsExactly (sound : Sound ⟨store, members ++ outside, weaks⟩) :
    store.BuildsExactly members := by
  have covers := sound.registered
  constructor
  case empty =>
    rintro rfl
    exact ⟨rfl, fun ring => rfl⟩
  case list => exact Store.strung_chain covers members .nil
  case single =>
    rintro member rfl
    obtain ⟨pairs, strung⟩ := Store.strung_cons covers member []
    have none : pairs = [] := List.eq_nil_of_length_eq_zero (Nat.succ.inj strung.links.length_eq)
    subst none
    exact ⟨_, strung⟩
  case chain =>
    intro several
    rcases members with _ | ⟨member, _ | ⟨second, more⟩⟩
    · cases several
    · exact absurd several (Nat.not_succ_le_self 1)
    obtain ⟨rest, strung⟩ := Store.strung_cons covers member (second :: more)
    set last := (second :: more).getLast (List.cons_ne_nil second more)
    have behind : (second :: more).getLast? = some last := List.getLast?_eq_some_getLast _
    rw [behind, Option.getD_some] at strung
    have held : last ∈ (member :: second :: more) ++ outside :=
      List.mem_append_left _ (List.mem_cons_of_mem _ (List.getLast_mem _))
    exact ⟨⟨store.heap.size⟩, rest, last, behind, strung, sound.isEndless_strung_iff strung held⟩
  case ring =>
    intro nonempty
    obtain ⟨member, more, rfl⟩ := List.exists_cons_of_ne_nil nonempty
    obtain ⟨rest, strung⟩ := Store.strung_ring covers member more
    refine ⟨⟨store.heap.size⟩, rest, strung, fun p inside => ?_⟩
    exact Heap.isEndless_iff.2 (strung.links.endless_of_ring List.mem_cons_self inside)

end Ledger.Sound

/-- A ring of two is made and put behind a number: the new chain has one pair and does not end, and
the pairs of the ring are as they were. -/
theorem Ledger.buildsExactly_of_ring_behind :
    let ring := Store.empty.cons [.int 1, .int 2] true
    let made := ring.2.cons [.int 3, ring.1] false
    Ledger.Sound ⟨ring.2, [.int 3, ring.1] ++ [], []⟩ ∧ ring.2.BuildsExactly [.int 3, ring.1] ∧
      ring.2.trackedCount = 2 ∧ made.2.trackedCount = 3 ∧
      made.1 = .pair ⟨2⟩ ∧ made.2.heap.isEndless ⟨2⟩ = true ∧
      made.2.heap.slots ⟨0⟩ = (.int 1, .pair ⟨1⟩) ∧ made.2.heap.slots ⟨1⟩ = (.int 2, .pair ⟨0⟩) := by
  intro ring made
  have members : Reached ⟨.empty, [.int 1, .int 2] ++ [], []⟩ :=
    (Reached.step .refl (.literal (.int 2))).step (.literal (.int 1))
  have closed : Reached ⟨ring.2, [ring.1], []⟩ := members.cons
  have ready : Reached ⟨ring.2, [.int 3, ring.1] ++ [], []⟩ := closed.step (.literal (.int 3))
  refine ⟨ready.sound, ready.sound.buildsExactly, ?_, ?_, ?_, ?_, ?_, ?_⟩ <;> decide +kernel

end Sexpr
