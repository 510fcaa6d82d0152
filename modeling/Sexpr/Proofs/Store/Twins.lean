import Sexpr.Proofs.Heap.Mirror
import Sexpr.Proofs.Store.Conduct

/-!
# Ledgers that holders cannot tell apart

`Ledger.Twins` relates two reached ledgers in which the same pairs are held outside and the heaps
have a common part with all of them in it. Atoms may have other identities, and what nobody leads to
may be alive in one and dead in the other.

Operations that only add to the heap keep a common part and put what they make into it (`Builds`).
Where pairs die, the new common part is what the holders still lead to: `Twins.releaseAll`,
`Twins.write` and `Twins.next` say so for both ledgers, and `Twins.collect` for a collection in one
of them.
-/

namespace Sexpr

/-! ## References to pairs in masked lists -/

theorem count_pair_map_mask (values : List Value) (p : PairId) :
    (values.map Value.mask).count (.pair p) = values.count (.pair p) := by
  rw [List.count_eq_countP, List.count_eq_countP, List.countP_map]
  refine List.countP_congr fun value _ => ?_
  simp

theorem count_pair_eq {values values' : List Value} (same : values.map Value.mask =
    values'.map Value.mask) (p : PairId) : values.count (.pair p) = values'.count (.pair p) := by
  rw [← count_pair_map_mask, same, count_pair_map_mask]

theorem count_pair_append {values values' rest rest' : List Value}
    (same : values.map Value.mask = values'.map Value.mask)
    (behind : ∀ p, rest.count (.pair p) = rest'.count (.pair p)) (p : PairId) :
    (values ++ rest).count (.pair p) = (values' ++ rest').count (.pair p) := by
  rw [List.count_append, List.count_append, count_pair_eq same, behind]

theorem mem_pair_of_count {values values' : List Value} {p : PairId}
    (same : values.count (.pair p) = values'.count (.pair p)) (member : .pair p ∈ values) :
    .pair p ∈ values' := by
  rw [← List.count_pos_iff] at member ⊢
  omega

/-! ## Making pairs in both stores -/

namespace Heap

variable {heap other later later' : Heap} {common : PairId → Prop}

/-- Changes that cannot be seen. -/
theorem Mirrors.of_views (mirrors : heap.Mirrors other common) (size : later.size = heap.size)
    (size' : later'.size = other.size) (view : ∀ p, later.view p = heap.view p)
    (view' : ∀ p, later'.view p = other.view p) : later.Mirrors later' common where
  size := by rw [size, size', mirrors.size]
  live p member := by
    rw [← isSome_view, view, isSome_view]
    exact mirrors.live p member
  view p member := by rw [view, view', mirrors.view p member]
  closed p slot q member read := by
    have same : (later.read p slot).mask = (heap.read p slot).mask := by
      rw [Heap.mask_read, Heap.mask_read, view]
    rw [read] at same
    exact mirrors.closed p slot q member (Value.mask_eq_pair_iff.1 same.symm)

theorem view_retain (heap : Heap) (p q : PairId) : (heap.retain p).view q = heap.view q := by
  have unseen : ∀ cell : Cell,
      ({ cell with handles := cell.handles + 1 } : Cell).mask = id cell.mask := fun _ => rfl
  rw [retain, view_modify unseen, Option.map_id_apply, ite_self]

theorem Mirrors.retain {store store' : Store} (mirrors : store.heap.Mirrors store'.heap common)
    (value value' : Value) :
    (store.retain value).heap.Mirrors (store'.retain value').heap common := by
  have seen : ∀ (store : Store) (value : Value), (store.retain value).heap.size = store.heap.size ∧
      ∀ p, (store.retain value).heap.view p = store.heap.view p := by
    intro store value
    cases value with
    | pair p => exact ⟨size_modify .., view_retain store.heap p⟩
    | scalar s => cases s <;> exact ⟨rfl, fun _ => rfl⟩
  exact mirrors.of_views (seen store value).1 (seen store' value').1 (seen store value).2
    (seen store' value').2

theorem Mirrors.retainAll {store store' : Store} (mirrors : store.heap.Mirrors store'.heap common)
    {values values' : List Value} (same : values.length = values'.length) :
    (store.retainAll values).heap.Mirrors (store'.retainAll values').heap common := by
  induction values generalizing store store' values' with
  | nil =>
    cases List.length_eq_zero_iff.1 same.symm
    exact mirrors
  | cons value values ih =>
    obtain ⟨value', values', rfl⟩ := List.exists_cons_of_length_eq_add_one same.symm
    exact ih (mirrors.retain value value') (Nat.succ.inj same)

end Heap

namespace Store

open Heap

variable {common more : PairId → Prop} {store store' : Store} {value value' : Value}

/-- What is made in both stores is equal when masked, and joins the common part of the heaps. -/
def Builds (common : PairId → Prop) (made made' : Value × Store) : Prop :=
  ∃ more, (∀ p, common p → more p) ∧ made.2.heap.Mirrors made'.2.heap more ∧
    made.1.mask = made'.1.mask ∧ ∀ q, made.1 = .pair q → more q

theorem Builds.mono {made made' : Value × Store} (builds : Builds more made made')
    (less : ∀ p, common p → more p) : Builds common made made' := by
  obtain ⟨most, grown, rest⟩ := builds
  exact ⟨most, fun p member => grown p (less p member), rest⟩

theorem builds_pair {head tail head' tail' : Value}
    (mirrors : store.heap.Mirrors store'.heap common) (sameHead : head.mask = head'.mask)
    (sameTail : tail.mask = tail'.mask) (inside : ∀ q, head = .pair q ∨ tail = .pair q → common q) :
    Builds common (.pair (store.pair head tail).1, (store.pair head tail).2)
      (.pair (store'.pair head' tail').1, (store'.pair head' tail').2) := by
  obtain ⟨same, grown⟩ := mirrors.allocate sameHead sameTail inside
  refine ⟨_, fun p => Or.inr, grown, congrArg Value.pair same, ?_⟩
  intro q made
  cases made
  exact Or.inl rfl

theorem builds_chain {heads heads' : List Value} {last last' : Value}
    (mirrors : store.heap.Mirrors store'.heap common)
    (same : heads.map Value.mask = heads'.map Value.mask) (sameLast : last.mask = last'.mask)
    (inside : ∀ q, .pair q ∈ heads → common q) (insideLast : ∀ q, last = .pair q → common q) :
    Builds common (store.chain heads last) (store'.chain heads' last') := by
  induction heads generalizing heads' with
  | nil =>
    cases List.map_eq_nil_iff.1 same.symm
    exact ⟨common, fun p => id, mirrors, sameLast, insideLast⟩
  | cons head heads ih =>
    obtain ⟨head', heads', rfl, sameHead, sameRest⟩ := List.map_eq_cons_iff.1 same.symm
    obtain ⟨more, grown, rest, tails, within⟩ :=
      ih sameRest.symm fun q member => inside q (List.mem_cons_of_mem _ member)
    refine (builds_pair rest sameHead.symm tails ?_).mono grown
    rintro q (rfl | tail)
    · exact grown q (inside q List.mem_cons_self)
    · exact within q tail

theorem builds_list {items items' : List Value} (mirrors : store.heap.Mirrors store'.heap common)
    (same : items.map Value.mask = items'.map Value.mask)
    (inside : ∀ q, .pair q ∈ items → common q) :
    Builds common (store.list items) (store'.list items') :=
  builds_chain mirrors same rfl inside fun _ none => nomatch none

theorem builds_cons {members members' : List Value} (ring : Bool)
    (mirrors : store.heap.Mirrors store'.heap common)
    (same : members.map Value.mask = members'.map Value.mask)
    (inside : ∀ q, .pair q ∈ members → common q) :
    Builds common (store.cons members ring) (store'.cons members' ring) := by
  cases members with
  | nil =>
    cases List.map_eq_nil_iff.1 same.symm
    exact ⟨common, fun p => id, mirrors, rfl, fun q none => nomatch none⟩
  | cons member members =>
    obtain ⟨member', members', rfl, sameFirst, sameRest⟩ := List.map_eq_cons_iff.1 same.symm
    have within : ∀ q, member = .pair q ∨ Value.nil = .pair q → common q := by
      rintro q (rfl | none)
      · exact inside q List.mem_cons_self
      · cases none
    obtain ⟨more, grown, opened, masks, made⟩ := builds_pair mirrors sameFirst.symm rfl within
    have first : (store.pair member .nil).1 = (store'.pair member' .nil).1 := Value.pair.inj masks
    have others : ∀ q, .pair q ∈ members → more q := fun q member =>
      grown q (inside q (List.mem_cons_of_mem _ member))
    -- The rest is built behind the first pair, whose tail is written last.
    have finish : ∀ rest rest' : Value × Store, Builds more rest rest' →
        Builds common (.pair (store.pair member .nil).1,
            rest.2.mapHeap (·.write (store.pair member .nil).1 .tail rest.1))
          (.pair (store'.pair member' .nil).1,
            rest'.2.mapHeap (·.write (store'.pair member' .nil).1 .tail rest'.1)) := by
      rintro rest rest' ⟨most, further, built, sameTail, behind⟩
      refine ⟨most, fun p member => further p (grown p member), ?_, masks, fun q same => ?_⟩
      · rw [heap_mapHeap, heap_mapHeap, first]
        exact built.write _ .tail sameTail behind
      · exact further q (made q same)
    cases ring with
    | true =>
      refine finish _ _ (builds_chain (opened.retain _ _) sameRest.symm masks others ?_)
      exact made
    | false =>
      refine finish _ _ (builds_chain opened ?_ ?_ ?_ ?_)
      · rw [List.map_dropLast, List.map_dropLast, sameRest]
      · have masked : ∀ values : List Value, (values.getLast?.getD .nil).mask =
            (values.map Value.mask).getLast?.getD Value.nil.mask := by
          intro values
          rw [List.getLast?_map, Option.getD_map]
        rw [masked, masked, sameRest]
      · exact fun q member => others q (List.dropLast_subset _ member)
      · intro q last
        cases found : members.getLast? with
        | none =>
          rw [found] at last
          cases last
        | some final =>
          rw [found] at last
          cases last
          exact others q (List.mem_of_getLast? found)

theorem builds_grow (growth : Growth) (numbered : Bool) (count index : Nat)
    (mirrors : store.heap.Mirrors store'.heap common) (same : value.mask = value'.mask)
    (inside : ∀ q, value = .pair q → common q) :
    Builds common (store.grow growth numbered count index value)
      (store'.grow growth numbered count index value') := by
  induction count generalizing store store' index value value' common with
  | zero => exact ⟨common, fun p => id, mirrors, same, inside⟩
  | succ count ih =>
    unfold Store.grow
    have literal : ∀ q, (if numbered then Value.int index else .nil) ≠ .pair q := by
      intro q
      cases numbered <;> simp [Value.int, Value.nil]
    generalize (if numbered then Value.int index else .nil) = other at literal ⊢
    cases growth.intoHead index with
    | true =>
      obtain ⟨more, grown, built, masks, made⟩ := builds_pair mirrors same
        (rfl : other.mask = other.mask) fun q slot => inside q (slot.resolve_right (literal q))
      exact (ih (index + 1) built masks made).mono grown
    | false =>
      obtain ⟨more, grown, built, masks, made⟩ := builds_pair mirrors
        (rfl : other.mask = other.mask) same fun q slot => inside q (slot.resolve_left (literal q))
      exact (ih (index + 1) built masks made).mono grown

end Store

/-! ## Twins -/

/-- The heaps have a common part with all pairs in it that stand in the list. -/
def Heap.Mirrored (heap other : Heap) (roots : List Value) : Prop :=
  ∃ common, heap.Mirrors other common ∧ ∀ p, .pair p ∈ roots → common p

theorem Heap.Mirrored.mono {heap other : Heap} {roots fewer : List Value}
    (mirrored : heap.Mirrored other roots) (less : ∀ p, .pair p ∈ fewer → .pair p ∈ roots) :
    heap.Mirrored other fewer := by
  obtain ⟨common, mirrors, inside⟩ := mirrored
  exact ⟨common, mirrors, fun p member => inside p (less p member)⟩

namespace Ledger

/-- Two reached ledgers with the same pairs held outside, and heaps that have all that these lead
to in common. -/
structure Twins (ledger other : Ledger) : Prop where
  reached : Reached ledger
  reached' : Reached other
  pairs : ∀ p, ledger.outside.count (.pair p) = other.outside.count (.pair p)
  mirrored : ledger.store.heap.Mirrored other.store.heap ledger.outside

variable {store store' after after' : Store} {outside outside' : List Value}
  {weaks weaks' : List Weak} {value value' : Value} {p : PairId} {slot : Slot}

/-- What is held outside is alive, with all that it leads to. -/
theorem Sound.isLive_of_leads (sound : Sound ⟨store, outside, weaks⟩) (q r : PairId)
    (root : .pair r ∈ outside) (leads : store.heap.Leads r q) : store.heap.isLive q = true :=
  sound.isLive_of_reaches ⟨r, root, leads⟩

/-- What is alive after a collection was so before, with the same slots. -/
theorem Sound.thinned_heap_collect {ledger : Ledger} (sound : ledger.Sound) :
    ledger.store.heap.Thinned ledger.store.collect.2.heap := by
  intro q cell' found'
  have reaches := sound.isLive_collect_iff.1 (Heap.isLive_eq_true_iff.2 ⟨cell', found'⟩)
  obtain ⟨cell, found, same⟩ := thinned_collect ledger q cell' found'
  rw [sound.get?_cleared_of_reaches reaches] at found
  exact ⟨cell, found, same⟩

theorem size_heap_collect (ledger : Ledger) :
    ledger.store.collect.2.heap.size = ledger.store.heap.size :=
  (ledger.store.sweep.2.thinned_releaseAll ledger.store.sweep.1.2).2.1.trans
    (Heap.size_foldl_clear ledger.garbage ledger.store.heap)

/-- When pairs have died in two heaps, what is still held outside leads to a common part of what is
left. -/
theorem mirrored_of_thinned {heap heap' : Heap} {common : PairId → Prop}
    (mirrors : heap.Mirrors heap' common) (inside : ∀ p, .pair p ∈ outside → common p)
    (pairs : ∀ p, outside.count (.pair p) = outside'.count (.pair p))
    (reached : Reached ⟨after, outside, weaks⟩) (reached' : Reached ⟨after', outside', weaks'⟩)
    (thinned : heap.Thinned after.heap) (thinned' : heap'.Thinned after'.heap)
    (size : after.heap.size = heap.size) (size' : after'.heap.size = heap'.size) :
    after.heap.Mirrored after'.heap outside := by
  refine ⟨_, mirrors.thin thinned thinned' size size' inside ?_ reached.sound.isLive_of_leads
    reached'.sound.isLive_of_leads, fun p root => ⟨p, root, .refl p⟩⟩
  exact fun p => mem_pair_of_count (pairs p)

namespace Twins

/-- The outside handles without those that come first. -/
theorem pairs_of_append {first first' : List Value}
    (twins : Twins ⟨store, first ++ outside, weaks⟩ ⟨store', first' ++ outside', weaks'⟩)
    (same : first.map Value.mask = first'.map Value.mask) (p : PairId) :
    outside.count (.pair p) = outside'.count (.pair p) := by
  have all := twins.pairs p
  simp only [List.count_append, count_pair_eq same p] at all
  omega

theorem pairs_of_cons
    (twins : Twins ⟨store, value :: outside, weaks⟩ ⟨store', value' :: outside', weaks'⟩)
    (same : value.mask = value'.mask) (p : PairId) :
    outside.count (.pair p) = outside'.count (.pair p) :=
  @pairs_of_append _ _ _ _ _ _ [value] [value'] twins (congrArg (fun mask => [mask]) same) p

theorem perm {others others' : List Value}
    (twins : Twins ⟨store, outside, weaks⟩ ⟨store', outside', weaks'⟩)
    (same : outside.Perm others) (same' : outside'.Perm others') :
    Twins ⟨store, others, weaks⟩ ⟨store', others', weaks'⟩ where
  reached := twins.reached.perm same
  reached' := twins.reached'.perm same'
  pairs p := by rw [← same.count_eq, ← same'.count_eq, twins.pairs p]
  mirrored := twins.mirrored.mono fun _ => same.mem_iff.2

/-- Both take a handle on what they have. -/
theorem retain (twins : Twins ⟨store, outside, weaks⟩ ⟨store', outside', weaks'⟩)
    (same : value.mask = value'.mask) (available : Available outside value)
    (available' : Available outside' value') :
    Twins ⟨store.retain value, value :: outside, weaks⟩
      ⟨store'.retain value', value' :: outside', weaks'⟩ := by
  obtain ⟨common, mirrors, inside⟩ := twins.mirrored
  have masks : [value].map Value.mask = [value'].map Value.mask :=
    congrArg (fun mask => [mask]) same
  refine ⟨twins.reached.retain available, twins.reached'.retain available',
    count_pair_append masks twins.pairs, common, mirrors.retain value value', fun q root => ?_⟩
  rcases List.mem_cons.1 root with rfl | root
  · exact inside q available.mem_of_pair
  · exact inside q root

theorem releaseAll {work work' : List Value}
    (twins : Twins ⟨store, work ++ outside, weaks⟩ ⟨store', work' ++ outside', weaks'⟩)
    (same : work.map Value.mask = work'.map Value.mask) :
    (store.releaseAll work).heap.Mirrored (store'.releaseAll work').heap outside := by
  obtain ⟨common, mirrors, inside⟩ := twins.mirrored
  have thinned := store.thinned_releaseAll work
  have thinned' := store'.thinned_releaseAll work'
  exact mirrored_of_thinned mirrors (fun p root => inside p (List.mem_append_right _ root))
    (twins.pairs_of_append same) twins.reached.releaseAll twins.reached'.releaseAll thinned.1
    thinned'.1 thinned.2.1 thinned'.2.1

/-- Both write to a slot of one pair. -/
theorem write (slot : Slot)
    (twins : Twins ⟨store, value :: outside, weaks⟩ ⟨store', value' :: outside', weaks'⟩)
    (same : value.mask = value'.mask) (held : .pair p ∈ outside) :
    (store.write p slot value).heap.Mirrored (store'.write p slot value').heap outside := by
  obtain ⟨common, mirrors, inside⟩ := twins.mirrored
  have pairs := pairs_of_cons twins same
  have held' : .pair p ∈ outside' := mem_pair_of_count (pairs p) held
  have written := mirrors.write p slot same fun q read => inside q (read ▸ List.mem_cons_self)
  have thinned := (store.mapHeap (·.write p slot value)).thinned_releaseAll
    [store.heap.read p slot]
  have thinned' := (store'.mapHeap (·.write p slot value')).thinned_releaseAll
    [store'.heap.read p slot]
  exact mirrored_of_thinned written (fun q root => inside q (List.mem_cons_of_mem _ root)) pairs
    (twins.reached.step (.write slot held)) (twins.reached'.step (.write slot held')) thinned.1
    thinned'.1 thinned.2.1 thinned'.2.1

/-- Both read a slot of one pair. -/
theorem read (slot : Slot)
    (twins : Twins ⟨store, outside, weaks⟩ ⟨store', outside', weaks'⟩) (held : .pair p ∈ outside) :
    (store.read p slot).1.mask = (store'.read p slot).1.mask ∧
      Twins ⟨(store.read p slot).2, (store.read p slot).1 :: outside, weaks⟩
        ⟨(store'.read p slot).2, (store'.read p slot).1 :: outside', weaks'⟩ := by
  obtain ⟨common, mirrors, inside⟩ := twins.mirrored
  have held' : .pair p ∈ outside' := mem_pair_of_count (twins.pairs p) held
  have masks : (store.read p slot).1.mask = (store'.read p slot).1.mask :=
    mirrors.mask_read (inside p held) slot
  have single : [(store.read p slot).1].map Value.mask = [(store'.read p slot).1].map Value.mask :=
    congrArg (fun mask => [mask]) masks
  refine ⟨masks, twins.reached.step (.read slot held), twins.reached'.step (.read slot held'),
    count_pair_append single twins.pairs, common, mirrors.retain _ _, fun q root => ?_⟩
  rcases List.mem_cons.1 root with same | root
  · exact mirrors.closed p slot q (inside p held) same.symm
  · exact inside q root

/-- Moving on is the same in both stores. -/
theorem next {cursor : Cursor} (twins : Twins ⟨store, cursor.held ++ outside, weaks⟩
      ⟨store', cursor.held ++ outside', weaks'⟩) :
    (cursor.next store).1.1.map Value.mask = (cursor.next store').1.1.map Value.mask ∧
      (cursor.next store).1.2 = (cursor.next store').1.2 ∧
      (cursor.next store).2.heap.Mirrored (cursor.next store').2.heap
        ((cursor.next store).1.1.toList ++ ((cursor.next store).1.2.held ++ outside)) := by
  cases cursor with
  | finished => exact ⟨rfl, rfl, twins.mirrored⟩
  | atHead p =>
    obtain ⟨masks, after⟩ := twins.read .head List.mem_cons_self
    exact ⟨congrArg some masks, rfl, after.mirrored⟩
  | atTail p =>
    obtain ⟨masks, after⟩ := twins.read .tail List.mem_cons_self
    have order := after.perm (List.Perm.swap ..) (List.Perm.swap ..)
    exact ⟨congrArg some masks, rfl, @releaseAll _ _ _ _ _ _ [.pair p] [.pair p] order rfl⟩

/-- A collection in one of two ledgers is nothing that holders can tell. -/
theorem collect (twins : Twins ⟨store, outside, weaks⟩ ⟨store', outside', weaks'⟩) :
    Twins ⟨store.collect.2, outside, weaks⟩ ⟨store', outside', weaks'⟩ := by
  obtain ⟨common, mirrors, inside⟩ := twins.mirrored
  have collected := twins.reached.step .collect
  refine ⟨collected, twins.reached', twins.pairs, ?_⟩
  exact mirrored_of_thinned mirrors inside twins.pairs collected twins.reached'
    twins.reached.sound.thinned_heap_collect (.refl _)
    (size_heap_collect ⟨store, outside, weaks⟩) rfl

end Twins

end Ledger

end Sexpr
