import Sexpr.Proofs.Heap.Leads
import Sexpr.Proofs.Store.Ledger

/-!
# What a collection clears and what it leaves

In a sound ledger the pairs that a collection takes for roots are those that are held outside
(`Sound.mem_roots_iff`): all handles on a pair are counted, so the ones that are not slots are
outside. Hence a sweep clears exactly the live pairs that no outside holder leads to
(`Sound.mem_garbage_iff`), and the values that it takes out of their slots go to the holders of
the ledger (`Sound.sweep`).

Once these are released, a pair that was cleared has no handle left: the outside holders do not
lead to it, the pairs they lead to do not hold it, and the cleared ones hold nothing. So the live
pairs after a collection are those that outside holders led to before (`Sound.isLive_collect_iff`),
and these are as they were (`Sound.read_collect`).
-/

namespace Sexpr

namespace Heap

variable {heap : Heap} {p : PairId}

/-! ## Counting slots -/

theorem size_foldl_bump (pairs : List PairId) (counts : Array Nat) :
    (pairs.foldl (fun counts q => counts.modify q.index (· + 1)) counts).size = counts.size := by
  induction pairs generalizing counts with
  | nil => rfl
  | cons q pairs ih => rw [List.foldl_cons, ih, Array.size_modify]

theorem getD_foldl_bump (pairs : List PairId) (counts : Array Nat) (small : p.index < counts.size) :
    ((pairs.foldl (fun counts q => counts.modify q.index (· + 1)) counts)[p.index]?).getD 0 =
      (counts[p.index]?).getD 0 + pairs.count p := by
  induction pairs generalizing counts with
  | nil => rfl
  | cons q pairs ih =>
    have same : q.index = p.index ↔ q = p := by
      cases p
      cases q
      simp
    rw [List.foldl_cons, ih _ (by rwa [Array.size_modify]), Array.getElem?_modify,
      List.count_cons]
    by_cases equal : q = p
    · subst equal
      simp [small]
      omega
    · simp [same, equal]

theorem count_filterMap_pair? (values : List Value) (p : PairId) :
    (values.filterMap Value.pair?).count p = values.count (.pair p) := by
  induction values with
  | nil => rfl
  | cons value values ih =>
    cases value with
    | scalar s => rw [List.filterMap_cons_none rfl, List.count_cons_of_ne (by simp), ih]
    | pair q =>
      have shown : Value.pair? (.pair q) = some q := rfl
      rw [List.filterMap_cons_some shown, List.count_cons, List.count_cons, ih]
      simp

theorem getD_countSlots {q : PairId} (live : heap.isLive q = true) (counts : Array Nat)
    (small : p.index < counts.size) :
    ((heap.countSlots counts q)[p.index]?).getD 0 =
      (counts[p.index]?).getD 0 + (heap.slotsOf q).count (.pair p) := by
  obtain ⟨cell, found⟩ := isLive_eq_true_iff.1 live
  simp only [countSlots, found]
  rw [getD_foldl_bump _ _ small, Cell.children, count_filterMap_pair?, slotsOf_of_get? found]

theorem size_countSlots (heap : Heap) (counts : Array Nat) (q : PairId) :
    (heap.countSlots counts q).size = counts.size := by
  unfold countSlots
  split
  · exact size_foldl_bump ..
  · rfl

theorem getD_foldl_countSlots (pairs : List PairId) (counts : Array Nat)
    (live : ∀ q ∈ pairs, heap.isLive q = true) (small : p.index < counts.size) :
    ((pairs.foldl heap.countSlots counts)[p.index]?).getD 0 =
      (counts[p.index]?).getD 0 + (pairs.flatMap heap.slotsOf).count (.pair p) := by
  induction pairs generalizing counts with
  | nil => rfl
  | cons q pairs ih =>
    have first := getD_countSlots (live q List.mem_cons_self) counts small
    have rest := ih (heap.countSlots counts q)
      (fun r member => live r (List.mem_cons_of_mem _ member)) (by rwa [size_countSlots])
    rw [List.foldl_cons, rest, first, List.flatMap_cons, List.count_append, Nat.add_assoc]

/-- For each pair, the slots of the given pairs that hold it. -/
theorem getD_slotHandles (pairs : List PairId) (live : ∀ q ∈ pairs, heap.isLive q = true)
    (small : p.index < heap.size) :
    ((heap.slotHandles pairs)[p.index]?).getD 0 = (pairs.flatMap heap.slotsOf).count (.pair p) := by
  rw [slotHandles, getD_foldl_countSlots pairs _ live (by simpa using small)]
  simp [small]

/-! ## Clearing -/

theorem get?_foldl_clear (pairs : List PairId) (heap : Heap) (p : PairId) :
    (pairs.foldl clear heap).get? p =
      if p ∈ pairs then (heap.get? p).map fun cell => { cell with head := .nil, tail := .nil }
      else heap.get? p := by
  induction pairs generalizing heap with
  | nil => simp
  | cons q pairs ih =>
    rw [List.foldl_cons, ih, clear, get?_modify]
    by_cases same : q = p
    · subst same
      cases heap.get? q <;> simp
    · by_cases member : p ∈ pairs <;> simp [same, Ne.symm same, member]

theorem size_foldl_clear (pairs : List PairId) (heap : Heap) :
    (pairs.foldl clear heap).size = heap.size := by
  induction pairs generalizing heap with
  | nil => rfl
  | cons q pairs ih => rw [List.foldl_cons, ih, clear, size_modify]

theorem isLive_foldl_clear (pairs : List PairId) (heap : Heap) (p : PairId) :
    (pairs.foldl clear heap).isLive p = heap.isLive p := by
  unfold isLive
  rw [get?_foldl_clear]
  split <;> simp

/-- A cleared pair reads as a pair of nils. -/
theorem read_foldl_clear_of_mem {pairs : List PairId} (member : p ∈ pairs) (slot : Slot) :
    (pairs.foldl clear heap).read p slot = .nil := by
  have cleared := get?_foldl_clear pairs heap p
  rw [if_pos member] at cleared
  cases found : heap.get? p with
  | none => cases slot <;> simp [read, slots, cleared, found]
  | some cell => cases slot <;> simp [read, slots, cleared, found]

theorem get?_foldl_clear_of_not_mem {pairs : List PairId} (absent : p ∉ pairs) :
    (pairs.foldl clear heap).get? p = heap.get? p := by
  rw [get?_foldl_clear, if_neg absent]

theorem length_livePairs (heap : Heap) : heap.livePairs.length = heap.liveCount := by
  have cells : (List.range heap.size).map (fun index => heap.get? ⟨index⟩) = heap.cells.toList := by
    refine List.ext_getElem (by simp [size]) fun index small _ => ?_
    have inside : index < heap.cells.size := by simpa [size] using small
    simp [get?, inside]
  rw [liveCount, ← Array.countP_toList, ← cells, List.countP_map, livePairs,
    ← List.countP_eq_length_filter, List.countP_map]
  rfl

end Heap

/-- The registered pairs that are alive are all live pairs. -/
theorem Store.trackedCount_of_covers {store : Store} (covers : store.registry.Covers store.heap) :
    store.trackedCount = store.heap.liveCount := by
  rw [trackedCount, List.countP_eq_length_filter, ← Registry.pairs_prune,
    ← covers.perm_livePairs.length_eq, Heap.length_livePairs]

namespace Ledger

/-- An outside holder leads to the pair. -/
def Reaches (ledger : Ledger) (p : PairId) : Prop :=
  ∃ r, .pair r ∈ ledger.outside ∧ ledger.store.heap.Leads r p

theorem Reaches.child {ledger : Ledger} {p q : PairId} (reaches : ledger.Reaches p)
    (child : ledger.store.heap.Child p q) : ledger.Reaches q := by
  obtain ⟨r, held, leads⟩ := reaches
  exact ⟨r, held, leads.trans child.leads⟩

/-- The pairs that a collection has to look at: the registry after a prune. -/
def candidates (ledger : Ledger) : List PairId :=
  (ledger.store.registry.prune ledger.store.heap.isLive).pairs

/-- The pairs that a collection marks. -/
def marked (ledger : Ledger) : PairSet :=
  ledger.store.heap.reachable (ledger.store.heap.roots ledger.candidates)

/-- The pairs that a collection clears. -/
def garbage (ledger : Ledger) : List PairId :=
  ledger.candidates.filter (!ledger.marked.contains ·)

namespace Sound

variable {ledger : Ledger} {store : Store} {outside : List Value} {weaks : List Weak} {p : PairId}

/-! ## Roots and garbage -/

theorem mem_candidates_iff (sound : ledger.Sound) :
    p ∈ ledger.candidates ↔ ledger.store.heap.isLive p = true := by
  rw [candidates, ← sound.registered.perm_livePairs.mem_iff, Heap.mem_livePairs]

/-- What outside holders lead to is alive. -/
theorem isLive_of_reaches (sound : ledger.Sound) (reaches : ledger.Reaches p) :
    ledger.store.heap.isLive p = true := by
  obtain ⟨r, held, leads⟩ := reaches
  induction leads with
  | refl => exact sound.pairs.isLive_iff.2 (List.mem_append_left _ held)
  | tail _ child _ =>
    obtain ⟨slot, read⟩ := child
    refine sound.pairs.isLive_iff.2 (mem_holdings.2 (Or.inr ⟨_, slot, ?_, read⟩))
    exact Heap.Child.isLive ⟨slot, read⟩

/-- The handles that are not slots are outside. -/
theorem mem_roots_iff (sound : ledger.Sound) :
    p ∈ ledger.store.heap.roots ledger.candidates ↔ .pair p ∈ ledger.outside := by
  have slots : ∀ q, ledger.store.heap.isLive q = true →
      ((ledger.store.heap.slotHandles ledger.candidates)[q.index]?).getD 0 =
        ledger.store.heap.slotValues.count (.pair q) := by
    intro q live
    rw [Heap.getD_slotHandles _ (fun r => sound.mem_candidates_iff.1)
      (Heap.lt_size_of_isLive live)]
    exact (sound.registered.perm_livePairs.symm.flatMap_right _).count_eq _
  have handles : ledger.store.heap.handlesOf p =
      ledger.outside.count (.pair p) + ledger.store.heap.slotValues.count (.pair p) := by
    rw [sound.pairs.exact, holdings, List.count_append]
  simp only [Heap.roots, List.mem_filter, decide_eq_true_eq]
  constructor
  · intro found
    obtain ⟨candidate, more⟩ := found
    rw [slots p (sound.mem_candidates_iff.1 candidate), handles] at more
    exact List.count_pos_iff.1 (by omega)
  · intro held
    have live := sound.isLive_of_reaches ⟨p, held, .refl p⟩
    refine ⟨sound.mem_candidates_iff.2 live, ?_⟩
    rw [slots p live, handles]
    have positive := List.count_pos_iff.2 held
    omega

theorem mem_marked_iff (sound : ledger.Sound) : p ∈ ledger.marked ↔ ledger.Reaches p := by
  rw [marked, Heap.mem_reachable_iff]
  constructor
  · intro reached
    obtain ⟨-, r, root, leads⟩ := reached
    exact ⟨r, sound.mem_roots_iff.1 root, leads⟩
  · intro reaches
    obtain ⟨r, held, leads⟩ := reaches
    exact ⟨sound.isLive_of_reaches ⟨r, held, leads⟩, r, sound.mem_roots_iff.2 held, leads⟩

theorem contains_marked (sound : ledger.Sound) :
    ledger.marked.contains p = true ↔ ledger.Reaches p :=
  sound.mem_marked_iff

theorem mem_garbage_iff (sound : ledger.Sound) :
    p ∈ ledger.garbage ↔ ledger.store.heap.isLive p = true ∧ ¬ledger.Reaches p := by
  rw [garbage, List.mem_filter, sound.mem_candidates_iff, Bool.not_eq_true', ← sound.contains_marked,
    Bool.not_eq_true]

theorem nodup_garbage (sound : ledger.Sound) : ledger.garbage.Nodup :=
  sound.registered.prune.nodup.filter _

/-! ## Sweeping -/

/-- Clearing a live pair hands over what its slots held. -/
theorem clear (sound : Sound ⟨store, outside, weaks⟩) (live : store.heap.isLive p = true) :
    Sound ⟨store.mapHeap (·.clear p), store.heap.slotsOf p ++ outside, weaks⟩ := by
  obtain ⟨cell, found⟩ := Heap.isLive_eq_true_iff.1 live
  have before := Heap.slotValues_perm_of_get? found
  have after := Heap.slotValues_clear found
  have counts : ∀ value, value ≠ .nil → (store.heap.slotsOf p ++ outside ++
      (store.heap.clear p).slotValues).count value =
      (outside ++ store.heap.slotValues).count value := by
    intro value other
    have countBefore := before.count_eq value
    have countAfter := after.count_eq value
    rw [Heap.slotsOf_of_get? found]
    simp only [List.count_append, List.count_cons, List.count_nil] at countBefore countAfter ⊢
    have plain : ((Value.nil == value) = true) = False := by simp [Ne.symm other]
    simp only [plain, if_false] at countAfter
    omega
  refine sound.of_heap rfl (fun a => counts _ (by simp [Value.atom, Value.nil])) ?_ ?_
  · refine (sound.pairs.modify p fun cell => ?_).congr fun q =>
      (counts _ (by simp [Value.nil])).symm
    rfl
  · refine sound.registered.of_le (Nat.le_of_eq (Heap.size_modify ..).symm) fun q alive => ?_
    rwa [Store.heap_mapHeap, Heap.clear, Heap.isLive_modify] at alive

theorem clearAll {pairs : List PairId} (sound : Sound ⟨store, outside, weaks⟩)
    (nodup : pairs.Nodup) (live : ∀ p ∈ pairs, store.heap.isLive p = true) :
    Sound ⟨store.mapHeap (pairs.foldl Heap.clear), pairs.flatMap store.heap.slotsOf ++ outside,
      weaks⟩ := by
  induction pairs generalizing store outside with
  | nil => exact sound
  | cons p pairs ih =>
    obtain ⟨absent, nodup⟩ := List.nodup_cons.1 nodup
    have first := sound.clear (live p List.mem_cons_self)
    have rest := ih first nodup fun q member => by
      rw [Store.heap_mapHeap, Heap.clear, Heap.isLive_modify]
      exact live q (List.mem_cons_of_mem _ member)
    -- The other pairs still hold what they held.
    have same : pairs.flatMap (store.heap.clear p).slotsOf = pairs.flatMap store.heap.slotsOf := by
      refine List.flatMap_congr fun q member => Heap.slotsOf_congr ?_
      have different : p ≠ q := fun equal => absent (equal ▸ member)
      rw [Heap.clear, Heap.get?_modify, if_neg different]
    rw [Store.heap_mapHeap, same] at rest
    refine rest.perm ?_
    rw [List.flatMap_cons, List.append_assoc]
    exact List.perm_append_comm_assoc ..

theorem sweep (sound : ledger.Sound) :
    Sound ⟨ledger.store.sweep.2, ledger.store.sweep.1.2 ++ ledger.outside, ledger.weaks⟩ := by
  have live : ∀ p ∈ ledger.garbage, ledger.store.heap.isLive p = true :=
    fun p member => (sound.mem_garbage_iff.1 member).1
  have cleared := sound.clearAll sound.nodup_garbage live
  have registered : (ledger.store.registry.prune ledger.store.heap.isLive).Covers
      (ledger.garbage.foldl Heap.clear ledger.store.heap) := by
    refine sound.registered.prune.of_le (Nat.le_of_eq (Heap.size_foldl_clear ..).symm) ?_
    intro p alive
    rwa [Heap.isLive_foldl_clear] at alive
  exact cleared.mapRegistry (·.prune ledger.store.heap.isLive) registered

theorem collect (sound : ledger.Sound) :
    Sound ⟨ledger.store.collect.2, ledger.outside, ledger.weaks⟩ := by
  have released := sound.sweep.releaseAll
  exact ⟨released.pairs, released.atoms, released.registered⟩

/-! ## What is left -/

theorem thinned_collect (ledger : Ledger) :
    (ledger.garbage.foldl Heap.clear ledger.store.heap).Thinned ledger.store.collect.2.heap :=
  (ledger.store.sweep.2.thinned_releaseAll ledger.store.sweep.1.2).1

/-- A pair that outside holders lead to is not cleared. -/
theorem get?_cleared_of_reaches (sound : ledger.Sound) (reaches : ledger.Reaches p) :
    (ledger.garbage.foldl Heap.clear ledger.store.heap).get? p = ledger.store.heap.get? p :=
  Heap.get?_foldl_clear_of_not_mem fun member => (sound.mem_garbage_iff.1 member).2 reaches

theorem read_collect_of_isLive (sound : ledger.Sound) (reaches : ledger.Reaches p)
    (live : ledger.store.collect.2.heap.isLive p = true) (slot : Slot) :
    ledger.store.collect.2.heap.read p slot = ledger.store.heap.read p slot := by
  rw [(thinned_collect ledger).read live]
  exact Heap.read_congr (sound.get?_cleared_of_reaches reaches) slot

/-- What outside holders lead to stays alive, and they still lead to it. -/
theorem isLive_collect_of_reaches (sound : ledger.Sound) (reaches : ledger.Reaches p) :
    ledger.store.collect.2.heap.isLive p = true ∧
      Reaches ⟨ledger.store.collect.2, ledger.outside, ledger.weaks⟩ p := by
  obtain ⟨r, held, leads⟩ := reaches
  induction leads with
  | refl =>
    have after : Reaches ⟨ledger.store.collect.2, ledger.outside, ledger.weaks⟩ r :=
      ⟨r, held, .refl r⟩
    exact ⟨sound.collect.isLive_of_reaches after, after⟩
  | tail before child ih =>
    obtain ⟨slot, read⟩ := child
    rw [← sound.read_collect_of_isLive ⟨r, held, before⟩ ih.1 slot] at read
    have after := ih.2.child ⟨slot, read⟩
    exact ⟨sound.collect.isLive_of_reaches after, after⟩

/-- What no outside holder leads to is dead. -/
theorem reaches_of_isLive_collect (sound : ledger.Sound)
    (live : ledger.store.collect.2.heap.isLive p = true) : ledger.Reaches p := by
  have held := sound.collect.pairs.isLive_iff.1 live
  rcases mem_holdings.1 held with outside | ⟨q, slot, alive, read⟩
  · exact ⟨p, outside, .refl p⟩
  · by_cases reaches : ledger.Reaches q
    · rw [sound.read_collect_of_isLive reaches alive] at read
      exact reaches.child ⟨slot, read⟩
    · -- Then `q` was cleared and holds nothing.
      have before : ledger.store.heap.isLive q = true := by
        have cleared := (thinned_collect ledger).isLive alive
        rwa [Heap.isLive_foldl_clear] at cleared
      have member := sound.mem_garbage_iff.2 ⟨before, reaches⟩
      rw [(thinned_collect ledger).read alive, Heap.read_foldl_clear_of_mem member] at read
      cases read

theorem isLive_collect_iff (sound : ledger.Sound) :
    ledger.store.collect.2.heap.isLive p = true ↔ ledger.Reaches p :=
  ⟨sound.reaches_of_isLive_collect, fun reaches => (sound.isLive_collect_of_reaches reaches).1⟩

/-- What outside holders lead to is as it was. -/
theorem read_collect (sound : ledger.Sound) (reaches : ledger.Reaches p) (slot : Slot) :
    ledger.store.collect.2.heap.read p slot = ledger.store.heap.read p slot :=
  sound.read_collect_of_isLive reaches (sound.isLive_collect_iff.2 reaches) slot

theorem position?_collect (sound : ledger.Sound) (reaches : ledger.Reaches p) :
    ledger.store.collect.2.heap.position? p = ledger.store.heap.position? p := by
  rw [(thinned_collect ledger).position? (sound.isLive_collect_iff.2 reaches), Heap.position?,
    Heap.position?, sound.get?_cleared_of_reaches reaches]

/-! ## The report -/

theorem tracked_collect (sound : ledger.Sound) :
    ledger.store.collect.1.tracked = ledger.store.heap.liveCount := by
  rw [← Heap.length_livePairs]
  exact sound.registered.perm_livePairs.length_eq.symm

theorem tracked_eq_add (ledger : Ledger) :
    ledger.store.collect.1.tracked =
      ledger.store.collect.1.reachable + ledger.store.collect.1.collected := by
  have split := ledger.candidates.length_eq_countP_add_countP ledger.marked.contains
  have rest : ledger.garbage.length =
      ledger.candidates.countP fun p => ¬ledger.marked.contains p = true := by
    rw [garbage, ← List.countP_eq_length_filter]
    congr 1
    funext p
    simp
  exact split.trans (congrArg _ rest.symm)

theorem trackedCount_collect (sound : ledger.Sound) :
    ledger.store.collect.2.trackedCount = ledger.store.collect.1.reachable := by
  have registry : ledger.store.collect.2.registry.pairs = ledger.candidates :=
    congrArg Registry.pairs (ledger.store.sweep.2.thinned_releaseAll ledger.store.sweep.1.2).2.2
  rw [Store.trackedCount, registry]
  refine List.countP_congr fun p _ => ?_
  rw [sound.isLive_collect_iff, ← sound.contains_marked]
  rfl

theorem trackedCount_eq (sound : ledger.Sound) :
    ledger.store.trackedCount = ledger.store.heap.liveCount :=
  Store.trackedCount_of_covers sound.registered

/-- A collection right after a collection finds nothing. -/
theorem collected_collect (sound : ledger.Sound) :
    ledger.store.collect.2.collect.1.collected = 0 := by
  have none : garbage ⟨ledger.store.collect.2, ledger.outside, ledger.weaks⟩ = [] := by
    refine List.eq_nil_iff_forall_not_mem.2 fun p member => ?_
    obtain ⟨live, unreached⟩ := sound.collect.mem_garbage_iff.1 member
    have reaches := sound.isLive_collect_iff.1 live
    exact unreached (sound.isLive_collect_of_reaches reaches).2
  exact congrArg List.length none

end Sound

end Ledger

end Sexpr
