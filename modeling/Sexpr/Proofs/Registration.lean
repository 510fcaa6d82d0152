import Mathlib.Data.List.Nodup
import Sexpr.Proofs.Heap.Holdings

/-!
# Registered pairs

`Registry.Covers` says that a registry knows every live pair of a heap once: no pair is entered
twice, and only pairs that are dead may be missing. Registration and pruning keep that, although a
shard is not told when a pair dies. The pairs left by a prune are therefore the live pairs in some
order (`Covers.perm_livePairs`), which is what a collection goes by.
-/

namespace Sexpr

namespace Shard

variable {isLive : PairId → Bool} {p : PairId} {shard : Shard}

theorem pairs_prune (isLive : PairId → Bool) (shard : Shard) :
    (shard.prune isLive).pairs.toList = shard.pairs.toList.filter isLive := by
  simp [prune]

/-- Registration appends the new pair to what was there, of which only dead pairs may be lost. -/
theorem pairs_track (isLive : PairId → Bool) (p : PairId) (shard : Shard) :
    ∃ kept, (shard.track isLive p).pairs.toList = kept ++ [p] ∧
      kept.Sublist shard.pairs.toList ∧
      ∀ q ∈ shard.pairs.toList, isLive q = true → q ∈ kept := by
  unfold track
  split
  case h_1 pairs threshold pruned =>
    refine ⟨pairs.toList, by simp, ?_⟩
    split at pruned
    · have same : pairs.toList = shard.pairs.toList.filter isLive := by
        rw [← pairs_prune, pruned]
      rw [same]
      exact ⟨List.filter_sublist, fun q member live => List.mem_filter.2 ⟨member, live⟩⟩
    · rw [pruned]
      exact ⟨List.Sublist.refl _, fun q member _ => member⟩

end Shard

namespace Registry

variable {registry : Registry} {heap later : Heap}

theorem pairs_empty : empty.pairs = [] := rfl

theorem pairs_prune (isLive : PairId → Bool) (registry : Registry) :
    (registry.prune isLive).pairs = registry.pairs.filter isLive := by
  simp only [pairs, prune, Array.toList_map, List.flatMap_map, Shard.pairs_prune,
    List.filter_flatMap]

/-- Registration enters the new pair once and loses none but dead pairs. -/
theorem pairs_track (isLive : PairId → Bool) (p : PairId)
    (sized : registry.shards.size = shardCount) :
    ∃ kept, (registry.track isLive p).pairs.Perm (p :: kept) ∧
      kept.Sublist registry.pairs ∧
      ∀ q ∈ registry.pairs, isLive q = true → q ∈ kept := by
  have small : registry.thread % shardCount < registry.shards.toList.length := by
    rw [Array.length_toList, sized]
    exact Nat.mod_lt _ (by decide)
  set place := registry.thread % shardCount with at_place
  set before := registry.shards.toList.take place
  set behind := registry.shards.toList.drop (place + 1)
  set shard := registry.shards.toList[place]
  have opened : registry.shards.toList = before ++ shard :: behind := by
    rw [← List.drop_eq_getElem_cons small, List.take_append_drop]
  have changed : (registry.track isLive p).shards.toList =
      before ++ shard.track isLive p :: behind := by
    simp only [track, Array.toList_modify, ← at_place]
    rw [List.modify_eq_take_cons_drop small]
  obtain ⟨kept, tracked, fewer, complete⟩ := Shard.pairs_track isLive p shard
  have all : registry.pairs = before.flatMap (·.pairs.toList) ++ (shard.pairs.toList ++
      behind.flatMap (·.pairs.toList)) := by
    rw [pairs, opened, List.flatMap_append, List.flatMap_cons]
  refine ⟨before.flatMap (·.pairs.toList) ++ (kept ++ behind.flatMap (·.pairs.toList)),
    ?_, ?_, ?_⟩
  · rw [pairs, changed, List.flatMap_append, List.flatMap_cons, tracked, List.append_assoc,
      List.singleton_append]
    refine (List.Perm.append_left _ List.perm_middle).trans List.perm_middle
  · rw [all]
    exact (List.Sublist.refl _).append (fewer.append (List.Sublist.refl _))
  · intro q member live
    rw [all, List.mem_append, List.mem_append] at member
    rw [List.mem_append, List.mem_append]
    rcases member with front | own | back
    · exact Or.inl front
    · exact Or.inr (Or.inl (complete q own live))
    · exact Or.inr (Or.inr back)

/-- The registry has every live pair once, and no pair that was never made. -/
structure Covers (registry : Registry) (heap : Heap) : Prop where
  sized : registry.shards.size = shardCount
  nodup : registry.pairs.Nodup
  made : ∀ p ∈ registry.pairs, p.index < heap.size
  complete : ∀ p, heap.isLive p = true → p ∈ registry.pairs

namespace Covers

theorem of_empty : empty.Covers Heap.empty where
  sized := by simp [empty]
  nodup := by simp [pairs_empty]
  made := by simp [pairs_empty]
  complete := by simp [Heap.isLive]

/-- Pairs may die and cells may change without the registry knowing. -/
theorem of_le (covers : registry.Covers heap) (size : heap.size ≤ later.size)
    (live : ∀ p, later.isLive p = true → heap.isLive p = true) : registry.Covers later :=
  { covers with
    made := fun p member => Nat.lt_of_lt_of_le (covers.made p member) size
    complete := fun p alive => covers.complete p (live p alive) }

theorem prune (covers : registry.Covers heap) : (registry.prune heap.isLive).Covers heap := by
  constructor
  · rw [Registry.prune, Array.size_map]
    exact covers.sized
  · rw [pairs_prune]
    exact covers.nodup.filter _
  · intro p member
    rw [pairs_prune] at member
    exact covers.made p (List.mem_of_mem_filter member)
  · intro p live
    rw [pairs_prune]
    exact List.mem_filter.2 ⟨covers.complete p live, live⟩

/-- What a prune leaves are the live pairs. -/
theorem perm_livePairs (covers : registry.Covers heap) :
    heap.livePairs.Perm (registry.prune heap.isLive).pairs := by
  refine Heap.livePairs_perm covers.prune.nodup fun p => ?_
  rw [pairs_prune, List.mem_filter]
  exact and_iff_right_of_imp (covers.complete p)

theorem allocate (covers : registry.Covers heap) (head tail : Value) :
    (registry.track (heap.allocate head tail).2.isLive (heap.allocate head tail).1).Covers
      (heap.allocate head tail).2 := by
  set p := (heap.allocate head tail).1 with made
  set later := (heap.allocate head tail).2
  have size : later.size = heap.size + 1 := Array.size_push ..
  obtain ⟨kept, perm, fewer, complete⟩ := pairs_track later.isLive p covers.sized
  have old : ∀ q ∈ kept, q.index < heap.size := fun q member =>
    covers.made q (fewer.subset member)
  constructor
  · rw [track, Array.size_modify]
    exact covers.sized
  · rw [perm.nodup_iff, List.nodup_cons]
    refine ⟨fun member => ?_, covers.nodup.sublist fewer⟩
    exact Nat.lt_irrefl heap.size (old p member)
  · intro q member
    rw [size]
    rcases List.mem_cons.1 (perm.mem_iff.1 member) with rfl | member
    · exact Nat.lt_succ_self _
    · exact Nat.lt_succ_of_lt (old q member)
  · intro q live
    rw [perm.mem_iff, List.mem_cons]
    by_cases same : p = q
    · exact Or.inl same.symm
    · refine Or.inr (complete q (covers.complete q ?_) live)
      rw [Heap.isLive_allocate, decide_eq_false same, Bool.false_or] at live
      exact live

theorem startThread (covers : registry.Covers heap) : registry.startThread.Covers heap :=
  ⟨covers.sized, covers.nodup, covers.made, covers.complete⟩

theorem resumeThread (covers : registry.Covers heap) (thread : Nat) :
    (registry.resumeThread thread).Covers heap :=
  ⟨covers.sized, covers.nodup, covers.made, covers.complete⟩

end Covers

end Registry

end Sexpr
