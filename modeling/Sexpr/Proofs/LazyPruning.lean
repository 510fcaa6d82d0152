import Sexpr.Proofs.Store.Runs

/-!
# The registry is pruned seldom, and in time

A shard of the registry learns that its pairs have died only when it is pruned. `PrunesLazily` says
that nobody can tell: every live pair is entered once, in one shard, so the pairs that are counted
or looked at by a collection are the live ones. It also says what the delay costs. A shard is never
longer than its threshold, the threshold follows from what the last prune left, and a registration
prunes only after as many others as make up for it.

What has become of a shard is kept in a `Shard.Past`: how many pairs its last prune left, and how
many were registered since. `ShardRun` is a run of operations with the past of one shard. The
invariant is `Shard.Paced`: the shard holds what the last prune left and what was registered since,
and its threshold leaves room for as much again.
-/

namespace Sexpr

/-! ## One shard -/

namespace Shard

/-- What has happened to a shard since its last prune, or since the start. -/
structure Past where
  /-- The pairs that the last prune left; none before the first. -/
  left : Nat
  /-- The pairs that were registered since then. -/
  entered : Nat

/-- The next registration prunes the shard first. -/
def IsFull (shard : Shard) : Prop := shard.threshold ≤ shard.pairs.size

instance (shard : Shard) : Decidable shard.IsFull := inferInstanceAs (Decidable (_ ≤ _))

namespace Past

/-- Nothing has happened. -/
def start : Past := ⟨0, 0⟩

/-- The shard is pruned of its dead pairs. -/
def prune (isLive : PairId → Bool) (shard : Shard) : Past := ⟨shard.pairs.countP isLive, 0⟩

/-- One pair is registered, in a shard that may have to be pruned first. -/
def track (isLive : PairId → Bool) (shard : Shard) (past : Past) : Past :=
  let before := if shard.IsFull then prune isLive shard else past
  ⟨before.left, before.entered + 1⟩

end Past

variable {isLive : PairId → Bool} {shard : Shard} {past : Past} {p : PairId}

theorem track_of_full (full : shard.IsFull) : shard.track isLive p =
    ⟨(shard.prune isLive).pairs.push p, (shard.prune isLive).threshold⟩ := by
  unfold IsFull at full
  simp only [track, full, if_true]

theorem track_of_not_full (room : ¬shard.IsFull) :
    shard.track isLive p = ⟨shard.pairs.push p, shard.threshold⟩ := by
  unfold IsFull at room
  simp only [track, room, if_false]

/-- The shard holds what its last prune left and what was registered since, and its threshold is as
that prune has set it. -/
structure Paced (shard : Shard) (past : Past) : Prop where
  size : shard.pairs.size = past.left + past.entered
  threshold : shard.threshold = max minThreshold (2 * past.left)
  bounded : shard.pairs.size ≤ shard.threshold

namespace Paced

theorem of_empty : empty.Paced .start where
  size := rfl
  threshold := rfl
  bounded := Nat.zero_le _

theorem prune (isLive : PairId → Bool) (shard : Shard) :
    (shard.prune isLive).Paced (.prune isLive shard) := by
  have kept : (shard.prune isLive).pairs.size = shard.pairs.countP isLive :=
    (Array.countP_eq_size_filter ..).symm
  have next : (shard.prune isLive).threshold =
      max (2 * (shard.prune isLive).pairs.size) minThreshold := rfl
  rw [kept, Nat.max_comm] at next
  refine ⟨kept, next, ?_⟩
  rw [kept, next]
  omega

/-- A prune leaves room for another pair. -/
theorem not_isFull_prune (isLive : PairId → Bool) (shard : Shard) :
    ¬(shard.prune isLive).IsFull := by
  have size : (shard.prune isLive).pairs.size = shard.pairs.countP isLive :=
    (prune isLive shard).size
  have threshold : (shard.prune isLive).threshold = max 1024 (2 * shard.pairs.countP isLive) :=
    (prune isLive shard).threshold
  unfold IsFull
  omega

/-- One pair more in a shard that has room. -/
theorem push (paced : shard.Paced past) (room : ¬shard.IsFull) (p : PairId) :
    Paced ⟨shard.pairs.push p, shard.threshold⟩ ⟨past.left, past.entered + 1⟩ where
  size := by
    rw [Array.size_push, paced.size, Nat.add_assoc]
  threshold := paced.threshold
  bounded := by
    rw [Array.size_push]
    exact Nat.lt_of_not_le room

theorem track (paced : shard.Paced past) (isLive : PairId → Bool) (p : PairId) :
    (shard.track isLive p).Paced (past.track isLive shard) := by
  unfold Past.track
  by_cases full : shard.IsFull
  · rw [track_of_full full, if_pos full]
    exact (prune isLive shard).push (not_isFull_prune isLive shard) p
  · rw [track_of_not_full full, if_neg full]
    exact paced.push full p

/-- A shard does not fill up before as many registrations as the last prune left pairs, and not
before half of the least threshold. -/
theorem le_entered (paced : shard.Paced past) (full : shard.IsFull) :
    max 512 past.left ≤ past.entered := by
  have size := paced.size
  have threshold := paced.threshold
  unfold IsFull at full
  unfold minThreshold at threshold
  omega

end Paced

end Shard

/-! ## All shards -/

namespace Registry

variable {registry : Registry} {heap : Heap} {p : PairId}

/-- How many entries a pair has in the shard at the given place. -/
def entriesAt (registry : Registry) (place : Nat) (p : PairId) : Nat :=
  match registry.shards[place]? with
  | some shard => shard.pairs.count p
  | none => 0

/-- A pair that is entered in two shards has two entries. -/
theorem Covers.place_unique {place other : Nat} {shard shard' : Shard}
    (covers : registry.Covers heap) (found : registry.shards[place]? = some shard)
    (found' : registry.shards[other]? = some shard') (entered : p ∈ shard.pairs)
    (entered' : p ∈ shard'.pairs) : other = place := by
  have apart := (List.nodup_flatMap.1 covers.nodup).2
  rw [List.pairwise_iff_getElem] at apart
  rw [← Array.getElem?_toList] at found found'
  obtain ⟨small, rfl⟩ := List.getElem?_eq_some_iff.1 found
  obtain ⟨small', rfl⟩ := List.getElem?_eq_some_iff.1 found'
  rw [← Array.mem_toList_iff] at entered entered'
  rcases Nat.lt_trichotomy other place with before | same | behind
  · exact absurd entered (apart other place small' small before entered')
  · exact same
  · exact absurd entered' (apart place other small small' behind entered)

/-- A live pair is entered once, in one shard. -/
theorem Covers.exists_entriesAt (covers : registry.Covers heap) (live : heap.isLive p = true) :
    ∃ place, ∀ other, registry.entriesAt other p = if other = place then 1 else 0 := by
  obtain ⟨shard, among, entered⟩ := List.mem_flatMap.1 (covers.complete p live)
  have single := (List.nodup_flatMap.1 covers.nodup).1 shard among
  obtain ⟨place, found⟩ := List.mem_iff_getElem?.1 among
  rw [Array.getElem?_toList] at found
  refine ⟨place, fun other => ?_⟩
  unfold entriesAt
  by_cases same : other = place
  · rw [if_pos same, same, found]
    exact Array.count_toList.symm.trans (List.count_eq_one_of_mem single entered)
  · rw [if_neg same]
    cases found' : registry.shards[other]? with
    | none => rfl
    | some shard' =>
      refine Array.count_eq_zero.2 fun entered' => same ?_
      exact covers.place_unique found found' (Array.mem_toList_iff.1 entered) entered'

end Registry

namespace Store

variable (store : Store)

theorem registry_retain (value : Value) : (store.retain value).registry = store.registry := by
  cases value with
  | pair p => rfl
  | scalar s => cases s <;> rfl

theorem registry_release (value : Value) : (store.release value).registry = store.registry :=
  (store.thinned_releaseAll [value]).2.2

theorem registry_collect :
    store.collect.2.registry = store.registry.prune store.heap.isLive :=
  (store.sweep.2.thinned_releaseAll store.sweep.1.2).2.2

end Store

/-! ## Runs -/

namespace Ledger

variable {ledger later : Ledger} {past : Shard.Past} {place : Nat} {shard : Shard}

/-- The operation is a collection. -/
def Collects (ledger later : Ledger) : Prop :=
  later = ⟨ledger.store.collect.2, ledger.outside, ledger.weaks⟩

/-- One operation on a store, with what it does to the past of the shard at the given place. -/
inductive ShardStep (place : Nat) : Ledger → Shard.Past → Ledger → Shard.Past → Prop
  /-- A pair is made on a thread that registers in the shard. -/
  | register {store : Store} {outside : List Value} {weaks : List Weak} {head tail : Value}
      {shard : Shard} {past : Shard.Past} :
    store.registry.thread % Registry.shardCount = place →
    store.registry.shards[place]? = some shard →
    ShardStep place ⟨store, head :: tail :: outside, weaks⟩ past
      ⟨(store.pair head tail).2, .pair (store.pair head tail).1 :: outside, weaks⟩
      (past.track (store.pair head tail).2.heap.isLive shard)
  /-- A collection prunes every shard. -/
  | collect {store : Store} {outside : List Value} {weaks : List Weak} {shard : Shard}
      {past : Shard.Past} :
    store.registry.shards[place]? = some shard →
    ShardStep place ⟨store, outside, weaks⟩ past ⟨store.collect.2, outside, weaks⟩
      (.prune store.heap.isLive shard)
  /-- No other operation touches the shard. -/
  | other {ledger later : Ledger} {past : Shard.Past} :
    Step ledger later → ¬Collects ledger later →
    later.store.registry.shards[place]? = ledger.store.registry.shards[place]? →
    ShardStep place ledger past later past

/-- A run of operations on an empty store, with the past of the shard at the given place. -/
inductive ShardRun (place : Nat) : Ledger → Shard.Past → Prop
  | start : ShardRun place .empty .start
  | next {ledger later : Ledger} {past past' : Shard.Past} :
    ShardRun place ledger past → ShardStep place ledger past later past' →
    ShardRun place later past'

/-- The shards change only when a pair is made and when they are pruned by a collection. -/
theorem Step.shards_cases (step : Step ledger later) (sound : ledger.Sound) :
    (∃ store head tail outside weaks, ledger = ⟨store, head :: tail :: outside, weaks⟩ ∧
      later = ⟨(store.pair head tail).2, .pair (store.pair head tail).1 :: outside, weaks⟩) ∨
    Collects ledger later ∨
    later.store.registry.shards = ledger.store.registry.shards := by
  cases step with
  | @pair store outside weaks head tail =>
    exact Or.inl ⟨store, head, tail, outside, weaks, rfl, rfl⟩
  | collect => exact Or.inr (Or.inl rfl)
  | copy | upgrade | read =>
    exact Or.inr (Or.inr (congrArg Registry.shards (Store.registry_retain ..)))
  | release | write =>
    exact Or.inr (Or.inr (congrArg Registry.shards (Store.registry_release ..)))
  | fresh done =>
    obtain ⟨count, finds⟩ := sound.finds_of_drawFresh done
    exact Or.inr (Or.inr (congrArg Registry.shards finds.registry))
  | regroup | literal | weaken | assignPosition | fillPosition | intern | startThread
  | resumeThread => exact Or.inr (Or.inr rfl)

/-- Every operation does something to the past of every shard, if only nothing. -/
theorem Step.shardStep (step : Step ledger later) (sound : ledger.Sound)
    (found : ledger.store.registry.shards[place]? = some shard) (past : Shard.Past) :
    ∃ past', ShardStep place ledger past later past' := by
  by_cases collects : Collects ledger later
  · rw [collects]
    exact ⟨_, .collect found⟩
  · rcases step.shards_cases sound with ⟨store, head, tail, outside, weaks, rfl, rfl⟩ | again | same
    · by_cases here : store.registry.thread % Registry.shardCount = place
      · exact ⟨_, .register here found⟩
      · refine ⟨past, .other step collects ?_⟩
        exact (Array.getElem?_modify ..).trans (if_neg here)
    · exact absurd again collects
    · exact ⟨past, .other step collects (by rw [same])⟩

/-- Every run gives each of its shards a past. -/
theorem Reached.exists_shardRun (reached : Reached ledger) (small : place < Registry.shardCount) :
    ∃ past, ShardRun place ledger past := by
  induction reached with
  | refl => exact ⟨_, .start⟩
  | tail before step ih =>
    obtain ⟨past, run⟩ := ih
    have sound := Reached.sound before
    rw [← sound.registered.sized] at small
    obtain ⟨past', change⟩ := step.shardStep sound (Array.getElem?_eq_getElem small) past
    exact ⟨past', run.next change⟩

/-- What one operation does to a shard, its past keeps pace with. -/
theorem ShardStep.paced {past' : Shard.Past} (change : ShardStep place ledger past later past')
    (found : ledger.store.registry.shards[place]? = some shard) (paced : shard.Paced past) :
    ∃ shard', later.store.registry.shards[place]? = some shard' ∧ shard'.Paced past' := by
  cases change with
  | @register store outside weaks head tail _ _ here known =>
    cases Option.some.inj (known.symm.trans found)
    refine ⟨shard.track (store.pair head tail).2.heap.isLive (store.pair head tail).1, ?_,
      paced.track ..⟩
    refine (Array.getElem?_modify ..).trans ?_
    rw [if_pos here]
    exact congrArg (Option.map _) found
  | @collect store outside weaks _ _ known =>
    cases Option.some.inj (known.symm.trans found)
    refine ⟨shard.prune store.heap.isLive, ?_, .prune ..⟩
    rw [Store.registry_collect, Registry.prune, Array.getElem?_map, known]
    rfl
  | other _ _ same => exact ⟨shard, same.trans found, paced⟩

theorem ShardRun.paced (run : ShardRun place ledger past) (small : place < Registry.shardCount) :
    ∃ shard, ledger.store.registry.shards[place]? = some shard ∧ shard.Paced past := by
  induction run with
  | start =>
    refine ⟨.empty, ?_, .of_empty⟩
    exact Array.getElem?_replicate.trans (if_pos small)
  | next _ change ih =>
    obtain ⟨shard, found, paced⟩ := ih
    exact change.paced found paced

/-- Dead pairs that are still registered show nowhere, and are neither too many nor looked for too
often. -/
structure PrunesLazily (ledger : Ledger) : Prop where
  /-- Every live pair has one entry, in one shard. -/
  once : ∀ p, ledger.store.heap.isLive p = true → ∃ place, ∀ other,
    ledger.store.registry.entriesAt other p = if other = place then 1 else 0
  counts : ledger.store.trackedCount = ledger.store.heap.liveCount
  /-- A collection looks at every live pair once, and at nothing else. -/
  examines : ledger.store.collect.1.tracked = ledger.candidates.length ∧ ledger.candidates.Nodup ∧
    ∀ p, p ∈ ledger.candidates ↔ ledger.store.heap.isLive p = true
  /-- No shard is longer than its threshold, which is twice what the last prune left, and a shard
  becomes full only after so many registrations since then. -/
  paces : ∀ place shard, ledger.store.registry.shards[place]? = some shard →
    (∃ past, ShardRun place ledger past) ∧ ∀ past, ShardRun place ledger past →
      shard.pairs.size ≤ shard.threshold ∧ shard.threshold = max 1024 (2 * past.left) ∧
      (shard.IsFull → max 512 past.left ≤ past.entered)

/-- In every run, whatever threads make pairs and whenever pairs die, the registry is pruned seldom
and in time. -/
theorem Reached.prunesLazily (reached : Reached ledger) : ledger.PrunesLazily := by
  have sound := reached.sound
  refine ⟨fun p live => sound.registered.exists_entriesAt live, sound.trackedCount_eq,
    ⟨rfl, sound.registered.prune.nodup, fun p => sound.mem_candidates_iff⟩, ?_⟩
  intro place shard found
  have small : place < Registry.shardCount := by
    rw [← sound.registered.sized]
    exact (Array.getElem?_eq_some_iff.1 found).1
  refine ⟨reached.exists_shardRun small, fun past run => ?_⟩
  obtain ⟨shard', found', paced⟩ := run.paced small
  cases Option.some.inj (found'.symm.trans found)
  exact ⟨paced.bounded, paced.threshold, paced.le_entered⟩

/-- One pair is made and held; on another thread a second pair is made and given up. It is still
registered, but it is not counted, and a collection leaves only the first. -/
theorem prunesLazily_of_threads :
    let kept := Store.empty.pair (.int 1) .nil
    let lost := (kept.2.mapRegistry Registry.startThread).pair (.int 2) .nil
    let store := lost.2.release (.pair lost.1)
    Reached ⟨store, [.pair kept.1], []⟩ ∧ PrunesLazily ⟨store, [.pair kept.1], []⟩ ∧
      store.registry.entriesAt 0 kept.1 = 1 ∧ store.registry.entriesAt 1 lost.1 = 1 ∧
      store.trackedCount = 1 ∧ store.collect.2.registry.pairs = [kept.1] := by
  intro kept lost store
  have first : Reached ⟨kept.2, [.pair kept.1], []⟩ :=
    ((Reached.step .refl (.literal .nil)).step (.literal (.int 1))).step .pair
  have ready : Reached ⟨kept.2.mapRegistry Registry.startThread,
      [.int 2, .nil, .pair kept.1], []⟩ :=
    ((first.step .startThread).step (.literal .nil)).step (.literal (.int 2))
  have second : Reached ⟨lost.2, [.pair lost.1, .pair kept.1], []⟩ := ready.step .pair
  have reached : Reached ⟨store, [.pair kept.1], []⟩ := second.step .release
  refine ⟨reached, reached.prunesLazily, ?_, ?_, ?_, ?_⟩ <;> decide +kernel

end Ledger

end Sexpr
