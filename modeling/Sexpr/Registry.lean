import Sexpr.Value

/-!
# Registry of pairs

The collector learns of pairs through a registry. It has sixteen shards, so that threads at work
side by side need not wait for each other; a new pair is entered in the shard of the thread that
makes it. A shard is not told when a pair dies. It is pruned of dead pairs when it has grown to
its threshold, and by every collection; the threshold is then twice the number of pairs left, but
never below a minimum.
-/

namespace Sexpr

/-- The registered pairs of one thread or several. -/
structure Shard where
  pairs : Array PairId
  /-- The size at which the next registration prunes first. -/
  threshold : Nat

namespace Shard

/-- The least threshold. -/
def minThreshold : Nat := 1024

/-- The shard before any registration. -/
def empty : Shard := ⟨#[], minThreshold⟩

/-- The shard without its dead pairs. -/
def prune (isLive : PairId → Bool) (shard : Shard) : Shard :=
  let pairs := shard.pairs.filter isLive
  ⟨pairs, max (2 * pairs.size) minThreshold⟩

/-- The shard with a new pair, pruned first if it has reached its threshold. -/
def track (isLive : PairId → Bool) (p : PairId) (shard : Shard) : Shard :=
  match if shard.threshold ≤ shard.pairs.size then shard.prune isLive else shard with
  | ⟨pairs, threshold⟩ => ⟨pairs.push p, threshold⟩

end Shard

/-- All registered pairs, and the shard that new pairs are entered in. -/
structure Registry where
  shards : Array Shard
  /-- The thread at work; threads are numbered in the order in which they start. -/
  thread : Nat
  /-- The number of threads that were started. -/
  threads : Nat

namespace Registry

/-- The number of shards. -/
def shardCount : Nat := 16

/-- The registry before any registration, with one thread at work. -/
def empty : Registry := ⟨Array.replicate shardCount .empty, 0, 1⟩

/-- Enters a new pair in the shard of the thread at work. -/
def track (isLive : PairId → Bool) (p : PairId) (registry : Registry) : Registry :=
  match registry with
  | ⟨shards, thread, threads⟩ =>
    ⟨shards.modify (thread % shardCount) (Shard.track isLive p), thread, threads⟩

/-- The registry without dead pairs. -/
def prune (isLive : PairId → Bool) (registry : Registry) : Registry :=
  { registry with shards := registry.shards.map (Shard.prune isLive) }

/-- All registered pairs, shard by shard. -/
def pairs (registry : Registry) : List PairId :=
  registry.shards.toList.flatMap fun shard => shard.pairs.toList

/-- A new thread goes to work, with the next shard. -/
def startThread (registry : Registry) : Registry :=
  { registry with thread := registry.threads, threads := registry.threads + 1 }

/-- The given thread goes back to work. -/
def resumeThread (thread : Nat) (registry : Registry) : Registry := { registry with thread }

end Registry

end Sexpr
