import Sexpr.Store.Basic

/-!
# Making pairs

New pairs are registered with the collector. The handles on the values that go into a new pair
go over into its slots; the caller gets one handle on the result.

`list` ends in nil. `cons` without `ring` takes the last of several members as the end of the
chain; with `ring` every member becomes a head and the last tail leads back to the first pair.
`grow` puts one new pair after another around a value.
-/

namespace Sexpr

/-- Which slot of a new pair holds the chain so far, when a chain is grown. -/
inductive Growth where
  | throughHead
  | throughTail
  /-- Head and tail in turn, the head first. -/
  | alternating

/-- Whether the chain so far goes into the head of the pair with the given number. -/
def Growth.intoHead (growth : Growth) (index : Nat) : Bool :=
  match growth with
  | throughHead => true
  | throughTail => false
  | alternating => index % 2 == 0

namespace Store

/-- A new pair. -/
def pair (head tail : Value) (store : Store) : PairId × Store :=
  match store with
  | ⟨heap, registry, atoms, counter, trace⟩ =>
    let (p, heap) := heap.allocate head tail
    let registry := registry.track heap.isLive p
    (p, ⟨heap, registry, atoms, counter, trace⟩)

/-- A chain of new pairs with the given heads in front of `last`. -/
def chain (heads : List Value) (last : Value) (store : Store) : Value × Store :=
  heads.foldr (fun head (tail, store) =>
    let (p, store) := store.pair head tail
    (.pair p, store)) (last, store)

/-- A proper list of new pairs. -/
def list (items : List Value) (store : Store) : Value × Store := store.chain items .nil

/-- A chain of new pairs. Without `ring` the last of several members ends it; with `ring` it leads
back to its first pair. No members make nil. -/
def cons (members : List Value) (ring : Bool) (store : Store) : Value × Store :=
  match members with
  | [] => (.nil, store)
  | member :: members =>
    let (first, store) := store.pair member .nil
    let (rest, store) :=
      if ring then (store.retain (.pair first)).chain members (.pair first)
      else store.chain members.dropLast (members.getLast?.getD .nil)
    (.pair first, store.mapHeap (·.write first .tail rest))

/-- Grows a chain by `count` pairs, numbered from `index`. The handle on the value goes over into
the first of them. -/
def grow (growth : Growth) (numbered : Bool) (count index : Nat) (value : Value)
    (store : Store) : Value × Store :=
  match count with
  | 0 => (value, store)
  | count + 1 =>
    let other := if numbered then Value.int index else .nil
    let (p, store) :=
      if growth.intoHead index then store.pair value other else store.pair other value
    store.grow growth numbered count (index + 1) (.pair p)

end Store

end Sexpr
