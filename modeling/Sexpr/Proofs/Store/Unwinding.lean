import Sexpr.Proofs.FreshNames
import Sexpr.Proofs.Store.Records

/-!
# Giving up handles in any order

When the last handle on a pair goes, the handles in its two slots are to be given up as well. A
`Teardown` is such a process under way: the store, the values whose handles are still pending, and
the pairs that have died. `Teardown.Step` gives up one pending handle, whichever it is, so that a run
of steps is a way to take sub-releases in some order. `Store.Unwinds` is the plain recursive rule,
one of these ways (`Store.Unwinds.run`). The loop of `Store.release` follows the recursive rule too,
with one slot of each pair or the other first (`Store.Balanced.exists_unwinds`).

`Teardown.Since` is what all ways keep. The counts stay exact, survivors hold what they held, and a
pair dies only if nothing that is left holds it (`Heap.Falls`). Once nothing is pending, exact counts
leave no choice: two stores with the same live pairs, thinned out from one store, have the same
handles on every pair and the same table of atoms (`Teardown.Since.store_eq`). So no diamond has to
be closed to see that all ways end in one state.
-/

namespace Sexpr

/-! ## What exact counts determine -/

namespace Heap

variable {heap first second : Heap} {outside : List Value}

/-- Two heaps that were thinned out from one heap and have the same live pairs have the same slots. -/
theorem Thinned.slotValues_perm (thinned : heap.Thinned first) (thinned' : heap.Thinned second)
    (live : ∀ p, second.isLive p = first.isLive p) : first.slotValues.Perm second.slotValues := by
  apply slotValues_perm_of_agree live
  intro p
  unfold slotsOf
  cases alive : first.isLive p with
  | false =>
    have dead := (live p).trans alive
    simp only [read_of_not_isLive alive, read_of_not_isLive dead]
  | true =>
    have alive' := (live p).trans alive
    simp only [thinned.read alive, thinned'.read alive']

/-- If moreover their handles are counted, they are the same heap. -/
theorem Thinned.eq_of_counted (thinned : heap.Thinned first) (thinned' : heap.Thinned second)
    (live : ∀ p, second.isLive p = first.isLive p) (size : first.size = second.size)
    (counted : first.Counted (outside ++ first.slotValues))
    (counted' : second.Counted (outside ++ second.slotValues)) : first = second := by
  have slots := (thinned.slotValues_perm thinned' live).append_left outside
  have handles : ∀ p, first.handlesOf p = second.handlesOf p := by
    intro p
    rw [counted.exact, counted'.exact, slots.count_eq]
  apply ext_get? size
  intro p
  cases alive : first.isLive p with
  | false =>
    have dead := (live p).trans alive
    rw [isLive_eq_false_iff.1 alive, isLive_eq_false_iff.1 dead]
  | true =>
    obtain ⟨cell, found⟩ := isLive_eq_true_iff.1 alive
    obtain ⟨cell', found'⟩ := isLive_eq_true_iff.1 ((live p).trans alive)
    obtain ⟨before, stood, head, tail, position⟩ := thinned p cell found
    obtain ⟨before', stood', head', tail', position'⟩ := thinned' p cell' found'
    cases Option.some.inj (stood.symm.trans stood')
    have counts := handles p
    rw [handlesOf_of_get? found, handlesOf_of_get? found'] at counts
    rw [found, found']
    obtain ⟨⟩ := cell
    obtain ⟨⟩ := cell'
    simp_all

end Heap

namespace AtomTable

variable {table other : AtomTable} {holdings : List Value} {known known' : List Atom} {a : Atom}

theorem Exact.filed?_eq_some_iff (exact : table.Exact holdings known) {kind : AtomKind}
    {name : String} : table.filed? kind name = some a ↔
      .atom a ∈ holdings ∧ a.kind = kind ∧ a.name = name := by
  constructor
  · exact exact.keyed kind name a
  · intro held
    obtain ⟨held, rfl, rfl⟩ := held
    exact exact.filed a held

theorem Exact.filed?_eq (exact : table.Exact holdings known) (exact' : other.Exact holdings known')
    (kind : AtomKind) (name : String) : table.filed? kind name = other.filed? kind name := by
  apply Option.ext
  intro a
  rw [exact.filed?_eq_some_iff, exact'.filed?_eq_some_iff]

theorem Exact.holdersAt_eq (exact : table.Exact holdings known)
    (exact' : other.Exact holdings known') (id : Nat) : table.holdersAt id = other.holdersAt id := by
  by_cases held : ∃ a, .atom a ∈ holdings ∧ a.id = id
  · obtain ⟨a, held, rfl⟩ := held
    rw [exact.counted a held, exact'.counted a held]
  · have none : ¬0 < table.holdersAt id := mt (exact.spent id) held
    have none' : ¬0 < other.holdersAt id := mt (exact'.spent id) held
    omega

/-- What is held anywhere determines the table, up to the number of atoms that were ever made. -/
theorem Exact.eq_of_size_eq (exact : table.Exact holdings known)
    (exact' : other.Exact holdings known') (size : table.holders.size = other.holders.size) :
    table = other := by
  have filed := exact.filed?_eq exact'
  have counts := exact.holdersAt_eq exact'
  obtain ⟨holders, symbols, keywords⟩ := table
  obtain ⟨holders', symbols', keywords'⟩ := other
  congr 1
  · apply Array.ext size
    intro id small small'
    simpa [holdersAt, small, small'] using counts id
  · exact Std.ExtTreeMap.ext_getElem? (filed .symbol)
  · exact Std.ExtTreeMap.ext_getElem? (filed .keyword)

@[simp] theorem size_holders_release (a : Atom) :
    (table.release a).2.holders.size = table.holders.size := by
  simp only [release, finalize]
  repeat' split
  all_goals simp

end AtomTable

namespace Store

@[simp] theorem size_holders_drop (value : Value) (store : Store) :
    (store.drop value).2.atoms.holders.size = store.atoms.holders.size := by
  cases value with
  | scalar s =>
    cases s with
    | atom a => exact AtomTable.size_holders_release a
    | _ => rfl
  | pair p => rw [drop_pair, atoms_mapHeap]

theorem drop_plain {s : Scalar} (other : (Value.scalar s).atom? = none) (store : Store) :
    store.drop (.scalar s) = ([], store) := by
  cases s with
  | atom a => cases other
  | _ => rfl

/-- Evictions that lead from one table to one table are the same, up to their order. -/
theorem Sheds.perm {store first second : Store} {more others : List Event}
    (sheds : store.Sheds more first) (sheds' : store.Sheds others second)
    (atoms : first.atoms = second.atoms) : more.Perm others := by
  rw [List.perm_iff_count]
  have same : ∀ kind name, Event.turns kind name more = Event.turns kind name others := by
    intro kind name
    have entries := sheds.entries kind name
    have entries' := sheds'.entries kind name
    rw [atoms] at entries
    rcases entries with ⟨none, kept⟩ | ⟨one, filed, removed⟩ <;>
      rcases entries' with ⟨none', kept'⟩ | ⟨one', filed', removed'⟩
    · rw [none, none']
    · rw [← kept, removed'] at filed'
      cases filed'
    · rw [← kept', removed] at filed
      cases filed
    · rw [one, one']
  intro event
  by_cases eviction : event.isEviction = true
  · cases event with
    | evicted kind name => rw [Event.count_evicted, Event.count_evicted, same]
    | _ => cases eviction
  · rw [List.count_eq_zero.2 fun member => eviction (sheds.evictions event member),
      List.count_eq_zero.2 fun member => eviction (sheds'.evictions event member)]

end Store

/-! ## One handle after the other -/

/-- Handles that are being given up. -/
structure Teardown where
  store : Store
  /-- The values whose handles are still to be given up. -/
  pending : List Value
  /-- The pairs that have died, in the order of their deaths. -/
  freed : List PairId

namespace Teardown

/-- One pending handle is given up, whichever it is. A pair that loses its last handle dies, and the
values in its slots are pending from then on. -/
inductive Step : Teardown → Teardown → Prop
  | plain {store : Store} {pending rest : List Value} {freed : List PairId} {s : Scalar} :
    pending.Perm (.scalar s :: rest) → (Value.scalar s).atom? = none →
    Step ⟨store, pending, freed⟩ ⟨store, rest, freed⟩
  | atom {store : Store} {pending rest : List Value} {freed : List PairId} {a : Atom} :
    pending.Perm (.atom a :: rest) →
    Step ⟨store, pending, freed⟩ ⟨store.releaseAtom a, rest, freed⟩
  | shared {store : Store} {pending rest : List Value} {freed : List PairId} {p : PairId}
      {cell : Cell} :
    pending.Perm (.pair p :: rest) → store.heap.get? p = some cell → 1 < cell.handles →
    Step ⟨store, pending, freed⟩
      ⟨store.mapHeap (·.modify p fun cell => { cell with handles := cell.handles - 1 }), rest,
        freed⟩
  | last {store : Store} {pending rest : List Value} {freed : List PairId} {p : PairId}
      {cell : Cell} :
    pending.Perm (.pair p :: rest) → store.heap.get? p = some cell → cell.handles = 1 →
    Step ⟨store, pending, freed⟩
      ⟨store.mapHeap (·.free p), cell.head :: cell.tail :: rest, freed ++ [p]⟩

/-- Any number of handles are given up, in some order. -/
def Run : Teardown → Teardown → Prop := Relation.ReflTransGen Step

variable {now next : Teardown} {start : Store} {outside work : List Value} {known : List Atom}

/-- Whichever handle is chosen, it is dropped. -/
theorem Step.exists_drop (step : Step now next) : ∃ value rest,
    now.pending.Perm (value :: rest) ∧ next.store = (now.store.drop value).2 ∧
      next.pending = (now.store.drop value).1 ++ rest := by
  cases step with
  | @plain store pending rest freed s chosen other =>
    have kept := Store.drop_plain other store
    exact ⟨.scalar s, rest, chosen, by rw [kept], by rw [kept]; rfl⟩
  | @atom store pending rest freed a chosen => exact ⟨.atom a, rest, chosen, rfl, rfl⟩
  | @shared store pending rest freed p cell chosen found shared =>
    have dropped := Store.drop_shared found (Nat.not_le.2 shared)
    exact ⟨.pair p, rest, chosen, by rw [dropped], by rw [dropped]; rfl⟩
  | @last store pending rest freed p cell chosen found last =>
    have dropped := Store.drop_last found (Nat.le_of_eq last)
    exact ⟨.pair p, rest, chosen, by rw [dropped], by rw [dropped]; rfl⟩

/-- A step kills nothing, or a pair that has its last handle pending. -/
theorem Step.deaths (step : Step now next) :
    (next.freed = now.freed ∧ ∀ q, next.store.heap.isLive q = now.store.heap.isLive q) ∨
      ∃ p cell rest, now.pending.Perm (.pair p :: rest) ∧ now.store.heap.get? p = some cell ∧
        cell.handles = 1 ∧ next.freed = now.freed ++ [p] ∧
        ∀ q, next.store.heap.isLive q = (decide (p ≠ q) && now.store.heap.isLive q) := by
  cases step with
  | plain | atom => exact Or.inl ⟨rfl, fun _ => rfl⟩
  | shared => exact Or.inl ⟨rfl, fun q => Heap.isLive_modify ..⟩
  | last chosen found last =>
    exact Or.inr ⟨_, _, _, chosen, found, last, rfl, Heap.isLive_free _ _⟩

/-! ## Every order comes to an end -/

/-- Each step gives up a handle; the death of a pair brings two more but takes the pair. -/
theorem Step.measure_lt (step : Step now next) :
    next.pending.length + 2 * next.store.heap.liveCount <
      now.pending.length + 2 * now.store.heap.liveCount := by
  obtain ⟨value, rest, chosen, store, pending⟩ := step.exists_drop
  have measure := Store.drop_measure value now.store
  rw [store, pending, chosen.length_eq, List.length_append, List.length_cons]
  omega

theorem acc_step (now : Teardown) : Acc (fun next now => Step now next) now := by
  have ends : WellFounded fun next now : Teardown => Step now next :=
    Subrelation.wf (fun step => step.measure_lt)
      (measure fun now : Teardown => now.pending.length + 2 * now.store.heap.liveCount).wf
  exact ends.apply now

/-- As long as handles are counted, nothing that is pending blocks the way. -/
theorem exists_step (balanced : now.store.Balanced (now.pending ++ outside) known)
    (left : now.pending ≠ []) : ∃ next, Step now next := by
  obtain ⟨store, pending, freed⟩ := now
  cases pending with
  | nil => exact absurd rfl left
  | cons value rest =>
    cases value with
    | scalar s =>
      cases s with
      | atom a => exact ⟨_, .atom (.refl _)⟩
      | _ => exact ⟨_, .plain (.refl _) rfl⟩
    | pair p =>
      have held : .pair p ∈ .pair p :: rest ++ outside ++ store.heap.slotValues := by simp
      obtain ⟨cell, found, counted⟩ := balanced.pairs.get?_of_mem held
      have positive : 0 < cell.handles := by
        rw [counted]
        exact List.count_pos_iff.2 held
      rcases Nat.lt_or_ge 1 cell.handles with shared | last
      · exact ⟨_, .shared (.refl _) found shared⟩
      · exact ⟨_, .last (.refl _) found (by omega)⟩

end Teardown

/-! ## What every order keeps -/

/-- The pair is held by nobody once `outside` is all that is held outside the heap: all slots that
hold it belong to pairs that are held by nobody either. -/
inductive Heap.Falls (heap : Heap) (outside : List Value) : PairId → Prop
  | intro {q : PairId} : heap.isLive q = true → .pair q ∉ outside →
    (∀ r slot, heap.read r slot = .pair q → Falls heap outside r) → Falls heap outside q

namespace Teardown

/-- What is true at any time after handles on top of `outside` began to be given up. -/
structure Since (start : Store) (outside : List Value) (known : List Atom) (now : Teardown) :
    Prop where
  balanced : now.store.Balanced (now.pending ++ outside) known
  thinned : start.heap.Thinned now.store.heap
  size : now.store.heap.size = start.heap.size
  holders : now.store.atoms.holders.size = start.atoms.holders.size
  registry : now.store.registry = start.registry
  counter : now.store.counter = start.counter
  sheds : ∃ more, start.Sheds more now.store
  nodup : now.freed.Nodup
  freed : ∀ q, q ∈ now.freed ↔
    start.heap.isLive q = true ∧ now.store.heap.isLive q = false
  falls : ∀ q ∈ now.freed, start.heap.Falls outside q

namespace Since

variable {now next : Teardown} {start : Store} {outside work rest : List Value} {known : List Atom}
  {p : PairId} {cell : Cell}

theorem of_start (balanced : start.Balanced (work ++ outside) known) :
    Since start outside known ⟨start, work, []⟩ where
  balanced := balanced
  thinned := .refl _
  size := rfl
  holders := rfl
  registry := rfl
  counter := rfl
  sheds := ⟨[], .of_eq rfl rfl⟩
  nodup := List.nodup_nil
  freed := by
    intro q
    cases start.heap.isLive q <;> simp
  falls := by
    intro q member
    cases member

/-- A pair whose last handle is pending is held by nobody else, and the pairs that held it are
dead. -/
theorem falls_last (since : Since start outside known now)
    (chosen : now.pending.Perm (.pair p :: rest)) (found : now.store.heap.get? p = some cell)
    (last : cell.handles = 1) : start.heap.Falls outside p := by
  have counted : now.store.heap.Counted (.pair p :: (rest ++ outside ++
      now.store.heap.slotValues)) :=
    since.balanced.pairs.perm ((chosen.append_right outside).append_right _)
  have handles := counted.handlesOf_cons p
  rw [Heap.handlesOf_of_get? found, last, if_pos rfl] at handles
  have absent : .pair p ∉ rest ++ outside ++ now.store.heap.slotValues :=
    List.count_eq_zero.1 (by omega)
  have live : now.store.heap.isLive p = true := Heap.isLive_eq_true_iff.2 ⟨cell, found⟩
  refine .intro (since.thinned.isLive live) ?_ ?_
  · intro held
    exact absent (List.mem_append_left _ (List.mem_append_right _ held))
  · intro r slot read
    apply since.falls
    rw [since.freed]
    refine ⟨Heap.Child.isLive ⟨slot, read⟩, Bool.eq_false_iff.2 fun alive => absent ?_⟩
    rw [← since.thinned.read alive] at read
    exact List.mem_append_right _ (Heap.mem_slotValues.2 ⟨r, slot, alive, read⟩)

/-- The pairs that have died are the live ones that are missing, each of them once. -/
theorem deaths (since : Since start outside known now) (step : Step now next) :
    next.freed.Nodup ∧
      (∀ q, q ∈ next.freed ↔ start.heap.isLive q = true ∧ next.store.heap.isLive q = false) ∧
      ∀ q ∈ next.freed, start.heap.Falls outside q := by
  rcases step.deaths with ⟨freed, live⟩ | ⟨p, cell, rest, chosen, found, last, freed, live⟩
  · rw [freed]
    refine ⟨since.nodup, fun q => ?_, since.falls⟩
    rw [live, since.freed]
  · have alive : now.store.heap.isLive p = true := Heap.isLive_eq_true_iff.2 ⟨cell, found⟩
    have new : p ∉ now.freed := by
      rw [since.freed, alive]
      simp
    rw [freed]
    refine ⟨List.nodup_append_comm.1 (List.nodup_cons.2 ⟨new, since.nodup⟩), fun q => ?_, ?_⟩
    · rw [live, List.mem_append, List.mem_singleton, since.freed]
      by_cases same : p = q
      · subst same
        simp [since.thinned.isLive alive]
      · simp [same, Ne.symm same]
    · intro q member
      rw [List.mem_append, List.mem_singleton] at member
      rcases member with member | rfl
      · exact since.falls q member
      · exact since.falls_last chosen found last

theorem step (since : Since start outside known now) (step : Step now next) :
    Since start outside known next := by
  obtain ⟨value, rest, chosen, store, pending⟩ := step.exists_drop
  obtain ⟨nodup, freed, falls⟩ := since.deaths step
  have ready : now.store.Balanced (value :: (rest ++ outside)) known :=
    since.balanced.perm (chosen.append_right outside)
  have balanced := ready.drop
  have fewer := now.store.thinned_drop value
  obtain ⟨more, sheds⟩ := since.sheds
  obtain ⟨others, shed⟩ := ready.sheds_drop
  rw [← store, ← List.append_assoc, ← pending] at balanced
  rw [← store] at fewer shed
  exact {
    balanced := balanced
    thinned := since.thinned.trans fewer.1
    size := fewer.2.1.trans since.size
    holders := by rw [store, Store.size_holders_drop, since.holders]
    registry := fewer.2.2.trans since.registry
    counter := by rw [store, Store.counter_drop, since.counter]
    sheds := ⟨more ++ others, sheds.trans shed⟩
    nodup := nodup
    freed := freed
    falls := falls }

theorem run {now next : Teardown} (since : Since start outside known now) (run : Run now next) :
    Since start outside known next := by
  induction run with
  | refl => exact since
  | tail _ step ih => exact ih.step step

/-! ## Where every order ends -/

variable {after after' : Store} {freed freed' : List PairId} {q : PairId}

/-- In the end all pairs that nobody holds are dead. -/
theorem mem_freed_iff (since : Since start outside known ⟨after, [], freed⟩) :
    q ∈ freed ↔ start.heap.Falls outside q := by
  constructor
  · exact since.falls q
  · intro falls
    induction falls with
    | @intro q live absent _ ih =>
      refine (since.freed q).2 ⟨live, Bool.eq_false_iff.2 fun alive => ?_⟩
      have held := since.balanced.pairs.isLive_iff.1 alive
      rw [List.nil_append, List.mem_append, Heap.mem_slotValues] at held
      rcases held with held | ⟨r, slot, alive, read⟩
      · exact absent held
      · rw [since.thinned.read alive] at read
        have dead := ((since.freed r).1 (ih r slot read)).2
        rw [alive] at dead
        cases dead

theorem isLive_iff (since : Since start outside known ⟨after, [], freed⟩) :
    after.heap.isLive q = true ↔ start.heap.isLive q = true ∧ ¬start.heap.Falls outside q := by
  rw [← since.mem_freed_iff, since.freed]
  constructor
  · intro alive
    refine ⟨since.thinned.isLive alive, fun dead => ?_⟩
    rw [alive] at dead
    cases dead.2
  · intro alive
    by_contra dead
    exact alive.2 ⟨alive.1, Bool.eq_false_iff.2 dead⟩

/-- In the end a value is held no more exactly if it was held by nobody else than dead pairs. -/
theorem not_mem_iff {value : Value} (since : Since start outside known ⟨after, [], freed⟩)
    (filled : value ≠ .nil) : value ∉ outside ++ after.heap.slotValues ↔
      value ∉ outside ∧ ∀ q slot, start.heap.read q slot = value → start.heap.Falls outside q := by
  rw [List.mem_append, Heap.mem_slotValues, not_or]
  apply and_congr_right
  intro _
  constructor
  · intro unheld q slot read
    have live : start.heap.isLive q = true := by
      by_contra dead
      rw [Heap.read_of_not_isLive (Bool.eq_false_iff.2 dead)] at read
      exact filled read.symm
    by_contra stands
    have alive := since.isLive_iff.2 ⟨live, stands⟩
    exact unheld ⟨q, slot, alive, (since.thinned.read alive slot).trans read⟩
  · rintro falls ⟨q, slot, alive, read⟩
    rw [since.thinned.read alive] at read
    exact (since.isLive_iff.1 alive).2 (falls q slot read)

/-- Two orders end in the same heap and the same table. -/
theorem store_eq (since : Since start outside known ⟨after, [], freed⟩)
    (since' : Since start outside known ⟨after', [], freed'⟩) :
    after.heap = after'.heap ∧ after.atoms = after'.atoms := by
  have live : ∀ q, after'.heap.isLive q = after.heap.isLive q := by
    intro q
    rw [Bool.eq_iff_iff, since.isLive_iff, since'.isLive_iff]
  have heap : after.heap = after'.heap :=
    since.thinned.eq_of_counted since'.thinned live (since.size.trans since'.size.symm)
      since.balanced.pairs since'.balanced.pairs
  have exact := since.balanced.atoms
  rw [heap] at exact
  have holders := since.holders.trans since'.holders.symm
  exact ⟨heap, exact.eq_of_size_eq since'.balanced.atoms holders⟩

end Since

end Teardown

/-! ## The recursive rule and the loop -/

namespace Store

/-- The plain rule. A handle is given up; if it was the last one on a pair, the pair dies and the
handles in its two slots are given up by the same rule, in either order. -/
inductive Unwinds : Store → Value → List PairId → Store → Prop
  | plain {store : Store} {s : Scalar} :
    (Value.scalar s).atom? = none → Unwinds store (.scalar s) [] store
  | atom {store : Store} {a : Atom} : Unwinds store (.atom a) [] (store.releaseAtom a)
  | shared {store : Store} {p : PairId} {cell : Cell} :
    store.heap.get? p = some cell → 1 < cell.handles →
    Unwinds store (.pair p) []
      (store.mapHeap (·.modify p fun cell => { cell with handles := cell.handles - 1 }))
  | last {store middle after : Store} {p : PairId} {cell : Cell} {one other : Value}
      {first second : List PairId} :
    store.heap.get? p = some cell → cell.handles = 1 → [cell.head, cell.tail].Perm [one, other] →
    Unwinds (store.mapHeap (·.free p)) one first middle → Unwinds middle other second after →
    Unwinds store (.pair p) (p :: (first ++ second)) after

/-- The recursive rule is a way to give up one handle after the other. -/
theorem Unwinds.run {store after : Store} {value : Value} {freed : List PairId}
    (unwinds : Unwinds store value freed after) {pending rest : List Value} {dead : List PairId}
    (chosen : pending.Perm (value :: rest)) :
    Teardown.Run ⟨store, pending, dead⟩ ⟨after, rest, dead ++ freed⟩ := by
  induction unwinds generalizing pending rest dead with
  | plain other =>
    rw [List.append_nil]
    exact .single (.plain chosen other)
  | atom =>
    rw [List.append_nil]
    exact .single (.atom chosen)
  | shared found shared =>
    rw [List.append_nil]
    exact .single (.shared chosen found shared)
  | @last store middle after p cell one other first second found last order _ _ ihOne ihOther =>
    have opened : Teardown.Step ⟨store, pending, dead⟩
        ⟨store.mapHeap (·.free p), cell.head :: cell.tail :: rest, dead ++ [p]⟩ :=
      .last chosen found last
    have turned : (cell.head :: cell.tail :: rest).Perm (one :: other :: rest) :=
      order.append_right rest
    have middle : Teardown.Run ⟨store.mapHeap (·.free p), cell.head :: cell.tail :: rest, dead ++ [p]⟩
        ⟨middle, other :: rest, dead ++ [p] ++ first⟩ := ihOne turned
    have closed := middle.trans (ihOther (.refl _))
    rw [List.append_assoc, List.append_assoc] at closed
    exact .head opened closed

/-- What the loop does with a value from a dead pair, apart from the others that it has to do with. -/
def settle (value : Value) (store : Store) : Store :=
  match value with
  | .scalar s => store.releaseLeft [s]
  | .pair p => store.tearDown [p]

/-- In the loop what is left in the slots goes first, and of two pairs the one in the tail. -/
theorem exists_order_tearDown (head tail : Value) (store : Store) :
    ∃ one other, [head, tail].Perm [one, other] ∧
      (store.releaseLeft (takePairs [head, tail] []).1).tearDown (takePairs [head, tail] []).2 =
        (store.settle one).settle other := by
  match head, tail with
  | .scalar s, .scalar t => exact ⟨.scalar s, .scalar t, .refl _, tearDown_nil _⟩
  | .scalar s, .pair q => exact ⟨.scalar s, .pair q, .refl _, rfl⟩
  | .pair p, .scalar t => exact ⟨.scalar t, .pair p, .swap .., rfl⟩
  | .pair p, .pair q => exact ⟨.pair q, .pair p, .swap .., tearDown_append store [q] [p]⟩

/-- Of the first pair what is left in the slots goes last. -/
theorem exists_order_release (head tail : Value) (store : Store) :
    ∃ one other, [head, tail].Perm [one, other] ∧
      (store.tearDown (takePairs [head, tail] []).2).releaseLeft (takePairs [head, tail] []).1 =
        (store.settle one).settle other := by
  match head, tail with
  | .scalar s, .scalar t =>
    refine ⟨.scalar s, .scalar t, .refl _, ?_⟩
    exact congrArg (releaseLeft [s, t]) (tearDown_nil store)
  | .scalar s, .pair q => exact ⟨.pair q, .scalar s, .swap .., rfl⟩
  | .pair p, .scalar t => exact ⟨.pair p, .scalar t, .refl _, rfl⟩
  | .pair p, .pair q => exact ⟨.pair q, .pair p, .swap .., tearDown_append store [q] [p]⟩

variable {store : Store} {value : Value} {outside : List Value} {known : List Atom}

theorem settle_induction {P : Store → List Value → Prop} {due : List Value}
    (perm : ∀ {store due due'}, due.Perm due' → P store due → P store due')
    (drop : ∀ {store value due}, P store (value :: due) →
      P (store.drop value).2 ((store.drop value).1 ++ due))
    (before : P store (value :: due)) : P (store.settle value) due := by
  cases value with
  | scalar s => exact @releaseLeft_induction store due P drop [s] before
  | pair p => exact @tearDown_induction store due [p] P perm drop before

theorem liveCount_settle_le (value : Value) (store : Store) :
    (store.settle value).heap.liveCount ≤ store.heap.liveCount := by
  refine @settle_induction store value (fun now _ => now.heap.liveCount ≤ store.heap.liveCount) []
    (fun _ few => few) ?_ (Nat.le_refl _)
  intro now value due few
  have measure := drop_measure value now
  omega

namespace Balanced

theorem settle (balanced : store.Balanced (value :: outside) known) :
    (store.settle value).Balanced outside known :=
  @settle_induction store value (fun now due => now.Balanced due known) outside
    (fun same balanced => balanced.perm same) (fun balanced => balanced.drop) balanced

/-- A pair that loses its last handle is unwound if the values in its slots are settled by the
rule, one after the other. -/
theorem unwinds_last {after : Store} {p : PairId} {cell : Cell} {one other : Value}
    (balanced : store.Balanced (.pair p :: outside) known) (found : store.heap.get? p = some cell)
    (last : cell.handles = 1) (order : [cell.head, cell.tail].Perm [one, other])
    (ended : ((store.mapHeap (·.free p)).settle one).settle other = after)
    (inside : ∀ now value outside, now.heap.liveCount < store.heap.liveCount →
      now.Balanced (value :: outside) known → ∃ freed, Unwinds now value freed (now.settle value)) :
    ∃ freed, Unwinds store (.pair p) freed after := by
  have opened := balanced.drop
  rw [drop_last found (Nat.le_of_eq last)] at opened
  have ready : (store.mapHeap (·.free p)).Balanced (one :: other :: outside) known :=
    opened.perm (order.append_right outside)
  have fewer := Heap.liveCount_free_lt found
  obtain ⟨first, unwinds⟩ := inside _ one _ fewer ready
  have few := (liveCount_settle_le one (store.mapHeap (·.free p))).trans_lt fewer
  obtain ⟨second, unwinds'⟩ := inside _ other _ few ready.settle
  rw [← ended]
  exact ⟨_, .last found last order unwinds unwinds'⟩

/-- The last handle on a pair, or one of several. -/
theorem cases_handles {p : PairId} (balanced : store.Balanced (.pair p :: outside) known) :
    ∃ cell, store.heap.get? p = some cell ∧ (1 < cell.handles ∨ cell.handles = 1) := by
  obtain ⟨cell, found, counted⟩ := balanced.pairs.get?_of_mem List.mem_cons_self
  have positive : 0 < cell.handles := by
    rw [counted]
    exact List.count_pos_iff.2 List.mem_cons_self
  exact ⟨cell, found, by omega⟩

/-- Inside the loop every value is settled by the rule. -/
theorem exists_unwinds_settle (balanced : store.Balanced (value :: outside) known) :
    ∃ freed, Unwinds store value freed (store.settle value) := by
  -- The pair is dead when its slots are settled, so there are fewer live pairs.
  induction count : store.heap.liveCount using Nat.strong_induction_on generalizing store value
    outside with
  | _ count ih =>
    cases value with
    | scalar s =>
      cases s with
      | atom a => exact ⟨[], .atom⟩
      | _ => exact ⟨[], .plain rfl⟩
    | pair p =>
      have moved : store.settle (.pair p) = _ := tearDown_cons store p []
      obtain ⟨cell, found, shared | last⟩ := balanced.cases_handles
      · rw [moved, drop_shared found (Nat.not_le.2 shared)]
        rw [takePairs, tearDown_nil]
        exact ⟨[], .shared found shared⟩
      · rw [moved, drop_last found (Nat.le_of_eq last)]
        obtain ⟨one, other, order, ended⟩ :=
          exists_order_tearDown cell.head cell.tail (store.mapHeap (·.free p))
        refine balanced.unwinds_last found last order ended.symm ?_
        rintro now value outside fewer ready
        exact ih _ (count ▸ fewer) ready rfl

/-- The loop follows the recursive rule. -/
theorem exists_unwinds (balanced : store.Balanced (value :: outside) known) :
    ∃ freed, Unwinds store value freed (store.release value) := by
  cases value with
  | scalar s =>
    cases s with
    | atom a =>
      rw [release_of_drop rfl]
      exact ⟨[], .atom⟩
    | _ =>
      rw [release_of_drop (drop_plain rfl store)]
      exact ⟨[], .plain rfl⟩
  | pair p =>
    obtain ⟨cell, found, shared | last⟩ := balanced.cases_handles
    · rw [release_of_drop (drop_shared found (Nat.not_le.2 shared))]
      exact ⟨[], .shared found shared⟩
    · rw [release_eq, drop_last found (Nat.le_of_eq last)]
      obtain ⟨one, other, order, ended⟩ :=
        exists_order_release cell.head cell.tail (store.mapHeap (·.free p))
      refine balanced.unwinds_last found last order ended.symm ?_
      intro now value outside _ ready
      exact ready.exists_unwinds_settle

end Balanced

end Store

end Sexpr
