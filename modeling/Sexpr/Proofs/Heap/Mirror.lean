import Sexpr.Heap.Chain
import Sexpr.Proofs.Heap.Leads
import Sexpr.Proofs.Heap.Positioning
import Sexpr.Proofs.Render.Renaming
import Sexpr.Proofs.Store.Ledger

/-!
# Heaps with a common part

Two heaps in which the same pairs were made can differ in what has died and in the identities of
atoms. `Heap.view` is what they can have in common of a pair: its slots and its position, with atoms
masked and handles not counted. `Heap.Mirrors` says that two heaps have the same views of all pairs
in a set that no slot leads out of.

* `Mirrors.modify`, `Mirrors.allocate`: changes of both heaps in the same way keep a common part.
* `Mirrors.thin`: so do deaths in one heap or in both, of pairs that no root leads to.
* `Mirrors.run_start`, `Mirrors.follow`: walks and chains that begin in the common part go the same
  way in both heaps, and `Mirrors.renames` compares texts.
-/

namespace Sexpr

/-! ## Masked values and cells -/

namespace Value

variable {value other : Value} {p : PairId}

@[simp] theorem mask_eq_pair_iff : value.mask = .pair p ↔ value = .pair p := by
  cases value <;> simp [mask]

@[simp] theorem pair?_mask (value : Value) : value.mask.pair? = value.pair? := by
  cases value <;> rfl

theorem isPair_eq (same : value.mask = other.mask) :
    value.isPair = other.isPair := by
  rw [isPair, ← pair?_mask, same, pair?_mask, isPair]

/-- Values that are equal when masked are equal, or atoms of one kind and name. -/
theorem mask_eq_cases (same : value.mask = other.mask) : value = other ∨
    ∃ id id' kind name, value = .atom ⟨id, kind, name⟩ ∧ other = .atom ⟨id', kind, name⟩ := by
  rcases value with (_ | _ | _ | _ | _ | ⟨id, kind, name⟩) | p <;>
    rcases other with (_ | _ | _ | _ | _ | ⟨id', kind', name'⟩) | q <;>
    simp_all [mask, Scalar.mask, Atom.mask, atom]

end Value

/-- What can be seen of a pair: its slots, with atoms masked, and its position. -/
def Cell.mask (cell : Cell) : Cell := ⟨cell.head.mask, cell.tail.mask, cell.position, 0⟩

namespace Cell

theorem get_mask (cell : Cell) (slot : Slot) : cell.mask.get slot = (cell.get slot).mask := by
  cases slot <;> rfl

theorem mask_put (cell : Cell) (slot : Slot) (value : Value) :
    (cell.put slot value).mask = cell.mask.put slot value.mask := by
  cases slot <;> rfl

end Cell

namespace Heap

/-! ## Views -/

/-- What can be seen of a pair, if it is alive. -/
def view (heap : Heap) (p : PairId) : Option Cell := (heap.get? p).map Cell.mask

variable {heap other : Heap} {p q : PairId} {cell : Cell}

theorem isSome_view (heap : Heap) (p : PairId) : (heap.view p).isSome = heap.isLive p := by
  simp [view, isLive]

theorem mask_read (heap : Heap) (p : PairId) (slot : Slot) :
    (heap.read p slot).mask = ((heap.view p).map (·.get slot)).getD .nil := by
  unfold view
  cases found : heap.get? p with
  | none => cases slot <;> simp [read, slots, found, Value.nil, Value.mask, Scalar.mask]
  | some cell => simp [read_of_get? found, Cell.get_mask]

theorem position?_eq_view (heap : Heap) (p : PairId) :
    heap.position? p = (heap.view p).bind Cell.position := by
  unfold position? view
  cases heap.get? p <;> rfl

/-- A change of a cell that can be seen as one of its mask. -/
theorem view_modify {f g : Cell → Cell} (seen : ∀ cell, (f cell).mask = g cell.mask) (heap : Heap)
    (p q : PairId) :
    (heap.modify p f).view q = if p = q then (heap.view q).map g else heap.view q := by
  unfold view
  rw [get?_modify]
  split
  · cases heap.get? q with
    | none => rfl
    | some cell => exact congrArg some (seen cell)
  · rfl

theorem view_allocate (heap : Heap) (head tail : Value) (q : PairId) :
    (heap.allocate head tail).2.view q =
      if (heap.allocate head tail).1 = q then some ⟨head.mask, tail.mask, none, 0⟩
      else heap.view q := by
  unfold view
  rw [get?_allocate]
  split <;> rfl

/-- What is alive later looks as it did. -/
theorem Thinned.view {later : Heap} (thinned : heap.Thinned later)
    (live : later.isLive p = true) : later.view p = heap.view p := by
  obtain ⟨cell', found'⟩ := isLive_eq_true_iff.1 live
  obtain ⟨cell, found, head, tail, position⟩ := thinned p cell' found'
  simp [Heap.view, found, found', Cell.mask, head, tail, position]

/-! ## Steps along a chain -/

theorem followFrom_of_known {slot : Slot} {seen : PairSet} {pairs : List PairId}
    (found : heap.get? p = some cell) (known : seen.contains p = true) :
    heap.followFrom slot seen pairs (.pair p) = ⟨pairs, .pair p⟩ := by
  rw [followFrom]
  split
  case h_1 missing =>
    rw [found] at missing
    cases missing
  case h_2 => rw [dif_pos known]

theorem followFrom_of_new {slot : Slot} {seen : PairSet} {pairs : List PairId}
    (found : heap.get? p = some cell) (new : ¬seen.contains p = true) :
    heap.followFrom slot seen pairs (.pair p) =
      heap.followFrom slot (seen.insert p) (p :: pairs) (cell.get slot) := by
  rw [followFrom]
  split
  case h_1 missing =>
    rw [found] at missing
    cases missing
  case h_2 found' =>
    cases found.symm.trans found'
    rw [dif_neg new]

/-! ## Common parts -/

/-- The heaps have as many pairs, and the same views of the pairs in `common`, which are alive and
hold only each other. -/
structure Mirrors (heap other : Heap) (common : PairId → Prop) : Prop where
  size : heap.size = other.size
  live : ∀ p, common p → heap.isLive p = true
  view : ∀ p, common p → heap.view p = other.view p
  closed : ∀ p slot q, common p → heap.read p slot = .pair q → common q

namespace Mirrors

variable {common : PairId → Prop}

theorem mask_read (mirrors : heap.Mirrors other common) (member : common p) (slot : Slot) :
    (heap.read p slot).mask = (other.read p slot).mask := by
  rw [Heap.mask_read, Heap.mask_read, mirrors.view p member]

theorem position? (mirrors : heap.Mirrors other common) (member : common p) :
    heap.position? p = other.position? p := by
  rw [position?_eq_view, position?_eq_view, mirrors.view p member]

theorem live' (mirrors : heap.Mirrors other common) (member : common p) :
    other.isLive p = true := by
  rw [← isSome_view, ← mirrors.view p member, isSome_view]
  exact mirrors.live p member

/-- The cells of a common pair in both heaps. -/
theorem get? (mirrors : heap.Mirrors other common) (member : common p) :
    ∃ cell cell', heap.get? p = some cell ∧ other.get? p = some cell' ∧ cell.mask = cell'.mask := by
  obtain ⟨cell, found⟩ := isLive_eq_true_iff.1 (mirrors.live p member)
  obtain ⟨cell', found'⟩ := isLive_eq_true_iff.1 (mirrors.live' member)
  have same := mirrors.view p member
  rw [Heap.view, Heap.view, found, found'] at same
  exact ⟨cell, cell', found, found', Option.some.inj same⟩

/-! ### Changes of both heaps -/

/-- One pair is changed in the same way. -/
theorem modify (mirrors : heap.Mirrors other common) (p : PairId) {f f' g : Cell → Cell}
    (seen : ∀ cell, (f cell).mask = g cell.mask) (seen' : ∀ cell, (f' cell).mask = g cell.mask)
    (inside : ∀ cell slot q, common p → heap.get? p = some cell → (f cell).get slot = .pair q →
      common q) :
    (heap.modify p f).Mirrors (other.modify p f') common where
  size := by rw [size_modify, size_modify, mirrors.size]
  live q member := by rw [isLive_modify, mirrors.live q member]
  view q member := by rw [view_modify seen, view_modify seen', mirrors.view q member]
  closed q slot r member read := by
    obtain ⟨cell, found⟩ := isLive_eq_true_iff.1 (mirrors.live q member)
    by_cases same : p = q
    · subst same
      have found' : (heap.modify p f).get? p = some (f cell) := by
        rw [get?_modify, if_pos rfl, found]
        rfl
      rw [read_of_get? found'] at read
      exact inside cell slot r member found read
    · have kept : (heap.modify p f).get? q = heap.get? q := by
        rw [get?_modify, if_neg same]
      rw [read_congr kept] at read
      exact mirrors.closed q slot r member read

/-- One pair is changed in a way that keeps its slots. -/
theorem modify_of_slots (mirrors : heap.Mirrors other common) (p : PairId)
    {f f' g : Cell → Cell} (seen : ∀ cell, (f cell).mask = g cell.mask)
    (seen' : ∀ cell, (f' cell).mask = g cell.mask)
    (slots : ∀ cell slot, (f cell).get slot = cell.get slot) :
    (heap.modify p f).Mirrors (other.modify p f') common := by
  refine mirrors.modify p seen seen' ?_
  intro cell slot q member found read
  rw [slots, ← read_of_get? found] at read
  exact mirrors.closed p slot q member read

theorem setPosition (mirrors : heap.Mirrors other common) (p : PairId)
    (position : Option Position) :
    (heap.setPosition p position).Mirrors (other.setPosition p position) common := by
  refine mirrors.modify_of_slots p (g := fun cell => { cell with position }) (fun _ => rfl)
    (fun _ => rfl) ?_
  intro cell slot
  cases slot <;> rfl

theorem write (mirrors : heap.Mirrors other common) (p : PairId) (slot : Slot)
    {value value' : Value} (same : value.mask = value'.mask)
    (inside : ∀ q, value = .pair q → common q) :
    (heap.write p slot value).Mirrors (other.write p slot value') common := by
  refine mirrors.modify p (g := (·.put slot value.mask)) (fun cell => cell.mask_put slot value)
    (fun cell => ?_) ?_
  · rw [same]
    exact cell.mask_put slot value'
  · intro cell slot' q member found read
    have old := mirrors.closed p slot' q member
    rw [read_of_get? found] at old
    cases slot <;> cases slot' <;> first | exact inside q read | exact old read

/-- A new pair of both heaps joins the common part. -/
theorem allocate (mirrors : heap.Mirrors other common) {head tail head' tail' : Value}
    (sameHead : head.mask = head'.mask) (sameTail : tail.mask = tail'.mask)
    (inside : ∀ q, head = .pair q ∨ tail = .pair q → common q) :
    (heap.allocate head tail).1 = (other.allocate head' tail').1 ∧
      (heap.allocate head tail).2.Mirrors (other.allocate head' tail').2
        fun q => q = (heap.allocate head tail).1 ∨ common q := by
  have same : (heap.allocate head tail).1 = (other.allocate head' tail').1 :=
    congrArg PairId.mk mirrors.size
  have found : (heap.allocate head tail).2.get? (heap.allocate head tail).1 =
      some ⟨head, tail, none, 1⟩ := by
    rw [get?_allocate, if_pos rfl]
  refine ⟨same, ?_, ?_, ?_, ?_⟩
  · simp only [Heap.size, Heap.allocate, Array.size_push]
    exact congrArg (· + 1) mirrors.size
  · intro q member
    rw [isLive_allocate, Bool.or_eq_true, decide_eq_true_iff]
    exact member.imp Eq.symm (mirrors.live q)
  · intro q member
    rw [view_allocate, view_allocate, same, sameHead, sameTail]
    rcases member with rfl | member
    · rw [if_pos same.symm, if_pos same.symm]
    · rw [mirrors.view q member]
  · intro q slot r member read
    by_cases new : (heap.allocate head tail).1 = q
    · subst new
      rw [read_of_get? found] at read
      refine Or.inr (inside r ?_)
      cases slot
      · exact Or.inl read
      · exact Or.inr read
    · have kept : (heap.allocate head tail).2.get? q = heap.get? q := by
        rw [get?_allocate, if_neg new]
      rw [read_congr kept] at read
      exact Or.inr (mirrors.closed q slot r (member.resolve_left (Ne.symm new)) read)

/-- Pairs may die in both heaps, as long as no root leads to them. -/
theorem thin {later later' : Heap} {roots roots' : List Value}
    (mirrors : heap.Mirrors other common) (thinned : heap.Thinned later)
    (thinned' : other.Thinned later') (size : later.size = heap.size)
    (size' : later'.size = other.size) (inside : ∀ p, .pair p ∈ roots → common p)
    (same : ∀ p, .pair p ∈ roots → .pair p ∈ roots')
    (live : ∀ p r, .pair r ∈ roots → later.Leads r p → later.isLive p = true)
    (live' : ∀ p r, .pair r ∈ roots' → later'.Leads r p → later'.isLive p = true) :
    later.Mirrors later' fun p => ∃ r, .pair r ∈ roots ∧ later.Leads r p := by
  -- Along the way from a root nothing has died in either heap, so both ways are the same.
  have kept : ∀ p r, .pair r ∈ roots → later.Leads r p → common p ∧ later'.Leads r p := by
    intro p r root leads
    induction leads with
    | refl => exact ⟨inside r root, .refl r⟩
    | @tail p q before child ih =>
      obtain ⟨member, ahead⟩ := ih
      obtain ⟨slot, read⟩ := child
      rw [thinned.read (live p r root before)] at read
      have read' := mirrors.mask_read member slot
      rw [read] at read'
      have child' : later'.Child p q := by
        refine ⟨slot, ?_⟩
        rw [thinned'.read (live' p r (same r root) ahead)]
        exact Value.mask_eq_pair_iff.1 read'.symm
      exact ⟨mirrors.closed p slot q member read, ahead.trans child'.leads⟩
  refine ⟨?_, ?_, ?_, ?_⟩
  · rw [size, size', mirrors.size]
  · rintro p ⟨r, root, leads⟩
    exact live p r root leads
  · rintro p ⟨r, root, leads⟩
    obtain ⟨member, ahead⟩ := kept p r root leads
    rw [thinned.view (live p r root leads), thinned'.view (live' p r (same r root) ahead)]
    exact mirrors.view p member
  · rintro p slot q ⟨r, root, leads⟩ read
    exact ⟨r, root, leads.trans (Child.leads ⟨slot, read⟩)⟩

/-! ### Walks and chains -/

/-- Walks over both heaps that have seen the same pairs and go on to values that are equal when
masked, with pairs of the common part. -/
structure Abreast (common : PairId → Prop) (walk other : Walk) : Prop where
  mirrors : walk.heap.Mirrors other.heap common
  seen : walk.seen = other.seen
  ahead : List.Forall₂ (fun entry entry' => entry.1.mask = entry'.1.mask ∧ entry.2 = entry'.2)
    walk.stack other.stack
  inside : ∀ q inherited, (.pair q, inherited) ∈ walk.stack → common q

namespace Abreast

variable {walk other : Walk}

/-- Both walks mark a pair of the common part. -/
theorem mark {cell' : Cell} (abreast : Abreast common walk other) (member : common p)
    (found : walk.heap.get? p = some cell) (same : cell.mask = cell'.mask)
    (position : Option Position) :
    Abreast common (walk.mark p cell position) (other.mark p cell' position) := by
  have head : cell.head.mask = cell'.head.mask := congrArg Cell.head same
  have tail : cell.tail.mask = cell'.tail.mask := congrArg Cell.tail same
  constructor
  · rw [Walk.heap_mark, Walk.heap_mark]
    exact abreast.mirrors.setPosition p position
  · rw [Walk.seen_mark, Walk.seen_mark, abreast.seen]
  · rw [Walk.stack_mark, Walk.stack_mark, Value.isPair_eq head]
    split
    · exact .cons ⟨head, rfl⟩ (.cons ⟨tail, rfl⟩ abreast.ahead)
    · exact .cons ⟨tail, rfl⟩ abreast.ahead
  · intro q inherited listed
    rcases Walk.mem_stack_mark.1 listed with ⟨⟨slot, read⟩, -⟩ | listed
    · rw [← read_of_get? found] at read
      exact abreast.mirrors.closed p slot q member read
    · exact abreast.inside q inherited listed

theorem visit (abreast : Abreast common walk other) (marking : Marking) {value value' : Value}
    (same : value.mask = value'.mask) (inside : ∀ q, value = .pair q → common q)
    (inherited : Option Position) :
    Abreast common (walk.visit marking value inherited) (other.visit marking value' inherited) := by
  cases value with
  | scalar s =>
    cases value' with
    | scalar s' => exact abreast
    | pair q => cases same
  | pair p =>
    cases Value.mask_eq_pair_iff.1 same.symm
    have member := inside p rfl
    obtain ⟨cell, cell', found, found', alike⟩ := abreast.mirrors.get? member
    have place : cell.position = cell'.position := (congrArg Cell.position alike :)
    simp only [Walk.visit, ← abreast.seen, found, found', ← place]
    split
    · exact abreast
    · exact abreast.mark member found alike _

/-- Positions are handed on along the same ways. -/
theorem run (abreast : Abreast common walk other) (marking : Marking) :
    (walk.run marking).heap.Mirrors (other.run marking).heap common := by
  fun_induction Walk.run marking walk generalizing other with
  | case1 walk empty =>
    obtain ⟨heap, seen, stack⟩ := other
    have ahead := abreast.ahead
    rw [empty] at ahead
    cases ahead
    rw [Walk.run_of_empty]
    exact abreast.mirrors
  | case2 walk value inherited stack pending ih =>
    obtain ⟨heap, seen, stack'⟩ := other
    have ahead := abreast.ahead
    rw [pending] at ahead
    cases ahead with
    | @cons _ entry _ rest alike ahead =>
      obtain ⟨value', inherited'⟩ := entry
      obtain ⟨same, rfl⟩ := alike
      have inside : ∀ q place, (.pair q, place) ∈ (value, inherited) :: stack → common q :=
        pending ▸ abreast.inside
      have below : Abreast common { walk with stack } ⟨heap, seen, rest⟩ :=
        ⟨abreast.mirrors, abreast.seen, ahead, fun q place listed =>
          inside q place (List.mem_cons_of_mem _ listed)⟩
      rw [Walk.run_of_top]
      apply ih
      apply below.visit marking same
      intro q pair
      exact inside q inherited (pair ▸ List.mem_cons_self)

end Abreast

/-- Walks that begin at a pair of the common part. -/
theorem run_start (mirrors : heap.Mirrors other common) (member : common p) (marking : Marking)
    (position : Option Position) :
    ((Walk.start heap p position).run marking).heap.Mirrors
      ((Walk.start other p position).run marking).heap common := by
  have begin : Abreast common (.start heap p position) (.start other p position) := by
    refine ⟨mirrors, rfl, .cons ⟨rfl, rfl⟩ .nil, fun q inherited listed => ?_⟩
    cases List.mem_singleton.1 listed
    exact member
  exact begin.run marking

theorem assignPosition (mirrors : heap.Mirrors other common) (member : common p)
    (position : Option Position) (follow : Bool) :
    (heap.assignPosition p position follow).Mirrors (other.assignPosition p position follow)
      common := by
  cases follow with
  | false => exact mirrors.setPosition p position
  | true => exact mirrors.run_start member .replace position

theorem fillPosition (mirrors : heap.Mirrors other common) (member : common p)
    (position : Position) (follow : Bool) :
    (heap.fillPosition p position follow).Mirrors (other.fillPosition p position follow)
      common := by
  cases follow with
  | false =>
    refine mirrors.modify_of_slots p
      (g := fun cell => { cell with position := some (cell.position.getD position) })
      (fun _ => rfl) (fun _ => rfl) ?_
    intro cell slot
    cases slot <;> rfl
  | true => exact mirrors.run_start member .fill (some position)

/-- Two trails over the same pairs, with ends that are equal when masked. -/
structure Follows (common : PairId → Prop) (trail trail' : Trail) : Prop where
  pairs : trail.pairs = trail'.pairs
  stop : trail.stop.mask = trail'.stop.mask
  visited : ∀ p ∈ trail.pairs, common p
  behind : ∀ q, trail.stop = .pair q → common q

theorem followFrom (mirrors : heap.Mirrors other common) (slot : Slot) (seen : PairSet)
    (pairs : List PairId) {value value' : Value} (same : value.mask = value'.mask)
    (inside : ∀ q, value = .pair q → common q) (passed : ∀ p ∈ pairs, common p) :
    Follows common (heap.followFrom slot seen pairs value)
      (other.followFrom slot seen pairs value') := by
  fun_induction Heap.followFrom heap slot seen pairs value generalizing value' with
  | case1 seen pairs s =>
    obtain ⟨s', rfl⟩ : ∃ s', value' = .scalar s' := by
      cases value' with
      | scalar s' => exact ⟨s', rfl⟩
      | pair q => cases same
    rw [Heap.followFrom]
    exact ⟨rfl, same, passed, fun q end_ => nomatch end_⟩
  | case2 seen pairs p missing =>
    obtain ⟨cell, cell', found, -⟩ := mirrors.get? (inside p rfl)
    rw [missing] at found
    cases found
  | case3 seen pairs p cell found known =>
    cases Value.mask_eq_pair_iff.1 same.symm
    obtain ⟨-, cell', -, found', -⟩ := mirrors.get? (inside p rfl)
    rw [followFrom_of_known found' known]
    exact ⟨rfl, rfl, passed, inside⟩
  | case4 seen pairs p cell found new ih =>
    cases Value.mask_eq_pair_iff.1 same.symm
    have member := inside p rfl
    obtain ⟨cell₁, cell', found₁, found', alike⟩ := mirrors.get? member
    cases found.symm.trans found₁
    rw [followFrom_of_new found' new]
    refine ih ?_ ?_ ?_
    · rw [← Cell.get_mask, alike, Cell.get_mask]
    · intro q read
      rw [← read_of_get? found] at read
      exact mirrors.closed p slot q member read
    · intro q listed
      rcases List.mem_cons.1 listed with rfl | listed
      · exact member
      · exact passed q listed

/-- A chain that begins in the common part is the same in both heaps. -/
theorem follow (mirrors : heap.Mirrors other common) (slot : Slot) (member : common p) :
    Follows common (heap.follow slot p) (other.follow slot p) := by
  refine mirrors.followFrom slot .empty [] rfl ?_ (List.forall_mem_nil _)
  intro q same
  cases same
  exact member

/-! ### Texts -/

/-- Values that are equal when masked, with pairs of the common part. -/
theorem renamed {value value' : Value} (same : value.mask = value'.mask)
    (inside : ∀ q, value = .pair q → common q) :
    Render.Renamed (fun p q => p = q ∧ common p) value value' := by
  cases value with
  | pair p =>
    cases Value.mask_eq_pair_iff.1 same.symm
    exact .pair ⟨rfl, inside p rfl⟩
  | scalar s =>
    cases value' with
    | pair q => cases same
    | scalar s' => exact .scalar (Value.scalar.inj same)

theorem renames (mirrors : heap.Mirrors other common) :
    Render.Renaming (fun p q => p = q ∧ common p) heap other where
  single := by
    rintro p q _ _ ⟨rfl, -⟩ ⟨rfl, -⟩
    rfl
  reads := by
    rintro p _ ⟨rfl, member⟩ slot
    exact renamed (mirrors.mask_read member slot) fun q => mirrors.closed p slot q member

end Mirrors

end Heap

end Sexpr
