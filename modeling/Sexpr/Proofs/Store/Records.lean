import Sexpr.Proofs.Store.Steps

/-!
# What the trace tells about names

For each kind and name the trace holds the turns of that name: an atom was made for it, or its atom
went away. `Turn.Course` says which turns one operation may add, from the entry under the name before
and after: none if the entry stays, one if it comes or goes, and in a search for a fresh symbol any
number of candidates that come and go in between.

Giving up handles makes no atoms, however much it frees. `Store.Sheds` says that it adds evictions
only, one for each entry that goes (`Store.Balanced.sheds_releaseAll`). What the other operations add
follows from what they do to the table (`Store.Records`, `Ledger.Step.records`).
-/

namespace Sexpr

/-! ## Turns -/

/-- What happens to a name: an atom is made for it, or its atom goes away. -/
inductive Turn where
  | made
  | gone
deriving DecidableEq

namespace Turn

/-- Whether the name has an atom after its turns. An atom can be made only where there is none, and
go away only where there is one. -/
def replay : Bool → List Turn → Option Bool
  | filed, [] => some filed
  | false, made :: turns => replay true turns
  | true, gone :: turns => replay false turns
  | _, _ => none

theorem replay_append (filed : Bool) (first second : List Turn) :
    replay filed (first ++ second) = (replay filed first).bind (replay · second) := by
  fun_induction replay filed first with
  | case1 filed => rfl
  | case2 turns ih => exact ih
  | case3 turns ih => exact ih
  | case4 filed first _ _ _ =>
    cases filed <;> cases first <;> simp_all [replay]

/-- In turns that can be replayed, creations and removals alternate. -/
theorem eq_of_replay {filed later : Bool} {turns : List Turn} {index : Nat} {turn : Turn}
    (replays : replay filed turns = some later) (found : turns[index]? = some turn) :
    turn = if (index + filed.toNat) % 2 = 0 then made else gone := by
  fun_induction replay filed turns generalizing index with
  | case1 filed => cases found
  | case2 turns ih =>
    cases index with
    | zero => exact (Option.some.inj found).symm
    | succ index => exact ih replays found
  | case3 turns ih =>
    cases index with
    | zero => exact (Option.some.inj found).symm
    | succ index =>
      have round : (index + 1 + 1) % 2 = index % 2 := Nat.add_mod_right index 2
      rw [ih replays found, Bool.toNat_true, round]
      rfl
  | case4 => cases replays

/-- The last turn decides. -/
theorem eq_getLast?_of_replay {filed later : Bool} {turns : List Turn}
    (replays : replay filed turns = some later) :
    later = (turns.getLast?.map (· = made)).getD filed := by
  fun_induction replay filed turns with
  | case1 filed => simpa using replays.symm
  | case2 turns ih =>
    rw [ih replays, List.getLast?_cons]
    cases turns.getLast? <;> simp
  | case3 turns ih =>
    rw [ih replays, List.getLast?_cons]
    cases turns.getLast? <;> simp
  | case4 => cases replays

/-- The turns that one operation may add, between the entry before and the entry after it. -/
inductive Course : Option Atom → List Turn → Option Atom → Prop
  | kept (entry : Option Atom) : Course entry [] entry
  | made (a : Atom) : Course none [.made] (some a)
  | gone (a : Atom) : Course (some a) [.gone] none
  /-- A candidate is made and turned down. -/
  | passed {turns : List Turn} {later : Option Atom} :
    Course none turns later → Course none (.made :: .gone :: turns) later

theorem Course.replay {entry later : Option Atom} {turns : List Turn}
    (course : Course entry turns later) : Turn.replay entry.isSome turns = some later.isSome := by
  induction course with
  | kept entry => exact Turn.replay.eq_1 _
  | made a => rfl
  | gone a => rfl
  | passed _ ih => exact ih

end Turn

namespace Event

variable {kind : AtomKind} {name : String}

/-- What an event means for a name. -/
def turn? (kind : AtomKind) (name : String) : Event → Option Turn
  | interned kind' name' => if kind' = kind ∧ name' = name then some .made else none
  | drawn name' => if .symbol = kind ∧ name' = name then some .made else none
  | evicted kind' name' => if kind' = kind ∧ name' = name then some .gone else none
  | collected _ => none

/-- The turns of a name, in the order in which they were taken. -/
def turns (kind : AtomKind) (name : String) (events : List Event) : List Turn :=
  events.filterMap (turn? kind name)

@[simp] theorem turns_nil : turns kind name [] = [] := rfl

@[simp] theorem turns_append (first second : List Event) :
    turns kind name (first ++ second) = turns kind name first ++ turns kind name second :=
  List.filterMap_append

theorem turns_cons (event : Event) (events : List Event) :
    turns kind name (event :: events) = (event.turn? kind name).toList ++ turns kind name events := by
  cases found : event.turn? kind name <;> simp [turns, found]

/-- The removals of an entry are counted by its turns. -/
theorem count_evicted (events : List Event) :
    events.count (.evicted kind name) = (turns kind name events).count .gone := by
  induction events with
  | nil => rfl
  | cons event events ih =>
    rw [List.count_cons, ih, turns_cons, List.count_append, Nat.add_comm]
    congr 1
    cases event with
    | collected report => rfl
    | interned kind' name' => by_cases same : kind' = kind ∧ name' = name <;> simp [turn?, same]
    | drawn name' => by_cases same : .symbol = kind ∧ name' = name <;> simp [turn?, same]
    | evicted kind' name' => by_cases same : kind' = kind ∧ name' = name <;> simp [turn?, same]

end Event

namespace AtomTable

variable {table : AtomTable} {kind : AtomKind} {raw : String}

theorem intern_of_live {a : Atom} (found : table.live? kind (kind.normalize raw) = some a) :
    table.intern kind raw = ((a, false), table.retain a) := by
  rw [intern, found]

theorem intern_of_free (free : table.live? kind (kind.normalize raw) = none) :
    table.intern kind raw = (((table.create kind (kind.normalize raw)).1, true),
      (table.create kind (kind.normalize raw)).2) := by
  rw [intern, free]

end AtomTable

/-! ## Giving up handles -/

namespace Store

open Event

variable {store middle later : Store} {more others : List Event}

/-- The entries that are gone later were removed, each with one event, and nothing else happened. -/
structure Sheds (store : Store) (more : List Event) (later : Store) : Prop where
  trace : later.trace.toList = store.trace.toList ++ more
  evictions : ∀ event ∈ more, event.isEviction = true
  entries : ∀ kind name,
    (turns kind name more = [] ∧ later.atoms.filed? kind name = store.atoms.filed? kind name) ∨
    (turns kind name more = [.gone] ∧ (store.atoms.filed? kind name).isSome = true ∧
      later.atoms.filed? kind name = none)

namespace Sheds

theorem of_eq (trace : later.trace = store.trace) (atoms : later.atoms = store.atoms) :
    store.Sheds [] later := by
  refine ⟨?_, ?_, fun kind name => Or.inl ⟨rfl, ?_⟩⟩
  · rw [trace, List.append_nil]
  · intro event member
    cases member
  · rw [atoms]

theorem trans (first : store.Sheds more middle) (second : middle.Sheds others later) :
    store.Sheds (more ++ others) later := by
  refine ⟨?_, ?_, fun kind name => ?_⟩
  · rw [second.trace, first.trace, List.append_assoc]
  · intro event member
    rcases List.mem_append.1 member with member | member
    · exact first.evictions event member
    · exact second.evictions event member
  · rw [turns_append]
    rcases first.entries kind name with ⟨none, kept⟩ | ⟨one, filed, removed⟩
    · rw [none, List.nil_append, ← kept]
      exact second.entries kind name
    · -- What is gone cannot go again.
      rcases second.entries kind name with ⟨none, kept⟩ | ⟨_, again, _⟩
      · rw [one, none, kept]
        exact Or.inr ⟨rfl, filed, removed⟩
      · rw [removed] at again
        cases again

end Sheds

theorem trace_releaseAtom (a : Atom) (store : Store) :
    (store.releaseAtom a).trace =
      if (store.atoms.release a).1 then store.trace.push (.evicted a.kind a.name)
      else store.trace := rfl

/-- Giving up a handle on a pair is a matter of the heap. -/
theorem drop_pair (p : PairId) (store : Store) :
    (store.drop (.pair p)).2 = store.mapHeap fun heap => (heap.drop p).2 := by
  simp only [drop, onHeap, mapHeap]
  split
  · next dropped => rw [← (Prod.mk.inj dropped).2]
  · next dropped => rw [← (Prod.mk.inj dropped).2]

namespace Balanced

variable {outside work : List Value} {known : List Atom} {value : Value} {a : Atom}

/-- The last handle on an atom takes the entry with it and is noted once; no other handle is. -/
theorem sheds_releaseAtom (balanced : store.Balanced (.atom a :: outside) known) :
    ∃ more, store.Sheds more (store.releaseAtom a) := by
  have released : store.atoms.release a =
      if .atom a ∈ outside ++ store.heap.slotValues then (false, store.atoms.drop a)
      else (true, (store.atoms.drop a).unfile a) := balanced.atoms.release_eq
  by_cases shared : .atom a ∈ outside ++ store.heap.slotValues
  · rw [if_pos shared] at released
    refine ⟨[], ?_, by simp, fun kind name => Or.inl ⟨rfl, ?_⟩⟩
    · rw [trace_releaseAtom, released, List.append_nil]
      rfl
    · rw [atoms_releaseAtom, released, AtomTable.filed?_drop]
  · rw [if_neg shared] at released
    refine ⟨[.evicted a.kind a.name], ?_, by simp [isEviction], fun kind name => ?_⟩
    · rw [trace_releaseAtom, released, if_pos rfl, Array.toList_push]
    · rw [turns_cons, turns_nil, List.append_nil, turn?, atoms_releaseAtom, released,
        AtomTable.filed?_unfile, AtomTable.filed?_drop]
      split
      case isTrue key =>
        obtain ⟨rfl, rfl⟩ := key
        rw [balanced.atoms.filed a List.mem_cons_self]
        exact Or.inr ⟨rfl, rfl, rfl⟩
      case isFalse => exact Or.inl ⟨rfl, rfl⟩

theorem sheds_drop (balanced : store.Balanced (value :: outside) known) :
    ∃ more, store.Sheds more (store.drop value).2 := by
  cases value with
  | scalar s =>
    cases s with
    | atom a => exact balanced.sheds_releaseAtom
    | _ => exact ⟨[], .of_eq rfl rfl⟩
  | pair p =>
    rw [drop_pair]
    exact ⟨[], .of_eq rfl rfl⟩

theorem sheds_releaseAll (balanced : store.Balanced (work ++ outside) known) :
    ∃ more, store.Sheds more (store.releaseAll work) := by
  -- The counts are carried along, since they say which handles are the last ones.
  refine (@releaseAll_induction store [] work
    (fun now due => now.Balanced (due ++ outside) known ∧ ∃ more, store.Sheds more now)
    (fun same both => ⟨perm_due same both.1, both.2⟩) ?_ ?_).2
  · rintro now value due ⟨balanced, first, shed⟩
    obtain ⟨others, shedOthers⟩ := sheds_drop balanced
    exact ⟨drop_due balanced, first ++ others, shed.trans shedOthers⟩
  · rw [List.append_nil]
    exact ⟨balanced, [], .of_eq rfl rfl⟩

theorem sheds_release (balanced : store.Balanced (value :: outside) known) :
    ∃ more, store.Sheds more (store.release value) :=
  @sheds_releaseAll store outside [value] known balanced

end Balanced

/-! ## Operations -/

/-- What was added to the trace tells for every name what became of its entry. Only entries that
were there and candidates for a fresh symbol are removed. -/
structure Records (store : Store) (more : List Event) (later : Store) : Prop where
  trace : later.trace.toList = store.trace.toList ++ more
  entries : ∀ kind name, Turn.Course (store.atoms.filed? kind name) (turns kind name more)
    (later.atoms.filed? kind name)
  removed : ∀ kind name, .evicted kind name ∈ more →
    (store.atoms.filed? kind name).isSome = true ∨ kind = .symbol ∧ .drawn name ∈ more

theorem Sheds.records (sheds : store.Sheds more later) : store.Records more later := by
  refine ⟨sheds.trace, fun kind name => ?_, fun kind name member => ?_⟩
  · rcases sheds.entries kind name with ⟨none, kept⟩ | ⟨one, filed, removed⟩
    · rw [none, kept]
      exact .kept _
    · obtain ⟨a, entry⟩ := Option.isSome_iff_exists.1 filed
      rw [one, entry, removed]
      exact .gone a
  · rcases sheds.entries kind name with ⟨none, kept⟩ | ⟨one, filed, removed⟩
    · have counted := List.count_pos_iff.2 member
      rw [count_evicted, none] at counted
      cases counted
    · exact Or.inl filed

/-- An operation that keeps every entry adds nothing. -/
theorem Records.of_kept (trace : later.trace = store.trace)
    (entries : ∀ kind name, later.atoms.filed? kind name = store.atoms.filed? kind name) :
    store.Records [] later := by
  refine ⟨by rw [trace, List.append_nil], fun kind name => ?_, fun kind name member => ?_⟩
  · rw [entries]
    exact .kept _
  · cases member

/-- What comes before may change all but the entries and the trace. -/
theorem Records.of_eq (records : middle.Records more later) (trace : middle.trace = store.trace)
    (atoms : middle.atoms = store.atoms) : store.Records more later := by
  refine ⟨?_, fun kind name => ?_, fun kind name member => ?_⟩
  · rw [← trace]
    exact records.trace
  · rw [← atoms]
    exact records.entries kind name
  · rw [← atoms]
    exact records.removed kind name member

/-- The report of a collection is about no name. -/
theorem Records.note (records : store.Records more later) (report : Report) :
    store.Records (more ++ [.collected report]) (later.note (.collected report)) := by
  refine ⟨?_, fun kind name => ?_, fun kind name member => ?_⟩
  · rw [← List.append_assoc, ← records.trace]
    exact Array.toList_push ..
  · rw [turns_append, turns_cons, turn?, Option.toList_none, turns_nil, List.append_nil,
      List.append_nil]
    exact records.entries kind name
  · have earlier : .evicted kind name ∈ more := by simpa using member
    exact (records.removed kind name earlier).imp_right (And.imp_right (List.mem_append_left _))

theorem records_retain (value : Value) (store : Store) : store.Records [] (store.retain value) := by
  cases value with
  | pair p => exact .of_kept rfl fun _ _ => rfl
  | scalar s =>
    cases s with
    | atom a => exact .of_kept rfl fun kind name => AtomTable.filed?_retain a kind name
    | _ => exact .of_kept rfl fun _ _ => rfl

theorem trace_intern (kind : AtomKind) (raw : String) (store : Store) :
    (store.intern kind raw).2.trace = if store.atoms.isInterned kind raw then store.trace
      else store.trace.push (.interned kind (kind.normalize raw)) := by
  have made : (store.intern kind raw).2.trace = if (store.atoms.intern kind raw).1.2
      then store.trace.push (.interned (store.atoms.intern kind raw).1.1.kind
        (store.atoms.intern kind raw).1.1.name)
      else store.trace := rfl
  rw [made, AtomTable.isInterned]
  cases found : store.atoms.live? kind (kind.normalize raw) with
  | some a =>
    rw [AtomTable.intern_of_live found]
    rfl
  | none =>
    rw [AtomTable.intern_of_free found]
    rfl

end Store

namespace Ledger.Sound

open Event

variable {store after : Store} {outside : List Value} {weaks : List Weak}

/-- Interning makes an atom if the name has none. -/
theorem records_intern (sound : Sound ⟨store, outside, weaks⟩) (kind : AtomKind) (raw : String) :
    ∃ more, store.Records more (store.intern kind raw).2 := by
  have trace := Store.trace_intern kind raw store
  have atoms : (store.intern kind raw).2.atoms = (store.atoms.intern kind raw).2 := rfl
  rw [AtomTable.isInterned, sound.atoms.live?_eq_filed?] at trace
  cases entry : store.atoms.filed? kind (kind.normalize raw) with
  | some a =>
    rw [entry] at trace
    refine ⟨[], .of_kept trace fun kind' name => ?_⟩
    rw [← sound.atoms.live?_eq_filed?] at entry
    rw [atoms, AtomTable.intern_of_live entry, AtomTable.filed?_retain]
  | none =>
    rw [entry] at trace
    refine ⟨[.interned kind (kind.normalize raw)], ?_, fun kind' name => ?_, by simp⟩
    · rw [trace]
      exact Array.toList_push ..
    · have free := entry
      rw [← sound.atoms.live?_eq_filed?] at free
      rw [atoms, AtomTable.intern_of_free free, AtomTable.filed?_create, turns_cons, turn?]
      split
      case isTrue key =>
        obtain ⟨rfl, rfl⟩ := key
        rw [entry]
        exact .made _
      case isFalse => exact .kept _

/-- Candidates that are turned down come and go. -/
theorem course_rejected {name : String} {events : List Event} {later : Option Atom}
    (rejected : List String) (course : Turn.Course none (turns .symbol name events) later) :
    Turn.Course none (turns .symbol name
      (rejected.flatMap (fun name => [.drawn name, .evicted .symbol name]) ++ events)) later := by
  induction rejected with
  | nil => exact course
  | cons first rejected ih =>
    rw [List.flatMap_cons, List.append_assoc, turns_append]
    by_cases same : first = name
    · subst same
      have turned : turns .symbol first [.drawn first, .evicted .symbol first] = [.made, .gone] := by
        simp [turns, turn?]
      rw [turned]
      exact .passed ih
    · have none : turns .symbol name [.drawn first, .evicted .symbol first] = [] := by
        simp [turns, turn?, same]
      rw [none]
      exact ih

/-- The events of a search mean nothing for a name that it does not show. -/
theorem turns_search {kind : AtomKind} {name last : String} {rejected : List String}
    (other : ∀ shown ∈ last :: rejected, ¬(.symbol = kind ∧ shown = name)) :
    turns kind name (rejected.flatMap (fun name => [.drawn name, .evicted .symbol name]) ++
      [.drawn last]) = [] := by
  refine List.filterMap_eq_nil_iff.2 fun event member => ?_
  rw [List.mem_append, List.mem_flatMap, List.mem_singleton] at member
  rcases member with ⟨shown, turned, member⟩ | rfl
  · have apart := other shown (List.mem_cons_of_mem _ turned)
    rcases List.mem_pair.1 member with rfl | rfl
    · exact if_neg apart
    · exact if_neg apart
  · exact if_neg (other last List.mem_cons_self)

/-- A search makes and gives up candidates, and makes one symbol in the end. -/
theorem records_drawFresh {stem : Option String} {accepts : Store.Approval} {draws : Nat}
    {drawn : Store.Fresh} (sound : Sound ⟨store, outside, weaks⟩)
    (done : store.drawFresh stem accepts draws [] = (some drawn, after)) :
    ∃ more, store.Records more after := by
  obtain ⟨count, finds⟩ := sound.finds_of_drawFresh done
  have accepted : drawn.atom.name ∈ drawn.candidates := List.mem_of_getLast? finds.accepted
  refine ⟨drawn.candidates.dropLast.flatMap (fun name => [.drawn name, .evicted .symbol name]) ++
    [.drawn drawn.atom.name], ?_, fun kind name => ?_, fun kind name member => Or.inr ?_⟩
  · rw [finds.trace, List.append_assoc]
  · rw [finds.filed?]
    by_cases shown : .symbol = kind ∧ name ∈ drawn.candidates
    · obtain ⟨rfl, member⟩ := shown
      rw [finds.shows] at member
      have free := sound.atoms.filed?_of_free ((Bool.not_eq_true' _).mp (List.mem_filter.1 member).2)
      rw [free]
      apply course_rejected
      rw [turns_cons, turn?]
      split
      · exact .made _
      · exact .kept none
    · have other : ∀ shown ∈ drawn.candidates, ¬(.symbol = kind ∧ shown = name) := by
        rintro _ member ⟨symbol, rfl⟩
        exact shown ⟨symbol, member⟩
      rw [if_neg (other _ accepted), turns_search]
      · exact .kept _
      · intro candidate member
        rcases List.mem_cons.1 member with rfl | member
        · exact other _ accepted
        · exact other _ (List.mem_of_mem_dropLast member)
  · simp only [List.mem_append, List.mem_flatMap, List.mem_cons, List.not_mem_nil, reduceCtorEq,
      or_false, false_or, Event.evicted.injEq] at member ⊢
    obtain ⟨shown, turned, symbol, rfl⟩ := member
    exact ⟨symbol, Or.inl ⟨name, turned, rfl⟩⟩

end Ledger.Sound

/-- Every operation tells what becomes of every entry. -/
theorem Ledger.Step.records {ledger later : Ledger} (step : Step ledger later)
    (sound : ledger.Sound) : ∃ more, ledger.store.Records more later.store := by
  cases step with
  | regroup | literal | weaken | startThread | resumeThread => exact ⟨[], .of_kept rfl fun _ _ => rfl⟩
  | pair | assignPosition | fillPosition => exact ⟨[], .of_kept rfl fun _ _ => rfl⟩
  | copy held => exact ⟨[], Store.records_retain ..⟩
  | upgrade kept live => exact ⟨[], Store.records_retain ..⟩
  | read slot held => exact ⟨[], Store.records_retain ..⟩
  | release =>
    obtain ⟨more, sheds⟩ := sound.balanced.sheds_release
    exact ⟨more, sheds.records⟩
  | write slot held =>
    obtain ⟨more, sheds⟩ := (sound.put held).balanced.sheds_release
    exact ⟨more, sheds.records.of_eq rfl rfl⟩
  | intern kind raw => exact sound.records_intern kind raw
  | fresh drawn => exact sound.records_drawFresh drawn
  | @collect store outside weaks =>
    obtain ⟨more, sheds⟩ := sound.sweep.balanced.sheds_releaseAll
    have swept : store.Records more (store.sweep.2.releaseAll store.sweep.1.2) :=
      sheds.records.of_eq rfl rfl
    exact ⟨_, swept.note store.sweep.1.1⟩

end Sexpr
