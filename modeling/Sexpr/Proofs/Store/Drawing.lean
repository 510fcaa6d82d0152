import Mathlib.Data.List.Iterate
import Sexpr.Proofs.Store.Ledger

/-!
# The search for a fresh symbol

A search draws one name after the other. It passes over names that are taken, makes a symbol for
each of the others, and gives that symbol up again unless the caller accepts it. So between two
draws the table files what it filed at the beginning (`AtomTable.release_create`), and whether a
name is free does not change in the course of the search.

`Store.Searches` is a search that ends, with the number of its draws; the recursion finds it if it
may make that many (`Searches.drawFresh_eq`, `exists_searches`). `Store.Finds` says all that it does
to a store, in terms of the names that the counter has to offer
(`Ledger.Sound.finds_of_searches`). There is such a search if the caller accepts one of the free
names that may be drawn (`Ledger.Sound.exists_searches`).

Of what the caller says only the answers to the candidates matter (`Searches.of_takesLast`), so
every search that ends is one of a caller who counts (`Searches.exists_rejecting`).
-/

namespace Sexpr

open Function

/-- The names that the next draws carry, beginning at a number. -/
def Counter.names (stem : Option String) (count : Nat) (start : UInt64) : List String :=
  (List.iterate next start count).map (freshName stem)

theorem Counter.names_succ (stem : Option String) (count : Nat) (start : UInt64) :
    names stem (count + 1) start = freshName stem start :: names stem count (next start) := rfl

theorem Counter.length_names {stem : Option String} {count : Nat} {start : UInt64} :
    (names stem count start).length = count := by
  rw [names, List.length_map, List.length_iterate]

/-- Each name carries the number that is drawn for it. -/
theorem Counter.eq_of_getElem?_names {stem : Option String} {count index : Nat} {start : UInt64}
    {name : String} (found : (names stem count start)[index]? = some name) :
    name = freshName stem (next^[index] start) := by
  obtain ⟨inside, rfl⟩ := List.getElem?_eq_some_iff.1 found
  simp only [names, List.getElem_map, List.getElem_iterate]

/-! ## One candidate -/

namespace AtomTable

variable {table : AtomTable} {kind : AtomKind} {name : String} {holdings : List Value}
  {known : List Atom}

/-- Whether a live atom has a name is a matter of the entries. -/
theorem Exact.isInterned_eq (exact : table.Exact holdings known) (kind : AtomKind) (raw : String) :
    table.isInterned kind raw = (table.filed? kind (kind.normalize raw)).isSome := by
  rw [isInterned, exact.live?_eq_filed?]

theorem Exact.isInterned_symbol (exact : table.Exact holdings known) (name : String) :
    table.isInterned .symbol name = (table.symbols[name]?).isSome := by
  rw [exact.isInterned_eq, AtomKind.normalize_symbol]
  rfl

theorem Exact.filed?_of_free (exact : table.Exact holdings known)
    (free : table.isInterned .symbol name = false) : table.filed? .symbol name = none := by
  rw [exact.isInterned_symbol, Option.isSome_eq_false_iff, Option.isNone_iff_eq_none] at free
  exact free

theorem internNew_of_free (free : table.isInterned .symbol name = false) :
    table.internNew .symbol name =
      (some (table.create .symbol name).1, (table.create .symbol name).2) := by
  rw [isInterned, AtomKind.normalize_symbol, Option.isSome_eq_false_iff, Option.isNone_iff_eq_none]
    at free
  rw [internNew, free]

theorem internNew_of_taken (taken : table.isInterned .symbol name = true) :
    table.internNew .symbol name = (none, table) := by
  rw [isInterned, AtomKind.normalize_symbol] at taken
  obtain ⟨a, found⟩ := Option.isSome_iff_exists.1 taken
  rw [internNew, found]

/-- A symbol that is made and given up at once leaves no entry. -/
theorem release_create (exact : table.Exact holdings known)
    (free : table.isInterned .symbol name = false) :
    ((table.create .symbol name).2.release (table.create .symbol name).1).1 = true ∧
      ((table.create .symbol name).2.release (table.create .symbol name).1).2.symbols =
        table.symbols ∧
      ((table.create .symbol name).2.release (table.create .symbol name).1).2.keywords =
        table.keywords := by
  have absent := exact.filed?_of_free free
  have made := exact.create absent (AtomKind.normalize_symbol name)
  have alone : .atom (table.create .symbol name).1 ∉ holdings := by
    intro held
    exact Nat.lt_irrefl _ (exact.issued _ (Or.inl held))
  rw [made.release_eq, if_neg alone]
  refine ⟨rfl, ?_, rfl⟩
  refine Std.ExtTreeMap.ext_getElem? fun key => ?_
  have erased : ((table.symbols.insert name (table.create .symbol name).1).erase name)[key]? =
      table.symbols[key]? := by
    rw [Std.ExtTreeMap.getElem?_erase, Std.ExtTreeMap.getElem?_insert]
    by_cases same : name = key
    · subst same
      rw [if_pos (by simp)]
      exact absent.symm
    · simp [same]
  exact erased

end AtomTable

namespace Store

/-! ## The caller -/

/-- Shown these names after others, the caller turns down all but the last and accepts that one. -/
def Approval.TakesLast (accepts : Approval) (shown names : List String) : Prop :=
  ∀ before name behind, names = before ++ name :: behind →
    accepts (before.reverse ++ shown) name = behind.isEmpty

namespace Approval

variable {accepts : Approval} {shown names : List String} {name : String} {rejects : Nat}

theorem takesLast_cons : accepts.TakesLast shown (name :: names) ↔
    accepts shown name = names.isEmpty ∧ accepts.TakesLast (name :: shown) names := by
  constructor
  · intro takes
    refine ⟨takes [] name names rfl, fun before next behind split => ?_⟩
    have answer := takes (name :: before) next behind (by rw [split, List.cons_append])
    rwa [List.reverse_cons, List.append_assoc] at answer
  · rintro ⟨first, takes⟩ before name behind split
    cases before with
    | nil =>
      obtain ⟨rfl, rfl⟩ := List.cons.inj split
      exact first
    | cons head before =>
      obtain ⟨rfl, others⟩ := List.cons.inj split
      rw [List.reverse_cons, List.append_assoc]
      exact takes before name behind others

/-- A caller who counts takes the last of some names if there is one more of them than are still to
be turned down. -/
theorem takesLast_rejecting (few : shown.length ≤ rejects) :
    (rejecting rejects).TakesLast shown names ↔
      names = [] ∨ shown.length + names.length = rejects + 1 := by
  induction names generalizing shown with
  | nil => simp [TakesLast]
  | cons name names ih =>
    rw [takesLast_cons, rejecting]
    cases names with
    | nil =>
      simp [TakesLast]
      omega
    | cons next names =>
      have longer : (name :: shown).length ≤ rejects ↔ shown.length < rejects := Iff.rfl
      rw [List.isEmpty_cons, decide_eq_false_iff_not, Nat.not_le]
      simp only [List.length_cons, reduceCtorEq, false_or] at ih ⊢
      constructor
      · rintro ⟨fewer, takes⟩
        have length := (ih (longer.2 fewer)).1 takes
        rw [List.length_cons] at length
        omega
      · intro length
        have fewer : shown.length < rejects := by omega
        exact ⟨fewer, (ih (longer.2 fewer)).2 (by rw [List.length_cons]; omega)⟩

end Approval

/-! ## The whole search -/

/-- Whether no live symbol has the name. -/
def isFree (store : Store) (name : String) : Bool := !store.atoms.isInterned .symbol name

/-- The search ends after `count` draws. Of the names that these carry it shows the free ones; all
but the last are turned down and leave no entry, and the last one is filed. -/
structure Finds (stem : Option String) (count : Nat) (store : Store)
    (shown : List String) (a : Atom) (after : Store) : Prop where
  shows : shown = (Counter.names stem count store.counter).filter store.isFree
  accepted : shown.getLast? = some a.name
  last : (Counter.names stem count store.counter).getLast? = some a.name
  kind : a.kind = .symbol
  heap : after.heap = store.heap
  registry : after.registry = store.registry
  symbols : after.atoms.symbols = store.atoms.symbols.insert a.name a
  keywords : after.atoms.keywords = store.atoms.keywords
  counter : after.counter = Counter.next^[count] store.counter
  trace : after.trace.toList = store.trace.toList ++
    shown.dropLast.flatMap (fun name => [.drawn name, .evicted .symbol name]) ++ [.drawn a.name]

/-- The entries after a search are the old ones and that of the symbol. -/
theorem Finds.filed? {stem : Option String} {count : Nat} {store after : Store}
    {shown : List String} {a : Atom} (finds : store.Finds stem count shown a after)
    (kind : AtomKind) (name : String) : after.atoms.filed? kind name =
      if .symbol = kind ∧ a.name = name then some a else store.atoms.filed? kind name := by
  cases kind with
  | symbol =>
    simp [AtomTable.filed?, AtomTable.entries, finds.symbols, Std.ExtTreeMap.getElem?_insert]
  | keyword => simp [AtomTable.filed?, AtomTable.entries, finds.keywords]

/-- The store after a draw that found its name taken. -/
def skip (store : Store) : Store := { store with counter := Counter.next store.counter }

/-- The store after a draw for which a symbol was made. -/
def made (stem : Option String) (store : Store) : Store :=
  let name := Counter.freshName stem store.counter
  { store with
    atoms := (store.atoms.create .symbol name).2
    counter := Counter.next store.counter
    trace := store.trace.push (.drawn name) }

/-- The symbol that was made for a draw. -/
def candidate (stem : Option String) (store : Store) : Atom :=
  (store.atoms.create .symbol (Counter.freshName stem store.counter)).1

/-- The store after a draw whose candidate was turned down. -/
def rejected (stem : Option String) (store : Store) : Store :=
  (store.made stem).releaseAtom (store.candidate stem)

variable {stem : Option String} {accepts : Approval} {draws : Nat} {shown : List String}
  {store : Store}

@[simp] theorem heap_skip : store.skip.heap = store.heap := by rw [skip]

@[simp] theorem registry_skip : store.skip.registry = store.registry := by rw [skip]

@[simp] theorem atoms_skip : store.skip.atoms = store.atoms := by rw [skip]

@[simp] theorem counter_skip : store.skip.counter = Counter.next store.counter := by rw [skip]

@[simp] theorem trace_skip : store.skip.trace = store.trace := by rw [skip]

@[simp] theorem isFree_skip : store.skip.isFree = store.isFree := by
  funext name
  rw [isFree, isFree, atoms_skip]

@[simp] theorem heap_rejected : (store.rejected stem).heap = store.heap := by
  rw [rejected, heap_releaseAtom, made]

@[simp] theorem registry_rejected : (store.rejected stem).registry = store.registry := by
  rw [rejected, registry_releaseAtom, made]

@[simp] theorem counter_rejected :
    (store.rejected stem).counter = Counter.next store.counter := by
  rw [rejected, releaseAtom, made]

theorem drawFresh_of_taken (taken : store.isFree (Counter.freshName stem store.counter) = false) :
    store.drawFresh stem accepts (draws + 1) shown =
      store.skip.drawFresh stem accepts draws shown := by
  rw [isFree, Bool.not_eq_false'] at taken
  rw [drawFresh]
  simp only [AtomTable.internNew_of_taken taken]
  rfl

theorem drawFresh_of_accepted
    (free : store.isFree (Counter.freshName stem store.counter) = true)
    (accepted : accepts shown (Counter.freshName stem store.counter) = true) :
    store.drawFresh stem accepts (draws + 1) shown =
      (some ⟨(Counter.freshName stem store.counter :: shown).reverse, store.candidate stem⟩,
        store.made stem) := by
  rw [isFree, Bool.not_eq_true'] at free
  rw [drawFresh]
  simp only [AtomTable.internNew_of_free free, accepted]
  rfl

theorem drawFresh_of_rejected
    (free : store.isFree (Counter.freshName stem store.counter) = true)
    (turned : accepts shown (Counter.freshName stem store.counter) = false) :
    store.drawFresh stem accepts (draws + 1) shown =
      (store.rejected stem).drawFresh stem accepts draws
        (Counter.freshName stem store.counter :: shown) := by
  rw [isFree, Bool.not_eq_true'] at free
  rw [drawFresh]
  simp only [AtomTable.internNew_of_free free, turned]
  rfl

/-- A search that ends with its draw number `count`, after some names were shown. -/
inductive Searches (stem : Option String) (accepts : Approval) :
    Nat → List String → Store → Fresh → Store → Prop
  | taken {count : Nat} {shown : List String} {store after : Store} {drawn : Fresh} :
    store.isFree (Counter.freshName stem store.counter) = false →
    Searches stem accepts count shown store.skip drawn after →
    Searches stem accepts (count + 1) shown store drawn after
  | accepted {shown : List String} {store : Store} :
    store.isFree (Counter.freshName stem store.counter) = true →
    accepts shown (Counter.freshName stem store.counter) = true →
    Searches stem accepts 1 shown store
      ⟨(Counter.freshName stem store.counter :: shown).reverse, store.candidate stem⟩
      (store.made stem)
  | rejected {count : Nat} {shown : List String} {store after : Store} {drawn : Fresh} :
    store.isFree (Counter.freshName stem store.counter) = true →
    accepts shown (Counter.freshName stem store.counter) = false →
    Searches stem accepts count (Counter.freshName stem store.counter :: shown)
      (store.rejected stem) drawn after →
    Searches stem accepts (count + 1) shown store drawn after

/-- The search by recursion ends if it may make the draws that it takes. -/
theorem Searches.drawFresh_eq {count : Nat} {drawn : Fresh} {after : Store}
    (searches : Searches stem accepts count shown store drawn after) (enough : count ≤ draws) :
    store.drawFresh stem accepts draws shown = (some drawn, after) := by
  induction searches generalizing draws with
  | taken free _ ih =>
    obtain ⟨draws, rfl⟩ := Nat.exists_eq_add_of_le' (Nat.zero_lt_of_lt enough)
    rw [drawFresh_of_taken free]
    exact ih (Nat.le_of_succ_le_succ enough)
  | accepted free answer =>
    obtain ⟨draws, rfl⟩ := Nat.exists_eq_add_of_le' enough
    exact drawFresh_of_accepted free answer
  | rejected free answer _ ih =>
    obtain ⟨draws, rfl⟩ := Nat.exists_eq_add_of_le' (Nat.zero_lt_of_lt enough)
    rw [drawFresh_of_rejected free answer]
    exact ih (Nat.le_of_succ_le_succ enough)

theorem exists_searches {drawn : Fresh} {after : Store}
    (done : store.drawFresh stem accepts draws shown = (some drawn, after)) :
    ∃ count ≤ draws, Searches stem accepts count shown store drawn after := by
  induction draws generalizing store shown with
  | zero => cases done
  | succ draws ih =>
    cases free : store.isFree (Counter.freshName stem store.counter) with
    | false =>
      rw [drawFresh_of_taken free] at done
      obtain ⟨count, le, searches⟩ := ih done
      exact ⟨count + 1, Nat.succ_le_succ le, .taken free searches⟩
    | true =>
      cases answer : accepts shown (Counter.freshName stem store.counter) with
      | true =>
        rw [drawFresh_of_accepted free answer] at done
        cases (Prod.mk.inj done).1
        cases (Prod.mk.inj done).2
        exact ⟨1, Nat.succ_le_succ (Nat.zero_le _), .accepted free answer⟩
      | false =>
        rw [drawFresh_of_rejected free answer] at done
        obtain ⟨count, le, searches⟩ := ih done
        exact ⟨count + 1, Nat.succ_le_succ le, .rejected free answer searches⟩

/-! ## What the search owes to the caller -/

namespace Searches

variable {count rejects : Nat} {drawn : Fresh} {after : Store} {more : List String}

/-- What a search has shown it showed in turn, and of that only the last name was accepted. -/
theorem exists_takesLast (searches : Searches stem accepts count shown store drawn after) :
    ∃ more ≠ [], drawn.candidates = shown.reverse ++ more ∧ accepts.TakesLast shown more := by
  induction searches with
  | taken _ _ ih => exact ih
  | accepted _ answer =>
    refine ⟨[_], List.cons_ne_nil _ _, List.reverse_cons, ?_⟩
    exact Approval.takesLast_cons.2 ⟨answer, by simp [Approval.TakesLast]⟩
  | rejected _ answer _ ih =>
    obtain ⟨more, filled, shows, takes⟩ := ih
    refine ⟨_ :: more, List.cons_ne_nil _ _, ?_, Approval.takesLast_cons.2 ⟨?_, takes⟩⟩
    · rw [shows, List.reverse_cons, List.append_assoc]
      rfl
    · rw [answer, List.isEmpty_eq_false_iff.2 filled]

/-- Two callers who give the same answers to what is shown are led to the same symbol. -/
theorem of_takesLast {accepts' : Approval}
    (searches : Searches stem accepts count shown store drawn after)
    (shows : drawn.candidates = shown.reverse ++ more) (takes : accepts'.TakesLast shown more) :
    Searches stem accepts' count shown store drawn after := by
  induction searches generalizing more with
  | taken free _ ih => exact .taken free (ih shows takes)
  | accepted free =>
    obtain rfl := List.append_cancel_left (List.reverse_cons.symm.trans shows)
    exact .accepted free (Approval.takesLast_cons.1 takes).1
  | rejected free _ rest ih =>
    obtain ⟨others, filled, shows', -⟩ := rest.exists_takesLast
    rw [shows, List.reverse_cons, List.append_assoc, List.append_cancel_left_eq] at shows'
    subst shows'
    obtain ⟨answer, takes⟩ := Approval.takesLast_cons.1 takes
    refine .rejected free (answer.trans (List.isEmpty_eq_false_iff.2 filled)) (ih ?_ takes)
    rw [shows, List.reverse_cons, List.append_assoc]
    rfl

/-- A caller who counts is shown one candidate more than it turns down. -/
theorem length_candidates
    (searches : Searches stem (.rejecting rejects) count [] store drawn after) :
    drawn.candidates.length = rejects + 1 ∧
      (Approval.rejecting rejects).TakesLast [] drawn.candidates := by
  obtain ⟨more, filled, shows, takes⟩ := searches.exists_takesLast
  obtain rfl : drawn.candidates = more := shows
  have length := ((Approval.takesLast_rejecting (Nat.zero_le _)).1 takes).resolve_left filled
  rw [List.length_nil, Nat.zero_add] at length
  exact ⟨length, takes⟩

/-- Whatever made the caller turn candidates down, it might as well have counted them. -/
theorem exists_rejecting (searches : Searches stem accepts count [] store drawn after) :
    ∃ rejects, Searches stem (.rejecting rejects) count [] store drawn after := by
  obtain ⟨more, filled, shows, -⟩ := searches.exists_takesLast
  refine ⟨more.length - 1, searches.of_takesLast shows ?_⟩
  refine (Approval.takesLast_rejecting (Nat.zero_le _)).2 (Or.inr ?_)
  rw [List.length_nil, Nat.zero_add, Nat.sub_add_cancel (List.length_pos_iff.2 filled)]

end Searches

theorem drawFresh_of_fresh {rejects : Nat} {drawn : Fresh} {after : Store}
    (done : store.fresh stem rejects = (.ok drawn, after)) :
    store.drawFresh stem (.rejecting rejects) (store.atoms.symbols.size + rejects + 1) [] =
      (some drawn, after) := by
  unfold fresh at done
  split at done
  case h_1 found =>
    cases (Prod.mk.inj done).1
    cases (Prod.mk.inj done).2
    exact found
  case h_2 => cases (Prod.mk.inj done).1

end Store

namespace Ledger.Sound

variable {store : Store} {outside : List Value} {weaks : List Weak} {stem : Option String}
  {accepts : Store.Approval} {draws : Nat} {shown : List String}

theorem skip (sound : Sound ⟨store, outside, weaks⟩) : Sound ⟨store.skip, outside, weaks⟩ := by
  refine sound.of_atoms Store.heap_skip Store.registry_skip (fun _ => rfl) ?_
  rw [Store.atoms_skip]
  exact sound.atoms

theorem made (sound : Sound ⟨store, outside, weaks⟩)
    (free : store.isFree (Counter.freshName stem store.counter) = true) :
    Sound ⟨store.made stem, .atom (store.candidate stem) :: outside, weaks⟩ := by
  rw [Store.isFree, Bool.not_eq_true'] at free
  unfold Store.made
  refine sound.of_atoms rfl rfl (fun p => ?_) ?_
  · simp [Value.atom]
  · exact sound.atoms.create (sound.atoms.filed?_of_free free) (AtomKind.normalize_symbol _)

/-- What a candidate that is turned down leaves. -/
theorem rejected (sound : Sound ⟨store, outside, weaks⟩)
    (free : store.isFree (Counter.freshName stem store.counter) = true) :
    Sound ⟨store.rejected stem, outside, weaks⟩ :=
  (sound.made free).releaseAtom

/-- A candidate that is turned down leaves the tables as they were. -/
theorem tables_rejected (sound : Sound ⟨store, outside, weaks⟩)
    (free : store.isFree (Counter.freshName stem store.counter) = true) :
    (store.rejected stem).atoms.symbols = store.atoms.symbols ∧
      (store.rejected stem).atoms.keywords = store.atoms.keywords ∧
      (store.rejected stem).trace = (store.trace.push
        (.drawn (Counter.freshName stem store.counter))).push
        (.evicted .symbol (Counter.freshName stem store.counter)) := by
  rw [Store.isFree, Bool.not_eq_true'] at free
  obtain ⟨removed, symbols, keywords⟩ := AtomTable.release_create sound.atoms free
  have atoms : (store.rejected stem).atoms =
      ((store.atoms.create .symbol (Counter.freshName stem store.counter)).2.release
        (store.candidate stem)).2 := by
    rw [Store.rejected, Store.atoms_releaseAtom, Store.made]
  refine ⟨(congrArg AtomTable.symbols atoms).trans symbols,
    (congrArg AtomTable.keywords atoms).trans keywords, ?_⟩
  rw [Store.rejected, Store.releaseAtom, Store.made]
  simp only [Store.candidate, removed, if_true]
  rfl

/-- Two stores that file the same symbols have the same free names. -/
theorem isFree_eq {other : Store} {outside' : List Value} {weaks' : List Weak}
    (sound : Sound ⟨store, outside, weaks⟩) (sound' : Sound ⟨other, outside', weaks'⟩)
    (same : other.atoms.symbols = store.atoms.symbols) : other.isFree = store.isFree := by
  funext name
  rw [Store.isFree, Store.isFree, sound.atoms.isInterned_symbol, sound'.atoms.isInterned_symbol,
    same]

/-! ## One draw in front -/

/-- A name that is taken is passed over. -/
theorem finds_of_skip {count : Nat} {a : Atom} {after : Store}
    (taken : store.isFree (Counter.freshName stem store.counter) = false)
    (finds : store.skip.Finds stem count shown a after) :
    store.Finds stem (count + 1) shown a after where
  shows := by
    rw [Counter.names_succ, List.filter_cons_of_neg (by simp [taken]), finds.shows,
      Store.counter_skip, Store.isFree_skip]
  accepted := finds.accepted
  last := by
    have last := finds.last
    rw [Store.counter_skip] at last
    exact List.mem_getLast?_cons last
  kind := finds.kind
  heap := by rw [finds.heap, Store.heap_skip]
  registry := by rw [finds.registry, Store.registry_skip]
  symbols := by rw [finds.symbols, Store.atoms_skip]
  keywords := by rw [finds.keywords, Store.atoms_skip]
  counter := by rw [finds.counter, Store.counter_skip, iterate_succ_apply]
  trace := by rw [finds.trace, Store.trace_skip]

/-- The first free name may be accepted. -/
theorem finds_made (free : store.isFree (Counter.freshName stem store.counter) = true) :
    store.Finds stem 1 [Counter.freshName stem store.counter] (store.candidate stem)
      (store.made stem) where
  shows := by
    rw [Counter.names_succ, List.filter_cons_of_pos free]
    rfl
  accepted := rfl
  last := rfl
  kind := rfl
  heap := by rw [Store.made]
  registry := by rw [Store.made]
  symbols := by rw [Store.made]; rfl
  keywords := by rw [Store.made]; rfl
  counter := by rw [Store.made, iterate_one]
  trace := by
    rw [Store.made, Array.toList_push, List.dropLast_singleton, List.flatMap_nil, List.append_nil]
    rfl

/-- A candidate that is turned down is made and given up, and the search goes on. -/
theorem finds_of_rejected {count : Nat} {a : Atom} {after : Store}
    (sound : Sound ⟨store, outside, weaks⟩)
    (free : store.isFree (Counter.freshName stem store.counter) = true)
    (finds : (store.rejected stem).Finds stem count shown a after) :
    store.Finds stem (count + 1) (Counter.freshName stem store.counter :: shown) a after := by
  obtain ⟨symbols, keywords, trace⟩ := sound.tables_rejected free
  have same := sound.isFree_eq (sound.rejected free) symbols
  have filled : shown ≠ [] := List.ne_nil_of_mem (List.mem_of_getLast? finds.accepted)
  refine ⟨?_, ?_, ?_, finds.kind, ?_, ?_, ?_, ?_, ?_, ?_⟩
  · rw [Counter.names_succ, List.filter_cons_of_pos free, ← same, ← Store.counter_rejected,
      ← finds.shows]
  · exact List.mem_getLast?_cons finds.accepted
  · have last := finds.last
    rw [Store.counter_rejected] at last
    exact List.mem_getLast?_cons last
  · rw [finds.heap, Store.heap_rejected]
  · rw [finds.registry, Store.registry_rejected]
  · rw [finds.symbols, symbols]
  · rw [finds.keywords, keywords]
  · rw [finds.counter, Store.counter_rejected, iterate_succ_apply]
  · rw [finds.trace, trace, List.dropLast_cons_of_ne_nil filled]
    simp

/-! ## All draws -/

/-- However many names are drawn, the one that is accepted is held and no other is left. -/
theorem searches {count : Nat} {drawn : Store.Fresh} {after : Store}
    (sound : Sound ⟨store, outside, weaks⟩)
    (searches : Store.Searches stem accepts count shown store drawn after) :
    Sound ⟨after, .atom drawn.atom :: outside, weaks⟩ := by
  induction searches with
  | taken _ _ ih => exact ih sound.skip
  | accepted free => exact sound.made free
  | rejected free _ _ ih => exact ih (sound.rejected free)

theorem drawFresh {drawn : Store.Fresh} {after : Store} (sound : Sound ⟨store, outside, weaks⟩)
    (done : store.drawFresh stem accepts draws shown = (some drawn, after)) :
    Sound ⟨after, .atom drawn.atom :: outside, weaks⟩ := by
  obtain ⟨count, -, searches⟩ := Store.exists_searches done
  exact sound.searches searches

/-- A search that ends has found something. -/
theorem finds_of_searches {count : Nat} {drawn : Store.Fresh} {after : Store}
    (sound : Sound ⟨store, outside, weaks⟩)
    (searches : Store.Searches stem accepts count shown store drawn after) :
    ∃ more, drawn.candidates = shown.reverse ++ more ∧
      store.Finds stem count more drawn.atom after := by
  induction searches with
  | taken free _ ih =>
    obtain ⟨more, shows, finds⟩ := ih sound.skip
    exact ⟨more, shows, finds_of_skip free finds⟩
  | accepted free => exact ⟨_, List.reverse_cons, finds_made free⟩
  | rejected free _ _ ih =>
    obtain ⟨more, shows, finds⟩ := ih (sound.rejected free)
    refine ⟨_, ?_, sound.finds_of_rejected free finds⟩
    rw [shows, List.reverse_cons, List.append_assoc]
    rfl

/-- A whole search shows the names that it finds. -/
theorem finds_candidates {count : Nat} {drawn : Store.Fresh} {after : Store}
    (sound : Sound ⟨store, outside, weaks⟩)
    (searches : Store.Searches stem accepts count [] store drawn after) :
    store.Finds stem count drawn.candidates drawn.atom after := by
  obtain ⟨more, shows, finds⟩ := sound.finds_of_searches searches
  obtain rfl : drawn.candidates = more := shows
  exact finds

theorem finds_of_drawFresh {drawn : Store.Fresh} {after : Store}
    (sound : Sound ⟨store, outside, weaks⟩)
    (done : store.drawFresh stem accepts draws [] = (some drawn, after)) :
    ∃ count, store.Finds stem count drawn.candidates drawn.atom after := by
  obtain ⟨count, -, searches⟩ := Store.exists_searches done
  exact ⟨count, sound.finds_candidates searches⟩

/-- A search ends if the caller accepts one of the free names that may be drawn. -/
theorem exists_searches {before behind : List String} {name : String} (shown : List String)
    (sound : Sound ⟨store, outside, weaks⟩)
    (offered : (Counter.names stem draws store.counter).filter store.isFree =
      before ++ name :: behind)
    (accepted : accepts (before.reverse ++ shown) name = true) :
    ∃ count ≤ draws, ∃ drawn after, Store.Searches stem accepts count shown store drawn after := by
  -- Along the draws the free names stay the same, and those before the accepted one get fewer.
  induction draws generalizing store shown before with
  | zero => cases (List.append_eq_nil_iff.1 offered.symm).2
  | succ draws ih =>
    rw [Counter.names_succ] at offered
    cases free : store.isFree (Counter.freshName stem store.counter) with
    | false =>
      rw [List.filter_cons_of_neg (by simp [free]), ← Store.isFree_skip, ← Store.counter_skip]
        at offered
      obtain ⟨count, le, drawn, after, searches⟩ := ih shown sound.skip offered accepted
      exact ⟨count + 1, Nat.succ_le_succ le, drawn, after, .taken free searches⟩
    | true =>
      cases answer : accepts shown (Counter.freshName stem store.counter) with
      | true => exact ⟨1, Nat.succ_le_succ (Nat.zero_le _), _, _, .accepted free answer⟩
      | false =>
        have same := sound.isFree_eq (sound.rejected free) (sound.tables_rejected free).1
        rw [List.filter_cons_of_pos free, ← same, ← @Store.counter_rejected stem store] at offered
        cases before with
        | nil =>
          obtain ⟨rfl, -⟩ := List.cons.inj offered
          rw [List.reverse_nil, List.nil_append, answer] at accepted
          cases accepted
        | cons first before =>
          obtain ⟨rfl, others⟩ := List.cons.inj offered
          rw [List.reverse_cons, List.append_assoc] at accepted
          obtain ⟨count, le, drawn, after, searches⟩ := ih _ (sound.rejected free) others accepted
          exact ⟨count + 1, Nat.succ_le_succ le, drawn, after, .rejected free answer searches⟩

/-- The search of a caller who counts ends if more names are free than it turns down. -/
theorem exists_searches_rejecting {rejects : Nat} (sound : Sound ⟨store, outside, weaks⟩)
    (enough : rejects < ((Counter.names stem draws store.counter).filter store.isFree).length) :
    ∃ count ≤ draws, ∃ drawn after,
      Store.Searches stem (.rejecting rejects) count [] store drawn after := by
  set offered := (Counter.names stem draws store.counter).filter store.isFree with offers
  have split :
      offered = offered.take rejects ++ offered[rejects] :: offered.drop (rejects + 1) := by
    rw [List.getElem_cons_drop, List.take_append_drop]
  refine sound.exists_searches [] (offers.symm.trans split) ?_
  rw [Store.Approval.rejecting, List.append_nil, List.length_reverse,
    List.length_take_of_le (Nat.le_of_lt enough)]
  exact decide_eq_true le_rfl

end Ledger.Sound

end Sexpr
