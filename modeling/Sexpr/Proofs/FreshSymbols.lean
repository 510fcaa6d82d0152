import Mathlib.Data.List.Dedup
import Sexpr.Proofs.FreshNames
import Sexpr.Proofs.Store.Drawing

/-!
# A search for a fresh symbol ends

Nothing in a search grows or shrinks that would make it end. It ends because of what the counter
has to offer: within `2 ^ 32` draws no name comes twice (`Counter.nodup_names`), and each name that
is passed over belongs to a live symbol. So the names that are taken are at most as many as the live
symbols that carry the stem and a number (`Ledger.Sound.countP_taken_le`), and one draw more than
these and the rejections is enough (`Ledger.Reached.enough`).

`DrawsFresh` collects what a search returns, shows and leaves behind. `Reached.drawsFresh` proves it
of every ledger that operations lead to.
-/

namespace Sexpr

open Function

/-! ## Names that carry a number -/

namespace Counter

/-- Whether a name consists of the stem and some number. -/
def isNumbered (stem : Option String) (name : String) : Bool :=
  let digits := (name.toList.reverse.takeWhile (· != '#')).reverse
  name == freshName stem (UInt64.ofNat (Text.ofHexDigits digits))

theorem isNumbered_iff {stem : Option String} {name : String} :
    isNumbered stem name = true ↔ ∃ n, name = freshName stem n := by
  constructor
  · intro numbered
    exact ⟨_, beq_iff_eq.1 numbered⟩
  · intro numbered
    obtain ⟨n, rfl⟩ := numbered
    rw [isNumbered, takeWhile_reverse_freshName, List.reverse_reverse, Text.ofHexDigits_hexDigits,
      UInt64.ofNat_toNat]
    exact beq_iff_eq.2 rfl

variable {stem : Option String} {count : Nat} {start : UInt64} {name : String}

theorem isNumbered_of_mem_names (member : name ∈ names stem count start) :
    isNumbered stem name = true := by
  obtain ⟨n, -, rfl⟩ := List.mem_map.1 member
  exact isNumbered_iff.2 ⟨n, rfl⟩

/-- Wherever the counter has come to, it offers no name twice before it has gone round. -/
theorem nodup_names (stem : Option String) (index : Nat) (short : count ≤ lap) :
    (names stem count (draw index)).Nodup := by
  refine List.Nodup.map (fun n m => freshName_inj) ?_
  rw [List.Nodup, List.pairwise_iff_getElem]
  intro first second _ inside later
  rw [List.length_iterate] at inside
  rw [List.getElem_iterate, List.getElem_iterate, draw, ← iterate_add_apply, ← iterate_add_apply]
  exact draw_ne_draw (Nat.add_lt_add_right later index) (by omega)

end Counter

/-! ## Live symbols -/

namespace Ledger

/-- The symbols that are held anywhere, each of them once. -/
def liveSymbols (ledger : Ledger) : List Atom :=
  ((ledger.holdings.filterMap Value.atom?).filter (·.kind = .symbol)).dedup

/-- The number of live symbols whose name consists of the stem and a number. -/
def numbered (ledger : Ledger) (stem : Option String) : Nat :=
  ledger.liveSymbols.countP (Counter.isNumbered stem ·.name)

theorem mem_liveSymbols {ledger : Ledger} {a : Atom} :
    a ∈ ledger.liveSymbols ↔ .atom a ∈ ledger.holdings ∧ a.kind = .symbol := by
  have atom : ∀ value : Value, value.atom? = some a ↔ value = .atom a := by
    intro value
    rcases value with s | p
    · cases s <;> simp [Value.atom?, Value.atom]
    · simp [Value.atom?, Value.atom]
  simp [liveSymbols, atom]

namespace Sound

variable {ledger : Ledger} {stem : Option String}

/-- A name that is not free is that of a live symbol. -/
theorem exists_liveSymbol {name : String} (sound : ledger.Sound)
    (taken : ledger.store.isFree name = false) :
    ∃ a ∈ ledger.liveSymbols, a.name = name := by
  rw [Store.isFree, Bool.not_eq_false', sound.atoms.isInterned_eq, AtomKind.normalize_symbol,
    Option.isSome_iff_exists] at taken
  obtain ⟨a, entry⟩ := taken
  obtain ⟨held, symbol, named⟩ := sound.atoms.keyed _ _ a entry
  exact ⟨a, mem_liveSymbols.2 ⟨held, symbol⟩, named⟩

/-- No two live symbols have one name, so there are no more of them than entries. -/
theorem length_liveSymbols_le (sound : ledger.Sound) :
    ledger.liveSymbols.length ≤ ledger.store.atoms.symbols.size := by
  have filed : ∀ a ∈ ledger.liveSymbols, ledger.store.atoms.symbols[a.name]? = some a := by
    intro a live
    obtain ⟨held, symbol⟩ := mem_liveSymbols.1 live
    have entry := sound.atoms.filed a held
    rw [symbol] at entry
    exact entry
  have distinct : (ledger.liveSymbols.map Atom.name).Nodup := by
    refine List.Nodup.map_on ?_ (List.nodup_dedup _)
    intro a liveA b liveB same
    have entry := filed a liveA
    rw [same, filed b liveB] at entry
    exact (Option.some.inj entry).symm
  have among : ledger.liveSymbols.map Atom.name ⊆ ledger.store.atoms.symbols.keys := by
    intro name member
    obtain ⟨a, live, rfl⟩ := List.mem_map.1 member
    rw [Std.ExtTreeMap.mem_keys, Std.ExtTreeMap.mem_iff_isSome_getElem?, filed a live]
    rfl
  have few := (distinct.subperm among).length_le
  rwa [List.length_map, Std.ExtTreeMap.length_keys] at few

/-- Among names without repetition, the taken ones are no more than the live symbols that carry
such names. -/
theorem countP_taken_le {count : Nat} {start : UInt64} (sound : ledger.Sound)
    (distinct : (Counter.names stem count start).Nodup) :
    (Counter.names stem count start).countP (!ledger.store.isFree ·) ≤ ledger.numbered stem := by
  have among : (Counter.names stem count start).filter (!ledger.store.isFree ·) ⊆
      (ledger.liveSymbols.filter (Counter.isNumbered stem ·.name)).map Atom.name := by
    intro name member
    obtain ⟨offered, taken⟩ := List.mem_filter.1 member
    obtain ⟨a, live, rfl⟩ := sound.exists_liveSymbol ((Bool.not_eq_true' _).mp taken)
    refine List.mem_map.2 ⟨a, List.mem_filter.2 ⟨live, ?_⟩, rfl⟩
    exact Counter.isNumbered_of_mem_names offered
  have few := ((distinct.filter _).subperm among).length_le
  rwa [List.length_map, ← List.countP_eq_length_filter, ← List.countP_eq_length_filter] at few

end Sound

/-- With one draw more than there are numbered symbols and rejections, enough names are free. -/
theorem Reached.enough {ledger : Ledger} {stem : Option String} {rejects : Nat}
    (reached : Reached ledger) (short : ledger.numbered stem + rejects + 1 ≤ Counter.lap) :
    rejects < ((Counter.names stem (ledger.numbered stem + rejects + 1)
      ledger.store.counter).filter ledger.store.isFree).length := by
  obtain ⟨names, history⟩ := reached.exists_history
  set offered := Counter.names stem (ledger.numbered stem + rejects + 1) ledger.store.counter
    with offers
  have distinct : offered.Nodup := by
    rw [offers, history.counter]
    exact Counter.nodup_names stem _ short
  have taken : offered.countP (!ledger.store.isFree ·) ≤ ledger.numbered stem :=
    reached.sound.countP_taken_le distinct
  have all := offered.length_eq_countP_add_countP ledger.store.isFree
  have length : offered.length = ledger.numbered stem + rejects + 1 := Counter.length_names
  simp only [Bool.not_eq_true, Bool.decide_eq_false] at all
  rw [← List.countP_eq_length_filter]
  omega

/-! ## The whole search -/

/-- What a search for a fresh symbol returns, shows and leaves behind. -/
structure DrawsFresh (ledger : Ledger) (stem : Option String) (rejects : Nat)
    (drawn : Store.Fresh) (after : Store) : Prop where
  returns : ledger.store.fresh stem rejects = (.ok drawn, after)
  /-- Whoever turns down all candidates but the last one and accepts that is led to this symbol. The
  search takes `count` draws, which the counter shows, and would take no more if it might; the last
  of them is accepted. Those of the names drawn that were free at its beginning are the candidates,
  in turn. -/
  draws : ∃ count ≤ ledger.numbered stem + rejects + 1,
    after.counter = Counter.next^[count] ledger.store.counter ∧
    (∀ accepts : Store.Approval, accepts.TakesLast [] drawn.candidates →
      ∀ more ≥ count, ledger.store.drawFresh stem accepts more [] = (some drawn, after)) ∧
    (Counter.names stem count ledger.store.counter).getLast? = some drawn.atom.name ∧
    drawn.candidates = (Counter.names stem count ledger.store.counter).filter
      fun name => !ledger.store.atoms.isInterned .symbol name
  /-- Of the candidates `rejects` are turned down, and the next one is accepted. -/
  accepts : drawn.candidates.length = rejects + 1 ∧
    drawn.candidates.getLast? = some drawn.atom.name ∧ drawn.atom.kind = .symbol
  /-- Whoever turns down so many candidates and accepts the next one is such a caller. -/
  counts : (Store.Approval.rejecting rejects).TakesLast [] drawn.candidates
  unused : ledger.store.atoms.isInterned .symbol drawn.atom.name = false
  /-- The entries are the old ones and that of the symbol. -/
  files : after.atoms.symbols = ledger.store.atoms.symbols.insert drawn.atom.name drawn.atom ∧
    after.atoms.keywords = ledger.store.atoms.keywords
  interns : ∀ name, after.atoms.isInterned .symbol name =
    (ledger.store.atoms.isInterned .symbol name || drawn.atom.name == name)
  /-- No candidate that was turned down is left. -/
  evicts : ∀ name ∈ drawn.candidates.dropLast, after.atoms.isInterned .symbol name = false
  keeps : after.heap = ledger.store.heap ∧ after.registry = ledger.store.registry

variable {ledger : Ledger} {stem : Option String} {count : Nat} {drawn : Store.Fresh}
  {after : Store}

/-- After a search the names of live symbols are the old ones and that of the new symbol. -/
theorem Sound.isInterned_of_finds (sound : ledger.Sound)
    (sound' : Sound ⟨after, .atom drawn.atom :: ledger.outside, ledger.weaks⟩)
    (finds : ledger.store.Finds stem count drawn.candidates drawn.atom after)
    (name : String) : after.atoms.isInterned .symbol name =
      (ledger.store.atoms.isInterned .symbol name || drawn.atom.name == name) := by
  rw [sound'.atoms.isInterned_symbol, sound.atoms.isInterned_symbol, finds.symbols,
    Std.ExtTreeMap.getElem?_insert]
  by_cases same : drawn.atom.name = name <;> simp [same]

/-- All that a search shows was free at its beginning. -/
theorem free_of_finds {name : String}
    (finds : ledger.store.Finds stem count drawn.candidates drawn.atom after)
    (member : name ∈ drawn.candidates) : ledger.store.atoms.isInterned .symbol name = false := by
  rw [finds.shows] at member
  exact (Bool.not_eq_true' _).mp (List.mem_filter.1 member).2

/-- The candidate that is accepted differs from those that are turned down. -/
theorem Reached.ne_of_mem_dropLast {name : String} (reached : Reached ledger)
    (finds : ledger.store.Finds stem count drawn.candidates drawn.atom after)
    (short : count ≤ Counter.lap) (member : name ∈ drawn.candidates.dropLast) :
    drawn.atom.name ≠ name := by
  obtain ⟨names, history⟩ := reached.exists_history
  have distinct : drawn.candidates.Nodup := by
    rw [finds.shows, history.counter]
    exact (Counter.nodup_names stem _ short).filter _
  have split : drawn.candidates.dropLast ++ [drawn.atom.name] = drawn.candidates :=
    List.dropLast_append_getLast? drawn.atom.name finds.accepted
  rw [← split] at distinct
  rintro rfl
  exact List.disjoint_of_nodup_append distinct member List.mem_cons_self

/-- From every ledger that operations lead to, a search for a fresh symbol ends well. -/
theorem Reached.drawsFresh (reached : Reached ledger) (stem : Option String) (rejects : Nat)
    (few : ledger.liveSymbols.length < 2 ^ 31) (short : rejects < 2 ^ 31) :
    ∃ drawn after, DrawsFresh ledger stem rejects drawn after := by
  have sound := reached.sound
  have fewer : ledger.numbered stem ≤ ledger.liveSymbols.length := List.countP_le_length
  have far := Counter.two_pow_lt_lap
  have near : ledger.numbered stem + rejects + 1 ≤ Counter.lap := by omega
  obtain ⟨count, le, drawn, after, searches⟩ :=
    sound.exists_searches_rejecting (reached.enough near)
  have finds := sound.finds_candidates searches
  obtain ⟨length, counts⟩ := searches.length_candidates
  have whoever : ∀ accepts : Store.Approval, accepts.TakesLast [] drawn.candidates →
      ∀ more ≥ count, ledger.store.drawFresh stem accepts more [] = (some drawn, after) :=
    fun accepts takes more enough => (searches.of_takesLast rfl takes).drawFresh_eq enough
  -- There are at least as many symbols in the table as carry the stem.
  have bound := sound.length_liveSymbols_le
  have returns : ledger.store.fresh stem rejects = (.ok drawn, after) := by
    rw [Store.fresh, whoever _ counts _ (by omega)]
  have interns := sound.isInterned_of_finds (sound.searches searches) finds
  have accepted : drawn.atom.name ∈ drawn.candidates := List.mem_of_getLast? finds.accepted
  refine ⟨drawn, after, returns, ⟨count, le, finds.counter, whoever, finds.last, finds.shows⟩,
    ⟨length, finds.accepted, finds.kind⟩, counts, free_of_finds finds accepted,
    ⟨finds.symbols, finds.keywords⟩, interns, ?_, ⟨finds.heap, finds.registry⟩⟩
  intro name member
  have other := reached.ne_of_mem_dropLast finds (le.trans near) member
  rw [interns, free_of_finds finds (List.mem_of_mem_dropLast member), beq_eq_false_iff_ne.2 other]
  rfl

/-- The first name that the counter has to offer is taken, the second is turned down and the third
is accepted: with one numbered symbol and one rejection these are all the draws that may be
needed. -/
theorem drawsFresh_of_taken :
    let named := Store.empty.intern .symbol "<gensym>#17cfb"
    let ledger : Ledger := ⟨named.2, [.atom named.1], []⟩
    Reached ledger ∧ ledger.liveSymbols.length < 2 ^ 31 ∧ ledger.numbered none = 1 ∧
      ∃ drawn after, DrawsFresh ledger none 1 drawn after ∧
        drawn.candidates = ["<gensym>#96e4a8d0ef91c", "<gensym>#e74ec7f53785f7bf"] := by
  intro named ledger
  have reached : Reached ledger := .single (.intern .symbol "<gensym>#17cfb")
  have few : ledger.liveSymbols.length < 2 ^ 31 := by decide +kernel
  obtain ⟨drawn, after, draws⟩ := reached.drawsFresh none 1 few (by decide)
  refine ⟨reached, few, by decide +kernel, drawn, after, draws, ?_⟩
  have shown : (named.2.fresh none 1).1.toOption.map Store.Fresh.candidates =
      some ["<gensym>#96e4a8d0ef91c", "<gensym>#e74ec7f53785f7bf"] := by decide +kernel
  rw [draws.returns] at shown
  exact Option.some.inj shown

end Ledger

end Sexpr
