import Sexpr.Proofs.Atom.Draws
import Sexpr.Proofs.Store.Runs

/-!
# Fresh names do not come again

A search for a fresh symbol forms one name for each number that it draws: names that turn out to be
taken, names that are turned down, and the one that is accepted. `Store.formed` lists them, and a
`History` is a run of operations on a store with all the names that were formed in it.

Only a search moves the counter, once for each name that it forms (`Searches.formed_eq`,
`Searches.counter_eq`). So the names of a history carry the draws of the counter one after the other
(`History.names`), and no two of them that are near each other are the same, whatever stems they
have and whatever became of the symbols that had them (`Reached.neverRepeats`).
-/

namespace Sexpr

/-! ## What moves the counter -/

namespace Store

@[simp] theorem counter_retain (value : Value) (store : Store) :
    (store.retain value).counter = store.counter := by
  cases value with
  | pair p => rfl
  | scalar s => cases s <;> rfl

@[simp] theorem counter_drop (value : Value) (store : Store) :
    (store.drop value).2.counter = store.counter := by
  cases value with
  | scalar s => cases s <;> rfl
  | pair p =>
    simp only [drop, onHeap]
    split
    · next dropped => rw [← (Prod.mk.inj dropped).2]
    · next dropped => rw [← (Prod.mk.inj dropped).2]

@[simp] theorem counter_releaseAll (store : Store) (work : List Value) :
    (store.releaseAll work).counter = store.counter :=
  @releaseAll_induction store [] work (fun now _ => now.counter = store.counter)
    (fun _ same => same) (fun same => (counter_drop ..).trans same) rfl

@[simp] theorem counter_release (value : Value) (store : Store) :
    (store.release value).counter = store.counter :=
  counter_releaseAll store [value]

@[simp] theorem counter_collect (store : Store) : store.collect.2.counter = store.counter :=
  counter_releaseAll store.sweep.2 store.sweep.1.2

/-! ## What a search forms -/

/-- The names that are formed in a search of at most `draws` draws, after some names were shown. -/
def formed (stem : Option String) (accepts : Approval) (draws : Nat) (shown : List String)
    (store : Store) : List String :=
  match draws with
  | 0 => []
  | draws + 1 =>
    let name := Counter.freshName stem store.counter
    let moved : Store := { store with counter := Counter.next store.counter }
    match store.atoms.internNew .symbol name with
    | (none, atoms) => name :: formed stem accepts draws shown { moved with atoms }
    | (some a, atoms) =>
      match accepts shown name with
      | true => [name]
      | false =>
        let made : Store := { moved with atoms, trace := store.trace.push (.drawn name) }
        name :: formed stem accepts draws (name :: shown) (made.releaseAtom a)

/-- The names that are formed in the search for a fresh symbol. -/
def namesTried (stem : Option String) (accepts : Approval) (draws : Nat) (store : Store) :
    List String :=
  store.formed stem accepts draws []

section Formed

variable {stem : Option String} {accepts : Approval} {draws count : Nat} {shown : List String}
  {store after : Store} {drawn : Fresh}

theorem formed_of_taken (taken : store.isFree (Counter.freshName stem store.counter) = false) :
    store.formed stem accepts (draws + 1) shown =
      Counter.freshName stem store.counter :: store.skip.formed stem accepts draws shown := by
  rw [isFree, Bool.not_eq_false'] at taken
  rw [formed]
  simp only [AtomTable.internNew_of_taken taken]
  rfl

theorem formed_of_accepted
    (free : store.isFree (Counter.freshName stem store.counter) = true)
    (accepted : accepts shown (Counter.freshName stem store.counter) = true) :
    store.formed stem accepts (draws + 1) shown = [Counter.freshName stem store.counter] := by
  rw [isFree, Bool.not_eq_true'] at free
  rw [formed]
  simp only [AtomTable.internNew_of_free free, accepted]

theorem formed_of_rejected
    (free : store.isFree (Counter.freshName stem store.counter) = true)
    (turned : accepts shown (Counter.freshName stem store.counter) = false) :
    store.formed stem accepts (draws + 1) shown =
      Counter.freshName stem store.counter :: (store.rejected stem).formed stem accepts draws
        (Counter.freshName stem store.counter :: shown) := by
  rw [isFree, Bool.not_eq_true'] at free
  rw [formed]
  simp only [AtomTable.internNew_of_free free, turned]
  rfl

namespace Searches

/-- The names that a search forms are those that the counter has to offer. -/
theorem formed_eq (searches : Searches stem accepts count shown store drawn after)
    (enough : count ≤ draws) :
    store.formed stem accepts draws shown = Counter.names stem count store.counter := by
  induction searches generalizing draws with
  | taken free _ ih =>
    obtain ⟨draws, rfl⟩ := Nat.exists_eq_add_of_le' (Nat.zero_lt_of_lt enough)
    rw [formed_of_taken free, ih (Nat.le_of_succ_le_succ enough), counter_skip, Counter.names_succ]
  | accepted free answer =>
    obtain ⟨draws, rfl⟩ := Nat.exists_eq_add_of_le' enough
    exact formed_of_accepted free answer
  | rejected free answer _ ih =>
    obtain ⟨draws, rfl⟩ := Nat.exists_eq_add_of_le' (Nat.zero_lt_of_lt enough)
    rw [formed_of_rejected free answer, ih (Nat.le_of_succ_le_succ enough), counter_rejected,
      Counter.names_succ]

/-- A search moves the counter once for each draw. -/
theorem counter_eq (searches : Searches stem accepts count shown store drawn after) :
    after.counter = Counter.next^[count] store.counter := by
  induction searches with
  | taken _ _ ih => rw [ih, counter_skip, Function.iterate_succ_apply]
  | accepted => rw [made, Function.iterate_one]
  | rejected _ _ _ ih => rw [ih, counter_rejected, Function.iterate_succ_apply]

/-- What a search shows is among the names that it draws, and it ends with the name of its
symbol. -/
theorem candidates_sublist (searches : Searches stem accepts count shown store drawn after) :
    (∃ more, drawn.candidates = shown.reverse ++ more ∧
      more.Sublist (Counter.names stem count store.counter)) ∧
      (Counter.names stem count store.counter).getLast? = some drawn.atom.name := by
  induction searches with
  | taken _ _ ih =>
    rw [counter_skip] at ih
    obtain ⟨⟨more, shows, among⟩, last⟩ := ih
    exact ⟨⟨more, shows, among.cons _⟩, List.mem_getLast?_cons last⟩
  | accepted => exact ⟨⟨[_], List.reverse_cons, .refl _⟩, rfl⟩
  | rejected _ _ _ ih =>
    rw [counter_rejected] at ih
    obtain ⟨⟨more, shows, among⟩, last⟩ := ih
    refine ⟨⟨_ :: more, ?_, among.cons_cons _⟩, List.mem_getLast?_cons last⟩
    rw [shows, List.reverse_cons, List.append_assoc]
    rfl

end Searches

/-- Each name that a search tries carries the next number, and the counter is moved past them. -/
theorem exists_namesTried_eq (done : store.drawFresh stem accepts draws [] = (some drawn, after)) :
    ∃ count, store.namesTried stem accepts draws = Counter.names stem count store.counter ∧
      after.counter = Counter.next^[count] store.counter := by
  obtain ⟨count, le, searches⟩ := exists_searches done
  exact ⟨count, searches.formed_eq le, searches.counter_eq⟩

theorem candidates_sublist_namesTried
    (done : store.drawFresh stem accepts draws [] = (some drawn, after)) :
    drawn.candidates.Sublist (store.namesTried stem accepts draws) ∧
      (store.namesTried stem accepts draws).getLast? = some drawn.atom.name := by
  obtain ⟨count, le, searches⟩ := exists_searches done
  obtain ⟨⟨more, shows, among⟩, last⟩ := searches.candidates_sublist
  obtain rfl : drawn.candidates = more := shows
  rw [namesTried, searches.formed_eq le]
  exact ⟨among, last⟩

end Formed

end Store

/-! ## Histories -/

namespace Ledger

/-- One operation on a store, with the names that it forms: a search for a fresh symbol, or an
operation that draws nothing. -/
inductive Forms : Ledger → List String → Ledger → Prop
  | search {store after : Store} {outside : List Value} {weaks : List Weak}
      {stem : Option String} {accepts : Store.Approval} {draws : Nat} {drawn : Store.Fresh} :
    store.drawFresh stem accepts draws [] = (some drawn, after) →
    Forms ⟨store, outside, weaks⟩ (store.namesTried stem accepts draws)
      ⟨after, .atom drawn.atom :: outside, weaks⟩
  | other {ledger later : Ledger} :
    Step ledger later → later.store.counter = ledger.store.counter → Forms ledger [] later

/-- A run of operations on an empty store, with the names that were formed in it, in turn. -/
inductive History : List String → Ledger → Prop
  | empty : History [] .empty
  | next {names more : List String} {ledger later : Ledger} :
    History names ledger → Forms ledger more later → History (names ++ more) later

theorem Step.forms {ledger later : Ledger} (step : Step ledger later) :
    ∃ names, Forms ledger names later := by
  cases step with
  | fresh drawn => exact ⟨_, .search drawn⟩
  | regroup same less => exact ⟨[], .other (.regroup same less) rfl⟩
  | literal written => exact ⟨[], .other (.literal written) rfl⟩
  | copy held => exact ⟨[], .other (.copy held) (Store.counter_retain ..)⟩
  | release => exact ⟨[], .other .release (Store.counter_release ..)⟩
  | weaken held => exact ⟨[], .other (.weaken held) rfl⟩
  | upgrade kept live => exact ⟨[], .other (.upgrade kept live) (Store.counter_retain ..)⟩
  | pair => exact ⟨[], .other .pair rfl⟩
  | read slot held => exact ⟨[], .other (.read slot held) (Store.counter_retain ..)⟩
  | write slot held => exact ⟨[], .other (.write slot held) (Store.counter_release ..)⟩
  | assignPosition p position follow =>
    exact ⟨[], .other (.assignPosition p position follow) rfl⟩
  | fillPosition p position follow => exact ⟨[], .other (.fillPosition p position follow) rfl⟩
  | intern kind raw => exact ⟨[], .other (.intern kind raw) rfl⟩
  | startThread => exact ⟨[], .other .startThread rfl⟩
  | resumeThread thread => exact ⟨[], .other (.resumeThread thread) rfl⟩
  | collect => exact ⟨[], .other .collect (Store.counter_collect ..)⟩

/-- Every run has a history. -/
theorem Reached.exists_history {ledger : Ledger} (reached : Reached ledger) :
    ∃ names, History names ledger := by
  induction reached with
  | refl => exact ⟨[], .empty⟩
  | tail _ step ih =>
    obtain ⟨names, history⟩ := ih
    obtain ⟨more, forms⟩ := step.forms
    exact ⟨names ++ more, history.next forms⟩

/-- The counter stands at the draw behind the last name. -/
theorem History.counter {names : List String} {ledger : Ledger} (history : History names ledger) :
    ledger.store.counter = Counter.draw names.length := by
  induction history with
  | empty => rfl
  | @next names more ledger later _ forms ih =>
    cases forms with
    | search done =>
      obtain ⟨count, tried, moved⟩ := Store.exists_namesTried_eq done
      rw [tried, List.length_append, Counter.length_names, Nat.add_comm, moved]
      unfold Counter.draw at ih ⊢
      rw [Function.iterate_add_apply, ← ih]
    | other _ same => rw [List.append_nil, same, ih]

/-- The names carry the draws of the counter one after the other. -/
theorem History.names {names : List String} {ledger : Ledger} (history : History names ledger)
    {index : Nat} {name : String} (found : names[index]? = some name) :
    ∃ stem, name = Counter.freshName stem (Counter.draw index) := by
  induction history with
  | empty => cases found
  | @next names more ledger later before forms ih =>
    by_cases old : index < names.length
    · rw [List.getElem?_append_left old] at found
      exact ih found
    · rw [List.getElem?_append_right (Nat.le_of_not_lt old)] at found
      cases forms with
      | @search store _ _ _ stem _ _ _ done =>
        obtain ⟨count, tried, -⟩ := Store.exists_namesTried_eq done
        have start : store.counter = Counter.draw names.length := before.counter
        rw [tried, start] at found
        refine ⟨stem, ?_⟩
        rw [Counter.eq_of_getElem?_names found]
        unfold Counter.draw
        rw [← Function.iterate_add_apply, Nat.sub_add_cancel (Nat.le_of_not_lt old)]
      | other => cases found

/-- No number and no name comes again within `2 ^ 32` draws, and no draw is zero. -/
structure NeverRepeats (names : List String) (ledger : Ledger) : Prop where
  /-- The counter is moved once for each name, and never stands at zero. -/
  counts : ledger.store.counter = Counter.next^[names.length] Counter.seed ∧
    ledger.store.counter ≠ 0
  /-- From wherever the counter can come to, `2 ^ 32` draws in a row are all different. -/
  scatters : ∀ start, Counter.next^[start] Counter.seed ≠ 0 ∧
    ∀ first second, first < second → second < 2 ^ 32 →
      Counter.next^[first] (Counter.next^[start] Counter.seed) ≠
        Counter.next^[second] (Counter.next^[start] Counter.seed)
  /-- Each name consists of some stem and the number that was drawn for it. -/
  numbers : ∀ index name, names[index]? = some name →
    ∃ stem, name = Counter.freshName stem (Counter.next^[index] Counter.seed)
  /-- What a search shows is among the names that it forms, and so is what it returns. -/
  tries : ∀ stem accepts draws drawn after,
    ledger.store.drawFresh stem accepts draws [] = (some drawn, after) →
    drawn.candidates.Sublist (ledger.store.namesTried stem accepts draws) ∧
      (ledger.store.namesTried stem accepts draws).getLast? = some drawn.atom.name
  distinct : ∀ first second name name', first < second → second - first < 2 ^ 32 →
    names[first]? = some name → names[second]? = some name' → name ≠ name'

/-- In every run, the names that are formed near each other are all different. -/
theorem Reached.neverRepeats {ledger : Ledger} (reached : Reached ledger) :
    (∃ names, History names ledger) ∧
      ∀ names, History names ledger → NeverRepeats names ledger := by
  refine ⟨reached.exists_history, fun names history => ⟨⟨history.counter, ?_⟩, ?_, ?_, ?_, ?_⟩⟩
  · rw [history.counter]
    exact Counter.draw_ne_zero _
  · refine fun start => ⟨Counter.draw_ne_zero start, fun first second later near => ?_⟩
    rw [← Function.iterate_add_apply, ← Function.iterate_add_apply]
    have far := Counter.two_pow_lt_lap
    exact Counter.draw_ne_draw (Nat.add_lt_add_right later start) (by omega)
  · exact fun index name found => history.names found
  · exact fun stem accepts draws drawn after => Store.candidates_sublist_namesTried
  · intro first second name name' later near found found' same
    obtain ⟨stem, rfl⟩ := history.names found
    obtain ⟨stem', rfl⟩ := history.names found'
    have far := Counter.two_pow_lt_lap
    exact Counter.draw_ne_draw later (by omega) (Counter.freshName_inj same)

/-- A symbol is drawn under a stem with a mark in it, for a caller who dislikes the first number,
and given up again; then another one is drawn under the usual stem. All three names differ. -/
theorem neverRepeats_of_release :
    let first := Store.empty.drawFresh (some "a#1") (fun _ name => name != "a#1#17cfb") 2 []
    let released := first.2.release (.atom ⟨1, .symbol, "a#1#96e4a8d0ef91c"⟩)
    let second := released.drawFresh none (.rejecting 0) 1 []
    let held : Atom := ⟨2, .symbol, "<gensym>#e74ec7f53785f7bf"⟩
    let names := ["a#1#17cfb", "a#1#96e4a8d0ef91c", "<gensym>#e74ec7f53785f7bf"]
    Reached ⟨second.2, [.atom held], []⟩ ∧ History names ⟨second.2, [.atom held], []⟩ ∧
      NeverRepeats names ⟨second.2, [.atom held], []⟩ := by
  intro first released second held names
  have drawn : first = (some ⟨["a#1#17cfb", "a#1#96e4a8d0ef91c"],
      ⟨1, .symbol, "a#1#96e4a8d0ef91c"⟩⟩, first.2) := rfl
  have again : second = (some ⟨["<gensym>#e74ec7f53785f7bf"], held⟩, second.2) := by
    refine Prod.ext ?_ rfl
    dsimp only [second, released, first, held]
    cbv
  have reached : Reached ⟨second.2, [.atom held], []⟩ :=
    ((Reached.step .refl (.fresh drawn)).step .release).step (.fresh again)
  have history : History names ⟨second.2, [.atom held], []⟩ := by
    have tried : Store.empty.namesTried (some "a#1") (fun _ name => name != "a#1#17cfb") 2 ++ [] ++
        released.namesTried none (.rejecting 0) 1 = names := by decide +kernel
    rw [← tried]
    exact ((History.empty.next (.search drawn)).next
      (.other .release (Store.counter_release ..))).next (.search again)
  exact ⟨reached, history, reached.neverRepeats.2 names history⟩

end Ledger

end Sexpr
