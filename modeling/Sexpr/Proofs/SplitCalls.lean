import Sexpr.Proofs.Interning
import Sexpr.Proofs.Store.Building
import Sexpr.Proofs.Store.Conduct
import Sexpr.Proofs.Text.Separators

/-!
# Calls that cut a name

A host can give the separator and the limit of a cut by position, by name, or not at all, and can
get any of it wrong. This module says which answer every call gets, in terms of the arguments alone.

* `Arguments.offender?` is the first named argument that cannot be taken next to the positional ones.
* `Arguments.separator` and `Arguments.limit` are what the call goes by: the positional argument, or
  the last one of that name, or nil.
* `Entry.splitPlan_of_aims`: the loop over the named arguments comes to just that.

`JudgesSplits` goes through the faults in the order in which they are reported, and says of a call
without a fault that it makes a new list of the atoms of the pieces; `Reached.judgesSplits` proves it
for both sides, in every store that operations lead to.
-/

namespace Sexpr

/-! ## Arguments -/

namespace Arguments

/-- A named argument is unknown, or given by position as well, when there are `count` positional
arguments. -/
def Offends (count : Nat) (key : String) : Prop :=
  (key ≠ "sep" ∧ key ≠ "maxsplit") ∨ (key = "sep" ∧ 2 ≤ count) ∨ (key = "maxsplit" ∧ 3 ≤ count)

instance (count : Nat) : DecidablePred (Offends count) :=
  fun key => inferInstanceAs (Decidable ((key ≠ "sep" ∧ key ≠ "maxsplit") ∨ _ ∨ _))

/-- The name of the first argument that offends. -/
def firstOffender (count : Nat) (named : List (String × Value)) : Option String :=
  (named.map Prod.fst).find? (Offends count ·)

/-- The last argument of a name. -/
def lastNamed (key : String) (named : List (String × Value)) : Option Value :=
  (named.reverse.find? (·.1 = key)).map Prod.snd

variable (arguments : Arguments)

/-- The call has one to three positional arguments, and the first of them is the atom. -/
def Aims (a : Atom) : Prop :=
  ∃ rest, arguments.positional = .atom a :: rest ∧ rest.length ≤ 2

/-- The name of the first named argument that cannot be taken. -/
def offender? : Option String := firstOffender arguments.positional.length arguments.named

/-- The argument at a position, or else the last one of its name, or else nil. -/
def given (position : Nat) (key : String) : Value :=
  (arguments.positional[position]?.or (lastNamed key arguments.named)).getD .nil

/-- The separator that the call goes by. -/
def separator : Value := arguments.given 1 "sep"

/-- The limit that the call goes by. -/
def limit : Value := arguments.given 2 "maxsplit"

/-- The ways to give a separator and a limit other than by position alone. -/
def forms (first separator limit : Value) : List Arguments :=
  [⟨[first, separator], [("maxsplit", limit)]⟩,
    ⟨[first], [("sep", separator), ("maxsplit", limit)]⟩,
    ⟨[first], [("maxsplit", limit), ("sep", separator)]⟩]

variable {arguments} {count : Nat} {key other : String} {value : Value} {named : List (String × Value)}

theorem offends_sep_iff : Offends count "sep" ↔ 2 ≤ count := by
  simp [Offends]

theorem offends_maxsplit_iff : Offends count "maxsplit" ↔ 3 ≤ count := by
  simp [Offends]

theorem firstOffender_cons : firstOffender count ((key, value) :: named) =
    if Offends count key then some key else firstOffender count named := by
  simp only [firstOffender, List.map_cons, List.find?_cons]
  by_cases offends : Offends count key <;> simp [offends]

theorem lastNamed_cons : lastNamed key ((other, value) :: named) =
    if other = key then some ((lastNamed key named).getD value) else lastNamed key named := by
  rw [lastNamed, List.reverse_cons, List.find?_append]
  by_cases same : other = key
  · simp only [lastNamed, same, if_true, List.find?_singleton, decide_true]
    cases named.reverse.find? (·.1 = key) <;> rfl
  · simp [lastNamed, same]

/-- An argument whose name does not occur among those that can be taken. -/
theorem lastNamed_of_offends (offends : Offends count key)
    (clean : firstOffender count named = none) : lastNamed key named = none := by
  induction named with
  | nil => rfl
  | cons argument named ih =>
    obtain ⟨other, value⟩ := argument
    rw [firstOffender_cons] at clean
    split at clean
    · cases clean
    · next fits =>
      rw [lastNamed_cons, if_neg, ih clean]
      rintro rfl
      exact fits offends

/-- What is given by position is not given by name, unless the name offends. -/
theorem getD_lastNamed {position : Nat} (clean : arguments.offender? = none)
    (taken : position < arguments.positional.length →
      Offends arguments.positional.length key) :
    (lastNamed key arguments.named).getD (arguments.positional[position]?.getD .nil) =
      arguments.given position key := by
  rw [given]
  cases found : arguments.positional[position]? with
  | none => rfl
  | some value =>
    have small := (List.getElem?_eq_some_iff.1 found).1
    rw [lastNamed_of_offends (taken small) clean]
    rfl

end Arguments

/-- What a separator stands for. -/
inductive Separates : Value → Option String → Prop
  | blanks : Separates .nil none
  | text (sep : String) : Separates (.scalar (.text sep)) (some sep)

/-- What a limit stands for. A negative one is none. -/
inductive Limits : Value → Option Nat → Prop
  | absent : Limits .nil none
  | count (n : Nat) : Limits (.int n) (some n)
  | negative (n : Nat) : Limits (.int (.negSucc n)) none

namespace Entry

open Arguments

variable {entry : Entry} {arguments : Arguments} {a : Atom} {store : Store}

/-- The entry point that cuts from a side. -/
def cutting : Text.Side → Entry
  | .left => split
  | .right => rsplit

/-- The call is refused with this error, and the store stays as it was. -/
def Refuses (entry : Entry) (arguments : Arguments) (store : Store) (error : Error) : Prop :=
  ∃ fault, entry.call arguments store = (.error fault, store) ∧ fault.error = error

/-! ## Named arguments -/

/-- The fault of a named argument that offends. -/
def offence (entry : Entry) (key : String) : Fault :=
  if key = "sep" ∨ key = "maxsplit" then .givenTwice entry key else .unknownKey entry key

/-- The loop stops at the first argument that offends. If there is none it ends with the last
arguments of either name. -/
theorem takeNamed_eq (given : Nat) (named : List (String × Value)) (sep limit : Value) :
    entry.takeNamed given named sep limit =
      match firstOffender (given + 1) named with
      | some key => .error (entry.offence key)
      | none => .ok ((lastNamed "sep" named).getD sep, (lastNamed "maxsplit" named).getD limit) := by
  induction named generalizing sep limit with
  | nil => rfl
  | cons argument named ih =>
    obtain ⟨key, value⟩ := argument
    rw [takeNamed, firstOffender_cons, lastNamed_cons, lastNamed_cons]
    by_cases isSep : key = "sep"
    · subst isSep
      by_cases first : given = 0
      · have fits : ¬Offends (given + 1) "sep" := by
          rw [offends_sep_iff]
          omega
        rw [if_pos rfl, if_pos first, ih, if_neg fits]
        rfl
      · have offends : Offends (given + 1) "sep" := by
          rw [offends_sep_iff]
          omega
        simp [first, offends, offence]
    by_cases isLimit : key = "maxsplit"
    · subst isLimit
      by_cases room : given < 2
      · have fits : ¬Offends (given + 1) "maxsplit" := by
          rw [offends_maxsplit_iff]
          omega
        rw [if_neg isSep, if_pos rfl, if_pos room, ih, if_neg fits]
        rfl
      · have offends : Offends (given + 1) "maxsplit" := by
          rw [offends_maxsplit_iff]
          omega
        simp [room, offends, offence]
    have offends : Offends (given + 1) key := Or.inl ⟨isSep, isLimit⟩
    simp [isSep, isLimit, offends, offence]

/-- The checks come to what the arguments say: first the named arguments, then the separator, then
the limit. -/
theorem splitPlan_of_aims (aims : arguments.Aims a) : entry.splitPlan arguments =
    match arguments.offender? with
    | some key => .error (entry.offence key)
    | none => do
      let separator ← entry.separatorOf arguments.separator
      let limit ← entry.limitOf arguments.limit
      return ⟨a, separator, limit⟩ := by
  obtain ⟨positional, named⟩ := arguments
  obtain ⟨rest, rfl, few⟩ := aims
  have count : ¬2 < rest.length := by omega
  rw [splitPlan]
  simp only [count, if_false, Value.atom, Value.atom?, takeNamed_eq, Arguments.offender?,
    List.length_cons]
  cases clean : firstOffender (rest.length + 1) named with
  | some key => rfl
  | none =>
    have separator : (lastNamed "sep" named).getD (rest[0]?.getD .nil) =
        Arguments.separator ⟨.atom a :: rest, named⟩ :=
      @getD_lastNamed ⟨.atom a :: rest, named⟩ "sep" 1 clean offends_sep_iff.2
    have limit : (lastNamed "maxsplit" named).getD (rest[1]?.getD .nil) =
        Arguments.limit ⟨.atom a :: rest, named⟩ :=
      @getD_lastNamed ⟨.atom a :: rest, named⟩ "maxsplit" 2 clean offends_maxsplit_iff.2
    rw [separator, limit]
    rfl

/-! ## Separators and limits -/

theorem separatorOf_of_separates {value : Value} {sep : Option String}
    (separates : Separates value sep) : entry.separatorOf value = .ok sep := by
  cases separates <;> rfl

theorem separatorOf_of_not {value : Value} (bad : ¬∃ sep, Separates value sep) :
    entry.separatorOf value = .error (.badSeparator entry value.typeName) := by
  rcases value with (_ | _ | _ | _ | sep | _) | _
  case scalar.nil => exact absurd ⟨_, .blanks⟩ bad
  case scalar.text => exact absurd ⟨_, .text sep⟩ bad
  all_goals rfl

theorem limitOf_of_limits {value : Value} {limit : Option Nat} (limits : Limits value limit) :
    entry.limitOf value = .ok limit := by
  cases limits with
  | absent => rfl
  | count n => simp [limitOf, Value.int]
  | negative n => rfl

theorem limitOf_of_not {value : Value} (bad : ¬∃ limit, Limits value limit) :
    entry.limitOf value = .error (.badLimit entry value.typeName) := by
  rcases value with (_ | _ | n | _ | _ | _) | _
  case scalar.nil => exact absurd ⟨_, .absent⟩ bad
  case scalar.int =>
    cases n with
    | ofNat n => exact absurd ⟨_, .count n⟩ bad
    | negSucc n => exact absurd ⟨_, .negative n⟩ bad
  all_goals rfl

/-! ## Refusals -/

theorem call_cutting (side : Text.Side) (arguments : Arguments) (store : Store) :
    (cutting side).call arguments store = (cutting side).callSplit side arguments store := by
  cases side <;> rfl

theorem refuses_of_splitPlan {side : Text.Side} {fault : Fault}
    (refused : (cutting side).splitPlan arguments = .error fault) :
    (cutting side).Refuses arguments store fault.error := by
  refine ⟨fault, ?_, rfl⟩
  rw [call_cutting, callSplit, refused]

end Entry

/-! ## Answers -/

/-- Every text can be cut, unless at an empty separator. -/
theorem Text.exists_pieces (side : Side) {sep : Option String} (filled : sep ≠ some "")
    (limit : Option Nat) (text : String) : ∃ pieces, split side sep limit text = .ok pieces := by
  cases sep with
  | none => exact ⟨_, rfl⟩
  | some sep =>
    apply exists_split_eq_ok
    intro empty
    exact filled (congrArg some (String.toList_inj.1 empty))

/-- The atom is what the name leads to afterwards, and what it led to before if that was anything. -/
structure Store.Names (before after : Store) (kind : AtomKind) (a : Atom) (raw : String) : Prop where
  ofKind : a.kind = kind
  named : a.name = kind.normalize raw
  filed : after.atoms.filed? kind (kind.normalize raw) = some a
  same : ∀ b, before.atoms.filed? kind (kind.normalize raw) = some b → b = a

theorem Store.Strung.of_eq {before middle : Store} {made : Value × Store} {pairs : List PairId}
    {heads : List Value} {last : Value} (strung : middle.Strung made pairs heads last)
    (heap : middle.heap = before.heap) (registry : middle.registry = before.registry) :
    before.Strung made pairs heads last := by
  have same : middle.trackedCount = before.trackedCount := by
    simp only [trackedCount, heap, registry]
  exact { strung with
    new := heap ▸ strung.new
    kept := heap ▸ strung.kept
    tracked := same ▸ strung.tracked }

namespace Ledger

variable {store : Store} {outside : List Value} {weaks : List Weak} {kind : AtomKind}

theorem Reached.kinds_names_internAll (reached : Reached ⟨store, outside, weaks⟩)
    (kind : AtomKind) (raws : List String) :
    List.Forall₂ (fun a raw => a.kind = kind ∧ a.name = kind.normalize raw)
      (store.internAll kind raws).1 raws := by
  induction raws generalizing store outside with
  | nil => exact .nil
  | cons raw raws ih =>
    exact .cons (reached.sound.kind_name_intern kind raw) (ih (reached.step (.intern kind raw)))

/-- Whoever was held before is held after a chain was made. -/
theorem Holds.grow {after : Store} {value more : Value} (held : Holds ⟨store, outside, weaks⟩ value)
    (grown : store.heap.Extends after.heap) : Holds ⟨after, more :: outside, weaks⟩ value := by
  rcases held with outer | ⟨p, slot, live, read⟩
  · exact Or.inl (List.mem_cons_of_mem _ outer)
  · have kept := grown.kept p (Heap.lt_size_of_isLive live)
    refine Or.inr ⟨p, slot, ?_, ?_⟩
    · exact (congrArg Option.isSome kept).trans live
    · exact (Heap.read_congr kept slot).trans read

/-- A list of the atoms of some names is a new list, and its heads are the atoms of these names. -/
theorem Reached.names_list (reached : Reached ⟨store, outside, weaks⟩) (kind : AtomKind)
    (raws : List String) :
    let cut := store.internAll kind raws
    let made := cut.2.list (cut.1.map Value.atom)
    ∃ atoms pairs, store.Strung made pairs (atoms.map Value.atom) .nil ∧
      List.Forall₂ (store.Names made.2 kind) atoms raws := by
  intro cut made
  have interned : Reached ⟨cut.2, cut.1.map Value.atom ++ outside, weaks⟩ := reached.internAll
  have listed : Reached ⟨made.2, made.1 :: outside, weaks⟩ := interned.list
  obtain ⟨pairs, linked⟩ :=
    Store.strung_chain interned.sound.registered (cut.1.map Value.atom) .nil
  have strung := linked.of_eq (store.heap_internAll kind raws) (store.registry_internAll kind raws)
  refine ⟨cut.1, pairs, strung, ?_⟩
  have held : ∀ a ∈ cut.1, Holds ⟨made.2, made.1 :: outside, weaks⟩ (.atom a) := by
    intro a member
    obtain ⟨p, inside, head⟩ := strung.links.exists_head (List.mem_map_of_mem member)
    exact Or.inr ⟨p, .head, strung.links.isLive inside, head⟩
  have names := reached.kinds_names_internAll kind raws
  refine ((List.forall₂_and_left ..).2 ⟨held, names⟩).imp ?_
  rintro a raw ⟨holds, ofKind, named⟩
  have filed := listed.sound.filed?_eq_some_iff.2 ⟨holds, ofKind, named⟩
  refine ⟨ofKind, named, filed, fun b before => ?_⟩
  obtain ⟨holds', ofKind', named'⟩ := reached.sound.filed?_eq_some_iff.1 before
  have after := listed.sound.filed?_eq_some_iff.2 ⟨holds'.grow strung.kept, ofKind', named'⟩
  exact Option.some.inj (after.symm.trans filed)

end Ledger

/-! ## All calls -/

theorem Fault.error_tooMany_three (entry : Entry) (given : Nat) :
    (Fault.tooMany entry 3 given).error =
      .usage (entry.name ++ ": expected at most 3 arguments, got " ++ Decimal.natural given) := by
  have words : ": expected at most 3 arguments, got " =
      ": expected at most " ++ Decimal.natural 3 ++ " " ++ arguments 3 ++ ", got " := by
    decide +kernel
  have message : (Fault.tooMany entry 3 given).message = entry.name ++ ": expected at most " ++
      Decimal.natural 3 ++ " " ++ arguments 3 ++ ", got " ++ Decimal.natural given := rfl
  rw [words, error, message]
  generalize Decimal.natural 3 = three
  generalize arguments 3 = word
  simp only [String.append_assoc]
  rfl

/-- What every call of an entry point that cuts from a side is answered, and what it leaves of the
store. The faults come in the order in which they are reported. -/
structure Store.JudgesSplits (store : Store) (entry : Entry) (side : Text.Side) : Prop where
  missing : ∀ arguments, arguments.positional = [] →
    entry.Refuses arguments store (.usage (entry.name ++ ": expected an atom"))
  surplus : ∀ arguments, 3 < arguments.positional.length →
    entry.Refuses arguments store (.usage (entry.name ++ ": expected at most 3 arguments, got " ++
      Decimal.natural arguments.positional.length))
  foreign : ∀ arguments first rest, arguments.positional = first :: rest → rest.length ≤ 2 →
    first.atom? = none → entry.Refuses arguments store
      (.type (entry.name ++ ": expected symbol or keyword, got " ++ first.typeName.text))
  /-- The first named argument that cannot be taken is named. -/
  offends : ∀ arguments a key, arguments.Aims a → arguments.offender? = some key →
    entry.Refuses arguments store (.usage
      (if key = "sep" ∨ key = "maxsplit" then
        entry.name ++ ": argument '" ++ key ++ "' given by name and position"
      else entry.name ++ ": unexpected named argument '" ++ key ++ "'"))
  separator : ∀ arguments a, arguments.Aims a → arguments.offender? = none →
    (¬∃ sep, Separates arguments.separator sep) → entry.Refuses arguments store
      (.type (entry.name ++ ": separator must be a string or nil, got " ++
        arguments.separator.typeName.text))
  limit : ∀ arguments a sep, arguments.Aims a → arguments.offender? = none →
    Separates arguments.separator sep → (¬∃ limit, Limits arguments.limit limit) →
    entry.Refuses arguments store
      (.type (entry.name ++ ": maxsplit must be an integer, got " ++ arguments.limit.typeName.text))
  empty : ∀ arguments a limit, arguments.Aims a → arguments.offender? = none →
    Separates arguments.separator (some "") → Limits arguments.limit limit →
    entry.Refuses arguments store (.usage "empty separator")
  /-- All other calls make a new list of the atoms of the pieces. -/
  answers : ∀ arguments a sep limit, arguments.Aims a → arguments.offender? = none →
    Separates arguments.separator sep → sep ≠ some "" → Limits arguments.limit limit →
    ∃ pieces value after, Text.split side sep limit a.name = .ok pieces ∧
      entry.call arguments store = (.ok value, after) ∧
      ∃ atoms pairs, store.Strung (value, after) pairs (atoms.map Value.atom) .nil ∧
        List.Forall₂ (store.Names after a.kind) atoms pieces
  /-- It does not matter how the separator and the limit are given. -/
  forms : ∀ first separator limit, ∀ form ∈ Arguments.forms first separator limit,
    entry.call form store = entry.call ⟨[first, separator, limit], []⟩ store

namespace Entry

variable {entry : Entry} {arguments : Arguments} {a : Atom} {store : Store} {sep : Option String}
  {limit : Option Nat} {side : Text.Side}

/-- The plan of a call that nothing is wrong with, but perhaps that its separator is empty. -/
theorem splitPlan_eq_ok (aims : arguments.Aims a) (clean : arguments.offender? = none)
    (separates : Separates arguments.separator sep) (limits : Limits arguments.limit limit) :
    entry.splitPlan arguments = .ok ⟨a, sep, limit⟩ := by
  rw [splitPlan_of_aims aims, clean]
  simp only [separatorOf_of_separates separates, limitOf_of_limits limits]
  rfl

/-- The forms of a call have one plan. -/
theorem splitPlan_forms {first separator limit : Value} {form : Arguments}
    (member : form ∈ Arguments.forms first separator limit) :
    entry.splitPlan form = entry.splitPlan ⟨[first, separator, limit], []⟩ := by
  simp only [Arguments.forms, List.mem_cons, List.not_mem_nil, or_false] at member
  rcases member with rfl | rfl | rfl <;> simp [splitPlan, takeNamed]

end Entry

namespace Ledger

variable {store : Store} {outside : List Value} {weaks : List Weak}

/-- Every call that cuts a name is judged by its arguments, from either side. -/
theorem Reached.judgesSplits (reached : Reached ⟨store, outside, weaks⟩) (side : Text.Side) :
    store.JudgesSplits (.cutting side) side := by
  constructor
  case missing =>
    intro arguments none
    have refused : (Entry.cutting side).splitPlan arguments =
        .error (.missingAtom (.cutting side)) := by
      simp only [Entry.splitPlan, none]
    exact Entry.refuses_of_splitPlan refused
  case surplus =>
    rintro ⟨_ | ⟨first, rest⟩, named⟩ many
    · cases many
    · have refused : (Entry.cutting side).splitPlan ⟨first :: rest, named⟩ =
          .error (.tooMany (.cutting side) 3 (rest.length + 1)) :=
        if_pos (Nat.lt_of_succ_lt_succ many)
      have refuses := @Entry.refuses_of_splitPlan _ store side _ refused
      rw [Fault.error_tooMany_three] at refuses
      exact refuses
  case foreign =>
    rintro ⟨_, named⟩ first rest rfl few other
    have refused : (Entry.cutting side).splitPlan ⟨first :: rest, named⟩ =
        .error (.notAtom (.cutting side) first.typeName) := by
      simp only [Entry.splitPlan, other, if_neg (Nat.not_lt.2 few)]
    exact Entry.refuses_of_splitPlan refused
  case offends =>
    intro arguments a key aims found
    have refused : (Entry.cutting side).splitPlan arguments =
        .error ((Entry.cutting side).offence key) := by
      rw [Entry.splitPlan_of_aims aims, found]
    have refuses := @Entry.refuses_of_splitPlan _ store side _ refused
    unfold Entry.offence at refuses
    split at refuses
    · next known =>
      rw [if_pos known]
      exact refuses
    · next unknown =>
      rw [if_neg unknown]
      exact refuses
  case separator =>
    intro arguments a aims clean bad
    have refused : (Entry.cutting side).splitPlan arguments =
        .error (.badSeparator (.cutting side) arguments.separator.typeName) := by
      rw [Entry.splitPlan_of_aims aims, clean]
      simp only [Entry.separatorOf_of_not bad]
      rfl
    exact Entry.refuses_of_splitPlan refused
  case limit =>
    intro arguments a sep aims clean separates bad
    have refused : (Entry.cutting side).splitPlan arguments =
        .error (.badLimit (.cutting side) arguments.limit.typeName) := by
      rw [Entry.splitPlan_of_aims aims, clean]
      simp only [Entry.separatorOf_of_separates separates, Entry.limitOf_of_not bad]
      rfl
    exact Entry.refuses_of_splitPlan refused
  case empty =>
    intro arguments a limit aims clean separates limits
    have planned := @Entry.splitPlan_eq_ok (.cutting side) _ _ _ _ aims clean separates limits
    refine ⟨.emptySeparator, ?_, rfl⟩
    rw [Entry.call_cutting, Entry.callSplit, planned]
    rfl
  case answers =>
    intro arguments a sep limit aims clean separates filled limits
    have planned := @Entry.splitPlan_eq_ok (.cutting side) _ _ _ _ aims clean separates limits
    obtain ⟨pieces, cut⟩ := Text.exists_pieces side filled limit a.name
    let named := store.internAll a.kind pieces
    let made := named.2.list (named.1.map Value.atom)
    have called : (Entry.cutting side).call arguments store = (.ok made.1, made.2) := by
      rw [Entry.call_cutting, Entry.callSplit, planned]
      simp only [Store.splitAtom, cut]
      rfl
    exact ⟨pieces, made.1, made.2, cut, called, reached.names_list a.kind pieces⟩
  case forms =>
    intro first separator limit form member
    rw [Entry.call_cutting, Entry.call_cutting, Entry.callSplit, Entry.callSplit,
      Entry.splitPlan_forms member]

/-- A symbol with two commas is cut once, from the right. The separator and the limit are given by
name, the limit first. In another call two named arguments offend, and the first is reported. -/
theorem judgesSplits_of_commas :
    let named := Store.empty.intern .symbol "a,b,a"
    let cut := Entry.rsplit.call
      ⟨[.atom named.1], [("maxsplit", .int 1), ("sep", .scalar (.text ","))]⟩ named.2
    Reached ⟨named.2, [.atom named.1], []⟩ ∧ named.2.JudgesSplits .rsplit .right ∧
      cut.1.toOption = some (.pair ⟨1⟩) ∧
      cut.2.heap.slots ⟨1⟩ = (.atom ⟨1, .symbol, "a,b"⟩, .pair ⟨0⟩) ∧
      cut.2.heap.slots ⟨0⟩ = (.atom ⟨2, .symbol, "a"⟩, .nil) ∧
      Entry.rsplit.Refuses ⟨[.atom named.1, .nil], [("sep", .nil), ("limit", .nil)]⟩ named.2
        (.usage "rsplit: argument 'sep' given by name and position") := by
  intro named cut
  have reached : Reached ⟨named.2, [.atom named.1], []⟩ := .single (.intern .symbol "a,b,a")
  have judges : named.2.JudgesSplits .rsplit .right := reached.judgesSplits .right
  refine ⟨reached, judges, ?_, ?_, ?_, ?_⟩
  · decide +kernel
  · decide +kernel
  · decide +kernel
  · exact judges.offends ⟨[.atom named.1, .nil], _⟩ named.1 "sep" ⟨[.nil], rfl, by decide⟩ rfl

end Ledger

end Sexpr
