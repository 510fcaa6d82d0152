import Mathlib.Data.List.DropRight
import Mathlib.Data.UInt
import Mathlib.Dynamics.PeriodicPts.Lemmas
import Mathlib.Tactic.LinearCombination
import Mathlib.Tactic.Ring
import Sexpr.Atom.Counter
import Sexpr.Proofs.Text.Escapes

/-!
# How long the counter goes without repeating

Apart from its detour around zero the counter takes the affine step `n ↦ (n + d) * m` on 64-bit
words. The multiplier leaves 3 when divided by 4, so the walk does not go through all words. Two
steps at a time it is `n ↦ A * n + C` with `A` one more than a multiple of 8 and `C` an odd multiple
of 4. Each doubling of the leap adds a factor of 2 to both (`Leap.scale_shift_powerOfTwo`), so
`2 ^ 63` steps come back to where they started and `2 ^ 62` do not (`minimalPeriod_step`).

Zero lies on the way from the seed, `lap` steps ahead (`step_lap`). There the counter begins again
instead, so it goes round in exactly `lap` draws (`minimalPeriod_next`), which is more than half of
what the walk alone would do. Numbers that differ give different names whatever their stems are,
since no digit is the mark between stem and number (`freshName_inj`).
-/

namespace Sexpr.Counter

open Function
open scoped UInt64.CommRing

/-- The walk of the counter without its detour around zero. -/
def step (n : UInt64) : UInt64 := (n + 0x9e3779b9) * 1000003

theorem next_eq (n : UInt64) : next n = if step n = 0 then seed else step n := rfl

theorem next_ne_zero (n : UInt64) : next n ≠ 0 := by
  rw [next_eq]
  split
  · decide
  case isFalse other => exact other

/-! ## Many steps at once -/

/-- The map `n ↦ scale * n + shift`. -/
structure Leap where
  scale : UInt64
  shift : UInt64

namespace Leap

variable {leap : Leap} {count : Nat}

def apply (leap : Leap) (n : UInt64) : UInt64 := leap.scale * n + leap.shift

/-- The leap made twice. -/
def twice (leap : Leap) : Leap := ⟨leap.scale * leap.scale, (leap.scale + 1) * leap.shift⟩

/-- The leap and one step. -/
def further (leap : Leap) : Leap := ⟨leap.scale * 1000003, (leap.shift + 0x9e3779b9) * 1000003⟩

/-- The leap is as far as `count` steps. -/
def Takes (leap : Leap) (count : Nat) : Prop := ∀ n, leap.apply n = step^[count] n

theorem Takes.twice (takes : leap.Takes count) : leap.twice.Takes (2 * count) := by
  intro n
  rw [Nat.two_mul, iterate_add_apply, ← takes n, ← takes (leap.apply n)]
  simp only [Leap.twice, apply]
  ring

theorem Takes.further (takes : leap.Takes count) : leap.further.Takes (count + 1) := by
  intro n
  rw [iterate_succ_apply', ← takes n]
  simp only [Leap.further, apply, step]
  ring

/-- The leap over `count` steps, where `count` has at most `digits` binary digits. -/
def across : Nat → Nat → Leap
  | 0, _ => ⟨1, 0⟩
  | digits + 1, count =>
    if count % 2 = 0 then (across digits (count / 2)).twice
    else (across digits (count / 2)).twice.further

theorem takes_across {digits count : Nat} (small : count < 2 ^ digits) :
    (across digits count).Takes count := by
  induction digits generalizing count with
  | zero =>
    have none : count = 0 := by simpa using small
    subst none
    intro n
    simp [across, apply]
  | succ digits ih =>
    have fewer : count / 2 < 2 ^ digits := by
      rw [pow_succ] at small
      omega
    have half := (ih fewer).twice
    unfold across
    split
    case isTrue even =>
      rwa [show 2 * (count / 2) = count by omega] at half
    case isFalse odd =>
      have whole := half.further
      rwa [show 2 * (count / 2) + 1 = count by omega] at whole

/-- The leap over `2 ^ (k + 1)` steps. -/
def powerOfTwo : Nat → Leap
  | 0 => (⟨1000003, 0x9e3779b9 * 1000003⟩ : Leap).twice
  | k + 1 => (powerOfTwo k).twice

theorem takes_powerOfTwo (k : Nat) : (powerOfTwo k).Takes (2 ^ (k + 1)) := by
  induction k with
  | zero =>
    have once : Takes ⟨1000003, 0x9e3779b9 * 1000003⟩ 1 := by
      intro n
      simp only [apply, iterate_one, step]
      ring
    exact once.twice
  | succ k ih =>
    rw [pow_succ, Nat.mul_comm]
    exact ih.twice

/-- With every doubling of the leap one more binary digit of a word stays as it was. -/
theorem scale_shift_powerOfTwo (k : Nat) : ∃ t s : UInt64,
    (powerOfTwo k).scale = 1 + 2 ^ (k + 3) * t ∧
      (powerOfTwo k).shift = 2 ^ (k + 2) * (2 * s + 1) := by
  induction k with
  | zero => exact ⟨0x1d1aa013b1, 0x1cbe88efeec284cd, by decide +kernel, by decide +kernel⟩
  | succ k ih =>
    obtain ⟨t, s, scale, shift⟩ := ih
    refine ⟨t + 2 ^ (k + 2) * t * t, s + 2 ^ (k + 1) * t * (2 * s + 1), ?_, ?_⟩
    · simp only [powerOfTwo, twice, scale]
      ring
    · simp only [powerOfTwo, twice, scale, shift]
      ring

end Leap

/-! ## The walk -/

theorem two_pow_word : (2 : UInt64) ^ 64 = 0 := by decide +kernel

/-- From every word the walk comes back after `2 ^ 63` steps and not before. -/
theorem minimalPeriod_step (n : UInt64) : minimalPeriod step n = 2 ^ 63 := by
  have : Fact (Nat.Prime 2) := ⟨Nat.prime_two⟩
  refine minimalPeriod_eq_prime_pow (k := 62) ?_ ?_
  · obtain ⟨t, s, scale, shift⟩ := Leap.scale_shift_powerOfTwo 61
    intro again
    have moved : n + 2 ^ 63 = n := by
      calc n + 2 ^ 63
        _ = (Leap.powerOfTwo 61).apply n := by
          rw [Leap.apply, scale, shift]
          linear_combination -(t * n + s) * two_pow_word
        _ = step^[2 ^ 62] n := Leap.takes_powerOfTwo 61 n
        _ = n := again
    have none : (2 : UInt64) ^ 63 = 0 := by linear_combination moved
    revert none
    decide +kernel
  · obtain ⟨t, s, scale, shift⟩ := Leap.scale_shift_powerOfTwo 62
    calc step^[2 ^ 63] n
      _ = (Leap.powerOfTwo 62).apply n := (Leap.takes_powerOfTwo 62 n).symm
      _ = n := by
        rw [Leap.apply, scale, shift]
        linear_combination (2 * t * n + 2 * s + 1) * two_pow_word

/-- The number of steps from the seed to zero. -/
def lap : Nat := 4902816942354686871

theorem lap_lt : lap < 2 ^ 63 := by decide

theorem two_pow_lt_lap : 2 ^ 32 < lap := by decide

theorem step_lap : step^[lap] seed = 0 := by
  rw [← Leap.takes_across lap_lt]
  decide +kernel

theorem step_ne_zero {count : Nat} (early : count < lap) : step^[count] seed ≠ 0 := by
  rw [← step_lap]
  intro same
  have inside : lap < minimalPeriod step seed := by
    rw [minimalPeriod_step]
    exact lap_lt
  have equal := (iterate_eq_iterate_iff_of_lt_minimalPeriod (early.trans inside) inside).1 same
  exact absurd equal (Nat.ne_of_lt early)

/-! ## The counter -/

/-- Up to zero the counter is where the walk is. -/
theorem next_iterate {count : Nat} (early : count < lap) :
    next^[count] seed = step^[count] seed := by
  induction count with
  | zero => simp only [iterate_zero]
  | succ count ih =>
    rw [iterate_succ_apply', iterate_succ_apply', ih (by omega), next_eq, if_neg]
    rw [← iterate_succ_apply' step]
    exact step_ne_zero early

/-- The counter comes back to its seed after `lap` draws and not before. -/
theorem minimalPeriod_next : minimalPeriod next seed = lap := by
  have round : IsPeriodicPt next lap seed := by
    have last : next^[lap] seed = next (step^[lap - 1] seed) := by
      rw [← next_iterate (by decide), ← iterate_succ_apply' next]
      rfl
    have zero : step (step^[lap - 1] seed) = 0 := by
      rw [← iterate_succ_apply' step]
      exact step_lap
    change next^[lap] seed = seed
    rw [last, next_eq, if_pos zero]
  refine Nat.le_antisymm (round.minimalPeriod_le (by decide)) ?_
  by_contra early
  have positive := round.minimalPeriod_pos (by decide)
  have again : next^[minimalPeriod next seed] seed = seed := iterate_minimalPeriod
  rw [next_iterate (Nat.lt_of_not_le early)] at again
  have shorter := IsPeriodicPt.minimalPeriod_le positive again
  rw [minimalPeriod_step] at shorter
  have short := lap_lt
  omega

/-- The number of the draw with the given index, in a run that begins at the seed. -/
def draw (index : Nat) : UInt64 := next^[index] seed

theorem draw_ne_zero (index : Nat) : draw index ≠ 0 := by
  cases index with
  | zero => decide
  | succ index =>
    rw [draw, iterate_succ_apply']
    exact next_ne_zero _

/-- Draws repeat no number before they have gone round. -/
theorem draw_ne_draw {first second : Nat} (later : first < second) (near : second < first + lap) :
    draw first ≠ draw second := by
  have onOrbit : seed ∈ periodicPts next := by
    rw [← minimalPeriod_pos_iff_mem_periodicPts, minimalPeriod_next]
    decide
  have period := (minimalPeriod_apply_iterate onOrbit first).trans minimalPeriod_next
  have split : draw second = next^[second - first] (draw first) := by
    rw [draw, draw, ← iterate_add_apply, Nat.sub_add_cancel (Nat.le_of_lt later)]
  rw [split]
  intro same
  have none := (iterate_eq_iterate_iff_of_lt_minimalPeriod (f := next) (x := draw first) (m := 0)
    (n := second - first) (by rw [draw, period]; decide) (by rw [draw, period]; omega)).1 same
  omega

/-! ## Names -/

/-- What stands behind the last mark of a fresh name are the digits of its number. -/
theorem takeWhile_reverse_freshName (stem : Option String) (n : UInt64) :
    (freshName stem n).toList.reverse.takeWhile (· != '#') =
      (Text.hexDigits n.toNat).reverse := by
  have digits : ∀ c ∈ (Text.hexDigits n.toNat).reverse, (c != '#') = true := by
    intro c member
    exact bne_iff_ne.2 (Text.ne_hash_of_mem_hexDigits (List.mem_reverse.1 member))
  have split : (freshName stem n).toList.reverse =
      (Text.hexDigits n.toNat).reverse ++ '#' :: (stem.getD defaultStem).toList.reverse := by
    simp [freshName]
  rw [split, List.takeWhile_append_of_pos digits]
  simp

/-- Whatever their stems are, fresh names are told apart by their numbers. -/
theorem freshName_inj {stem stem' : Option String} {n m : UInt64}
    (same : freshName stem n = freshName stem' m) : n = m := by
  have digits : (Text.hexDigits n.toNat).reverse = (Text.hexDigits m.toNat).reverse := by
    rw [← takeWhile_reverse_freshName stem, same, takeWhile_reverse_freshName]
  have numbers := congrArg Text.ofHexDigits (List.reverse_inj.1 digits)
  rw [Text.ofHexDigits_hexDigits, Text.ofHexDigits_hexDigits] at numbers
  exact UInt64.toNat_inj.1 numbers

end Sexpr.Counter
