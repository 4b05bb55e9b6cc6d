import Mathlib.Data.Rat.Floor
import Mathlib.Tactic.Linarith
import Mathlib.Tactic.Positivity

/-!
# Retrying with a Backoff

`FutureUtils.retry`, which the account importer runs each of its requests
through.

A duration is a whole number of nanoseconds, and one that does not fit in a
`Long` cannot be built. The backoff that comes next is computed from the whole
milliseconds of the current one, so what is left of a millisecond takes no part
in it. The program multiplies by a `Double`; here the factor is a fraction, and
the product is exact until it is rounded to nanoseconds.

The calls are numbered, and `f` gives the outcome of each. The scheduler is the
caller's. All that is used of it is that it refuses a delay that is longer than
its longest one.

## Main definitions

* `FiniteDuration`: A duration.
* `FutureUtils.wait`: The wait that follows a failed call.
* `FutureUtils.retry`: The calls, the waits between them, and what comes out.
* `FutureUtils.backoff`: The backoff that each call starts from.
* `AccountImporter.minBackoff`, `AccountImporter.maxBackoff`: The ones in use.
-/

namespace Tronscan

/-- `FiniteDuration`: whole nanoseconds, no more than a `Long` holds. -/
@[ext] structure FiniteDuration where
  nanos : ℤ
  bounded : |nanos| < 2 ^ 63
deriving DecidableEq

/-- `toLong`: towards zero. -/
def truncate (x : ℚ) : ℤ := x.num.tdiv x.den

theorem truncate_of_nonneg {x : ℚ} (hx : 0 ≤ x) : truncate x = ⌊x⌋ := by
  rw [Rat.floor_def', truncate, Int.tdiv_eq_ediv_of_nonneg (Rat.num_nonneg.mpr hx)]

theorem truncate_neg (x : ℚ) : truncate (-x) = -truncate x := by
  unfold truncate
  rw [Rat.num_neg_eq_neg_num, Rat.den_neg_eq_den, Int.neg_tdiv]

theorem abs_truncate_le (x : ℚ) : (|truncate x| : ℚ) ≤ |x| := by
  -- What is negative is truncated like its opposite.
  have hnonneg : ∀ y : ℚ, 0 ≤ y → (|truncate y| : ℚ) ≤ |y| := by
    intro y hy
    have hfloor : 0 ≤ ⌊y⌋ := Int.floor_nonneg.mpr hy
    rw [truncate_of_nonneg hy, abs_of_nonneg hy, abs_of_nonneg (by exact_mod_cast hfloor)]
    exact Int.floor_le y
  rcases le_total 0 x with hx | hx
  · exact hnonneg x hx
  · have h := hnonneg (-x) (by linarith)
    rw [truncate_neg, Int.cast_neg, abs_neg, abs_neg] at h
    exact h

theorem abs_truncate_lt {x : ℚ} (h : -2 ^ 63 ≤ x ∧ x ≤ 2 ^ 63 - 1) :
    |truncate (x + 1 / 2)| < 2 ^ 63 := by
  have hlt : |x + 1 / 2| < 2 ^ 63 := by
    rw [abs_lt]
    constructor <;> linarith
  exact_mod_cast (abs_truncate_le _).trans_lt hlt

namespace FiniteDuration

/-- `toMillis`: the whole milliseconds. -/
def toMillis (d : FiniteDuration) : ℤ := d.nanos.tdiv (10 ^ 6)

/-- `DurationDouble.milliseconds`: rounded to whole nanoseconds. Too large a
    number throws. -/
def milliseconds (d : ℚ) : Option FiniteDuration :=
  if h : -2 ^ 63 ≤ d * 10 ^ 6 ∧ d * 10 ^ 6 ≤ 2 ^ 63 - 1 then
    some ⟨truncate (d * 10 ^ 6 + 1 / 2), abs_truncate_lt h⟩
  else none

/-- What is not negative is rounded half up. -/
theorem milliseconds_eq_some_iff {x : ℚ} (hx : 0 ≤ x) {d : FiniteDuration} :
    milliseconds x = some d ↔
      x * 10 ^ 6 ≤ 2 ^ 63 - 1 ∧ d.nanos = ⌊x * 10 ^ 6 + 1 / 2⌋ := by
  have hnanos : 0 ≤ x * 10 ^ 6 := by positivity
  rw [← truncate_of_nonneg (by linarith : 0 ≤ x * 10 ^ 6 + 1 / 2)]
  unfold milliseconds
  split
  · rename_i h
    rw [Option.some.injEq, FiniteDuration.ext_iff, eq_comm]
    exact (and_iff_right h.2).symm
  · rename_i h
    exact iff_of_false (by simp) fun h' => h ⟨by linarith, h'.1⟩

/-- A whole number of milliseconds. -/
def ofMillis (n : ℕ) (h : n ≤ 2 ^ 43) : FiniteDuration :=
  ⟨n * 10 ^ 6, by rw [abs_lt]; constructor <;> omega⟩

end FiniteDuration

/-- The scheduler, with the longest delay it takes. -/
structure Scheduler where
  maxDelay : FiniteDuration
  nonneg : 0 ≤ maxDelay.nanos

/-- The scheduler with its default settings: an `int` counts its ticks, of ten
    milliseconds each. -/
def Scheduler.default : Scheduler where
  maxDelay := .ofMillis (10 * (2 ^ 31 - 1)) (by omega)
  nonneg := by decide

/-- What a call fails with, or the failure to wait. -/
inductive Throwable (ε : Type) where
  | thrown (e : ε)
  | illegalArgument
deriving DecidableEq

namespace FutureUtils

open FiniteDuration

/-- The wait that follows a failed call: the next backoff, unless there is no such
    duration or the scheduler refuses it. -/
def wait (s : Scheduler) (randomFactor : ℚ) (minBackoff : FiniteDuration) :
    Option FiniteDuration := do
  let nextBackof ← milliseconds (minBackoff.toMillis * (1 + randomFactor))
  if s.maxDelay.nanos < nextBackof.nanos then none else return nextBackof

variable {ε α : Type}

/-- `FutureUtils.retry`, for so many calls at most: the waits, and the outcome.
    The first call's outcome is `f 0`. -/
def retry (s : Scheduler) (maxBackoff : FiniteDuration) (randomFactor : ℚ) :
    ℕ → FiniteDuration → (ℕ → Except ε α) →
      Option (List FiniteDuration × Except (Throwable ε) α)
  | 0, _, _ => none
  | calls + 1, minBackoff, f =>
      match f 0 with
      | .ok a => some ([], .ok a)
      | .error e =>
          if minBackoff.nanos < maxBackoff.nanos then
            match wait s randomFactor minBackoff with
            -- The exception is thrown while recovering, and takes the failure's place.
            | none => some ([], .error .illegalArgument)
            | some nextBackof =>
                (retry s maxBackoff randomFactor calls nextBackof fun n => f (n + 1)).map
                  fun run => (nextBackof :: run.1, run.2)
          else some ([], .error (.thrown e))

/-- The backoff that a call starts from, if the waits before it can be made. -/
def backoff (s : Scheduler) (randomFactor : ℚ) : FiniteDuration → ℕ → Option FiniteDuration
  | minBackoff, 0 => some minBackoff
  | minBackoff, n + 1 =>
      (wait s randomFactor minBackoff).bind fun nextBackof => backoff s randomFactor nextBackof n

end FutureUtils

namespace AccountImporter

open FiniteDuration

/-- The backoff that the importer starts with. -/
def minBackoff : FiniteDuration := ofMillis 250 (by omega)

/-- The backoff that it stops at. -/
def maxBackoff : FiniteDuration := ofMillis 34000 (by omega)

end AccountImporter

end Tronscan
