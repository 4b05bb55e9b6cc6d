import Tronscan.Theory.RetryRuns
import Mathlib.Algebra.Order.Ring.Rat
import Mathlib.Tactic.Linarith
import Mathlib.Tactic.NormNum
import Mathlib.Tactic.Positivity

/-!
# When a Retry Ends

The backoffs look like a geometric sequence, but each one starts from the whole
milliseconds of the one before. Where the factor adds less than a millisecond,
what it adds is dropped in the next step, and from then on the backoff stays the
same. A call that always fails is then repeated forever, if that backoff is below
the bound. Below a millisecond there is nothing to multiply at all, and the calls
are repeated without any wait.

Where the first step does add a millisecond, so does every later one, and some
backoff reaches the bound, unless one on the way is too long to be waited for.

## Main definitions

* `RetryEnds`: The calls are made finitely often, and their failure comes out.
* `BackoffGrows`: The first step adds a millisecond.

## Theorems

* `exists_last`: Growing backoffs reach every bound.
* `wait_fixed`: The others stay where they are.
* `retryEnds_iff`: When a retry ends.
* `not_retryEnds_millisecond`: Retrying after a millisecond, with half of it added.
-/

namespace Tronscan.FutureUtils

open FiniteDuration

variable {ε : Type} {s : Scheduler} {maxBackoff : FiniteDuration} {r : ℚ}
  {minBackoff : FiniteDuration} {failures : ℕ → ε}

section Definitions

variable (s maxBackoff r minBackoff)

/-- A retry of calls that all fail ends with the failure of the last one. -/
def RetryEnds (α : Type) (failures : ℕ → ε) : Prop :=
  ∃ calls waits, retry s maxBackoff r calls minBackoff (fun n => .error (failures n)) =
    some (waits, (.error (.thrown (failures waits.length)) : Except (Throwable ε) α))

/-- The factor adds a millisecond to the whole milliseconds, when it is rounded. -/
def BackoffGrows : Prop := 10 ^ 6 ≤ (minBackoff.toMillis : ℚ) * r * 10 ^ 6 + 1 / 2

/-- While the backoffs are below the bound, the next one can be waited for. -/
def WaitsPossible : Prop :=
  ∀ n, (∀ i ≤ n, ∃ b, backoff s r minBackoff i = some b ∧ b.nanos < maxBackoff.nanos) →
    ∃ w, backoff s r minBackoff (n + 1) = some w

end Definitions

theorem toMillis_eq {d : FiniteDuration} (hd : 0 ≤ d.nanos) : d.toMillis = d.nanos / 10 ^ 6 :=
  Int.tdiv_eq_ediv_of_nonneg hd

theorem toMillis_nonneg {d : FiniteDuration} (hd : 0 ≤ d.nanos) : 0 ≤ d.toMillis := by
  rw [toMillis_eq hd]
  omega

/-- A wait is computed from the whole milliseconds of the backoff. -/
theorem wait_congr {d d' : FiniteDuration} (h : d.toMillis = d'.toMillis) :
    wait s r d = wait s r d' := by
  unfold wait
  rw [h]

/-- A wait that can be made is the product, rounded to nanoseconds. -/
theorem wait_eq_some_iff (hr : 0 ≤ r) {d w : FiniteDuration} (hd : 0 ≤ d.nanos) :
    wait s r d = some w ↔
      ((d.toMillis : ℚ) * (1 + r) * 10 ^ 6 ≤ 2 ^ 63 - 1 ∧
        w.nanos = ⌊(d.toMillis : ℚ) * (1 + r) * 10 ^ 6 + 1 / 2⌋) ∧ w.nanos ≤ s.maxDelay.nanos := by
  have hmillis : (0 : ℚ) ≤ d.toMillis := by exact_mod_cast toMillis_nonneg hd
  rw [← milliseconds_eq_some_iff (by positivity)]
  unfold wait
  rw [Option.bind_eq_bind, Option.bind_eq_some_iff]
  constructor
  · rintro ⟨nextBackof, hnext, h⟩
    by_cases hdelay : s.maxDelay.nanos < nextBackof.nanos
    · rw [if_pos hdelay] at h
      cases h
    · rw [if_neg hdelay] at h
      cases h
      exact ⟨hnext, by omega⟩
  · rintro ⟨hnext, hdelay⟩
    exact ⟨w, hnext, by rw [if_neg (by omega)]; rfl⟩

/-- A wait, in nanoseconds. -/
theorem wait_nanos (hr : 0 ≤ r) {d w : FiniteDuration} (hd : 0 ≤ d.nanos)
    (hwait : wait s r d = some w) : w.nanos = ⌊(d.toMillis : ℚ) * (1 + r) * 10 ^ 6 + 1 / 2⌋ :=
  ((wait_eq_some_iff hr hd).mp hwait).1.2

/-- The wait can be made if the scheduler takes it. -/
theorem exists_wait (hr : 0 ≤ r) {d : FiniteDuration} (hd : 0 ≤ d.nanos)
    (hlong : (d.toMillis : ℚ) * (1 + r) * 10 ^ 6 ≤ 2 ^ 63 - 1)
    (hdelay : ⌊(d.toMillis : ℚ) * (1 + r) * 10 ^ 6 + 1 / 2⌋ ≤ s.maxDelay.nanos) :
    ∃ w, wait s r d = some w := by
  have hcast : (0 : ℚ) ≤ d.toMillis := by exact_mod_cast toMillis_nonneg hd
  have hnonneg : 0 ≤ ⌊(d.toMillis : ℚ) * (1 + r) * 10 ^ 6 + 1 / 2⌋ :=
    Int.floor_nonneg.mpr (by positivity)
  have hmax := abs_lt.mp s.maxDelay.bounded
  exact ⟨⟨⌊(d.toMillis : ℚ) * (1 + r) * 10 ^ 6 + 1 / 2⌋, abs_lt.mpr ⟨by omega, by omega⟩⟩,
    (wait_eq_some_iff hr hd).mpr ⟨⟨hlong, rfl⟩, hdelay⟩⟩

/-- No backoff is negative. -/
theorem backoff_nonneg (hr : 0 ≤ r) (hmin : 0 ≤ minBackoff.nanos) (n : ℕ) {b : FiniteDuration}
    (hb : backoff s r minBackoff n = some b) : 0 ≤ b.nanos := by
  induction n generalizing b with
  | zero =>
      cases hb
      exact hmin
  | succ n ih =>
      rw [backoff_succ, Option.bind_eq_some_iff] at hb
      rcases hb with ⟨a, ha, hwait⟩
      have hmillis : (0 : ℚ) ≤ a.toMillis := by exact_mod_cast toMillis_nonneg (ih ha)
      rw [wait_nanos hr (ih ha) hwait, Int.floor_nonneg]
      positivity

/-- A step that adds a millisecond, when it is rounded. -/
theorem toMillis_lt_wait (hr : 0 ≤ r) {d w : FiniteDuration} (hd : 0 ≤ d.nanos)
    (hgrows : BackoffGrows r d) (hwait : wait s r d = some w) : d.toMillis < w.toMillis := by
  have hw := wait_nanos hr hd hwait
  have hmillis := toMillis_nonneg hd
  have hlow : (d.toMillis + 1) * 10 ^ 6 ≤ w.nanos := by
    rw [hw, Int.le_floor]
    unfold BackoffGrows at hgrows
    push_cast
    linarith
  rw [toMillis_eq (by omega : 0 ≤ w.nanos)]
  omega

/-- A step that adds less is lost on the next one. -/
theorem toMillis_wait (hr : 0 ≤ r) {d w : FiniteDuration} (hd : 0 ≤ d.nanos)
    (hgrows : ¬BackoffGrows r d) (hwait : wait s r d = some w) : w.toMillis = d.toMillis := by
  have hw := wait_nanos hr hd hwait
  have hmillis := toMillis_nonneg hd
  have hcast : (0 : ℚ) ≤ d.toMillis := by exact_mod_cast hmillis
  have hadded : 0 ≤ (d.toMillis : ℚ) * r := mul_nonneg hcast hr
  unfold BackoffGrows at hgrows
  have hlow : d.toMillis * 10 ^ 6 ≤ w.nanos := by
    rw [hw, Int.le_floor]
    push_cast
    linarith
  have hhigh : w.nanos < (d.toMillis + 1) * 10 ^ 6 := by
    rw [hw, Int.floor_lt]
    push_cast
    linarith
  rw [toMillis_eq (by omega : 0 ≤ w.nanos)]
  omega

/-- Once a step adds a millisecond, each later step does. -/
theorem backoff_grows (hr : 0 ≤ r) (hmin : 0 ≤ minBackoff.nanos) (hgrows : BackoffGrows r minBackoff)
    (n : ℕ) {b : FiniteDuration} (hb : backoff s r minBackoff n = some b) :
    BackoffGrows r b ∧ minBackoff.toMillis + n ≤ b.toMillis := by
  induction n generalizing b with
  | zero =>
      cases hb
      exact ⟨hgrows, by simp⟩
  | succ n ih =>
      rw [backoff_succ, Option.bind_eq_some_iff] at hb
      rcases hb with ⟨a, ha, hwait⟩
      rcases ih ha with ⟨hga, hna⟩
      have hlt := toMillis_lt_wait hr (backoff_nonneg hr hmin n ha) hga hwait
      refine ⟨?_, by push_cast; omega⟩
      -- More milliseconds, and the same factor.
      have hle : (a.toMillis : ℚ) * r ≤ b.toMillis * r :=
        mul_le_mul_of_nonneg_right (by exact_mod_cast hlt.le) hr
      unfold BackoffGrows at hga ⊢
      linarith

/-- A step that adds no millisecond leads to a backoff that does not change. -/
theorem wait_fixed (hr : 0 ≤ r) (hmin : 0 ≤ minBackoff.nanos) (hgrows : ¬BackoffGrows r minBackoff)
    (n : ℕ) : backoff s r minBackoff (n + 1) = wait s r minBackoff := by
  induction n with
  | zero =>
      rw [backoff_succ]
      rfl
  | succ n ih =>
      rw [backoff_succ, ih]
      rcases hwait : wait s r minBackoff with _ | w
      · rfl
      · rw [Option.bind_some, wait_congr (toMillis_wait hr hmin hgrows hwait), hwait]

/-- If no backoff is the last one, all of them can be made and are below the bound. -/
theorem backoff_lt_of_not_last (hlast : ¬∃ n, Last s maxBackoff r minBackoff n) (n : ℕ) :
    ∃ b, backoff s r minBackoff n = some b ∧ b.nanos < maxBackoff.nanos := by
  have hgoes : ∀ n b, backoff s r minBackoff n = some b →
      b.nanos < maxBackoff.nanos ∧ ∃ w, backoff s r minBackoff (n + 1) = some w := by
    intro n b hb
    by_contra hno
    refine hlast ⟨n, b, hb, fun hlt => ?_⟩
    by_contra hne
    exact hno ⟨hlt, Option.ne_none_iff_exists'.mp hne⟩
  induction n with
  | zero => exact ⟨minBackoff, rfl, (hgoes 0 minBackoff rfl).1⟩
  | succ n ih =>
      rcases ih with ⟨b, hb, -⟩
      rcases (hgoes n b hb).2 with ⟨w, hw⟩
      exact ⟨w, hw, (hgoes (n + 1) w hw).1⟩

/-- Backoffs that grow reach every bound. -/
theorem exists_last (hr : 0 ≤ r) (hmin : 0 ≤ minBackoff.nanos) (hgrows : BackoffGrows r minBackoff) :
    ∃ n, Last s maxBackoff r minBackoff n := by
  by_contra hlast
  rcases backoff_lt_of_not_last hlast maxBackoff.nanos.toNat with ⟨b, hb, hlt⟩
  have hb0 := backoff_nonneg hr hmin _ hb
  have hmillis := (backoff_grows hr hmin hgrows _ hb).2
  have hmin0 := toMillis_nonneg hmin
  rw [toMillis_eq hb0] at hmillis
  omega

/-- A scheduler that takes what the factor makes of the bound takes every wait. -/
theorem waitsPossible_of_le (hr : 0 ≤ r) (hmin : 0 ≤ minBackoff.nanos)
    (hdelay : (maxBackoff.nanos : ℚ) * (1 + r) + 1 / 2 ≤ s.maxDelay.nanos) :
    WaitsPossible s maxBackoff r minBackoff := by
  intro n hbelow
  rcases hbelow n (Nat.le_refl n) with ⟨b, hb, hlt⟩
  have hb0 := backoff_nonneg hr hmin n hb
  have hcast : (0 : ℚ) ≤ b.toMillis := by exact_mod_cast toMillis_nonneg hb0
  have hproduct : (b.toMillis : ℚ) * (1 + r) * 10 ^ 6 + 1 / 2 ≤ s.maxDelay.nanos := by
    have hwhole : b.toMillis * 10 ^ 6 ≤ maxBackoff.nanos := by
      rw [toMillis_eq hb0]
      omega
    have hwhole' : (b.toMillis : ℚ) * 10 ^ 6 ≤ maxBackoff.nanos := by exact_mod_cast hwhole
    have hscaled := mul_le_mul_of_nonneg_right hwhole' (by linarith : 0 ≤ 1 + r)
    linarith
  have hlong : (s.maxDelay.nanos : ℚ) ≤ 2 ^ 63 - 1 := by
    have hmax := (abs_lt.mp s.maxDelay.bounded).2
    exact_mod_cast (by omega : s.maxDelay.nanos ≤ 2 ^ 63 - 1)
  have hfloor : ⌊(b.toMillis : ℚ) * (1 + r) * 10 ^ 6 + 1 / 2⌋ ≤ s.maxDelay.nanos := by
    exact_mod_cast (Int.floor_le _).trans hproduct
  rcases exists_wait hr hb0 (by linarith) hfloor with ⟨w, hw⟩
  exact ⟨w, by rw [backoff_succ, hb, Option.bind_some, hw]⟩

/-- A backoff that reaches the bound is the first or the second one, or they grow. -/
theorem bound_of_reached (hr : 0 ≤ r) (hmin : 0 ≤ minBackoff.nanos) {n : ℕ} {b : FiniteDuration}
    (hb : backoff s r minBackoff n = some b) (hmax : maxBackoff.nanos ≤ b.nanos) :
    maxBackoff.nanos ≤ minBackoff.nanos ∨
      (maxBackoff.nanos : ℚ) ≤ minBackoff.toMillis * (1 + r) * 10 ^ 6 + 1 / 2 ∨
      BackoffGrows r minBackoff := by
  by_cases hgrows : BackoffGrows r minBackoff
  · exact .inr (.inr hgrows)
  · cases n with
    | zero =>
        cases hb
        exact .inl hmax
    | succ n =>
        -- The backoff never changes after the second one.
        rw [wait_fixed hr hmin hgrows] at hb
        rw [← Int.le_floor, ← wait_nanos hr hmin hb]
        exact .inr (.inl hmax)

/-- If the bound is reached at once or after a step, or the backoffs grow, one of them
    is the last. -/
theorem exists_last_of_bound (hr : 0 ≤ r) (hmin : 0 ≤ minBackoff.nanos)
    (hbound : maxBackoff.nanos ≤ minBackoff.nanos ∨
      (maxBackoff.nanos : ℚ) ≤ minBackoff.toMillis * (1 + r) * 10 ^ 6 + 1 / 2 ∨
      BackoffGrows r minBackoff) : ∃ n, Last s maxBackoff r minBackoff n := by
  have hsecond : backoff s r minBackoff 1 = wait s r minBackoff := by
    rw [backoff_succ]
    rfl
  rcases hbound with hle | hle | hgrows
  · exact ⟨0, minBackoff, rfl, fun hlt => absurd hlt (by omega)⟩
  · rcases hwait : wait s r minBackoff with _ | w
    · exact ⟨0, minBackoff, rfl, fun _ => hsecond.trans hwait⟩
    · refine ⟨1, w, hsecond.trans hwait, fun hlt => ?_⟩
      rw [← Int.le_floor, ← wait_nanos hr hmin hwait] at hle
      omega
  · exact exists_last hr hmin hgrows

/-- A retry of calls that all fail ends with their failure exactly when the bound is
    not above the first backoff or the second, or the first step adds a millisecond,
    and the waits on the way can be made. -/
theorem retryEnds_iff (s : Scheduler) (maxBackoff : FiniteDuration) (r : ℚ)
    (minBackoff : FiniteDuration) (hmin : 0 < minBackoff.nanos) (hr : 0 < r) (α : Type)
    (failures : ℕ → ε) :
    RetryEnds s maxBackoff r minBackoff α failures ↔
      (maxBackoff.nanos ≤ minBackoff.nanos ∨
        (maxBackoff.nanos : ℚ) ≤ minBackoff.toMillis * (1 + r) * 10 ^ 6 + 1 / 2 ∨
        BackoffGrows r minBackoff) ∧
      WaitsPossible s maxBackoff r minBackoff := by
  constructor
  · rintro ⟨calls, waits, hrun⟩
    rcases retry_spec hrun with ⟨hgoes, hstops⟩
    cases hstops with
    | exhausted hf hb hmax =>
        refine ⟨bound_of_reached hr.le hmin.le hb hmax, fun n hbelow => ?_⟩
        by_cases hn : n < waits.length
        · exact ⟨_, (hgoes n hn).2.2⟩
        · rcases hbelow waits.length (by omega) with ⟨b', hb', hlt⟩
          rw [hb] at hb'
          cases hb'
          omega
  · rintro ⟨hbound, hwaits⟩
    rcases exists_retry (exists_last_of_bound hr.le hmin.le hbound)
      fun n => (.error (failures n) : Except ε α) with ⟨calls, waits, result, hrun⟩
    rcases retry_spec hrun with ⟨hgoes, hstops⟩
    refine ⟨calls, waits, ?_⟩
    cases hstops with
    | ok hf => cases hf
    | exhausted hf hb hmax =>
        cases hf
        exact hrun
    | illegal hf hb hmax hnext =>
        -- All backoffs so far are below the bound, so the next one can be waited for.
        have hbelow : ∀ i ≤ waits.length,
            ∃ b, backoff s r minBackoff i = some b ∧ b.nanos < maxBackoff.nanos := by
          intro i hi
          rcases Nat.lt_or_eq_of_le hi with hi | rfl
          · exact (hgoes i hi).2.1
          · exact ⟨_, hb, hmax⟩
        rcases hwaits waits.length hbelow with ⟨w, hw⟩
        rw [hnext] at hw
        cases hw

/-- The backoffs of the account importer. -/
theorem retryEnds_importer :
    RetryEnds .default AccountImporter.maxBackoff 1 AccountImporter.minBackoff Unit (fun n => n) := by
  refine (retryEnds_iff _ _ 1 _ (by decide) one_pos Unit _).mpr ⟨.inr (.inr ?_), ?_⟩
  · have hmillis : AccountImporter.minBackoff.toMillis = 250 := by decide
    rw [BackoffGrows, hmillis]
    norm_num
  · refine waitsPossible_of_le one_pos.le (by decide) ?_
    norm_num [AccountImporter.maxBackoff, Scheduler.default, ofMillis]

/-- A millisecond. -/
def millisecond : FiniteDuration := ofMillis 1 (by omega)

/-- Thirty seconds. -/
def thirtySeconds : FiniteDuration := ofMillis 30000 (by omega)

/-- After a millisecond, a half is added and dropped again, so the calls go on
    forever. -/
theorem not_retryEnds_millisecond :
    ¬RetryEnds .default thirtySeconds (1 / 2) millisecond Unit (fun n => n) := by
  have hmillis : millisecond.toMillis = 1 := by decide
  rw [retryEnds_iff _ _ _ _ (by decide) (by norm_num), BackoffGrows, hmillis]
  rintro ⟨hle | hle | hle, -⟩
  · exact absurd hle (by decide)
  · norm_num [thirtySeconds, ofMillis] at hle
  · norm_num at hle

end Tronscan.FutureUtils
