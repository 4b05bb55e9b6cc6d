import Tronscan.Theory.RetryEnds

/-!
# The Waits of a Retry

With whole milliseconds and a whole factor nothing is ever dropped, and the
backoffs are a geometric sequence. A retry that goes on after a backoff below the
bound waits for the next term of it. So the last wait is within the bound only
where a term meets it, unless a call succeeds before, or the scheduler refuses
the wait. The importer's bound is between two terms.

## Main definitions

* `WaitsWithin`: A run ends, and its waits and its outcome are as they should be.

## Theorems

* `backoff_nanos`: The backoffs are a geometric sequence.
* `waitsWithin_iff`: When the waits are within the bound.
* `not_waitsWithin_importer`: The importer waits longer.
-/

namespace Tronscan.FutureUtils

open FiniteDuration

variable {ε α : Type} {s : Scheduler} {maxBackoff : FiniteDuration} {r k : ℕ}
  {minBackoff : FiniteDuration} {f : ℕ → Except ε α}

/-- The run ends. Its waits are between the two backoffs and never decrease, and the
    outcome is that of the first call to succeed, if one did. -/
def WaitsWithin (s : Scheduler) (maxBackoff : FiniteDuration) (r : ℚ)
    (minBackoff : FiniteDuration) (f : ℕ → Except ε α) : Prop :=
  ∃ calls waits result, retry s maxBackoff r calls minBackoff f = some (waits, result) ∧
    (∀ w ∈ waits, minBackoff.nanos ≤ w.nanos ∧ w.nanos ≤ maxBackoff.nanos) ∧
    waits.Pairwise (fun w w' => w.nanos ≤ w'.nanos) ∧
    ∀ n ≤ waits.length, ∀ a, f n = .ok a → (∀ i < n, ∃ e, f i = .error e) → result = .ok a

/-- A wait after whole milliseconds is them times the factor. -/
theorem wait_whole {m : ℕ} {d w : FiniteDuration} (hd : d.nanos = m * 10 ^ 6) :
    wait s r d = some w ↔
      w.nanos = m * (1 + r) * 10 ^ 6 ∧ m * (1 + r) * 10 ^ 6 ≤ s.maxDelay.nanos := by
  have hmillis : (d.toMillis : ℚ) = m := by
    rw [toMillis_eq (by omega), hd, Int.mul_ediv_cancel _ (by norm_num), Int.cast_natCast]
  have hfloor : ⌊(m : ℚ) * (1 + r) * 10 ^ 6 + 1 / 2⌋ = m * (1 + r) * 10 ^ 6 := by
    rw [Int.floor_eq_iff]
    push_cast
    constructor <;> linarith
  rw [wait_eq_some_iff (Nat.cast_nonneg r) (by omega), hmillis, hfloor]
  constructor
  · rintro ⟨⟨-, hw⟩, hdelay⟩
    exact ⟨hw, hw ▸ hdelay⟩
  · rintro ⟨hw, hdelay⟩
    refine ⟨⟨?_, hw⟩, hw ▸ hdelay⟩
    have hlt : (m * (1 + r) * 10 ^ 6 : ℤ) < 2 ^ 63 :=
      hdelay.trans_lt (abs_lt.mp s.maxDelay.bounded).2
    exact_mod_cast Int.le_sub_one_of_lt hlt

theorem exists_wait_whole {m : ℕ} {d : FiniteDuration} (hd : d.nanos = m * 10 ^ 6)
    (hdelay : m * (1 + r) * 10 ^ 6 ≤ s.maxDelay.nanos) : ∃ w, wait s r d = some w := by
  have hnonneg : (0 : ℤ) ≤ m * (1 + r) * 10 ^ 6 :=
    mul_nonneg (mul_nonneg (Int.natCast_nonneg m) (by omega)) (by norm_num)
  have hlt := hdelay.trans_lt (abs_lt.mp s.maxDelay.bounded).2
  exact ⟨⟨m * (1 + r) * 10 ^ 6, by rwa [abs_of_nonneg hnonneg]⟩, (wait_whole hd).mpr ⟨rfl, hdelay⟩⟩

/-- The backoffs are a geometric sequence. -/
theorem backoff_nanos (hmin : minBackoff.nanos = k * 10 ^ 6) (n : ℕ) {b : FiniteDuration}
    (hb : backoff s r minBackoff n = some b) : b.nanos = minBackoff.nanos * (1 + r) ^ n := by
  induction n generalizing b with
  | zero =>
      cases hb
      simp
  | succ n ih =>
      rw [backoff_succ, Option.bind_eq_some_iff] at hb
      rcases hb with ⟨a, ha, hwait⟩
      have hwhole : a.nanos = (k * (1 + r) ^ n : ℕ) * 10 ^ 6 := by
        rw [ih ha, hmin]
        push_cast
        ring
      rw [((wait_whole hwhole).mp hwait).1, hmin]
      push_cast
      ring

/-- The term after a backoff is the one that follows it, if the scheduler takes it. -/
theorem backoff_succ_iff (hmin : minBackoff.nanos = k * 10 ^ 6) (n : ℕ) {b : FiniteDuration}
    (hb : backoff s r minBackoff n = some b) :
    (∃ w, backoff s r minBackoff (n + 1) = some w) ↔
      minBackoff.nanos * (1 + r) ^ (n + 1) ≤ s.maxDelay.nanos := by
  have hwhole : b.nanos = (k * (1 + r) ^ n : ℕ) * 10 ^ 6 := by
    rw [backoff_nanos hmin n hb, hmin]
    push_cast
    ring
  have hterm : minBackoff.nanos * (1 + r) ^ (n + 1) =
      (k * (1 + r) ^ n : ℕ) * (1 + r) * 10 ^ 6 := by
    rw [hmin]
    push_cast
    ring
  rw [backoff_succ, hb, Option.bind_some, hterm]
  constructor
  · rintro ⟨w, hw⟩
    exact ((wait_whole hwhole).mp hw).2
  · exact exists_wait_whole hwhole

/-- The terms of the sequence never decrease. -/
theorem term_le {a : ℤ} (ha : 0 ≤ a) {i j : ℕ} (hij : i ≤ j) : a * (1 + r) ^ i ≤ a * (1 + r) ^ j :=
  mul_le_mul_of_nonneg_left (pow_le_pow_right₀ (by omega) hij) ha

/-- A run of failing calls goes on while the backoffs are below the bound and the next
    term can be waited for. -/
theorem lt_length_of_fails (hmin : minBackoff.nanos = k * 10 ^ 6) {calls : ℕ}
    {waits : List FiniteDuration} {result : Except (Throwable ε) α}
    (hrun : retry s maxBackoff r calls minBackoff f = some (waits, result)) {n : ℕ}
    (hfails : ∀ i ≤ n, ∃ e, f i = .error e)
    (hbelow : minBackoff.nanos * (1 + r) ^ n < maxBackoff.nanos)
    (hdelay : minBackoff.nanos * (1 + r) ^ (n + 1) ≤ s.maxDelay.nanos) : n < waits.length := by
  have hnonneg : 0 ≤ minBackoff.nanos := by omega
  rcases retry_spec hrun with ⟨-, hstops⟩
  by_contra hshort
  have hle := Nat.le_of_not_lt hshort
  rcases hfails waits.length hle with ⟨e, he⟩
  rcases last_of_stopsAt he hstops with ⟨b, hb, hnone⟩
  -- Its backoff is below the bound like the later one, so the next one cannot be made.
  have hterm := term_le (r := r) hnonneg hle
  rw [← backoff_nanos hmin _ hb] at hterm
  have hnext := (term_le (r := r) hnonneg (Nat.succ_le_succ hle)).trans hdelay
  rcases (backoff_succ_iff hmin _ hb).mpr hnext with ⟨w, hw⟩
  rw [hnone (by omega)] at hw
  cases hw

/-- Where the bound is between two terms, some call before has to succeed. -/
theorem exists_ok_of_within (hmin : minBackoff.nanos = k * 10 ^ 6)
    (h : WaitsWithin s maxBackoff r minBackoff f) {n : ℕ}
    (hbelow : minBackoff.nanos * (1 + r) ^ n < maxBackoff.nanos)
    (habove : maxBackoff.nanos < minBackoff.nanos * (1 + r) ^ (n + 1))
    (hdelay : minBackoff.nanos * (1 + r) ^ (n + 1) ≤ s.maxDelay.nanos) :
    ∃ i ≤ n, ∃ a, f i = .ok a := by
  rcases h with ⟨calls, waits, result, hrun, hbounds, -⟩
  by_contra hno
  have hfails : ∀ i ≤ n, ∃ e, f i = .error e := by
    intro i hi
    rcases hf : f i with e | a
    · exact ⟨e, rfl⟩
    · exact absurd ⟨i, hi, a, hf⟩ hno
  -- The run gets to the wait that is too long.
  have hn := lt_length_of_fails hmin hrun hfails hbelow hdelay
  have hmax := (hbounds waits[n] (List.getElem_mem hn)).2
  rw [backoff_nanos hmin _ ((retry_spec hrun).1 n hn).2.2] at hmax
  omega

theorem backoffGrows_whole (hr : 1 ≤ r) (hk : 1 ≤ k) (hmin : minBackoff.nanos = k * 10 ^ 6) :
    BackoffGrows r minBackoff := by
  have hmillis : (minBackoff.toMillis : ℚ) = k := by
    rw [toMillis_eq (by omega), hmin, Int.mul_ediv_cancel _ (by norm_num), Int.cast_natCast]
  have hone : (1 : ℚ) ≤ k * r := by exact_mod_cast Nat.mul_le_mul hk hr
  unfold BackoffGrows
  rw [hmillis]
  linarith

/-- The waits are as they should be exactly when the bound is a term of the sequence,
    or a call succeeds before a term exceeds it, or the scheduler refuses that term. -/
theorem waitsWithin_iff (s : Scheduler) (maxBackoff : FiniteDuration) (r k : ℕ)
    (minBackoff : FiniteDuration) (f : ℕ → Except ε α) (hr : 1 ≤ r) (hk : 1 ≤ k)
    (hmin : minBackoff.nanos = k * 10 ^ 6) :
    WaitsWithin s maxBackoff r minBackoff f ↔
      ∀ n : ℕ, minBackoff.nanos * (1 + r) ^ n < maxBackoff.nanos →
        maxBackoff.nanos < minBackoff.nanos * (1 + r) ^ (n + 1) →
        minBackoff.nanos * (1 + r) ^ (n + 1) ≤ s.maxDelay.nanos →
        ∃ i ≤ n, ∃ a, f i = .ok a := by
  have hnonneg : 0 ≤ minBackoff.nanos := by omega
  refine ⟨fun h n => exists_ok_of_within hmin h, fun hcond => ?_⟩
  rcases exists_retry (exists_last (s := s) (Nat.cast_nonneg r) hnonneg
    (backoffGrows_whole hr hk hmin)) f with ⟨calls, waits, result, hrun⟩
  rcases retry_spec hrun with ⟨hgoes, hstops⟩
  have hterm : ∀ (n : ℕ) (h : n < waits.length),
      waits[n].nanos = minBackoff.nanos * (1 + r) ^ (n + 1) := fun n h =>
    backoff_nanos hmin _ (hgoes n h).2.2
  refine ⟨calls, waits, result, hrun, fun w hw => ?_, ?_, fun n hn a ha hbefore => ?_⟩
  · rcases List.getElem_of_mem hw with ⟨n, hn, rfl⟩
    rcases hgoes n hn with ⟨-, ⟨b, hb, hbmax⟩, hnext⟩
    have hfirst := term_le (r := r) hnonneg (Nat.zero_le (n + 1))
    rw [pow_zero, mul_one] at hfirst
    rw [hterm n hn]
    refine ⟨hfirst, ?_⟩
    by_contra habove
    rw [backoff_nanos hmin n hb] at hbmax
    rcases hcond n hbmax (by omega) ((backoff_succ_iff hmin n hb).mp ⟨_, hnext⟩)
      with ⟨i, hi, a, ha⟩
    -- That call was followed by a wait, so it did not succeed.
    exact not_ok_of_goesOn (hgoes i (by omega)) ha
  · rw [List.pairwise_iff_getElem]
    intro i j hi hj hij
    rw [hterm i hi, hterm j hj]
    exact term_le hnonneg (by omega)
  · rcases Nat.lt_or_eq_of_le hn with hn | rfl
    · exact absurd ha (not_ok_of_goesOn (hgoes n hn))
    · exact stopsAt_of_ok ha hstops

/-- Thirty-two seconds. -/
def thirtyTwoSeconds : FiniteDuration := ofMillis 32000 (by omega)

/-- With a bound that is a term of the sequence. -/
theorem waitsWithin_term :
    WaitsWithin .default thirtyTwoSeconds (1 : ℕ) AccountImporter.minBackoff
      (fun n => (.error n : Except ℕ Unit)) := by
  refine (waitsWithin_iff _ _ 1 250 _ _ (by omega) (by omega) rfl).mpr fun n hbelow habove _ => ?_
  norm_num [AccountImporter.minBackoff, thirtyTwoSeconds, ofMillis] at hbelow habove
  -- The bound is the eighth term, and the powers of two increase.
  have hn : n < 7 := by
    by_contra hn
    have hpow : (2 : ℤ) ^ 7 ≤ 2 ^ n := pow_le_pow_right₀ (by omega) (by omega)
    omega
  have hpow : (2 : ℤ) ^ (n + 1) ≤ 2 ^ 7 := pow_le_pow_right₀ (by omega) (by omega)
  omega

/-- After 32 seconds the importer waits for 64, though its bound is 34. -/
theorem not_waitsWithin_importer :
    ¬WaitsWithin .default AccountImporter.maxBackoff (1 : ℕ) AccountImporter.minBackoff
      (fun n => (.error n : Except ℕ Unit)) := by
  rw [waitsWithin_iff _ _ 1 250 _ _ (by omega) (by omega) rfl]
  intro hcond
  rcases hcond 7 (by decide) (by decide) (by decide) with ⟨i, -, a, ha⟩
  cases ha

end Tronscan.FutureUtils
