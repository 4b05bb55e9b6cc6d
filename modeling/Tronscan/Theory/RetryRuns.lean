import Tronscan.Utils.Retry

/-!
# Runs of a Retry

A run is a row of failed calls with a wait after each, and a last call. So it is
determined by the backoffs, which do not depend on the calls, and by the first
place where the calls succeed or the backoff allows no more.

## Main definitions

* `GoesOn`: A call fails, and a wait follows.
* `StopsAt`: A call is the last one, with this outcome.
* `Last`: A backoff that allows no more calls.

## Theorems

* `retry_spec`: A run is calls that go on, and one that stops.
* `retry_of_stopsAt`: Such calls are a run.
* `exists_retry`: If some backoff allows no more calls, every run ends.
-/

namespace Tronscan.FutureUtils

open FiniteDuration

variable {ε α : Type} {s : Scheduler} {maxBackoff : FiniteDuration} {r : ℚ}
  {minBackoff : FiniteDuration} {f : ℕ → Except ε α}

section Runs

variable (s maxBackoff r minBackoff f)

/-- The call fails, and the wait `w` follows it. -/
def GoesOn (n : ℕ) (w : FiniteDuration) : Prop :=
  (∃ e, f n = .error e) ∧
    (∃ b, backoff s r minBackoff n = some b ∧ b.nanos < maxBackoff.nanos) ∧
    backoff s r minBackoff (n + 1) = some w

/-- The call is the last one: it succeeds, or the bound is reached, or no wait can
    be made. -/
inductive StopsAt (n : ℕ) : Except (Throwable ε) α → Prop where
  | ok {a : α} (hf : f n = .ok a) : StopsAt n (.ok a)
  | exhausted {e : ε} {b : FiniteDuration} (hf : f n = .error e)
      (hb : backoff s r minBackoff n = some b) (hmax : maxBackoff.nanos ≤ b.nanos) :
      StopsAt n (.error (.thrown e))
  | illegal {e : ε} {b : FiniteDuration} (hf : f n = .error e)
      (hb : backoff s r minBackoff n = some b) (hmax : b.nanos < maxBackoff.nanos)
      (hnext : backoff s r minBackoff (n + 1) = none) : StopsAt n (.error .illegalArgument)

/-- The backoff of this call allows no other, however it fails. -/
def Last (n : ℕ) : Prop :=
  ∃ b, backoff s r minBackoff n = some b ∧
    (b.nanos < maxBackoff.nanos → backoff s r minBackoff (n + 1) = none)

end Runs

/-- The backoffs after a wait are those of a run that starts with it. -/
theorem backoff_succ_of_wait {next : FiniteDuration} (hwait : wait s r minBackoff = some next)
    (n : ℕ) : backoff s r minBackoff (n + 1) = backoff s r next n := by
  simp only [backoff, hwait, Option.bind_some]

/-- Each backoff is the wait after the one before. -/
theorem backoff_succ (n : ℕ) :
    backoff s r minBackoff (n + 1) = (backoff s r minBackoff n).bind (wait s r) := by
  induction n generalizing minBackoff with
  | zero =>
      simp only [backoff, Option.bind_some]
      cases wait s r minBackoff <;> rfl
  | succ n ih =>
      rcases hwait : wait s r minBackoff with _ | next
      · simp only [backoff, hwait, Option.bind_none]
      · rw [backoff_succ_of_wait hwait, ih, ← backoff_succ_of_wait hwait]

theorem goesOn_succ {next : FiniteDuration} (hwait : wait s r minBackoff = some next) (n : ℕ)
    (w : FiniteDuration) :
    GoesOn s maxBackoff r minBackoff f (n + 1) w ↔
      GoesOn s maxBackoff r next (fun n => f (n + 1)) n w := by
  unfold GoesOn
  rw [backoff_succ_of_wait hwait, backoff_succ_of_wait hwait]

/-- Where a run stops is decided by one call and two backoffs. -/
theorem StopsAt.congr {minBackoff' : FiniteDuration} {f' : ℕ → Except ε α} {n n' : ℕ}
    {result : Except (Throwable ε) α} (hf : f n = f' n')
    (hb : backoff s r minBackoff n = backoff s r minBackoff' n')
    (hnext : backoff s r minBackoff (n + 1) = backoff s r minBackoff' (n' + 1))
    (h : StopsAt s maxBackoff r minBackoff f n result) :
    StopsAt s maxBackoff r minBackoff' f' n' result := by
  cases h with
  | ok ha => exact .ok (hf ▸ ha)
  | exhausted he hback hmax => exact .exhausted (hf ▸ he) (hb ▸ hback) hmax
  | illegal he hback hmax hnone => exact .illegal (hf ▸ he) (hb ▸ hback) hmax (hnext ▸ hnone)

theorem stopsAt_succ {next : FiniteDuration} (hwait : wait s r minBackoff = some next) (n : ℕ)
    (result : Except (Throwable ε) α) :
    StopsAt s maxBackoff r minBackoff f (n + 1) result ↔
      StopsAt s maxBackoff r next (fun n => f (n + 1)) n result := by
  have hbackoff := backoff_succ_of_wait hwait
  exact ⟨StopsAt.congr rfl (hbackoff n) (hbackoff (n + 1)),
    StopsAt.congr rfl (hbackoff n).symm (hbackoff (n + 1)).symm⟩

/-- A run is calls that go on with the waits in between, and a last one. -/
theorem retry_spec {calls : ℕ} {waits : List FiniteDuration} {result : Except (Throwable ε) α}
    (h : retry s maxBackoff r calls minBackoff f = some (waits, result)) :
    (∀ n (hn : n < waits.length), GoesOn s maxBackoff r minBackoff f n waits[n]) ∧
      StopsAt s maxBackoff r minBackoff f waits.length result := by
  induction calls generalizing minBackoff f waits with
  | zero => cases h
  | succ calls ih =>
      rcases hf : f 0 with e | a
      · by_cases hmax : minBackoff.nanos < maxBackoff.nanos
        · rcases hwait : wait s r minBackoff with _ | next
          · simp only [retry, hf, if_pos hmax, hwait, Option.some.injEq, Prod.mk.injEq] at h
            rcases h with ⟨rfl, rfl⟩
            refine ⟨fun n hn => absurd hn (Nat.not_lt_zero n), .illegal hf rfl hmax ?_⟩
            simp only [backoff, hwait, Option.bind_none]
          · -- The rest of the run starts with the wait as its backoff.
            simp only [retry, hf, if_pos hmax, hwait, Option.map_eq_some_iff, Prod.mk.injEq] at h
            rcases h with ⟨⟨rest, result'⟩, hrest, rfl, rfl⟩
            rcases ih hrest with ⟨hgoes, hstops⟩
            refine ⟨fun n hn => ?_, (stopsAt_succ hwait _ _).mpr hstops⟩
            cases n with
            | zero =>
                refine ⟨⟨e, hf⟩, ⟨minBackoff, rfl, hmax⟩, ?_⟩
                rw [backoff_succ_of_wait hwait]
                rfl
            | succ n => exact (goesOn_succ hwait n _).mpr (hgoes n (Nat.lt_of_succ_lt_succ hn))
        · simp only [retry, hf, if_neg hmax, Option.some.injEq, Prod.mk.injEq] at h
          rcases h with ⟨rfl, rfl⟩
          exact ⟨fun n hn => absurd hn (Nat.not_lt_zero n), .exhausted hf rfl (by omega)⟩
      · simp only [retry, hf, Option.some.injEq, Prod.mk.injEq] at h
        rcases h with ⟨rfl, rfl⟩
        exact ⟨fun n hn => absurd hn (Nat.not_lt_zero n), .ok hf⟩

/-- In a run each call before the last one fails. -/
theorem not_ok_of_goesOn {n : ℕ} {w : FiniteDuration} {a : α}
    (h : GoesOn s maxBackoff r minBackoff f n w) : f n ≠ .ok a := by
  rcases h.1 with ⟨e, he⟩
  rw [he]
  exact fun h => by cases h

/-- Where the last call succeeds, it is what comes out. -/
theorem stopsAt_of_ok {n : ℕ} {result : Except (Throwable ε) α} {a : α} (ha : f n = .ok a)
    (h : StopsAt s maxBackoff r minBackoff f n result) : result = .ok a := by
  cases h with
  | ok hf => rw [Except.ok.inj (ha.symm.trans hf)]
  | exhausted hf hb hmax => cases ha.symm.trans hf
  | illegal hf hb hmax hnext => cases ha.symm.trans hf

/-- Where the last call fails, its backoff allows no more. -/
theorem last_of_stopsAt {n : ℕ} {result : Except (Throwable ε) α} {e : ε} (he : f n = .error e)
    (h : StopsAt s maxBackoff r minBackoff f n result) : Last s maxBackoff r minBackoff n := by
  cases h with
  | ok hf => cases he.symm.trans hf
  | exhausted hf hb hmax => exact ⟨_, hb, fun hlt => absurd hmax (by omega)⟩
  | illegal hf hb hmax hnext => exact ⟨_, hb, fun _ => hnext⟩

/-- Calls that go on, and one that stops, are a run. -/
theorem retry_of_stopsAt {n : ℕ} {result : Except (Throwable ε) α}
    (hgoes : ∀ i < n, ∃ w, GoesOn s maxBackoff r minBackoff f i w)
    (hstops : StopsAt s maxBackoff r minBackoff f n result) :
    ∃ waits, retry s maxBackoff r (n + 1) minBackoff f = some (waits, result) := by
  induction n generalizing minBackoff f with
  | zero =>
      refine ⟨[], ?_⟩
      cases hstops with
      | ok hf => simp only [retry, hf]
      | exhausted hf hb hmax =>
          cases hb
          simp only [retry, hf, if_neg (show ¬minBackoff.nanos < maxBackoff.nanos by omega)]
      | illegal hf hb hmax hnext =>
          cases hb
          rcases hwait : wait s r minBackoff with _ | next
          · simp only [retry, hf, if_pos hmax, hwait]
          · rw [backoff_succ_of_wait hwait] at hnext
            cases hnext
  | succ n ih =>
      rcases hgoes 0 (Nat.succ_pos n) with ⟨w, ⟨e, hf⟩, ⟨b, hb, hmax⟩, hnext⟩
      cases hb
      have hwait : wait s r minBackoff = some w := by
        rw [backoff_succ] at hnext
        exact hnext
      rcases ih (fun i hi => (hgoes (i + 1) (by omega)).imp fun w' => (goesOn_succ hwait i w').mp)
        ((stopsAt_succ hwait n result).mp hstops) with ⟨waits, hrun⟩
      refine ⟨w :: waits, ?_⟩
      rw [retry]
      simp only [hf, if_pos hmax, hwait, hrun, Option.map_some]

/-- A call stops the run if it succeeds, or if its backoff allows no more. -/
theorem exists_stopsAt {n : ℕ} (h : Last s maxBackoff r minBackoff n ∨ ∃ a, f n = .ok a) :
    ∃ result, StopsAt s maxBackoff r minBackoff f n result := by
  rcases hf : f n with e | a
  · rcases h with ⟨b, hb, hnext⟩ | ⟨a, ha⟩
    · by_cases hmax : b.nanos < maxBackoff.nanos
      · exact ⟨_, .illegal hf hb hmax (hnext hmax)⟩
      · exact ⟨_, .exhausted hf hb (by omega)⟩
    · rw [hf] at ha
      cases ha
  · exact ⟨_, .ok hf⟩

/-- Another one goes on, if its backoff can be made. -/
theorem exists_goesOn {n : ℕ} {b : FiniteDuration} (hb : backoff s r minBackoff n = some b)
    (h : ¬(Last s maxBackoff r minBackoff n ∨ ∃ a, f n = .ok a)) :
    ∃ w, GoesOn s maxBackoff r minBackoff f n w := by
  rcases not_or.mp h with ⟨hlast, hfails⟩
  have hmax : b.nanos < maxBackoff.nanos ∧ backoff s r minBackoff (n + 1) ≠ none := by
    by_contra hno
    exact hlast ⟨b, hb, fun hlt => by_contra fun hne => hno ⟨hlt, hne⟩⟩
  rcases Option.ne_none_iff_exists'.mp hmax.2 with ⟨w, hw⟩
  rcases hf : f n with e | a
  · exact ⟨w, ⟨e, hf⟩, ⟨b, hb, hmax.1⟩, hw⟩
  · exact absurd ⟨a, hf⟩ hfails

/-- If some backoff allows no more calls, a run ends, whatever the calls do. -/
theorem exists_retry (hlast : ∃ n, Last s maxBackoff r minBackoff n) (f : ℕ → Except ε α) :
    ∃ calls waits result, retry s maxBackoff r calls minBackoff f = some (waits, result) := by
  classical
  have hstop : ∃ n, Last s maxBackoff r minBackoff n ∨ ∃ a, f n = .ok a := hlast.imp fun n => .inl
  -- The first call that stops the run; those before it go on.
  rcases Nat.findX hstop with ⟨n, hn, hbefore⟩
  have hbackoff : ∀ i ≤ n, ∃ b, backoff s r minBackoff i = some b := by
    intro i hi
    induction i with
    | zero => exact ⟨minBackoff, rfl⟩
    | succ i ih =>
        rcases ih (Nat.le_of_succ_le hi) with ⟨b, hb⟩
        rcases exists_goesOn hb (hbefore i hi) with ⟨w, -, -, hw⟩
        exact ⟨w, hw⟩
  have hgoes : ∀ i < n, ∃ w, GoesOn s maxBackoff r minBackoff f i w := by
    intro i hi
    rcases hbackoff i hi.le with ⟨b, hb⟩
    exact exists_goesOn hb (hbefore i hi)
  rcases exists_stopsAt hn with ⟨result, hstops⟩
  rcases retry_of_stopsAt hgoes hstops with ⟨waits, hrun⟩
  exact ⟨n + 1, waits, result, hrun⟩

end Tronscan.FutureUtils
