import Mathlib.Tactic.Common

/-!
# While Loops

Programs with loops and exceptions, and what it takes to know how they end.

A loop may run forever, and so a program is a function of the number of rounds
that each of its loops is given. `none` says that some loop wanted more. A program
ends when, from some number of rounds on, it gives one and the same outcome.

`Total` is total correctness: the program ends, what it returns meets the one
condition and what it throws the other. Its rules follow the program, and the one
for loops asks for an invariant and a number that decreases.

## Main definitions

* `Exec`: What running a program with so many rounds gives.
* `whileLoop`: A loop.
* `Total`: A program ends, and how.
* `Returns`: It returns a value.

## Theorems

* `whileLoop_done`, `whileLoop_round`: What a round does.
* `Total.of_returns`: There is one outcome.
* `Total.bind`: One program after the other.
* `Total.whileLoop`: A loop with an invariant, and a number that decreases.
-/

namespace Lib

/-- An outcome, where an exception is one. `none` is no outcome yet. -/
abbrev Exec (ε α : Type) := ExceptT ε Option α

/-- The loop for at most so many rounds, the last evaluation of the condition
    included. -/
def whileLoop {ε σ : Type} (cond : σ → Exec ε Bool) (body : σ → Exec ε σ) : ℕ → σ → Exec ε σ
  | 0, _ => ExceptT.mk none
  | rounds + 1, s => do
      if ← cond s then
        let s ← body s
        whileLoop cond body rounds s
      else return s

section Equations

variable {ε σ : Type} {cond : σ → Exec ε Bool} {body : σ → Exec ε σ} {s : σ}

theorem whileLoop_done (h : cond s = pure false) (rounds : ℕ) :
    whileLoop cond body (rounds + 1) s = pure s := by
  simp only [whileLoop, h, pure_bind, Bool.false_eq_true, if_false]

theorem whileLoop_round (h : cond s = pure true) (rounds : ℕ) :
    whileLoop cond body (rounds + 1) s = body s >>= whileLoop cond body rounds := by
  simp only [whileLoop, h, pure_bind, if_true]

end Equations

/-- The program ends. If it returns, the one condition holds, and if it throws, the
    other. -/
def Total {ε α : Type} (program : ℕ → Exec ε α) (returns : α → Prop) (throws : ε → Prop) : Prop :=
  ∃ rounds outcome, (∀ n ≥ rounds, (program n).run = some outcome) ∧
    (∀ a, outcome = .ok a → returns a) ∧ ∀ e, outcome = .error e → throws e

/-- The program ends, and returns the value. -/
def Returns {ε α : Type} (program : ℕ → Exec ε α) (a : α) : Prop :=
  Total program (· = a) fun _ => False

namespace Total

variable {ε α β σ : Type} {p : ℕ → Exec ε α} {q : ℕ → α → Exec ε β} {Q R : α → Prop}
  {S : β → Prop} {E F : ε → Prop}

theorem pure {a : α} (h : Q a) : Total (fun _ => (Pure.pure a : Exec ε α)) Q E :=
  ⟨0, .ok a, fun _ _ => rfl, fun _ hb => Except.ok.inj hb ▸ h, fun _ he => by cases he⟩

theorem throw {e : ε} (h : E e) : Total (fun _ => (MonadExcept.throw e : Exec ε α)) Q E :=
  ⟨0, .error e, fun _ _ => rfl, fun _ hb => (by cases hb), fun _ he => Except.error.inj he ▸ h⟩

theorem mono (h : Total p Q E) (hQ : ∀ a, Q a → R a) (hE : ∀ e, E e → F e) : Total p R F := by
  rcases h with ⟨rounds, outcome, hruns, hreturns, hthrows⟩
  exact ⟨rounds, outcome, hruns, fun a ha => hQ a (hreturns a ha), fun e he => hE e (hthrows e he)⟩

/-- What a program returns is what it is known to return. -/
theorem of_returns {a : α} (h : Total p Q E) (ha : Returns p a) : Q a := by
  rcases h with ⟨rounds, outcome, hruns, hreturns, _⟩
  rcases ha with ⟨rounds', outcome', hruns', hreturns', hthrows'⟩
  have hsame : some outcome = some outcome' :=
    (hruns (max rounds rounds') (Nat.le_max_left _ _)).symm.trans
      (hruns' (max rounds rounds') (Nat.le_max_right _ _))
  cases Option.some.inj hsame
  cases outcome with
  | error e => exact (hthrows' e rfl).elim
  | ok b => exact hreturns' b rfl ▸ hreturns b rfl

/-- One program after the other. -/
theorem bind (hp : Total p Q E) (hq : ∀ a, Q a → Total (fun n => q n a) S E) :
    Total (fun n => p n >>= q n) S E := by
  rcases hp with ⟨rounds, outcome, hruns, hreturns, hthrows⟩
  cases outcome with
  | error e =>
      refine ⟨rounds, .error e, fun n hn => ?_, fun _ hb => (by cases hb), fun _ he => ?_⟩
      · rw [ExceptT.run_bind, hruns n hn]
        rfl
      · exact Except.error.inj he ▸ hthrows e rfl
  | ok a =>
      rcases hq a (hreturns a rfl) with ⟨rounds', outcome', hruns', hpost⟩
      refine ⟨max rounds rounds', outcome', fun n hn => ?_, hpost⟩
      rw [ExceptT.run_bind, hruns n (by omega)]
      exact hruns' n (by omega)

section Loop

variable {cond : σ → Exec ε Bool} {body : ℕ → σ → Exec ε σ} (I : σ → Prop) (m : σ → ℕ)
  (test : σ → Bool)

/-- The loop ends also if its own rounds are not those that the loops in its body are
    given. -/
theorem whileLoop_rounds (hcond : ∀ s, I s → cond s = Pure.pure (test s))
    (hbody : ∀ s, I s → test s = true →
      Total (fun n => body n s) (fun s' => I s' ∧ m s' < m s) E) (k : ℕ) :
    ∀ s, m s < k → I s → ∃ rounds outcome,
      (∀ n ≥ rounds, ∀ left ≥ rounds, (Lib.whileLoop cond (body n) left s).run = some outcome) ∧
      (∀ s', outcome = .ok s' → I s' ∧ test s' = false) ∧ ∀ e, outcome = .error e → E e := by
  induction k with
  | zero => exact fun s hm => absurd hm (Nat.not_lt_zero _)
  | succ k ih =>
      intro s hm hs
      have hcond' := hcond s hs
      cases htest : test s with
      | false =>
          rw [htest] at hcond'
          refine ⟨1, .ok s, fun n _ left hleft => ?_, fun s' hs' => ?_, fun e he => by cases he⟩
          · rcases Nat.exists_eq_add_of_le' hleft with ⟨left, rfl⟩
            rw [whileLoop_done hcond']
            rfl
          · cases hs'
            exact ⟨hs, htest⟩
      | true =>
          rw [htest] at hcond'
          rcases hbody s hs htest with ⟨rounds, outcome, hruns, hreturns, hthrows⟩
          cases outcome with
          | error e =>
              refine ⟨rounds + 1, .error e, fun n hn left hleft => ?_, fun s' hs' => (by cases hs'),
                fun e' he' => Except.error.inj he' ▸ hthrows e rfl⟩
              rcases Nat.exists_eq_add_of_le' (by omega : 1 ≤ left) with ⟨left, rfl⟩
              rw [whileLoop_round hcond', ExceptT.run_bind, hruns n (Nat.le_of_succ_le hn)]
              rfl
          | ok s' =>
              rcases hreturns s' rfl with ⟨hs', hm'⟩
              rcases ih s' (by omega) hs' with ⟨rounds', outcome', hruns', hpost⟩
              refine ⟨max rounds rounds' + 1, outcome', fun n hn left hleft => ?_, hpost⟩
              rcases Nat.exists_eq_add_of_le' (by omega : 1 ≤ left) with ⟨left, rfl⟩
              rw [whileLoop_round hcond', ExceptT.run_bind, hruns n (by omega)]
              exact hruns' n (by omega) left (by omega)

/-- A loop ends if a round keeps the invariant and takes the number down. Then the
    invariant holds and the condition does not, unless a round threw. -/
theorem whileLoop (hcond : ∀ s, I s → cond s = Pure.pure (test s))
    (hbody : ∀ s, I s → test s = true →
      Total (fun n => body n s) (fun s' => I s' ∧ m s' < m s) E) {s : σ} (hs : I s) :
    Total (fun n => Lib.whileLoop cond (body n) n s) (fun s' => I s' ∧ test s' = false) E := by
  rcases whileLoop_rounds I m test hcond hbody (m s + 1) s (Nat.lt_succ_self _) hs with
    ⟨rounds, outcome, hruns, hpost⟩
  exact ⟨rounds, outcome, fun n hn => hruns n hn n hn, hpost⟩

end Loop

end Total

end Lib
