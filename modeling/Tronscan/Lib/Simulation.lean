import Tronscan.Lib.System

/-!
# Runs as an Abstract Machine Sees Them

An abstract machine that takes a step for whatever is observed of an event, and a
relation between its states and those of the concrete one. Where each event keeps the
relation, the abstract state after a run is a fold over what was observed of it, however
much else there was to the events.

## Main definitions

* `observations`: What is observed of a run, event by event.

## Theorems

* `simulation_along`: The run lemma, from the step lemma.
* `forall_observations`: What holds of every event, as it is observed.
* `foldl_stage`: A stage that one observation completes.
-/

namespace Lib

variable {σ ε ℓ α : Type*}

/-- What is observed of a run, each event in the state that it is taken from. -/
def observations (step : σ → ε → Option σ) (observe : σ → ε → ℓ) : σ → List ε → List ℓ
  | _, [] => []
  | s, e :: es => observe s e :: (step s e).elim [] fun t => observations step observe t es

variable {step : σ → ε → Option σ} {observe : σ → ε → ℓ}

/-- What each event keeps of the relation, a run keeps. -/
theorem simulation_along {R : α → σ → Prop} {C : σ → ε → Prop} {abs : α → ℓ → α}
    (hstep : ∀ a s e t, R a s → C s e → step s e = some t → R (abs a (observe s e)) t)
    {a : α} {s t : σ} {es : List ε} (hR : R a s) (hC : Along step C s es)
    (hrun : runFrom step s es = some t) :
    R ((observations step observe s es).foldl abs a) t := by
  induction es generalizing a s with
  | nil =>
      cases hrun
      exact hR
  | cons e es ih =>
      rcases Option.bind_eq_some_iff.mp hrun with ⟨u, hu, hrun⟩
      rw [observations, List.foldl_cons, hu]
      exact ih (hstep a s e u hR hC.1 hu) (hC.2 u hu) hrun

theorem forall_observations {C : σ → ε → Prop} {P : ℓ → Prop}
    (hobserve : ∀ s e, C s e → P (observe s e)) {s : σ} {es : List ε} (hC : Along step C s es) :
    ∀ o ∈ observations step observe s es, P o := by
  induction es generalizing s with
  | nil => exact fun o ho => absurd ho List.not_mem_nil
  | cons e es ih =>
      intro o ho
      rcases List.mem_cons.mp ho with rfl | ho
      · exact hobserve s e hC.1
      · cases ht : step s e with
        | none =>
            rw [ht] at ho
            exact absurd ho List.not_mem_nil
        | some t =>
            rw [ht] at ho
            exact ih (hC.2 t ht) o ho

/-- A stage that lasts until one observation completes it, and the stage after it,
    which lasts. -/
theorem foldl_stage {abs : α → ℓ → α} {P Q : α → Prop} {os : List ℓ} {o : ℓ} (ho : o ∈ os)
    (hP : ∀ o ∈ os, ∀ a, P a → P (abs a o)) (hstep : ∀ a, P a → Q (abs a o))
    (hQ : ∀ o ∈ os, ∀ a, Q a → Q (abs a o)) {a : α} (ha : P a) : Q (os.foldl abs a) := by
  obtain ⟨before, after, rfl⟩ := List.append_of_mem ho
  have hbefore : P (before.foldl abs a) :=
    List.foldlRecOn before abs ha fun a ha o ho => hP o (List.mem_append_left _ ho) a ha
  rw [List.foldl_append, List.foldl_cons]
  exact List.foldlRecOn after abs (hstep _ hbefore) fun a ha o ho =>
    hQ o (List.mem_append_right _ (List.mem_cons_of_mem _ ho)) a ha

end Lib
