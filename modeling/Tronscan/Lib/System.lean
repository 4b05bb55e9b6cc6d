import Mathlib.Tactic.TypeStar

/-!
# Guarded Transition Systems

A machine here is one function: `step s e` is the state after event `e`, or
`none` where the event is not enabled. Runs are lists of events, so a concrete
history can be replayed and a general one can be inducted over, and both use
the same guard.

Most of what is proved about such a machine is conditional. The property holds
in every state a run reaches, provided each event of the run meets some
condition in the state it is taken from. `Along` says that a run does, and
`invariant_along` is the induction that all those results share: an invariant
kept by every enabled event that meets the condition survives the whole run.

## Main definitions

* `runFrom`: Replaying a list of events.
* `Along`: Every event of a run meets a condition where it is taken.

## Theorems

* `runFrom_append`, `runFrom_concat`: Runs one after the other.
* `along_iff`: A condition along a run, event by event.
* `along_and`: Two conditions along a run make one.
* `along_of_forall`: A condition on the events alone.
* `invariant_along`: The run lemma, from the step lemma.
* `invariant_of_step`: The same, for an invariant every event keeps.
* `along_of_invariant`: What the invariant says of each event of a run.
* `forall_mem_set`, `exists_mem_set`: One party of many takes a step.
-/

namespace Lib

variable {σ ε : Type*}

/-- Replay the events one after the other, or `none` if one of them is not
    enabled where it is reached. -/
def runFrom (step : σ → ε → Option σ) : σ → List ε → Option σ
  | s, [] => some s
  | s, e :: es => (step s e).bind fun t => runFrom step t es

/-- Every event meets `C` in the state the run takes it from. -/
def Along (step : σ → ε → Option σ) (C : σ → ε → Prop) : σ → List ε → Prop
  | _, [] => True
  | s, e :: es => C s e ∧ ∀ t, step s e = some t → Along step C t es

variable {step : σ → ε → Option σ}

/-- A run over two lists of events is a run over the one and then over the other. -/
theorem runFrom_append (s : σ) (es fs : List ε) :
    runFrom step s (es ++ fs) = (runFrom step s es).bind fun t => runFrom step t fs := by
  induction es generalizing s with
  | nil => rfl
  | cons e es ih =>
      simp only [List.cons_append, runFrom]
      cases step s e with
      | none => rfl
      | some t => exact ih t

/-- The last event of a run is taken from where the others lead. -/
theorem runFrom_concat {s t : σ} {es : List ε} {e : ε} :
    runFrom step s (es ++ [e]) = some t ↔ ∃ u, runFrom step s es = some u ∧ step u e = some t := by
  rw [runFrom_append, Option.bind_eq_some_iff]
  refine exists_congr fun u => and_congr_right fun _ => ?_
  simp [runFrom]

/-- A condition that can be decided in one state can be decided along a run. -/
instance decidableAlong {C : σ → ε → Prop} [∀ s e, Decidable (C s e)] :
    ∀ s es, Decidable (Along step C s es)
  | _, [] => isTrue trivial
  | s, e :: es =>
      -- There is at most one next state to ask about.
      match h : step s e with
      | none => decidable_of_iff (C s e)
          ⟨fun hC => ⟨hC, fun t ht => by rw [h] at ht; cases ht⟩, fun hC => hC.1⟩
      | some t =>
          have : Decidable (Along step C t es) := decidableAlong t es
          decidable_of_iff (C s e ∧ Along step C t es)
            ⟨fun hC => ⟨hC.1, fun u hu => by rw [h] at hu; cases hu; exact hC.2⟩,
              fun hC => ⟨hC.1, hC.2 t h⟩⟩

/-- A condition holds along a run exactly when each event of it that is reached
    meets the condition. -/
theorem along_iff {C : σ → ε → Prop} (s : σ) (es : List ε) :
    Along step C s es ↔ ∀ before e after t, es = before ++ e :: after →
      runFrom step s before = some t → C t e := by
  induction es generalizing s with
  | nil =>
      refine iff_of_true trivial fun before e after t h => ?_
      cases before <;> cases h
  | cons f fs ih =>
      constructor
      · rintro ⟨hf, hfs⟩ before e after t h hrun
        cases before with
        | nil =>
            cases h
            cases hrun
            exact hf
        | cons f' before =>
            cases h
            rcases Option.bind_eq_some_iff.mp hrun with ⟨u, hu, hrun⟩
            exact (ih u).mp (hfs u hu) before e after t rfl hrun
      · intro h
        refine ⟨h [] f fs s rfl rfl, fun u hu => (ih u).mpr fun before e after t hes hrun => ?_⟩
        refine h (f :: before) e after t (by rw [hes, List.cons_append]) ?_
        rw [runFrom, hu, Option.bind_some, hrun]

theorem along_and {C D : σ → ε → Prop} (s : σ) (es : List ε) (hC : Along step C s es)
    (hD : Along step D s es) : Along step (fun s e => C s e ∧ D s e) s es := by
  induction es generalizing s with
  | nil => trivial
  | cons e es ih => exact ⟨⟨hC.1, hD.1⟩, fun t ht => ih t (hC.2 t ht) (hD.2 t ht)⟩

theorem along_of_forall {P : ε → Prop} (s : σ) (es : List ε) (h : ∀ e ∈ es, P e) :
    Along step (fun _ e => P e) s es := by
  induction es generalizing s with
  | nil => trivial
  | cons e es ih =>
      exact ⟨h e List.mem_cons_self, fun t _ => ih t fun f hf => h f (List.mem_cons_of_mem e hf)⟩

/-- The run lemma. An invariant kept by every enabled event that meets the
    condition holds wherever a conditioned run ends, and so, prefixes of such
    runs being such runs, in every state on the way. -/
theorem invariant_along {I : σ → Prop} {C : σ → ε → Prop}
    (hstep : ∀ s e t, I s → C s e → step s e = some t → I t) (s t : σ) (es : List ε)
    (hI : I s) (hC : Along step C s es) (hrun : runFrom step s es = some t) : I t := by
  induction es generalizing s with
  | nil =>
      simp only [runFrom, Option.some.injEq] at hrun
      exact hrun ▸ hI
  | cons e es ih =>
      rcases Option.bind_eq_some_iff.mp hrun with ⟨u, hu, hrest⟩
      exact ih u (hstep s e u hI hC.1 hu) (hC.2 u hu) hrest

theorem invariant_of_step {I : σ → Prop} (hstep : ∀ s e t, I s → step s e = some t → I t)
    (s t : σ) (es : List ε) (hI : I s) (hrun : runFrom step s es = some t) : I t := by
  have htrue : Along step (fun _ _ => True) s es := along_of_forall s es fun _ _ => trivial
  exact invariant_along (fun s e t hs _ => hstep s e t hs) s t es hI htrue hrun

/-- What the invariant and the condition say of an event holds along a conditioned run. -/
theorem along_of_invariant {I : σ → Prop} {C D : σ → ε → Prop}
    (hstep : ∀ s e t, I s → C s e → step s e = some t → I t)
    (hD : ∀ s e, I s → C s e → D s e) (s : σ) (es : List ε) (hI : I s) (hC : Along step C s es) :
    Along step D s es := by
  induction es generalizing s with
  | nil => trivial
  | cons e es ih =>
      exact ⟨hD s e hI hC.1, fun t ht => ih t (hstep s e t hI hC.1 ht) (hC.2 t ht)⟩

section Parties

variable {α : Type*} {parties : List α} {i : Nat} {old new : α} {P : α → Prop}

/-- What holds of the parties still does when one of them is replaced by a party
    it holds of. -/
theorem forall_mem_set (h : ∀ x ∈ parties, P x) (hnew : P new) :
    ∀ x ∈ parties.set i new, P x := by
  intro x hx
  rcases List.mem_or_eq_of_mem_set hx with hx | rfl
  · exact h x hx
  · exact hnew

/-- Replacing a party the predicate does not hold of leaves the others. -/
theorem exists_mem_set (hold : parties[i]? = some old) (hnot : ¬ P old) :
    (∃ x ∈ parties.set i new, P x) ↔ P new ∨ ∃ x ∈ parties, P x := by
  rcases List.getElem?_eq_some_iff.mp hold with ⟨hi, rfl⟩
  constructor
  · rintro ⟨x, hx, hP⟩
    rcases List.mem_or_eq_of_mem_set hx with hx | rfl
    · exact Or.inr ⟨x, hx, hP⟩
    · exact Or.inl hP
  · rintro (hP | ⟨x, hx, hP⟩)
    · exact ⟨new, List.mem_set hi new, hP⟩
    · -- The predicate does not hold of the party replaced, so `x` is another.
      rcases List.mem_iff_getElem.mp hx with ⟨j, hj, rfl⟩
      have hij : i ≠ j := fun h => hnot (by subst h; exact hP)
      refine ⟨parties[j], List.mem_iff_getElem.mpr ⟨j, by rwa [List.length_set], ?_⟩, hP⟩
      rw [List.getElem_set_ne hij]

end Parties

end Lib
