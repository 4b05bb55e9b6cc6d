import Mathlib.Data.List.Basic
import Mathlib.Data.List.Forall2

/-!
# Fallible Maps

Mapping a function that can throw over a list. The whole map succeeds exactly
when every element does, and then the results stand element by element in the
relation the function defines. A pure function applied to the results commutes
with the map, so code that post-processes what it reads can be told apart into
the reading and the processing.

## Theorems

* `mapM_ok_iff`: A map succeeds with the results of its elements.
* `mapM_map_ok`: A pure function applied afterwards commutes with the map.
* `exists_mapM_ok_iff`: A map succeeds when every element does.
* `mapM_ok_mem`: Each result is the result of some element.
* `mapM_ok_map`: What is known of each result, as an equation between lists.
* `bind_ok_iff`: A sequence succeeds when both steps do.
* `mapM_some_iff`, `exists_mapM_some_iff`: The same of a function that has no
  result for some elements.
-/

namespace Lib

variable {ε α β γ : Type*}

/-- Every element is related to something exactly when some list is, element by
    element. -/
theorem exists_forall₂_iff {R : α → β → Prop} {xs : List α} :
    (∃ ys, List.Forall₂ R xs ys) ↔ ∀ x ∈ xs, ∃ y, R x y := by
  induction xs with
  | nil => exact iff_of_true ⟨[], List.Forall₂.nil⟩ fun _ h => absurd h List.not_mem_nil
  | cons x xs ih =>
      rw [List.forall_mem_cons, ← ih]
      simp only [List.forall₂_cons_left_iff]
      constructor
      · rintro ⟨_, y, zs, hy, hzs, _⟩
        exact ⟨⟨y, hy⟩, zs, hzs⟩
      · rintro ⟨⟨y, hy⟩, zs, hzs⟩
        exact ⟨_, y, zs, hy, hzs, rfl⟩

theorem mapM_ok_iff (f : α → Except ε β) (xs : List α) (ys : List β) :
    xs.mapM f = .ok ys ↔ List.Forall₂ (fun x y => f x = .ok y) xs ys := by
  induction xs generalizing ys with
  | nil =>
      rw [List.mapM_nil, List.forall₂_nil_left_iff]
      exact ⟨fun h => (Except.ok.inj h).symm, fun h => by rw [h]; rfl⟩
  | cons x xs ih =>
      rw [List.mapM_cons, List.forall₂_cons_left_iff]
      cases hx : f x with
      | error e =>
          -- The first exception ends the map.
          refine iff_of_false (fun h => by cases h) ?_
          rintro ⟨y, zs, hy, _⟩
          cases hy
      | ok y =>
          cases hxs : xs.mapM f with
          | error e =>
              refine iff_of_false (fun h => by cases h) ?_
              rintro ⟨z, zs, _, hzs, _⟩
              rw [← ih, hxs] at hzs
              cases hzs
          | ok zs =>
              constructor
              · intro h
                exact ⟨y, zs, rfl, (ih zs).mp hxs, (Except.ok.inj h).symm⟩
              · rintro ⟨z, ws, hz, hws, rfl⟩
                rw [← ih, hxs] at hws
                rw [← Except.ok.inj hz, ← Except.ok.inj hws]
                rfl

theorem exists_mapM_ok_iff {f : α → Except ε β} {xs : List α} :
    (∃ ys, xs.mapM f = .ok ys) ↔ ∀ x ∈ xs, ∃ y, f x = .ok y := by
  simp only [mapM_ok_iff, exists_forall₂_iff]

/-- Processing the results inside the map is processing them after it. -/
theorem mapM_map_ok (f : α → Except ε β) (g : β → γ) (xs : List α) :
    xs.mapM (fun x => (f x).map g) = (xs.mapM f).map (List.map g) := by
  induction xs with
  | nil => rfl
  | cons x xs ih =>
      rw [List.mapM_cons, List.mapM_cons, ih]
      cases f x with
      | error e => rfl
      | ok y =>
          cases xs.mapM f with
          | error e => rfl
          | ok ys => rfl

/-- A related list has nothing that is not related to an element. -/
theorem forall₂_mem_right {R : α → β → Prop} {xs : List α} {ys : List β}
    (h : List.Forall₂ R xs ys) {y : β} (hy : y ∈ ys) : ∃ x ∈ xs, R x y := by
  induction h with
  | nil => exact absurd hy List.not_mem_nil
  | @cons x z xs zs hx _ ih =>
      rcases List.mem_cons.mp hy with rfl | hy
      · exact ⟨x, List.mem_cons_self, hx⟩
      · rcases ih hy with ⟨w, hw, hwy⟩
        exact ⟨w, List.mem_cons_of_mem x hw, hwy⟩

theorem mapM_ok_mem {f : α → Except ε β} {xs : List α} {ys : List β} (h : xs.mapM f = .ok ys)
    {y : β} (hy : y ∈ ys) : ∃ x ∈ xs, f x = .ok y :=
  forall₂_mem_right ((mapM_ok_iff f xs ys).mp h) hy

theorem mapM_ok_map {f : α → Except ε β} {g : β → γ} {k : α → γ} {xs : List α} {ys : List β}
    (hg : ∀ x y, f x = .ok y → g y = k x) (h : xs.mapM f = .ok ys) : ys.map g = xs.map k := by
  rw [mapM_ok_iff] at h
  induction h with
  | nil => rfl
  | cons hx _ ih => rw [List.map_cons, List.map_cons, hg _ _ hx, ih]

/-- Related lists satisfy a property pairwise when the second elements have what
    it amounts to. -/
theorem forall₂_iff_forall_mem {R S : α → β → Prop} {Q : β → Prop} {xs : List α} {ys : List β}
    (hrelated : List.Forall₂ R xs ys) (hiff : ∀ x y, R x y → (S x y ↔ Q y)) :
    List.Forall₂ S xs ys ↔ ∀ y ∈ ys, Q y := by
  induction hrelated with
  | nil => exact iff_of_true List.Forall₂.nil fun _ h => absurd h List.not_mem_nil
  | @cons x y xs ys hxy _ ih => rw [List.forall₂_cons, List.forall_mem_cons, hiff x y hxy, ih]

/-- The same with what it amounts to for the first elements. -/
theorem forall₂_iff_forall_mem_left {R S : α → β → Prop} {P : α → Prop} {xs : List α}
    {ys : List β} (hrelated : List.Forall₂ R xs ys) (hiff : ∀ x y, R x y → (S x y ↔ P x)) :
    List.Forall₂ S xs ys ↔ ∀ x ∈ xs, P x := by
  induction hrelated with
  | nil => exact iff_of_true List.Forall₂.nil fun _ h => absurd h List.not_mem_nil
  | @cons x y xs ys hxy _ ih => rw [List.forall₂_cons, List.forall_mem_cons, hiff x y hxy, ih]

/-- What is picked from the results of all elements is picked from the elements. -/
theorem filterMap_flatten_of_forall₂ {f : β → Option γ} {g : α → Option γ} {xs : List α}
    {yss : List (List β)}
    (h : List.Forall₂ (fun x ys => ys.filterMap f = (g x).toList) xs yss) :
    yss.flatten.filterMap f = xs.filterMap g := by
  induction h with
  | nil => rfl
  | @cons x ys xs yss hx _ ih =>
      rw [List.flatten_cons, List.filterMap_append, hx, ih, List.filterMap_cons]
      cases g x <;> rfl

theorem bind_ok_iff {α β : Type} {x : Except ε α} {f : α → Except ε β} {y : β} :
    (x >>= f) = .ok y ↔ ∃ a, x = .ok a ∧ f a = .ok y := by
  cases x with
  | error e => exact iff_of_false (fun h => by cases h) (fun ⟨_, h, _⟩ => by cases h)
  | ok a => exact ⟨fun h => ⟨a, rfl, h⟩, fun ⟨_, ha, h⟩ => by cases ha; exact h⟩

theorem mapM_some_iff (f : α → Option β) (xs : List α) (ys : List β) :
    xs.mapM f = some ys ↔ List.Forall₂ (fun x y => f x = some y) xs ys := by
  induction xs generalizing ys with
  | nil =>
      rw [List.mapM_nil, List.forall₂_nil_left_iff]
      exact ⟨fun h => (Option.some.inj h).symm, fun h => by rw [h]; rfl⟩
  | cons x xs ih =>
      simp only [List.mapM_cons, List.forall₂_cons_left_iff, Option.bind_eq_bind,
        Option.bind_eq_some_iff, Option.pure_def, Option.some.injEq, ih]
      constructor
      · rintro ⟨y, hy, zs, hzs, rfl⟩
        exact ⟨y, zs, hy, hzs, rfl⟩
      · rintro ⟨y, zs, hy, hzs, rfl⟩
        exact ⟨y, hy, zs, hzs, rfl⟩

theorem exists_mapM_some_iff {f : α → Option β} {xs : List α} :
    (∃ ys, xs.mapM f = some ys) ↔ ∀ x ∈ xs, ∃ y, f x = some y := by
  simp only [mapM_some_iff, exists_forall₂_iff]

end Lib
