import Mathlib.Data.Finset.Insert
import Mathlib.Data.List.Nodup
import Mathlib.Data.List.Perm.Basic

/-!
# Merged Streams Without Duplicates

Two streams merged in whatever order their elements arrive, and a stage that
passes on each value once.

The merge keeps the order of each of its inputs and promises nothing about how
they mix, so what follows it must not depend on that. `distinctFrom` is such a
stage as far as the values go. Which occurrence of a value comes through depends
on the order. That it comes through, and only once, does not.

The same holds of a stage that maps its elements in parallel and passes results on
as they are ready, so a stage that expands every element and removes duplicates
gives the same values in whatever order it is run.

## Main definitions

* `Interleaving`: A list mixes two others, keeping the order of each.
* `distinctFrom`: Pass on the values not seen before.
* `MapAsyncUnordered`: Map the elements, so many at a time, as they are ready.
* `Expansion`: Map the elements to lists and pass on the distinct values.

## Theorems

* `Interleaving.perm`: A merge neither adds nor loses elements.
* `mem_distinctFrom`, `nodup_distinctFrom`: Every value comes through once.
* `distinctFrom_eq_eraseDups`: The stage removes duplicates.
* `distinct_perm`: Two orders of the same elements differ in the order only.
* `MapAsyncUnordered.perm`: Nothing is lost, whatever is ready when.
* `Expansion.mem_iff`: The values an expansion passes on, each once.
-/

namespace Lib

variable {α : Type*}

/-- A merge of two streams: each element is the next of one of them. -/
inductive Interleaving : List α → List α → List α → Prop where
  | nil : Interleaving [] [] []
  | left {x : α} {xs ys zs : List α} : Interleaving xs ys zs → Interleaving (x :: xs) ys (x :: zs)
  | right {y : α} {xs ys zs : List α} : Interleaving xs ys zs → Interleaving xs (y :: ys) (y :: zs)

namespace Interleaving

variable {xs ys zs : List α}

theorem perm (h : Interleaving xs ys zs) : zs.Perm (xs ++ ys) := by
  induction h with
  | nil => exact List.Perm.refl []
  | left _ ih => exact ih.cons _
  | right _ ih => exact (ih.cons _).trans List.perm_middle.symm

theorem mem_iff (h : Interleaving xs ys zs) {a : α} : a ∈ zs ↔ a ∈ xs ∨ a ∈ ys := by
  rw [h.perm.mem_iff, List.mem_append]

/-- The second stream may come after all of the first. -/
theorem append (xs ys : List α) : Interleaving xs ys (xs ++ ys) := by
  induction xs with
  | nil =>
      induction ys with
      | nil => exact nil
      | cons y ys ih => exact ih.right
  | cons x xs ih => exact ih.left

end Interleaving

variable [DecidableEq α]

/-- Pass on the values that are not among those seen, each the first time. -/
def distinctFrom : Finset α → List α → List α
  | _, [] => []
  | ids, ip :: rest =>
      if ip ∈ ids then distinctFrom ids rest else ip :: distinctFrom (insert ip ids) rest

theorem mem_distinctFrom {a : α} (ids : Finset α) (xs : List α) :
    a ∈ distinctFrom ids xs ↔ a ∈ xs ∧ a ∉ ids := by
  induction xs generalizing ids with
  | nil => simp [distinctFrom]
  | cons x xs ih =>
      unfold distinctFrom
      -- A value that is passed on is among those seen by what follows.
      by_cases hx : x ∈ ids
      · rw [if_pos hx, ih, List.mem_cons]
        constructor
        · exact fun ⟨hmem, hnew⟩ => ⟨.inr hmem, hnew⟩
        · rintro ⟨rfl | hmem, hnew⟩
          · exact absurd hx hnew
          · exact ⟨hmem, hnew⟩
      · rw [if_neg hx, List.mem_cons, List.mem_cons, ih, Finset.mem_insert, not_or]
        by_cases ha : a = x
        · simp [ha, hx]
        · simp [ha]

theorem nodup_distinctFrom (ids : Finset α) (xs : List α) : (distinctFrom ids xs).Nodup := by
  induction xs generalizing ids with
  | nil => exact List.nodup_nil
  | cons x xs ih =>
      unfold distinctFrom
      by_cases hx : x ∈ ids
      · rw [if_pos hx]
        exact ih ids
      · rw [if_neg hx, List.nodup_cons]
        -- From here on the value is among those seen.
        refine ⟨fun h => ?_, ih _⟩
        exact ((mem_distinctFrom _ xs).mp h).2 (Finset.mem_insert_self x ids)

/-- With nothing seen yet, it removes duplicates. -/
theorem distinctFrom_eq_eraseDups (ids : Finset α) (xs : List α) :
    distinctFrom ids xs = (xs.filter (· ∉ ids)).eraseDups := by
  induction xs generalizing ids with
  | nil => rfl
  | cons x xs ih =>
      unfold distinctFrom
      by_cases hx : x ∈ ids
      · rw [if_pos hx, ih, List.filter_cons_of_neg (by simpa using hx)]
      · rw [if_neg hx, ih, List.filter_cons_of_pos (by simpa using hx), List.eraseDups_cons,
          List.filter_filter]
        congr 3
        funext a
        simp [Finset.mem_insert, not_or, beq_eq_decide]

/-- The values that come through do not depend on the order they come in. -/
theorem distinct_perm {xs ys : List α} (hmem : ∀ a, a ∈ xs ↔ a ∈ ys) :
    (distinctFrom ∅ xs).Perm (distinctFrom ∅ ys) := by
  rw [List.perm_ext_iff_of_nodup (nodup_distinctFrom _ _) (nodup_distinctFrom _ _)]
  intro a
  rw [mem_distinctFrom, mem_distinctFrom, hmem a]

/-- A stage that works on up to `parallel` elements at a time and passes on what
    they are mapped to as soon as it is ready. -/
inductive MapAsyncUnordered {β : Type*} (parallel : ℕ) (f : α → β) :
    List α → List α → List β → Prop where
  | done : MapAsyncUnordered parallel f [] [] []
  | start {x : α} {pending xs : List α} {out : List β} : pending.length < parallel →
      MapAsyncUnordered parallel f (x :: pending) xs out →
      MapAsyncUnordered parallel f pending (x :: xs) out
  | finish {x : α} {before after xs : List α} {out : List β} :
      MapAsyncUnordered parallel f (before ++ after) xs out →
      MapAsyncUnordered parallel f (before ++ x :: after) xs (f x :: out)

namespace MapAsyncUnordered

variable {β : Type*} {parallel : ℕ} {f : α → β} {pending xs : List α} {out : List β}

omit [DecidableEq α] in
/-- Every element is mapped, once. -/
theorem perm (h : MapAsyncUnordered parallel f pending xs out) :
    out.Perm ((pending ++ xs).map f) := by
  induction h with
  | done => exact List.Perm.refl _
  | start _ _ ih => exact ih.trans (List.perm_middle.symm.map f)
  | @finish x before after xs out _ ih =>
      rw [List.append_assoc] at ih ⊢
      exact (ih.cons (f x)).trans (List.perm_middle.symm.map f)

omit [DecidableEq α] in
/-- One element after another is one way to run it. -/
theorem sequential (hparallel : 0 < parallel) (f : α → β) (xs : List α) :
    MapAsyncUnordered parallel f [] xs (xs.map f) := by
  induction xs with
  | nil => exact done
  | cons x xs ih =>
      have hone : MapAsyncUnordered parallel f ([] ++ [x]) xs (f x :: xs.map f) := finish ih
      exact start hparallel hone

end MapAsyncUnordered

/-- Every element is mapped to a list, and the distinct values of the lists are
    passed on. -/
def Expansion (parallel : ℕ) (f : α → List α) (xs out : List α) : Prop :=
  ∃ lists, MapAsyncUnordered parallel f [] xs lists ∧ out = distinctFrom ∅ lists.flatten

namespace Expansion

variable {parallel : ℕ} {f : α → List α} {xs out : List α}

theorem mem_iff (h : Expansion parallel f xs out) {a : α} : a ∈ out ↔ ∃ x ∈ xs, a ∈ f x := by
  rcases h with ⟨lists, hlists, rfl⟩
  rw [mem_distinctFrom, and_iff_left (Finset.notMem_empty a), List.mem_flatten]
  simp only [hlists.perm.mem_iff, List.nil_append, List.mem_map, exists_exists_and_eq_and]

theorem nodup (h : Expansion parallel f xs out) : out.Nodup := by
  rcases h with ⟨lists, _, rfl⟩
  exact nodup_distinctFrom _ _

theorem exists_run (hparallel : 0 < parallel) (f : α → List α) (xs : List α) :
    ∃ out, Expansion parallel f xs out :=
  ⟨_, _, MapAsyncUnordered.sequential hparallel f xs, rfl⟩

end Expansion

end Lib
