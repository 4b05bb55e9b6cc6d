import Mathlib.Data.Int.ConditionallyCompleteOrder
import Mathlib.Data.List.Nodup
import Mathlib.Order.ConditionallyCompleteLattice.Basic
import Mathlib.Order.Interval.Set.Basic

/-!
# Gap-Free Cursors

A set of numbers filled from zero without a gap, and the lists that extend it.

A reader that resumes after the highest number it has seen relies on the set
below that number being full, since it never looks back. `Filled` is that
property, and `filled_append` the step that keeps it: the set grows by numbers
that follow its end one after the other. `consecutive_of_filled` is the reverse.
If the set stays filled after every prefix of what is added, the numbers were
consecutive to begin with, so the condition cannot be weakened.

## Main definitions

* `Consecutive`: The list counts up by one from a given number.
* `Filled`: The set is an interval from zero.

## Theorems

* `consecutive_append`: A consecutive list splits into two.
* `mem_consecutive`: The members of a consecutive list form an interval.
* `consecutive_of_downward`: Ascending numbers without a hole are consecutive.
* `downward_of_consecutive`: Consecutive numbers have no hole.
* `filled_append`: A filled set extended by consecutive numbers is filled.
* `consecutive_of_filled`: Staying filled forces consecutive extensions.
-/

namespace Lib

/-- The list counts up by one from `a`. -/
def Consecutive : ℤ → List ℤ → Prop
  | _, [] => True
  | a, n :: ns => n = a ∧ Consecutive (a + 1) ns

/-- The set holds every number from zero up to some point and no other. -/
def Filled (S : Set ℤ) : Prop :=
  ∃ m, S = Set.Icc 0 m

theorem consecutive_append (a : ℤ) (xs ys : List ℤ) :
    Consecutive a (xs ++ ys) ↔ Consecutive a xs ∧ Consecutive (a + xs.length) ys := by
  induction xs generalizing a with
  | nil => simp only [List.nil_append, Consecutive, true_and, List.length_nil, Nat.cast_zero,
      add_zero]
  | cons x xs ih =>
      simp only [List.cons_append, Consecutive, ih (a + 1), List.length_cons, Nat.cast_succ,
        and_assoc]
      rw [show a + 1 + (xs.length : ℤ) = a + (xs.length + 1) by omega]

theorem mem_consecutive {a n : ℤ} {ns : List ℤ} (h : Consecutive a ns) :
    n ∈ ns ↔ a ≤ n ∧ n < a + ns.length := by
  induction ns generalizing a with
  | nil =>
      simp only [List.not_mem_nil, List.length_nil, Nat.cast_zero, add_zero, false_iff, not_and]
      omega
  | cons x ns ih =>
      rw [List.mem_cons, ih h.2, h.1, List.length_cons]
      push_cast
      omega

/-- Ascending numbers from `a` on, each with every number below it, count up by
    one. -/
theorem consecutive_of_downward {a : ℤ} {ns : List ℤ} (hsorted : ns.Pairwise (· < ·))
    (hlow : ∀ n ∈ ns, a ≤ n) (hdown : ∀ n ∈ ns, ∀ k, a ≤ k → k < n → k ∈ ns) :
    Consecutive a ns := by
  induction ns generalizing a with
  | nil => trivial
  | cons x ns ih =>
      rcases List.pairwise_cons.mp hsorted with ⟨hx, hns⟩
      -- If the list started later, `a` would have to be in it and cannot be.
      have hxa : x = a := by
        by_contra hne
        have hlt : a < x := lt_of_le_of_ne (hlow x List.mem_cons_self) (Ne.symm hne)
        rcases List.mem_cons.mp (hdown x List.mem_cons_self a (le_refl a) hlt) with h | h
        · omega
        · have habove := hx a h
          omega
      refine ⟨hxa, ih hns (fun n hn => ?_) (fun n hn k hk hkn => ?_)⟩
      · have habove := hx n hn
        omega
      · rcases List.mem_cons.mp (hdown n (List.mem_cons_of_mem x hn) k (by omega) hkn) with h | h
        · omega
        · exact h

theorem downward_of_consecutive {a : ℤ} {ns : List ℤ} (h : Consecutive a ns) :
    ∀ n ∈ ns, ∀ k, a ≤ k → k < n → k ∈ ns := by
  intro n hn k hk hkn
  rw [mem_consecutive h] at hn ⊢
  omega

/-- A set filled up to `m`, extended by the numbers from `m + 1` on, is filled
    up to the last of them. -/
theorem filled_append {S : Set ℤ} {m : ℤ} {ns : List ℤ} (hS : S = Set.Icc 0 m) (hm : -1 ≤ m)
    (hns : Consecutive (m + 1) ns) : S ∪ {n | n ∈ ns} = Set.Icc 0 (m + ns.length) := by
  ext n
  rw [Set.mem_union, hS, Set.mem_Icc, Set.mem_Icc, Set.mem_ofPred_eq, mem_consecutive hns]
  omega

/-- If a set filled up to `m` stays filled after each prefix of a list of new
    numbers, the list counts up from `m + 1`. The next number has to be
    `m + 1`: it is new, so it is not below, and a larger one leaves a hole. -/
theorem consecutive_of_filled {S : Set ℤ} {m : ℤ} {ns : List ℤ} (hS : S = Set.Icc 0 m)
    (hm : -1 ≤ m) (hnew : ∀ n ∈ ns, n ∉ S) (hnodup : ns.Nodup)
    (hfill : ∀ xs ys, ns = xs ++ ys → Filled (S ∪ {n | n ∈ xs})) : Consecutive (m + 1) ns := by
  induction ns generalizing S m with
  | nil => trivial
  | cons x ns ih =>
      rcases hfill [x] ns rfl with ⟨k, hk⟩
      have hx : x ∉ S := hnew x List.mem_cons_self
      -- The set with `x` added is filled, up to `k`.
      have hmem : ∀ n, (0 ≤ n ∧ n ≤ m) ∨ n = x ↔ 0 ≤ n ∧ n ≤ k := by
        intro n
        have hn := Set.ext_iff.mp hk n
        rw [Set.mem_union, hS, Set.mem_Icc, Set.mem_Icc, Set.mem_ofPred_eq,
          List.mem_singleton] at hn
        exact hn
      rw [hS, Set.mem_Icc] at hx
      have hxm : x = m + 1 := by
        have h1 := (hmem x).mp (Or.inr rfl)
        have h2 := hmem (m + 1)
        omega
      -- With `x` added the set is filled up to `m + 1`, and the rest is as before.
      refine ⟨hxm, ih (S := S ∪ {n | n ∈ [x]}) (m := m + 1) ?_ (by omega) ?_
        hnodup.of_cons ?_⟩
      · have hone := filled_append hS hm (show Consecutive (m + 1) [x] from ⟨hxm, trivial⟩)
        rw [hone, List.length_singleton, Nat.cast_one]
      · intro n hn hmemb
        rcases hmemb with hmemb | hmemb
        · exact hnew n (List.mem_cons_of_mem x hn) hmemb
        · rw [Set.mem_ofPred_eq, List.mem_singleton] at hmemb
          exact (List.nodup_cons.mp hnodup).1 (hmemb ▸ hn)
      · intro xs ys hxy
        have hpre := hfill (x :: xs) ys (by rw [hxy, List.cons_append])
        rwa [Set.union_assoc, show ({n | n ∈ [x]} : Set ℤ) ∪ {n | n ∈ xs} = {n | n ∈ x :: xs} from
          Set.ext fun n => by
            rw [Set.mem_union, Set.mem_ofPred_eq, Set.mem_ofPred_eq, Set.mem_ofPred_eq,
              List.mem_singleton, List.mem_cons]]

end Lib
