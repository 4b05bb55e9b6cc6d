import Mathlib.Data.List.Sort
import Mathlib.Data.List.TakeWhile
import Mathlib.Order.Basic

/-!
# The First Rows by a Column

Rows sorted by a column, those that are equal in the order they came in, and cut
after the first so many.

Where the cut falls among equal rows depends on the order they came in. What
does not depend on it is how many rows come strictly before a given one. A row
among the first `n` has fewer than `n` before it, and a row with fewer than `n`
before it is among them if it came in first. Where no rows are equal, that number
is the position of the row.

## Theorems

* `take_le_drop`: The first rows come before the others.
* `countP_lt_of_mem_take`: A row among the first has few before it.
* `mem_take_of_countP_lt`: A row that has few before it, and came in first.
* `countP_lt_of_getElem?`: The position of a row that no other is equal to.
-/

namespace Lib

variable {α κ : Type*} [LinearOrder κ] (column : α → κ)

theorem pairwise_sort (rows : List α) :
    (rows.insertionSort fun x y => column x ≤ column y).Pairwise fun x y => column x ≤ column y := by
  have htotal : Std.Total fun x y : α => column x ≤ column y :=
    ⟨fun x y => le_total (column x) (column y)⟩
  have htrans : IsTrans α fun x y : α => column x ≤ column y :=
    ⟨fun _ _ _ => le_trans⟩
  exact List.pairwise_insertionSort _ rows

variable {column} {rows : List α} {n : Nat} {x y : α}

/-- The first rows come before the others. -/
theorem take_le_drop (hx : x ∈ (rows.insertionSort fun x y => column x ≤ column y).take n)
    (hy : y ∈ (rows.insertionSort fun x y => column x ≤ column y).drop n) :
    column x ≤ column y := by
  have hsorted := pairwise_sort column rows
  rw [← List.take_append_drop n (rows.insertionSort _), List.pairwise_append] at hsorted
  exact hsorted.2.2 x hx y hy

/-- A row among the first `n` has fewer than `n` rows strictly before it. -/
theorem countP_lt_of_mem_take
    (hx : x ∈ (rows.insertionSort fun x y => column x ≤ column y).take n) :
    rows.countP (fun y => decide (column y < column x)) < n := by
  have hsorted := pairwise_sort column rows
  rw [← (List.perm_insertionSort (fun x y => column x ≤ column y) rows).countP_eq]
  generalize rows.insertionSort (fun x y => column x ≤ column y) = sorted at hx hsorted ⊢
  rcases List.append_of_mem hx with ⟨before, after, hfirst⟩
  have hlength := congrArg List.length hfirst
  rw [List.length_append, List.length_cons, List.length_take] at hlength
  have hsplit : sorted = before ++ x :: (after ++ sorted.drop n) := by
    conv_lhs => rw [← List.take_append_drop n sorted, hfirst]
    simp
  -- From the row itself on, no row is strictly before it.
  have hafter : (x :: (after ++ sorted.drop n)).countP
      (fun y => decide (column y < column x)) = 0 := by
    rw [hsplit, List.pairwise_append, List.pairwise_cons] at hsorted
    rw [List.countP_eq_zero]
    intro y hy
    rcases List.mem_cons.mp hy with rfl | hy
    · simp
    · simpa using hsorted.2.1.1 y hy
  rw [hsplit, List.countP_append, hafter, Nat.add_zero]
  have hle := List.countP_le_length (p := fun y => decide (column y < column x)) (l := before)
  omega

/-- A row with fewer than `n` rows strictly before it is among the first `n`, if
    it comes in before those it ties with. -/
theorem mem_take_of_countP_lt
    (hcount : rows.countP (fun y => decide (column y < column x)) < n) :
    x ∈ ((x :: rows).insertionSort fun x y => column x ≤ column y).take n := by
  rw [List.insertionSort_cons_eq_take_drop]
  rw [← (List.perm_insertionSort (fun x y => column x ≤ column y) rows).countP_eq] at hcount
  generalize rows.insertionSort (fun x y => column x ≤ column y) = sorted at hcount ⊢
  -- It is put after the rows strictly before it.
  have hbefore : (sorted.takeWhile fun y => ¬ column x ≤ column y).length < n := by
    have hall : (sorted.takeWhile fun y => ¬ column x ≤ column y).countP
        (fun y => decide (column y < column x)) =
        (sorted.takeWhile fun y => ¬ column x ≤ column y).length := by
      rw [List.countP_eq_length]
      intro y hy
      simpa using List.mem_takeWhile_imp hy
    rw [← hall]
    exact lt_of_le_of_lt (List.takeWhile_sublist _).countP_le hcount
  rw [List.take_append]
  -- Those do not fill the first `n`, which leaves room for it.
  refine List.mem_append_right _ ?_
  rcases hn : n - (sorted.takeWhile fun y => ¬ column x ≤ column y).length with _ | m
  · omega
  · rw [List.take_succ_cons]
    exact List.mem_cons_self

/-- A row is at the position of the number of rows strictly before it, where no
    other is equal to it. -/
theorem countP_lt_of_getElem? {i : Nat} (hnodup : (rows.map column).Nodup)
    (hx : (rows.insertionSort fun x y => column x ≤ column y)[i]? = some x) :
    rows.countP (fun y => decide (column y < column x)) = i := by
  have hperm := List.perm_insertionSort (fun x y => column x ≤ column y) rows
  have hsorted := pairwise_sort column rows
  have hne : (rows.insertionSort fun x y => column x ≤ column y).Pairwise
      fun x y => column x ≠ column y := List.pairwise_map.mp ((hperm.map column).nodup_iff.mpr hnodup)
  rw [← hperm.countP_eq]
  generalize rows.insertionSort (fun x y => column x ≤ column y) = sorted at hx hsorted hne ⊢
  have hstrict := (hsorted.and hne).imp fun h => lt_of_le_of_ne h.1 h.2
  have hsplit : ∃ before after, sorted = before ++ x :: after ∧ before.length = i := by
    rcases List.getElem?_eq_some_iff.mp hx with ⟨hi, rfl⟩
    exact ⟨sorted.take i, sorted.drop (i + 1), by simp, List.length_take_of_le hi.le⟩
  rcases hsplit with ⟨before, after, rfl, rfl⟩
  rw [List.pairwise_append, List.pairwise_cons] at hstrict
  have hbefore : before.countP (fun y => decide (column y < column x)) = before.length := by
    rw [List.countP_eq_length]
    intro y hy
    simpa using hstrict.2.2 y hy x List.mem_cons_self
  have hafter : after.countP (fun y => decide (column y < column x)) = 0 := by
    rw [List.countP_eq_zero]
    intro y hy
    simpa using (hstrict.2.1.1 y hy).le
  rw [List.countP_append, hbefore, List.countP_cons_of_neg (by simp), hafter, Nat.add_zero]

end Lib
