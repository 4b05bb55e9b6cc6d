import Tronscan.Lib.Table

/-!
# The Latest Row of Each Key

A table that is fed by upserts, one row after the other, holds for each key the
last row that came in with it. `latest` is that row, read off the rows that came
in, and `mem_foldl_upsert` says that the table is made of the latest rows.

Rows may have a second, finer key: those who report, say, and the hosts they
report from. A row that is the latest of its host is the latest of who reported
it. The converse fails as soon as two report from one host.

## Main definitions

* `latest`: The last row with a key.

## Theorems

* `mem_foldl_upsert_into`: The rows of a table fed by upserts.
* `foldl_overwrite`: A row overwritten by each of the rows with its key.
* `foldl_upsert_perm`: The table, from the keys.
* `latest_of_coarser`: The latest row of a coarser key is the latest of a finer.
-/

namespace Lib

variable {α κ ι : Type*} [DecidableEq κ] [DecidableEq ι] {key : α → κ} {fine : α → ι}

/-- The last of the rows with the key. -/
def latest (key : α → κ) (k : κ) (rows : List α) : Option α :=
  (rows.filter fun r => decide (key r = k)).getLast?

@[simp] theorem latest_nil (k : κ) : latest key k [] = none := rfl

theorem latest_concat (k : κ) (rows : List α) (r : α) :
    latest key k (rows ++ [r]) = if key r = k then some r else latest key k rows := by
  unfold latest
  rw [List.filter_append]
  by_cases h : key r = k
  · rw [if_pos h, List.filter_cons_of_pos (by simpa using h), List.filter_nil,
      List.getLast?_concat]
  · rw [if_neg h, List.filter_cons_of_neg (by simpa using h), List.filter_nil, List.append_nil]

theorem latest_mem {k : κ} {rows : List α} {r : α} (h : latest key k rows = some r) :
    r ∈ rows ∧ key r = k := by
  have hmem := List.mem_filter.mp (List.mem_of_getLast? h)
  exact ⟨hmem.1, of_decide_eq_true hmem.2⟩

theorem latest_map {β : Type*} {key : β → κ} (f : α → β) (k : κ) (rows : List α) :
    latest key k (rows.map f) = (latest (fun r => key (f r)) k rows).map f := by
  unfold latest
  rw [List.filter_map, List.getLast?_map]
  rfl

/-- A table fed by upserts holds the latest row of each key, and of the other keys
    the rows it held. -/
theorem mem_foldl_upsert_into {rows table : List α} {r : α} :
    r ∈ rows.foldl (fun table row => upsert key row table) table ↔
      latest key (key r) rows = some r ∨ latest key (key r) rows = none ∧ r ∈ table := by
  induction rows using List.reverseRecOn with
  | nil => simp
  | append_singleton rows row ih =>
      -- The last upsert replaces what its key had before.
      rw [List.foldl_concat, mem_upsert, latest_concat, ih]
      by_cases h : key row = key r
      · rw [if_pos h]
        simp [h, eq_comm]
      · rw [if_neg h]
        have hne : r ≠ row := fun hr => h (congrArg key hr.symm)
        simp [hne, Ne.symm h]

theorem mem_foldl_upsert {rows : List α} {r : α} :
    r ∈ rows.foldl (fun table row => upsert key row table) [] ↔
      latest key (key r) rows = some r := by
  rw [mem_foldl_upsert_into]
  simp

theorem nodup_foldl_upsert_into (rows : List α) {table : List α} (h : (table.map key).Nodup) :
    ((rows.foldl (fun table row => upsert key row table) table).map key).Nodup := by
  induction rows generalizing table with
  | nil => exact h
  | cons row rows ih => exact ih (nodup_keys_upsert h)

theorem nodup_foldl_upsert (rows : List α) :
    ((rows.foldl (fun table row => upsert key row table) []).map key).Nodup :=
  nodup_foldl_upsert_into rows List.nodup_nil

/-- A table fed by upserts is the latest row of each of the keys there can be. -/
theorem foldl_upsert_perm {rows : List α} {keys : List κ} (hkeys : keys.Nodup)
    (hrows : ∀ r ∈ rows, key r ∈ keys) :
    (rows.foldl (fun table row => upsert key row table) []).Perm
      (keys.filterMap fun k => latest key k rows) := by
  have hlatest : (keys.filterMap fun k => latest key k rows).Nodup :=
    hkeys.filterMap fun k k' r h h' => (latest_mem h).2.symm.trans (latest_mem h').2
  rw [List.perm_ext_iff_of_nodup (nodup_foldl_upsert rows).of_map hlatest]
  intro r
  rw [mem_foldl_upsert, List.mem_filterMap]
  constructor
  · exact fun h => ⟨key r, hrows r (latest_mem h).1, h⟩
  · rintro ⟨k, -, h⟩
    rwa [(latest_mem h).2]

/-- A row that is overwritten in place, whenever its key comes in, is overwritten
    by the latest. -/
theorem foldl_overwrite {β : Type*} (of : β → κ) (set : α → β → β)
    (hkey : ∀ r x, of (set r x) = of x) (hset : ∀ r r' x, set r (set r' x) = set r x)
    (rows : List α) (x : β) :
    rows.foldl (fun x r => if of x = key r then set r x else x) x =
      (latest key (of x) rows).elim x fun r => set r x := by
  induction rows using List.reverseRecOn with
  | nil => rfl
  | append_singleton rows row ih =>
      have hsame : of ((latest key (of x) rows).elim x fun r => set r x) = of x := by
        cases latest key (of x) rows with
        | none => rfl
        | some r => exact hkey r x
      rw [List.foldl_concat, ih, latest_concat, hsame]
      by_cases h : of x = key row
      · rw [if_pos h, if_pos h.symm]
        cases latest key (of x) rows with
        | none => rfl
        | some r => exact hset row r x
      · rw [if_neg h, if_neg (Ne.symm h)]

/-- Where a finer key determines the coarser one, the latest row of a coarser key
    is the latest of its finer key. -/
theorem latest_of_coarser {rows : List α}
    (hfine : ∀ x ∈ rows, ∀ y ∈ rows, fine x = fine y → key x = key y) {r : α}
    (h : latest key (key r) rows = some r) : latest fine (fine r) rows = some r := by
  induction rows using List.reverseRecOn with
  | nil => simp at h
  | append_singleton rows x ih =>
      have hmem := (latest_mem h).1
      rw [latest_concat] at h ⊢
      by_cases hx : key x = key r
      · rw [if_pos hx] at h
        cases h
        rw [if_pos rfl]
      · rw [if_neg hx] at h
        rw [if_neg fun hxr => hx (hfine x (by simp) r hmem hxr)]
        exact ih (fun y hy z hz => hfine y (by simp [hy]) z (by simp [hz])) h

end Lib
